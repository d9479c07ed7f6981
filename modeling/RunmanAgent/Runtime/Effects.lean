import RunmanAgent.Runtime.World

/-!
# What an action can change

For each part of the state, one lemma says which actions change it and to what. The
invariants of the later modules are derived from these lemmas, without looking at the
actions again.

The lemmas are `Act.apply_locks`, `apply_record`, `apply_lastRecord`, `apply_runtimeJson`,
`apply_forwards`, `apply_forwardsJson`, `apply_units`, `apply_linkUp` and `apply_log`.
-/

namespace RunmanAgent

open Concurrency

namespace World

/-- The interface is administratively up. -/
def LinkUp (w : World) (hif : String) : Prop := ∃ l, w.links hif = some l ∧ l.up = true

theorem lookup_modifyDir (w : World) (id id' : VmId) (f : InstanceDir → InstanceDir) :
    (w.modifyDir id f).dirs.lookup id' =
      (w.dirs.lookup id').map fun d => if id = id' then f d else d := by
  simp only [modifyDir]
  by_cases h : id = id'
  · subst h
    cases hd : w.dirs.lookup id <;> simp [hd]
  · cases hd : w.dirs.lookup id with
    | none => simp [h]
    | some d => simp [h, AList.lookup_insert_ne (Ne.symm h)]

theorem effect_eq (w : World) (id : VmId) (eff : Effect) :
    ∃ u p l g, w.effect id eff = { w with units := u, initPid := p, links := l, log := g } := by
  cases eff <;> exact ⟨_, _, _, _, rfl⟩

theorem supervise_eq (w : World) (id : VmId) (e : SupEvent) :
    ∃ u p l g, w.supervise id e = { w with units := u, initPid := p, links := l, log := g } := by
  unfold supervise
  split
  · exact ⟨_, _, _, _, rfl⟩
  · rename_i u _
    split
    rename_i u' eff _
    split
    · obtain ⟨a, b, c, d, h⟩ := (w.setUnit id (some u')).effect_eq id eff
      exact ⟨a, b, c, d, h⟩
    · exact ⟨_, _, _, _, rfl⟩

section Host

variable (w : World) (e : HostEvent)

theorem host_frame : (w.host e).locks = w.locks ∧ (w.host e).forwards = w.forwards ∧
    (w.host e).forwardsJson = w.forwardsJson := by
  cases e with
  | supervisor id e =>
    obtain ⟨_, _, _, _, h⟩ := w.supervise_eq id e
    rw [host, h]
    exact ⟨rfl, rfl, rfl⟩
  | _ => exact ⟨rfl, rfl, rfl⟩

@[simp] theorem host_locks : (w.host e).locks = w.locks := (w.host_frame e).1

@[simp] theorem host_forwards : (w.host e).forwards = w.forwards := (w.host_frame e).2.1

@[simp] theorem host_forwardsJson : (w.host e).forwardsJson = w.forwardsJson :=
  (w.host_frame e).2.2

end Host

end World

/-! ## Actions -/

namespace Act

variable (e : Act) (me : Pid) (w : World) (i : Oracle)

theorem apply_cases :
    (e.check w i = .ok () ∧ e.apply me w i = e.perform me w i) ∨ e.apply me w i = w := by
  unfold apply
  cases h : e.check w i with
  | ok a => exact .inl ⟨rfl, rfl⟩
  | error a => exact .inr rfl

theorem apply_locks (k : LockId) :
    (e.apply me w i).locks k = w.locks k ∨
      (e = .acquire k ∧ (e.apply me w i).locks k = some me) ∨
      (e = .release k ∧ w.locks k = some me ∧ (e.apply me w i).locks k = none) := by
  rcases apply_cases e me w i with ⟨-, h⟩ | h
  · rw [h]
    cases e with
    | acquire k' =>
      by_cases hk : k = k'
      · subst hk
        simp [perform]
      · simp [perform, Function.update_of_ne hk]
    | release k' =>
      simp only [perform]
      split
      · rename_i hheld
        by_cases hk : k = k'
        · subst hk
          simp [hheld]
        · simp [Function.update_of_ne hk]
      · exact .inl rfl
    | host e => simp [perform]
    | _ => exact .inl rfl
  · exact .inl (by rw [h])

/-! ### Instance directories -/

/-- What an action does to the content of the directory of `id`. -/
def dirEffect (id : VmId) : Act → InstanceDir → InstanceDir
  | .writeRecord _ rec, d => if rec.id = id then { d with record := some ⟨rec, true⟩ } else d
  | .writeRuntime id' spec, d => if id' = id then { d with runtime := some spec } else d
  | .writeTraffic _ id' t, d => if id' = id then { d with traffic := some t } else d
  | .makeDisk id' n, d => if id' = id then { d with disk := some ⟨n, none⟩ } else d
  | .prepareRoot id' pw, d =>
    if id' = id then
      { d with disk := d.disk.map fun k => { k with rootPassword := some pw } }
    else d
  | .unlink id' f, d => if id' = id then d.unlink f else d
  | .host (.recordReadable id' r), d =>
    if id' = id then { d with record := d.record.map fun f => { f with readable := r } } else d
  | _, d => d

theorem apply_lookup (id : VmId) :
    (e.apply me w i).dirs.lookup id = w.dirs.lookup id ∨
      (e.check w i = .ok () ∧
        (e.apply me w i).dirs.lookup id = (w.dirs.lookup id).map (e.dirEffect id)) ∨
      (w.dirs.lookup id = none ∧ (e.apply me w i).dirs.lookup id = some {}) ∨
      ((∃ d, w.dirs.lookup id = some d ∧ d.isEmpty = true) ∧
        (e.apply me w i).dirs.lookup id = none) := by
  rcases apply_cases e me w i with ⟨hc, h⟩ | h
  · rw [h]
    cases e with
    | writeRecord _ _ | writeRuntime _ _ | writeTraffic _ _ _ | makeDisk _ _ | prepareRoot _ _
    | unlink _ _ => exact .inr (.inl ⟨hc, w.lookup_modifyDir _ _ _⟩)
    | mkdir id' =>
      simp only [perform]
      split
      · exact .inl rfl
      · rename_i hd
        by_cases hid : id = id'
        · subst hid
          exact .inr (.inr (.inl ⟨by simpa using hd, AList.lookup_insert _⟩))
        · exact .inl (AList.lookup_insert_ne hid)
    | rmdir id' =>
      by_cases hid : id = id'
      · subst hid
        right; right; right
        simp only [check] at hc
        split at hc
        · cases hc
        · rename_i d hd
          split at hc
          · rename_i he
            exact ⟨⟨d, hd, he⟩, AList.lookup_erase _ _⟩
          · cases hc
      · exact .inl (AList.lookup_erase_ne hid)
    | host e =>
      cases e with
      | supervisor id e =>
        obtain ⟨_, _, _, _, h⟩ := w.supervise_eq id e
        simp [perform, World.host, h]
      | recordReadable id' r => exact .inr (.inl ⟨hc, w.lookup_modifyDir _ _ _⟩)
      | _ => exact .inl rfl
    | release k => simp only [perform]; split <;> exact .inl rfl
    | _ => exact .inl rfl
  · exact .inl (by rw [h])

theorem apply_bind {β : Type} (g : InstanceDir → Option β)
    (hg : ∀ d : InstanceDir, d.isEmpty = true → g d = none) (id : VmId) :
    ((e.apply me w i).dirs.lookup id).bind g = (w.dirs.lookup id).bind g ∨
      ∃ d, w.dirs.lookup id = some d ∧ e.check w i = .ok () ∧
        ((e.apply me w i).dirs.lookup id).bind g = g (e.dirEffect id d) := by
  rcases apply_lookup e me w i id with h | ⟨hc, h⟩ | ⟨hd, h⟩ | ⟨⟨d, hd, he⟩, h⟩
  · exact .inl (by rw [h])
  · cases hd : w.dirs.lookup id with
    | none => exact .inl (by rw [h, hd]; rfl)
    | some d => exact .inr ⟨d, rfl, hc, by rw [h, hd]; rfl⟩
  · exact .inl (by rw [h, hd]; exact hg _ rfl)
  · exact .inl (by rw [h, hd]; exact (hg d he).symm)

theorem dirEffect_record (id : VmId) (d : InstanceDir) :
    ((e.dirEffect id d).record.map (·.value) = d.record.map (·.value) ∧
        (e.dirEffect id d).lost = d.lost) ∨
      (∃ ch rec, e = .writeRecord ch rec ∧ rec.id = id ∧
        (e.dirEffect id d).record = some ⟨rec, true⟩) ∨
      (e = .unlink id .record ∧ e.dirEffect id d = d.unlink .record) := by
  cases e with
  | writeRecord ch rec =>
    by_cases hid : rec.id = id
    · exact .inr (.inl ⟨ch, rec, rfl, hid, by simp [dirEffect, hid]⟩)
    · exact .inl (by simp [dirEffect, hid])
  | unlink id' f =>
    by_cases hid : id' = id
    · subst hid
      cases f with
      | record => exact .inr (.inr ⟨rfl, by simp [dirEffect]⟩)
      | _ => exact .inl (by simp [dirEffect, InstanceDir.unlink])
    · exact .inl (by simp [dirEffect, hid])
  | host e =>
    left
    cases e with
    | recordReadable id' r =>
      by_cases hid : id' = id <;> simp [dirEffect, hid, Function.comp_def]
    | _ => exact ⟨rfl, rfl⟩
  | writeRuntime id' _ | writeTraffic _ id' _ | makeDisk id' _ | prepareRoot id' _ =>
    exact .inl (by by_cases hid : id' = id <;> simp [dirEffect, hid])
  | _ => exact .inl ⟨rfl, rfl⟩

theorem apply_record (id : VmId) :
    (e.apply me w i).record id = w.record id ∨
      (∃ ch rec, e = .writeRecord ch rec ∧ rec.id = id ∧ (e.apply me w i).record id = some rec) ∨
      (e = .unlink id .record ∧ (e.apply me w i).record id = none) := by
  rcases apply_bind e me w i (fun d => d.record.map (·.value))
    (fun d hd => by simp_all [InstanceDir.isEmpty]) id with h | ⟨d, hd, -, h⟩
  all_goals simp only [World.record, World.recordFile, Option.map_bind, Function.comp_def]
  · exact .inl h
  · rw [h, hd]
    rcases dirEffect_record e id d with ⟨hsame, -⟩ | ⟨ch, rec, he, hid, hrec⟩ | ⟨he, hgone⟩
    · exact .inl hsame
    · exact .inr (.inl ⟨ch, rec, he, hid, by rw [hrec]; rfl⟩)
    · exact .inr (.inr ⟨he, by rw [hgone]; rfl⟩)

theorem apply_lastRecord (id : VmId) :
    (e.apply me w i).lastRecord id = w.lastRecord id ∨
      (∃ ch rec, e = .writeRecord ch rec ∧ rec.id = id ∧
        (e.apply me w i).lastRecord id = some rec) ∨
      (e.apply me w i).lastRecord id = none := by
  unfold World.lastRecord
  rcases apply_lookup e me w i id with h | ⟨-, h⟩ | ⟨-, h⟩ | ⟨-, h⟩
  · exact .inl (by rw [h])
  · cases hd : w.dirs.lookup id with
    | none => exact .inl (by rw [h, hd]; rfl)
    | some d =>
      rw [h, hd]
      rcases dirEffect_record e id d with ⟨hsame, hlost⟩ | ⟨ch, rec, he, hid, hrec⟩ | ⟨-, hgone⟩
      · exact .inl (by simp [InstanceDir.lastRecord, hsame, hlost])
      · exact .inr (.inl ⟨ch, rec, he, hid, by simp [InstanceDir.lastRecord, hrec]⟩)
      · exact .inl (by simp [InstanceDir.unlink, InstanceDir.lastRecord, hgone])
  · exact .inr (.inr (by rw [h]; rfl))
  · exact .inr (.inr (by rw [h]; rfl))

theorem apply_runtimeJson (id : VmId) :
    (e.apply me w i).runtimeJson id = w.runtimeJson id ∨
      (∃ spec, e = .writeRuntime id spec ∧ (e.apply me w i).runtimeJson id = some spec) ∨
      (e.apply me w i).runtimeJson id = none := by
  rcases apply_bind e me w i (·.runtime) (fun d hd => by simp_all [InstanceDir.isEmpty]) id
    with h | ⟨d, hd, -, h⟩
  all_goals simp only [World.runtimeJson]
  · exact .inl h
  · rw [h, hd]
    cases e with
    | writeRuntime id' spec =>
      by_cases hid : id' = id
      · subst hid
        exact .inr (.inl ⟨spec, rfl, by simp [dirEffect]⟩)
      · exact .inl (by simp [dirEffect, hid])
    | unlink id' f =>
      by_cases hid : id' = id
      · subst hid
        cases f with
        | runtime => exact .inr (.inr (by simp [dirEffect, InstanceDir.unlink]))
        | _ => exact .inl (by simp [dirEffect, InstanceDir.unlink])
      · exact .inl (by simp [dirEffect, hid])
    | host e =>
      left
      cases e with
      | recordReadable id' r => by_cases hid : id' = id <;> simp [dirEffect, hid]
      | _ => rfl
    | writeRecord _ rec =>
      exact .inl (by by_cases hid : rec.id = id <;> simp [dirEffect, hid])
    | writeTraffic _ id' _ | makeDisk id' _ | prepareRoot id' _ =>
      exact .inl (by by_cases hid : id' = id <;> simp [dirEffect, hid])
    | _ => exact .inl rfl

/-! ### Port forwards -/

theorem apply_forwards :
    (e.apply me w i).forwards = w.forwards ∨
      ∃ next, e = .setForwards next ∧ (e.apply me w i).forwards = next := by
  rcases apply_cases e me w i with ⟨-, h⟩ | h
  · rw [h]
    cases e with
    | setForwards next => exact .inr ⟨next, rfl, rfl⟩
    | release k => simp only [perform]; split <;> exact .inl rfl
    | host e => exact .inl (w.host_forwards e)
    | _ => exact .inl rfl
  · exact .inl (by rw [h])

theorem apply_forwardsJson :
    (e.apply me w i).forwardsJson = w.forwardsJson ∨
      ∃ stored, e = .writeForwards stored ∧ (e.apply me w i).forwardsJson = some stored := by
  rcases apply_cases e me w i with ⟨-, h⟩ | h
  · rw [h]
    cases e with
    | writeForwards stored => exact .inr ⟨stored, rfl, rfl⟩
    | release k => simp only [perform]; split <;> exact .inl rfl
    | host e => exact .inl (w.host_forwardsJson e)
    | _ => exact .inl rfl
  · exact .inl (by rw [h])

/-! ### Images -/

theorem apply_images :
    (e.apply me w i).images = w.images ∨
      ∃ s, e = .host (.images s) ∧ (e.apply me w i).images = s := by
  rcases apply_cases e me w i with ⟨-, h⟩ | h
  · rw [h]
    cases e with
    | host e =>
      cases e with
      | images s => exact .inr ⟨s, rfl, rfl⟩
      | supervisor id e =>
        obtain ⟨_, _, _, _, heq⟩ := w.supervise_eq id e
        left
        simp only [perform, World.host, heq]
      | _ => exact .inl rfl
    | release k => simp only [perform]; split <;> exact .inl rfl
    | _ => exact .inl rfl
  · exact .inl (by rw [h])

/-! ### Units -/

/-- What an action makes of the unit of `id`. -/
inductive UnitChange (w : World) (id : VmId) : Act → Option Supervisor → Prop where
  | systemdRun (hu : w.units id = none) : UnitChange w id (.systemdRun id) (some {})
  | killCt (u : Supervisor) (hu : w.units id = some u) :
    UnitChange w id (.killCt id) (some u.killCt)
  | terminate (u : Supervisor) (hu : w.units id = some u) :
    UnitChange w id (.terminate id) (some { u with term := true, stopping := true })
  | step (u : Supervisor) (hu : w.units id = some u) (se : SupEvent) :
    UnitChange w id (.host (.supervisor id se)) (some (u.step (w.runtimeJson id) se).1)
  | quit (se : SupEvent) : UnitChange w id (.host (.supervisor id se)) none
  | killed : UnitChange w id (.host (.unitKilled id)) none

theorem host_units (e : HostEvent) (id : VmId) :
    (w.host e).units id = w.units id ∨ UnitChange w id (.host e) ((w.host e).units id) := by
  cases e with
  | supervisor id' se =>
    simp only [World.host, World.supervise]
    split
    · exact .inl rfl
    · rename_i u hu
      split
      · by_cases hid : id = id'
        · subst hid
          cases (u.step (w.runtimeJson id) se).2 with
          | exit =>
            right
            simp only [World.effect, World.setUnit, Function.update_self]
            exact .quit se
          | none | command c | boot | removePid =>
            right
            simp only [World.effect, World.setUnit, World.command, World.addLog,
              Function.update_self]
            exact .step u hu se
        · left
          cases (u.step (w.runtimeJson id') se).2 <;>
            simp [World.effect, World.setUnit, World.command, World.addLog, hid]
      · exact .inl rfl
  | unitKilled id' =>
    by_cases hid : id = id'
    · subst hid
      right
      simp only [World.host, World.setUnit, Function.update_self]
      exact .killed
    · exact .inl (Function.update_of_ne hid _ _)
  | _ => exact .inl rfl

theorem units_map {id id' : VmId} {f : Supervisor → Supervisor}
    (h : ∀ u, w.units id' = some u → UnitChange w id' e (some (f u))) :
    (w.setUnit id' ((w.units id').map f)).units id = w.units id ∨
      UnitChange w id e ((w.setUnit id' ((w.units id').map f)).units id) := by
  by_cases hid : id = id'
  · subst hid
    cases hu : w.units id with
    | none => exact .inl (by simp [World.setUnit])
    | some u =>
      right
      simp only [World.setUnit, Function.update_self, Option.map_some]
      exact h u hu
  · exact .inl (Function.update_of_ne hid _ _)

theorem apply_units (id : VmId) :
    (e.apply me w i).units id = w.units id ∨ UnitChange w id e ((e.apply me w i).units id) := by
  rcases apply_cases e me w i with ⟨hc, h⟩ | h
  · rw [h]
    cases e with
    | systemdRun id' =>
      by_cases hid : id = id'
      · subst hid
        have hnone : w.units id = none := by
          by_contra hsome
          simp [check, Option.isSome_iff_ne_none.mpr hsome] at hc
        right
        simp only [perform, World.setUnit, World.addLog, Function.update_self]
        exact .systemdRun hnone
      · exact .inl (Function.update_of_ne hid _ _)
    | killCt id' => exact units_map _ _ .killCt
    | terminate id' => exact units_map _ _ .terminate
    | release k => simp only [perform]; split <;> exact .inl rfl
    | host e => exact host_units w e id
    | _ => exact .inl rfl
  · exact .inl (by rw [h])

/-! ### Interfaces -/

theorem linkUp_runCommand {w w' : World} {c : NetCmd} {hif : String}
    (hw : w'.links = World.runCommand w.links c) (h : w'.LinkUp hif) :
    w.LinkUp hif ∨ c = .setLink hif true := by
  obtain ⟨l, hl, hup⟩ := h
  rw [hw] at hl
  -- a change of one interface is seen there only
  have hother : ∀ {hif' : String} {v : Option Link}, hif ≠ hif' →
      Function.update w.links hif' v hif = some l → w.LinkUp hif := by
    intro hif' v hne hl
    rw [Function.update_of_ne hne] at hl
    exact ⟨l, hl, hup⟩
  cases c with
  | other argv => exact .inl ⟨l, hl, hup⟩
  | linkDel hif' | linkAdd hif' mac =>
    by_cases heq : hif = hif'
    · subst heq
      simp only [World.runCommand, Function.update_self] at hl
      cases hl <;> cases hup
    · exact .inl (hother heq hl)
  | setMaster hif' bridge | setIsolated hif' =>
    by_cases heq : hif = hif'
    · subst heq
      simp only [World.runCommand, World.modifyLink, Function.update_self] at hl
      obtain ⟨l₀, hl₀, rfl⟩ := Option.map_eq_some_iff.mp hl
      exact .inl ⟨l₀, hl₀, hup⟩
    · exact .inl (hother heq hl)
  | setLink hif' up =>
    by_cases heq : hif = hif'
    · subst heq
      simp only [World.runCommand, World.modifyLink, Function.update_self] at hl
      obtain ⟨l₀, hl₀, rfl⟩ := Option.map_eq_some_iff.mp hl
      have hup' : up = true := hup
      exact .inr (by rw [hup'])
    · exact .inl (hother heq hl)

theorem host_linkUp {e : HostEvent} {hif : String} (h : (w.host e).LinkUp hif) :
    w.LinkUp hif ∨ ∃ id se u, e = .supervisor id se ∧ w.units id = some u ∧
      (u.step (w.runtimeJson id) se).2 = .command (.setLink hif true) := by
  cases e with
  | supervisor id se =>
    simp only [World.host, World.supervise] at h
    split at h
    · exact .inl h
    · rename_i u hu
      split at h
      · cases heff : (u.step (w.runtimeJson id) se).2 with
        | command c =>
          simp only [heff, World.effect] at h
          rcases linkUp_runCommand (w := w) rfl h with h | rfl
          · exact .inl h
          · exact .inr ⟨id, se, u, rfl, hu, heff⟩
        | none | boot | removePid | exit =>
          simp only [heff] at h
          exact .inl h
      · exact .inl h
  | linkLost hif' =>
    obtain ⟨l, hl, hup⟩ := h
    by_cases heq : hif = hif'
    · subst heq
      simp [World.host] at hl
    · simp only [World.host, Function.update_of_ne heq] at hl
      exact .inl ⟨l, hl, hup⟩
  | counters hif' ifindex rx tx =>
    obtain ⟨l, hl, hup⟩ := h
    by_cases heq : hif = hif'
    · subst heq
      simp only [World.host, World.modifyLink, Function.update_self] at hl
      obtain ⟨l₀, hl₀, rfl⟩ := Option.map_eq_some_iff.mp hl
      exact .inl ⟨l₀, hl₀, hup⟩
    · simp only [World.host, World.modifyLink, Function.update_of_ne heq] at hl
      exact .inl ⟨l, hl, hup⟩
  | recordReadable id r =>
    simp only [World.host, World.modifyDir] at h
    exact .inl h
  | _ => exact .inl h

theorem apply_linkUp {hif : String} (h : (e.apply me w i).LinkUp hif) :
    w.LinkUp hif ∨ (∃ who, e = .command who (.setLink hif true)) ∨
      ∃ id se u, e = .host (.supervisor id se) ∧ w.units id = some u ∧
        (u.step (w.runtimeJson id) se).2 = .command (.setLink hif true) := by
  rcases apply_cases e me w i with ⟨-, hw⟩ | hw
  · rw [hw] at h
    cases e with
    | command who c =>
      rcases linkUp_runCommand (w := w) rfl h with h | rfl
      · exact .inl h
      · exact .inr (.inl ⟨who, rfl⟩)
    | host e =>
      rcases host_linkUp w h with h | ⟨id, se, u, rfl, hu, hc⟩
      · exact .inl h
      · exact .inr (.inr ⟨id, se, u, rfl, hu, hc⟩)
    | release k =>
      simp only [perform] at h
      split at h <;> exact .inl h
    | _ => exact .inl h
  · exact .inl (hw ▸ h)

/-! ### History -/

/-- The event an action adds when it succeeds. -/
inductive Logs (me : Pid) (w : World) : Act → Event → Prop where
  | acquire (k : LockId) : Logs me w (.acquire k) (.acquired me k)
  | writeRecord (ch : Change) (rec : Record) : Logs me w (.writeRecord ch rec) (.saved me ch rec)
  | sample (id : VmId) (t : Traffic) : Logs me w (.writeTraffic (.sample true) id t) (.rolled id)
  | unlink (id : VmId) (h : (w.record id).isSome) : Logs me w (.unlink id .record) (.removed me id)
  | systemdRun (id : VmId) : Logs me w (.systemdRun id) (.launched me id)
  | killCt (id : VmId) (h : (w.units id).isSome) : Logs me w (.killCt id) (.killed id)
  | reply (r : Except Err Unit) : Logs me w (.reply r) (.replied me r)
  | boot (id : VmId) (se : SupEvent) (u : Supervisor) (hu : w.units id = some u)
      (hb : (u.step (w.runtimeJson id) se).2 = .boot) :
      Logs me w (.host (.supervisor id se)) (.booted id)

theorem host_log (e : HostEvent) :
    (w.host e).log = w.log ∨
      ∃ id, Logs me w (.host e) (.booted id) ∧ (w.host e).log = .booted id :: w.log := by
  cases e with
  | supervisor id se =>
    simp only [World.host, World.supervise]
    split
    · exact .inl rfl
    · rename_i u hu
      split
      · cases heff : (u.step (w.runtimeJson id) se).2 with
        | boot => exact .inr ⟨id, .boot id se u hu heff, rfl⟩
        | _ => exact .inl rfl
      · exact .inl rfl
  | _ => exact .inl rfl

theorem apply_log :
    (e.apply me w i).log = w.log ∨
      ∃ ev, Logs me w e ev ∧ e.check w i = .ok () ∧ (e.apply me w i).log = ev :: w.log := by
  rcases apply_cases e me w i with ⟨hc, h⟩ | h
  · rw [h]
    cases e with
    | acquire k => exact .inr ⟨_, .acquire k, hc, rfl⟩
    | release k => simp only [perform]; split <;> exact .inl rfl
    | writeRecord ch rec => exact .inr ⟨_, .writeRecord ch rec, hc, rfl⟩
    | writeTraffic why id t =>
      by_cases hwhy : why = .sample true
      · subst hwhy
        exact .inr ⟨_, .sample id t, hc, rfl⟩
      · exact .inl (by simp [perform, hwhy, World.modifyDir])
    | unlink id f =>
      by_cases hf : f = .record ∧ (w.record id).isSome
      · obtain ⟨rfl, hrec⟩ := hf
        exact .inr ⟨_, .unlink id hrec, hc, by simp [perform, hrec]⟩
      · exact .inl (by simp only [perform, if_neg hf])
    | systemdRun id => exact .inr ⟨_, .systemdRun id, hc, rfl⟩
    | killCt id =>
      by_cases hu : (w.units id).isSome
      · exact .inr ⟨_, .killCt id hu, hc, by simp [perform, hu]⟩
      · exact .inl (by simp [perform, hu])
    | reply r => exact .inr ⟨_, .reply r, hc, rfl⟩
    | host e =>
      rcases host_log me w e with hl | ⟨id, hlogs, hl⟩
      · exact .inl hl
      · exact .inr ⟨_, hlogs, hc, hl⟩
    | _ => exact .inl rfl
  · exact .inl (by rw [h])

end Act

end RunmanAgent
