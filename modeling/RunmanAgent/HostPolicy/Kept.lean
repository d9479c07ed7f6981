import RunmanAgent.HostPolicy.Manager

/-!
# What the manager stores

One walk through the calls of the manager carries what is known about its state, in memory and in
the file. `Persisted`: memory is never behind the file, and both are states that `load_state`
accepts. `Owned`: if RFW behaves as assumed, the stored ids are distinct ids that RFW returned to
the manager. Both survive failed requests, failed saves, restarts and whatever others do to the
rules.
-/

namespace RunmanAgent.HostPolicy

open Concurrency Server

/-! ## Ids -/

def State.ids (st : State) : List Int := st.managedRules.map (·.id)

/-- The ids of the state are distinct and were returned by RFW. -/
structure Owns (posted : List Int) (st : State) : Prop where
  distinct : st.ids.Nodup
  posted : ∀ id ∈ st.ids, id ∈ posted

structure Owned (w : World) : Prop where
  distinct : (w.rules.map (·.id)).Nodup
  given : ∀ row ∈ w.rules, 1 ≤ row.id ∧ row.id ∈ w.used
  posted : ∀ id ∈ w.posted, id ∈ w.used
  mem : Owns w.posted w.mem
  disk : ∀ st, w.disk = some st → Owns w.posted st

def OwnDuty : Act → World → Prop
  | .setState st, w | .save st, w => Owns w.posted st
  | .delete .reconcileRfw id, w => id ∈ w.posted
  | .delete (.deleteManualRule expected) id, w => id ∉ w.mem.ids ∧
      ∃ row ∈ w.listed, row.id = id ∧ readbackRule row = expected ∧ (w.quiet = true → row ∈ w.rules)
  | _, _ => True

variable {w : World} {i : Input} {e : Act} {posted : List Int} {st : State}

theorem Owns.mono {posted' : List Int} (h : Owns posted st)
    (hsub : ∀ id ∈ posted, id ∈ posted') : Owns posted' st :=
  ⟨h.distinct, fun id hid => hsub id (h.posted id hid)⟩

theorem owns_empty (posted : List Int) : Owns posted {} :=
  ⟨List.nodup_nil, nofun⟩

theorem Owned.post {body : Payload} (hw : Owned w) (hok : Rfw self (.post body) w i) :
    Owned (w.apply i (.post body)) := by
  obtain ⟨hfresh, hdone⟩ := hok
  have hsub : ∀ id ∈ w.posted, id ∈ (w.apply i (.post body)).posted := by
    intro id hid
    simp only [World.apply]
    split
    · exact .tail _ hid
    · exact hid
  refine ⟨?_, ?_, ?_, hw.mem.mono hsub, fun st hst => (hw.disk st hst).mono hsub⟩
  · simp only [World.apply]
    split
    · rename_i hc
      obtain ⟨-, -, hnew⟩ := hfresh hc
      rw [List.map_append, List.nodup_append]
      refine ⟨hw.distinct, by simp, ?_⟩
      rintro id hid _ hmem rfl
      obtain ⟨row, hrow, rfl⟩ := List.mem_map.mp hid
      have : row.id = i.id := by simpa [Payload.stored] using hmem
      exact hnew (this ▸ (hw.given row hrow).2)
    · exact hw.distinct
  · intro row hrow
    simp only [World.apply] at hrow ⊢
    by_cases hc : i.carried = true
    · obtain ⟨hpos, -, -⟩ := hfresh hc
      rw [if_pos hc] at hrow ⊢
      rcases List.mem_append.mp hrow with hrow | hrow
      · exact ⟨(hw.given row hrow).1, .tail _ (hw.given row hrow).2⟩
      · rw [List.mem_singleton.mp hrow]
        exact ⟨hpos, .head _⟩
    · rw [if_neg hc] at hrow ⊢
      exact hw.given row hrow
  · intro id hid
    simp only [World.apply] at hid ⊢
    split at hid
    · rename_i hs
      rw [if_pos (hdone hs)]
      rcases hid with _ | ⟨_, hid⟩
      · exact .head _
      · exact .tail _ (hw.posted id hid)
    · split
      · exact .tail _ (hw.posted id hid)
      · exact hw.posted id hid

theorem Owned.change {rules : List RawRule} {p : Pid} (hw : Owned w)
    (hok : Rfw p (.change rules) w i) : Owned (w.apply i (.change rules)) where
  distinct := hok.1
  given row hrow := ⟨(hok.2 row hrow).1, List.mem_append_left _ (List.mem_map_of_mem hrow)⟩
  posted id hid := List.mem_append_right _ (hw.posted id hid)
  mem := hw.mem
  disk := hw.disk

theorem Owned.apply (hw : Owned w) (h : OwnDuty e w) (hok : Rfw self e w i) :
    Owned (w.apply i e) := by
  cases e with
  | setState st => exact ⟨hw.distinct, hw.given, hw.posted, h, hw.disk⟩
  | save st =>
    simp only [World.apply]
    split
    · exact hw
    · exact ⟨hw.distinct, hw.given, hw.posted, hw.mem, fun st' hst' => by cases hst'; exact h⟩
  | getRules =>
    simp only [World.apply]
    split
    · exact ⟨hw.distinct, hw.given, hw.posted, hw.mem, hw.disk⟩
    · exact hw
  | post body => exact hw.post hok
  | delete by_ id =>
    simp only [World.apply]
    split
    · refine ⟨?_, fun row hrow => ?_, hw.posted, hw.mem, hw.disk⟩
      · exact hw.distinct.sublist (List.filter_sublist.map _)
      · exact hw.given row (List.mem_of_mem_filter hrow)
    · exact hw
  | change rules => exact hw.change hok
  | _ => exact ⟨hw.distinct, hw.given, hw.posted, hw.mem, hw.disk⟩

/-! ## The file -/

/-- Revision and policy that a restart would start with. -/
def reloaded (disk : Option State) : Option (Int × Policy) :=
  (loadState disk).toOption.map fun st => (st.revision, st.policy)

/-- A restart would start with `policy`. -/
def Holds (policy : Policy) (w : World) : Prop :=
  reloaded w.disk = some (policy.revision, policy)

instance (policy : Policy) (w : World) : Decidable (Holds policy w) :=
  inferInstanceAs (Decidable (_ = _))

/-- A state that the manager can be in: `load_state` accepts it unchanged. -/
structure State.Valid (st : State) : Prop where
  policy : st.revision ≠ 0 →
    normalizePolicy st.policy = .ok st.policy ∧ st.policy.revision = st.revision
  managed : ∀ r ∈ st.managedRules, r.invalid = false

theorem State.Valid.load (h : st.Valid) : loadState (some st) = .ok st := by
  have hpolicy : loadPolicy st = .ok st.policy := by
    unfold loadPolicy
    split
    · rename_i hpos
      obtain ⟨hnorm, hrev⟩ := h.policy (by omega)
      simp only [hnorm, hrev, ne_eq, not_true_eq_false, if_false]
      rfl
    · rfl
  have hmanaged : st.managedRules.any (·.invalid) = false :=
    List.any_eq_false.mpr fun r hr => by simp [h.managed r hr]
  simp only [loadState, hpolicy, hmanaged]
  rfl

variable {strict : Prop}

/-- Memory is never behind the file, and if `strict`, the file never behind an acknowledged
policy. -/
structure Persisted (strict : Prop) (w : World) : Prop where
  mem : w.mem.Valid
  file : ∀ st ∈ w.disk, st.Valid
  order : (w.disk.getD {}).revision ≤ w.mem.revision
  acked : strict → ∀ p ∈ w.acked, p.revision ≤ (w.disk.getD {}).revision

/-- The manager saves what is in memory, and if `strict`, it acknowledges what is in the file. -/
def PersistDuty (strict : Prop) : Act → World → Prop
  | .setState st, w => st.Valid ∧ w.mem.revision ≤ st.revision
  | .save st, w => st = w.mem
  | .answer p, w => strict → ∃ q, normalizePolicy p = .ok q ∧ Holds q w
  | _, _ => True

theorem State.valid_default : State.Valid {} := ⟨fun h => absurd rfl h, nofun⟩

theorem Persisted.load (h : Persisted strict w) :
    loadState w.disk = .ok (w.disk.getD {}) ∧ (w.disk.getD {}).Valid := by
  cases hdisk : w.disk with
  | none => exact ⟨rfl, State.valid_default⟩
  | some st => exact ⟨(h.file st hdisk).load, h.file st hdisk⟩

theorem Holds.load {q : Policy} (h : Holds q w) :
    ∃ st, loadState w.disk = .ok st ∧ st.revision = q.revision ∧ st.policy = q := by
  unfold Holds reloaded at h
  cases hl : loadState w.disk with
  | error e => rw [hl] at h; cases h
  | ok st =>
    rw [hl] at h
    have heq := Option.some.inj h
    exact ⟨st, rfl, congrArg Prod.fst heq, congrArg Prod.snd heq⟩

theorem Persisted.apply (hw : Persisted strict w) (h : PersistDuty strict e w) :
    Persisted strict (w.apply i e) := by
  cases e with
  | setState st => exact { hw with mem := h.1, order := hw.order.trans h.2 }
  | save st =>
    cases h
    simp only [World.apply]
    split
    · exact hw
    · refine ⟨hw.mem, fun st hst => ?_, le_refl _, fun hs p hp => (hw.acked hs p hp).trans hw.order⟩
      cases hst
      exact hw.mem
  | answer p =>
    refine { hw with acked := fun hs p' hp' => ?_ }
    obtain ⟨q, hq, hholds⟩ := h hs
    obtain ⟨st, hload, hrev, -⟩ := hholds.load
    cases hw.load.1.symm.trans hload
    rcases hp' with _ | ⟨_, hp'⟩
    · exact ((normalizePolicy_idem hq).2.symm.trans hrev.symm).le
    · exact hw.acked hs p' hp'
  | getRules | delete =>
    simp only [World.apply]
    split
    · exact { hw with }
    · exact hw
  | _ => exact { hw with }

theorem Persisted.other (he : manager.others e) (hw : Persisted strict w) :
    Persisted strict (w.apply i e) := by
  cases e with
  | change rules => exact { hw with }
  | _ => exact he.elim

/-! ## The discipline -/

/-- What may be assumed about the histories. -/
structure Assumed where
  /-- RFW behaves as described. -/
  honest : Prop := False
  /-- A request for the policy in memory is made only when a restart would start with it. -/
  strict : Prop := False

class Meets (A : Assumed) (ok : Pid → Act → World → Input → Prop) : Prop where
  rfw {p : Pid} {e : Act} {w : World} {i : Input} : A.honest → ok p e w i → Rfw p e w i

structure Kept (A : Assumed) (w : World) : Prop extends Persisted A.strict w where
  owned : A.honest → Owned w

def Duty (A : Assumed) (e : Act) (w : World) : Prop :=
  (A.honest → OwnDuty e w) ∧ PersistDuty A.strict e w

variable {A : Assumed} {ok : Pid → Act → World → Input → Prop} [Meets A ok] {α : Type}
  {P : State → Option State → List Int → Prop}

variable (A ok) in
def kept : Discipline host :=
  manager.discipline (Kept A) (Duty A) ok
    (fun hw hd hok => ⟨hw.toPersisted.apply hd.2, fun hh =>
      (hw.owned hh).apply (hd.1 hh) (Meets.rfw hh hok)⟩)
    (fun {p e _ _} he hw hok => ⟨hw.toPersisted.other he, fun hh => by
      cases e with
      | change rules => exact (hw.owned hh).change (Meets.rfw hh hok)
      | _ => exact he.elim⟩)

instance kept_stable : Stable (kept A ok) self (fun w => P w.mem w.disk w.posted) := by
  refine stable_of_others fun {p e s i} he _ _ hs => ?_
  cases e with
  | change rules => exact hs
  | _ => exact he.elim

instance stable_mem (st : State) : Stable (kept A ok) self (fun w => w.mem = st) :=
  kept_stable (P := fun m _ _ => m = st)

instance stable_revision (q : Policy) :
    Stable (kept A ok) self (fun w => w.mem.revision ≤ q.revision) :=
  kept_stable (P := fun m _ _ => m.revision ≤ q.revision)

instance stable_owns (st : State) :
    Stable (kept A ok) self (fun w => A.honest → Owns w.posted st) :=
  kept_stable (P := fun _ _ posted => A.honest → Owns posted st)

instance stable_holds (strict : Prop) (requested : Policy) :
    Stable (kept A ok) self
      (fun w => strict → ∃ q, normalizePolicy requested = .ok q ∧ Holds q w) :=
  kept_stable (P := fun _ d _ => strict → ∃ q, normalizePolicy requested = .ok q ∧
    reloaded d = some (q.revision, q))

/-- The actions that leave the state of the manager and RFW alone. -/
def Act.Outside (e : Act) : Prop := e.Aside ∨ e = .getRules

theorem kept_outside {p : Prog World Input Act α} (hp : p.Uses Act.Outside) :
    Serves (kept A ok) (fun w => P w.mem w.disk w.posted) p
      (fun _ w => P w.mem w.disk w.posted) := by
  refine .of_uses (hp.mono fun e he s i _ hs _ _ => ?_)
  rcases he with he | rfl
  · refine ⟨may_self.mpr ?_, ?_⟩
    · cases e <;> first | exact ⟨fun _ => trivial, trivial⟩ | exact he.elim
    · obtain ⟨fw, hfw⟩ := apply_aside (w := s) (i := i) he
      rwa [show host.apply e self s i = _ from hfw]
  · refine ⟨may_self.mpr ⟨fun _ => trivial, trivial⟩, ?_⟩
    show P (s.apply i .getRules).mem (s.apply i .getRules).disk (s.apply i .getRules).posted
    simp only [World.apply]
    split <;> exact hs

/-! ## Reconciliation keeps the file at the policy -/

/-- `st` is a state for the policy `q`. -/
structure State.For (q : Policy) (st : State) : Prop where
  revision : st.revision = q.revision
  policy : st.policy = q
  valid : st.Valid

variable (A) in
/-- Memory is at `q`, and so is the file, if that is `known`; the ids of `st` are the manager's. -/
def Agreed (known : Prop) (q : Policy) (st : State) (w : World) : Prop :=
  (known → Holds q w) ∧ w.mem.revision = q.revision ∧ (A.honest → Owns w.posted st)

variable {known : Prop} {q : Policy}

instance stable_agreed : Stable (kept A ok) self (Agreed A known q st) :=
  kept_stable (P := fun m d posted => (known → reloaded d = some (q.revision, q)) ∧
    m.revision = q.revision ∧ (A.honest → Owns posted st))

theorem agreed_outside {p : Prog World Input Act α} (hp : p.Uses Act.Outside) :
    Serves (kept A ok) (Agreed A known q st) p (fun _ => Agreed A known q st) :=
  kept_outside (P := fun m d posted => (known → reloaded d = some (q.revision, q)) ∧
    m.revision = q.revision ∧ (A.honest → Owns posted st)) hp

theorem State.For.reloads (h : st.For q) : reloaded (some st) = some (q.revision, q) := by
  rw [reloaded, h.valid.load, ← h.revision, ← h.policy]
  rfl

/-- A state `st` is recorded; the ids are known to be among those of `base`. -/
theorem kept_record (known : Prop) {base : State} {f : HostProc α} {Q : α → World → Prop}
    (hst : st.For q) (hids : ∀ posted, Owns posted base → Owns posted st)
    (hf : Serves (kept A ok) (Agreed A known q base) f (ends Q (fun _ _ => True))) :
    Serves (kept A ok) (fun w => w.mem.revision ≤ q.revision ∧ (A.honest → Owns w.posted base))
      (do setState st; save st; f : HostProc α) (ends Q (fun _ _ => True)) := by
  refine .step (R := fun _ w => w.mem = st ∧ (A.honest → Owns w.posted base))
    (Triple.perform fun w i _ ⟨hle, hown⟩ _ _ => ?_) fun _ => ?_
  · exact ⟨may_self.mpr ⟨fun hh => hids _ (hown hh), hst.valid, hst.revision ▸ hle⟩, rfl, hown⟩
  refine .procBind (Triple.perform fun w i _ ⟨hmem, hown⟩ _ _ =>
    ⟨may_self.mpr ⟨fun hh => hids _ (hown hh), hmem.symm⟩, ?_⟩) fun _ => hf
  show ends _ _ _ (w.apply i (.save st))
  simp only [World.apply]
  cases i.fail with
  | some e => trivial
  | none => exact ⟨fun _ => hst.reloads, hmem ▸ hst.revision, hown⟩

theorem Owns.push {desired : Rule} {id : Int} (h : Owns posted st) (hnew : id ∉ st.ids) :
    Owns (id :: posted) (st.push desired id) := by
  have hids : (st.push desired id).ids = st.ids ++ [id] := by simp [State.ids, State.push]
  constructor
  · rw [hids, List.nodup_append]
    refine ⟨h.distinct, by simp, ?_⟩
    rintro a ha b hb rfl
    exact hnew (List.mem_singleton.mp hb ▸ ha)
  · intro a ha
    rw [hids] at ha
    rcases List.mem_append.mp ha with ha | ha
    · exact .tail _ (h.posted a ha)
    · rw [List.mem_singleton.mp ha]
      exact .head _

theorem Owns.withManaged {managed : List ManagedRule} (h : Owns posted st)
    (hsub : managed.Sublist st.managedRules) : Owns posted (st.withManaged managed) where
  distinct := h.distinct.sublist (hsub.map _)
  posted id hid := h.posted id ((hsub.map _).subset hid)

theorem fingerprint_ne (rule : Rule) : (fingerprint rule).isEmpty = false := by
  have hlist : (fingerprint rule).toList ≠ [] := by
    simp [fingerprint, Payload.toJson, Json.object]
  cases h : (fingerprint rule).isEmpty with
  | false => rfl
  | true =>
    rw [String.isEmpty_iff] at h
    exact absurd (by rw [h]; rfl) hlist

theorem State.For.push {desired : Rule} {id : Int} (hst : st.For q) (hq : normalizePolicy q = .ok q)
    (hd : desired ∈ q.rules) (hid : 1 ≤ id) : (st.push desired id).For q := by
  refine ⟨hst.revision, hst.policy, hst.valid.policy, fun r hr => ?_⟩
  rcases List.mem_append.mp hr with hr | hr
  · exact hst.valid.managed r hr
  · rw [List.mem_singleton.mp hr]
    have hkey := ((normalizePolicy_keys hq).2 desired hd).1
    have hne : desired.key.isEmpty = false := by
      simp only [validKey, Bool.and_eq_true, Bool.not_eq_true'] at hkey
      exact hkey.1.1
    have hlt : ¬ id < 1 := by omega
    simp [ManagedRule.invalid, hne, fingerprint_ne, hlt]

theorem State.For.withManaged {managed : List ManagedRule} (hst : st.For q)
    (h : ∀ r ∈ managed, r ∈ st.managedRules) : (st.withManaged managed).For q :=
  ⟨hst.revision, hst.policy, hst.valid.policy, fun r hr => hst.valid.managed r (h r hr)⟩

theorem kept_createRule (desired : Rule) :
    Serves (kept A ok) (Agreed A known q st) (createRule desired)
      (ends (fun id w => Agreed A known q (st.push desired id) w ∧ 1 ≤ id) (fun _ _ => True)) := by
  refine .procBind (R := fun r w => success r.1 = true →
    Agreed A known q (st.push desired (asI32 r.2.2)) w) ?_ ?_
  · refine .perform fun w i hw ⟨hholds, hrev, hown⟩ _ hok =>
      ⟨may_self.mpr ⟨fun _ => trivial, trivial⟩, ?_⟩
    cases hr : i.reply with
    | error e => trivial
    | ok code =>
      show success code = true → _
      intro hs
      have hany : i.reply.toOption.any success = true := by rw [hr]; exact hs
      refine ⟨hholds, hrev, fun hh => ?_⟩
      have hok : ok self (.post (rfwPayload desired)) w i := hok
      obtain ⟨hfresh, hdone⟩ := Meets.rfw hh hok
      obtain ⟨hpos, hlt, hnew⟩ := hfresh (hdone hany)
      rw [asI32_of_lt hpos hlt]
      show Owns (w.apply i (.post (rfwPayload desired))).posted _
      simp only [World.apply, if_pos hany]
      exact (hown hh).push fun hmem =>
        hnew ((hw.owned hh).posted _ ((hown hh).posted _ hmem))
  · rintro ⟨code, body, id⟩
    dsimp only
    split
    · exact .ret fun _ _ _ => trivial
    · rename_i hs
      split
      · exact .ret fun _ _ _ => trivial
      · exact .ret fun w _ hw => ⟨hw (by simpa using hs), by omega⟩

/-- Invariant of the first loop; the rules `rest` are still to be selected. -/
def Selecting (A : Assumed) (known : Prop) (q : Policy) (a : Selection) (rest : List Rule)
    (w : World) : Prop :=
  Agreed A known q a.st w ∧ a.st.For q ∧ ∀ d ∈ rest, d ∈ q.rules

instance stable_selecting (a : Selection) (rest : List Rule) :
    Stable (kept A ok) self (Selecting A known q a rest) :=
  inferInstanceAs (Stable (kept A ok) self fun w => Agreed A known q a.st w ∧ _)

theorem kept_selectRule (hq : normalizePolicy q = .ok q) (a : Selection) (desired : Rule)
    (rest : List Rule) :
    Serves (kept A ok) (Selecting A known q a (desired :: rest)) (selectRule a desired)
      (ends (fun a' => Selecting A known q a' rest) (fun _ _ => True)) := by
  refine .given fun ⟨hst, hrules⟩ => ?_
  have hrest : ∀ d ∈ rest, d ∈ q.rules := fun d hd => hrules d (by simp [hd])
  unfold selectRule
  split
  · exact .ret fun w _ hw => ⟨hw, hst, hrest⟩
  · refine .chain (kept_createRule desired) (fun _ _ _ _ => trivial) fun id =>
      Triple.given fun hid => ?_
    have hst' := hst.push hq (hrules desired (by simp)) hid
    exact .pre (kept_record known hst' (fun _ h => h)
      (Triple.ret fun w _ hw => ⟨hw, hst', hrest⟩)) fun w hw => ⟨hw.2.1.le, hw.2.2⟩

theorem kept_deleteListed (actual : List RawRule) {owned : ManagedRule}
    (h : owned ∈ st.managedRules) :
    Serves (kept A ok) (Agreed A known q st) (deleteListed actual owned.id)
      (fun _ => Agreed A known q st) := by
  refine .of_uses ((deleteListed_uses _ _).mono fun e he w i _ hw _ _ => ?_)
  subst he
  refine ⟨may_self.mpr ⟨fun hh => (hw.2.2 hh).posted _ (List.mem_map_of_mem h), trivial⟩, ?_⟩
  show Agreed A known q st (w.apply i _)
  simp only [World.apply]
  split <;> exact hw

theorem kept_removeUnselected (a : Selection) (kept' rest : List ManagedRule)
    (hst : a.st.For q) (hsub : (kept' ++ rest).Sublist a.st.managedRules) :
    Serves (kept A ok) (Agreed A known q a.st) (removeUnselected a kept' rest)
      (ends (fun st w => Agreed A known q st w ∧ st.For q) (fun _ _ => True)) := by
  induction rest generalizing kept' with
  | nil =>
    rw [List.append_nil] at hsub
    have hst' := hst.withManaged fun r hr => hsub.subset hr
    exact .ret fun w _ hw =>
      ⟨⟨hw.1, hw.2.1, fun hh => (hw.2.2 hh).withManaged hsub⟩, hst'⟩
  | cons owned rest ih =>
    rw [removeUnselected]
    split
    · exact ih _ (by simpa using hsub)
    · have hrest : (kept' ++ rest).Sublist a.st.managedRules :=
        List.Sublist.trans (List.Sublist.append_left (List.sublist_cons_self _ _) _) hsub
      refine .seq (kept_deleteListed _ (hsub.subset (by simp))) (fun _ _ _ _ => trivial) fun _ => ?_
      exact .pre (kept_record known (hst.withManaged fun r hr => hrest.subset hr)
        (fun _ h => h.withManaged hrest) (ih kept' hrest)) fun w hw => ⟨hw.2.1.le, hw.2.2⟩

theorem kept_reconcileRfw (known : Prop) (hq : normalizePolicy q = .ok q) (hst : st.For q) :
    Serves (kept A ok) (Agreed A known q st) (reconcileRfw st)
      (ends (fun st w => Agreed A known q st w ∧ st.For q) (fun _ _ => True)) := by
  unfold reconcileRfw
  split
  · exact .ret fun w _ hw => ⟨hw, hst⟩
  · refine .seq (agreed_outside (Proc.uses_attempt (capabilities_uses.mono fun _ he =>
      .inl he))) (fun _ _ _ _ => trivial) fun caps => ?_
    split
    · exact .ret fun _ _ _ => trivial
    · refine .seq (agreed_outside (listRules_uses.mono fun _ he => .inr he))
        (fun _ _ _ _ => trivial) fun actual => ?_
      refine .procBind (Triple.pre (Triple.fold
        (kept_selectRule hq)) fun w hw => ⟨hw, hst, fun d hd => hst.policy ▸ hd⟩) fun a => ?_
      exact .given fun ⟨ha, _⟩ => kept_removeUnselected a [] _ ha (List.Sublist.refl _)

/-! ## Calls -/

/-- A request for the policy in memory is made only when a restart would start with it. -/
def OnlySavedAgain : Call → World → Prop
  | .apply requested, w => requested.revision = w.mem.revision →
      normalizePolicy requested = .ok w.mem.policy → Holds w.mem.policy w
  | _, _ => True

variable (strict) in
/-- What a call of `apply` for `requested` may find. -/
def MayApply (requested : Policy) (m : State) (d : Option State) : Prop :=
  strict → requested.revision = m.revision → normalizePolicy requested = .ok m.policy →
    reloaded d = some (m.policy.revision, m.policy)

instance stable_mayApply (requested : Policy) :
    Stable (kept A ok) self (fun w => MayApply A.strict requested w.mem w.disk) :=
  kept_stable (P := fun m d _ => MayApply A.strict requested m d)

theorem kept_lock :
    Serves (kept A ok) (fun w => P w.mem w.disk w.posted) lock
      (ends (fun st w => (w.mem = st ∧ P w.mem w.disk w.posted ∧ (A.honest → Owns w.posted st)) ∧
        st.Valid) (fun _ _ => False)) := by
  refine .perform fun w i hw hP _ _ => ⟨may_self.mpr ⟨fun _ => trivial, trivial⟩,
    ⟨rfl, hP, fun hh => (hw.owned hh).mem⟩, hw.mem⟩

theorem kept_advance {requested : Policy} (hnorm : normalizePolicy requested = .ok q)
    (hvalid : st.Valid) :
    Serves (kept A ok) (fun w => w.mem = st ∧ MayApply A.strict requested w.mem w.disk ∧
        (A.honest → Owns w.posted st)) (advance q st)
      (ends (fun st' w => Agreed A A.strict q st' w ∧ st'.For q) (fun _ _ => True)) := by
  have hq := normalizePolicy_idem hnorm
  unfold advance
  split
  · exact .ret fun _ _ _ => trivial
  · rename_i hstale
    split
    · rename_i hrev
      split
      · exact .ret fun _ _ _ => trivial
      · rename_i hsame
        -- the request is for the policy in memory: nothing is saved
        refine .ret fun w hw ⟨hmem, hmay, hown⟩ => ?_
        subst hmem
        have hpol : q = w.mem.policy := not_not.mp hsame
        refine ⟨⟨fun hs => ?_, hrev.symm, hown⟩, hrev.symm, hpol.symm, hw.mem⟩
        have hheld := hmay hs (hq.2.symm.trans hrev) (hpol ▸ hnorm)
        rwa [← hpol] at hheld
    · have hst : State.For q { st with revision := q.revision, policy := q } :=
        ⟨rfl, rfl, fun _ => ⟨hq.1, rfl⟩, hvalid.managed⟩
      have hids : ∀ posted, Owns posted st →
          Owns posted { st with revision := q.revision, policy := q } :=
        fun _ h => ⟨h.distinct, h.posted⟩
      refine .pre (kept_record A.strict hst (fun _ h => h)
        (Triple.ret fun w _ hw => ⟨hw, hst⟩)) fun w hw => ⟨?_, fun hh => hids _ (hw.2.2 hh)⟩
      rw [hw.1]
      omega

theorem kept_apply (requested : Policy) :
    Serves (kept A ok) (fun w => MayApply A.strict requested w.mem w.disk) (apply requested)
      (ends (fun _ w => A.strict → ∃ q, normalizePolicy requested = .ok q ∧ Holds q w)
        (fun _ _ => True)) := by
  unfold apply
  split
  · exact .ret fun _ _ _ => trivial
  · rename_i q hnorm
    have hq := (normalizePolicy_idem hnorm).1
    refine .seq (kept_outside (P := fun m d _ => MayApply A.strict requested m d)
      ((verifyBridges_uses _).mono fun _ he => .inl he)) (fun _ _ _ _ => trivial) fun _ => ?_
    refine .step (kept_lock (P := fun m d _ => MayApply A.strict requested m d)) fun st =>
      Triple.given fun hvalid => ?_
    refine .chain (kept_advance hnorm hvalid) (fun _ _ _ _ => trivial) fun st =>
      Triple.given fun hst => ?_
    refine .chain (kept_reconcileRfw A.strict hq hst) (fun _ _ _ _ => trivial) fun st =>
      Triple.given fun _ => ?_
    refine .seq (agreed_outside ((applyAbuse_uses _).mono fun _ he => .inl he))
      (fun _ _ _ _ => trivial) fun _ => ?_
    exact .ret fun w _ hw hs => ⟨q, hnorm, hw.1 hs⟩

theorem kept_reconcile :
    Serves (kept A ok) (fun _ => True) reconcile (ends (fun _ _ => True) (fun _ _ => True)) := by
  refine .step (kept_lock (P := fun _ _ _ => True)) fun st => .given fun hvalid => ?_
  have haside : ∀ {α : Type} {p : Prog World Input Act α}, p.Uses Act.Aside →
      Serves (kept A ok) (fun w => w.mem = st ∧ True ∧ (A.honest → Owns w.posted st)) p
        (fun _ w => w.mem = st ∧ True ∧ (A.honest → Owns w.posted st)) := fun hp =>
    kept_outside (P := fun m _ posted => m = st ∧ True ∧ (A.honest → Owns posted st))
      (hp.mono fun _ he => .inl he)
  split
  · exact .ret fun _ _ _ => trivial
  · rename_i hrev
    refine .attemptBind (haside (verifyBridges_uses _)) fun r => ?_
    cases r with
    | error e =>
      refine .attemptBind (haside (applyAbuse_uses _)) fun r => ?_
      cases r <;> exact .ret fun _ _ _ => trivial
    | ok _ =>
      obtain ⟨hnorm, hpol⟩ := hvalid.policy hrev
      have hst : st.For st.policy := ⟨hpol.symm, rfl, hvalid⟩
      refine .chain (Triple.pre (kept_reconcileRfw False hnorm hst)
        fun w hw => ⟨False.elim, hw.1 ▸ hpol.symm, hw.2.2⟩) (fun _ _ _ _ => trivial) fun st =>
          Triple.given fun _ => ?_
      exact .post (agreed_outside ((applyAbuse_uses _).mono fun _ he => .inl he))
        fun r _ _ _ => by cases r <;> trivial

/-- What `delete_manual_rule` knows of RFW after it has listed the rules. -/
def Listed (st : State) (rows : List RawRule) (w : World) : Prop :=
  w.mem = st ∧ w.listed = rows ∧ (w.quiet = true → w.rules = rows)

instance stable_listed {st : State} {rows : List RawRule} :
    Stable (kept A ok) self (Listed st rows) := by
  refine stable_of_others fun {p e s i} he _ _ hs => ?_
  cases e with
  | change rules => exact ⟨hs.1, hs.2.1, nofun⟩
  | _ => exact he.elim

theorem kept_listed (st : State) :
    Serves (kept A ok) (fun w => w.mem = st) listRules
      (ends (fun rows => Listed st rows) (fun _ _ => True)) := by
  refine .procBind (R := fun r w => r.1 = 200 → Listed st r.2.2 w) ?_ ?_
  · refine .perform fun w i _ hw _ _ => ⟨may_self.mpr ⟨fun _ => trivial, trivial⟩, ?_⟩
    cases hr : w.listing i with
    | error e => trivial
    | ok code =>
      rintro (rfl : code = 200)
      show Listed st w.rules (w.apply i .getRules)
      simp only [World.apply, hr, Except.toOption, if_true]
      exact ⟨hw, rfl, fun _ => rfl⟩
  · rintro ⟨code, body, rows⟩
    dsimp only
    split
    · exact .ret fun _ _ _ => trivial
    · rename_i hcode
      split
      · exact .ret fun _ _ _ => trivial
      · split
        · exact .ret fun _ _ _ => trivial
        · exact .ret fun w _ hw => hw (not_not.mp hcode)

theorem kept_deleteManualRule (expected : RuleReadback) :
    Serves (kept A ok) (fun _ => True) (deleteManualRule expected)
      (ends (fun _ _ => True) (fun _ _ => True)) := by
  unfold deleteManualRule
  split
  · exact .ret fun _ _ _ => trivial
  · rename_i hexp
    simp only [not_or, not_not, Bool.not_eq_true', Bool.not_eq_false] at hexp
    obtain ⟨-, horigin, hsync, hkey⟩ := hexp
    refine .step (kept_lock (P := fun _ _ _ => True)) fun st => ?_
    split
    · exact .ret fun _ _ _ => trivial
    · rename_i hmanaged
      refine .chain ((kept_listed st).pre fun _ hw => hw.1.1) (fun _ _ _ _ => trivial)
        fun rows => ?_
      split
      · exact .ret fun _ _ _ => trivial
      · rename_i current hfind
        split
        · exact .ret fun _ _ _ => trivial
        · rename_i hsame
          have hrow : readbackRule current = expected :=
            (sameReadback_iff horigin (String.isEmpty_iff.mp hkey) hsync).mp (by simpa using hsame)
          have hid : current.id = expected.id := by simpa using List.find?_some hfind
          have hmem : current ∈ rows := List.mem_of_find?_eq_some hfind
          have hown : expected.id ∉ st.ids := by
            intro h
            obtain ⟨r, hr, hrid⟩ := List.mem_map.mp h
            exact hmanaged (List.any_eq_true.mpr ⟨r, hr, by simp [hrid]⟩)
          refine .chain (R := fun _ _ => True) (E := fun _ _ => True)
            (Triple.perform fun w i _ hw _ _ => ?_)
            (fun _ _ _ _ => trivial) fun r => ?_
          · refine ⟨may_self.mpr ⟨fun _ => ⟨hw.1 ▸ hown, current, hw.2.1 ▸ hmem, hid, hrow,
              fun hq => ?_⟩, trivial⟩, ?_⟩
            · exact hw.2.2 hq ▸ hmem
            · cases i.reply <;> trivial
          · dsimp only
            split <;> exact .ret fun _ _ _ => trivial

theorem manager_keeps {calls : Call → World → Prop}
    (hcalls : ∀ k w, A.strict → calls k w → OnlySavedAgain k w) :
    Sound manager calls (kept A ok) (fun _ => True) where
  code k := by
    cases k with
    | apply requested =>
      refine .bind ((kept_apply requested).pre fun w hw hs =>
        hcalls _ w hs hw.2) fun r => ?_
      cases r with
      | error e => exact .ret fun _ _ _ => trivial
      | ok text =>
        exact .perform fun w i _ hw _ _ => ⟨may_self.mpr ⟨fun _ => trivial, hw⟩, trivial⟩
    | reconcile =>
      refine .bind (kept_reconcile.pre fun _ _ => trivial) fun r => ?_
      exact (Triple.ret fun _ _ _ => trivial).pre fun _ _ => trivial
    | deleteManualRule expected =>
      refine .bind ((kept_deleteManualRule expected).pre fun _ _ => trivial) fun r => ?_
      exact (Triple.ret fun _ _ _ => trivial).pre fun _ _ => trivial
  restart w w' hw h := by
    obtain ⟨hload, hvalid⟩ := hw.load
    obtain ⟨st, hload', rfl⟩ := restart_eq_some h
    cases hload.symm.trans hload'
    refine ⟨⟨⟨hvalid, hw.file, le_refl _, hw.acked⟩, fun hh => ?_⟩, trivial⟩
    have hown := hw.owned hh
    refine { hown with mem := ?_ }
    cases hd : w.disk with
    | none => exact owns_empty _
    | some st => exact hown.disk st hd
  others p e w hp he _ := ⟨fun h => absurd h hp, fun _ => he⟩

theorem persisted_start (hmem : w.mem = {}) (hdisk : w.disk = none)
    (hacked : strict → w.acked = []) : Persisted strict w := by
  refine ⟨hmem ▸ State.valid_default, fun st hst => ?_, ?_, fun hs p hp => ?_⟩
  · rw [hdisk] at hst
    cases hst
  · rw [hdisk, hmem]
    exact le_refl _
  · rw [hacked hs] at hp
    cases hp

end RunmanAgent.HostPolicy
