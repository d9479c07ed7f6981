import RunmanAgent.Runtime.Triples

/-!
# A deleted instance keeps no port forward

`DeleteVm` removes the instance and then its port forwards; `SetPortFwd` and `DelPortFwd`
take no lock of the instance. After a `DeleteVm` no rule of the instance is left
(`deleteVm_leaves_no_forward`), as long as the instance still has its record when an add
makes its last check under the forwards lock. The condition is needed: `add` looks for the
record before it takes the forwards lock, so the whole delete fits between the check and
the insertion (`add_outlives_delete`).

Rules of the discipline: the table is changed by the holder of the forwards lock, and
released in a state where the file has no rules that memory does not have. `Stale` says
that the record was gone when the forwards lock was last taken; in a stale state nobody
brings rules of the instance back.
-/

namespace RunmanAgent

open Concurrency

/-- A list of rules has one of the instance. -/
def HasRule (id : VmId) (fs : List PortForward) : Prop := ∃ f ∈ fs, f.vmId = id

def HasStored (id : VmId) (json : Option (List StoredForward)) : Prop :=
  ∃ s ∈ json.getD [], s.vmId = id.asStr

variable {id : VmId}

theorem hasStored_ofForward {fs : List PortForward} :
    HasStored id (some (fs.map .ofForward)) ↔ HasRule id fs := by
  constructor
  · rintro ⟨s, hs, hid⟩
    obtain ⟨f, hf, rfl⟩ := List.mem_map.mp hs
    exact ⟨f, hf, VmId.asStr_injective hid⟩
  · rintro ⟨f, hf, rfl⟩
    exact ⟨.ofForward f, List.mem_map_of_mem hf, rfl⟩

/-- The commands that are interleaved, with whatever happens on the host. -/
def Op.isForwardCommand : Op → Bool
  | .idle | .deleteVm _ | .setPortFwd _ | .delPortFwd _ _ _ | .host _ => true
  | _ => false

/-- The last check of an add finds the record of the instance. -/
def AddChecks (ops : Pid → Op) (p : Pid) (e : Act) (w : World) (_ : Oracle) : Prop :=
  match ops p, e with
  | .setPortFwd rule, .query (.hostListening _ _) => (w.record rule.vmId).isSome
  | _, _ => True

instance (ops : Pid → Op) (p : Pid) (e : Act) (w : World) (i : Oracle) :
    Decidable (AddChecks ops p e w i) := by
  unfold AddChecks
  split <;> infer_instance

/-! ## Stale states -/

/-- The record of `id` was removed after the forwards lock was last taken. -/
def RemovedSince (id : VmId) : List Event → Prop
  | [] => False
  | .removed _ id' :: log => id' = id ∨ RemovedSince id log
  | .acquired _ .forwards :: _ => False
  | _ :: log => RemovedSince id log

/-- The record of `id` was gone when the forwards lock was last taken. -/
def Stale (id : VmId) (w : World) : Prop := w.record id = none ∧ ¬ RemovedSince id w.log

theorem removedSince_cons {ev : Event} {log : List Event} (h : ∀ p, ev ≠ .acquired p .forwards)
    (hlog : RemovedSince id log) : RemovedSince id (ev :: log) := by
  unfold RemovedSince
  split
  · rename_i heq
    cases heq
  · rename_i heq
    cases heq
    exact .inr hlog
  · rename_i heq
    cases heq
    exact absurd rfl (h _)
  · rename_i heq
    cases heq
    exact hlog

theorem removedSince_of_cons {ev : Event} {log : List Event} (h : RemovedSince id (ev :: log)) :
    (∃ p, ev = .removed p id) ∨ RemovedSince id log := by
  unfold RemovedSince at h
  split at h
  · rename_i heq
    cases heq
  · rename_i heq
    cases heq
    rcases h with rfl | h
    · exact .inl ⟨_, rfl⟩
    · exact .inr h
  · exact h.elim
  · rename_i heq
    cases heq
    exact .inr h

section Steps

variable {e : Act} {p : Pid} {w : World} {i : Oracle} {id : VmId}

theorem gone_apply (he : ∀ ch rec, e ≠ .writeRecord ch rec) (h : w.record id = none) :
    (e.apply p w i).record id = none := by
  rcases e.apply_record p w i id with hr | ⟨ch, rec, hw, -, -⟩ | ⟨-, hr⟩
  · exact hr.trans h
  · exact absurd hw (he ch rec)
  · exact hr

theorem Stale.apply (he : ∀ ch rec, e ≠ .writeRecord ch rec) (h : Stale id w) :
    Stale id (e.apply p w i) := by
  refine ⟨gone_apply he h.1, fun hrem => h.2 ?_⟩
  rcases e.apply_log p w i with hl | ⟨ev, hev, -, hl⟩
  · exact hl ▸ hrem
  · rw [hl] at hrem
    rcases removedSince_of_cons hrem with ⟨q, rfl⟩ | hrem
    · -- only the removal of a record that is there is an event
      cases hev with
      | unlink _ hrec =>
        rw [h.1] at hrec
        cases hrec
    · exact hrem

theorem stale_of_apply (he : e ≠ .acquire .forwards) (h : Stale id (e.apply p w i)) :
    Stale id w := by
  obtain ⟨hrec, hrem⟩ := h
  have hkeep : RemovedSince id w.log → RemovedSince id (e.apply p w i).log := by
    intro hlog
    rcases e.apply_log p w i with hl | ⟨ev, hev, -, hl⟩
    · exact hl ▸ hlog
    · rw [hl]
      refine removedSince_cons (fun q hq => ?_) hlog
      subst hq
      cases hev
      exact he rfl
  refine ⟨?_, fun hlog => hrem (hkeep hlog)⟩
  rcases e.apply_record p w i id with hr | ⟨ch, rec, -, -, hr⟩ | ⟨rfl, -⟩
  · exact hr.symm.trans hrec
  · rw [hr] at hrec
    cases hrec
  · by_contra hsome
    have hsome : (w.record id).isSome := Option.isSome_iff_ne_none.mpr hsome
    rcases (Act.unlink id .record).apply_cases p w i with ⟨-, hp⟩ | hp
    · refine hrem ?_
      rw [hp]
      simp [Act.perform, hsome, RemovedSince]
    · rw [hp] at hrec
      simp [hrec] at hsome

end Steps

/-! ## The discipline -/

/-- Neither copy of the table has a rule of `id`, and nobody brings one back. -/
structure Purged (id : VmId) (w : World) : Prop where
  stale : Stale id w
  memory : ¬ HasRule id w.forwards
  file : ¬ HasStored id w.forwardsJson

/-- The file has no rule of `id` unless memory has one. -/
def Covered (id : VmId) (w : World) : Prop :=
  HasStored id w.forwardsJson → HasRule id w.forwards

/-- A new table may replace the one in memory. -/
def MayReplace (id : VmId) (w : World) (next : List PortForward) : Prop :=
  Stale id w → HasRule id next → HasRule id w.forwards

def PurgeDuty (ops : Pid → Op) (id : VmId) (p : Pid) (e : Act) (w : World) : Prop :=
  match e with
  | .writeRecord _ _ => False
  | .writeForwards stored =>
    Holds p .forwards w ∧ ∃ next, stored = next.map .ofForward ∧ MayReplace id w next
  | .setForwards next => Holds p .forwards w ∧ MayReplace id w next
  | .release .forwards => Holds p .forwards w → Covered id w
  | .reply r => ops p = .deleteVm id → r = .ok () → Purged id w
  | _ => True

/-- Between two changes of the table the file is covered, and a successful delete has
purged it. -/
structure PurgeInv (ops : Pid → Op) (id : VmId) (w : World) : Prop where
  covered : w.locks .forwards = none → Covered id w
  purged : ∀ p, ops p = .deleteVm id → .replied p (.ok ()) ∈ w.log → Purged id w

section Discipline

variable {ops : Pid → Op} {id : VmId} {e : Act} {p : Pid} {w : World} {i : Oracle}

theorem PurgeDuty.no_write (h : PurgeDuty ops id p e w) (ch : Change) (rec : Record) :
    e ≠ .writeRecord ch rec := by
  rintro rfl
  exact h

theorem Purged.apply (hd : PurgeDuty ops id p e w) (h : Purged id w) :
    Purged id (e.apply p w i) := by
  refine ⟨h.stale.apply hd.no_write, ?_, ?_⟩
  · rcases e.apply_forwards p w i with hf | ⟨next, rfl, hf⟩
    · rw [hf]
      exact h.memory
    · rw [hf]
      exact fun hnext => h.memory (hd.2 h.stale hnext)
  · rcases e.apply_forwardsJson p w i with hf | ⟨stored, rfl, hf⟩
    · rw [hf]
      exact h.file
    · obtain ⟨-, next, rfl, hmay⟩ := hd
      rw [hf, hasStored_ofForward]
      exact fun hnext => h.memory (hmay h.stale hnext)

theorem table_of_ne {me : Pid} (hne : p ≠ me) (hd : PurgeDuty ops id p e w)
    (hk : Holds me .forwards w) :
    (e.apply p w i).forwards = w.forwards ∧ (e.apply p w i).forwardsJson = w.forwardsJson := by
  have hother : ¬ Holds p .forwards w := fun hp => hne (Option.some.inj (hp.symm.trans hk))
  constructor
  · rcases e.apply_forwards p w i with hf | ⟨next, rfl, -⟩
    · exact hf
    · exact absurd hd.1 hother
  · rcases e.apply_forwardsJson p w i with hf | ⟨stored, rfl, -⟩
    · exact hf
    · exact absurd hd.1 hother

theorem PurgeInv.apply (hinv : PurgeInv ops id w) (hd : PurgeDuty ops id p e w) :
    PurgeInv ops id (e.apply p w i) := by
  constructor
  · intro hfree
    rcases e.apply_locks p w i .forwards with hk | ⟨-, hk⟩ | ⟨rfl, hk, -⟩
    · have hlock : w.locks .forwards = none := hk.symm.trans hfree
      have hno : ¬ Holds p .forwards w := fun h => by cases hlock.symm.trans h
      have hcov := hinv.covered hlock
      unfold Covered at hcov ⊢
      rcases e.apply_forwards p w i with hf | ⟨next, rfl, -⟩
      · rcases e.apply_forwardsJson p w i with hj | ⟨stored, rfl, -⟩
        · rwa [hf, hj]
        · exact absurd hd.1 hno
      · exact absurd hd.1 hno
    · rw [hk] at hfree
      cases hfree
    · -- the holder releases the lock: its duty
      have hcov : Covered id w := hd hk
      simp only [Act.apply, Act.check, Act.perform]
      split <;> exact hcov
  · intro q hq hlog
    rcases e.apply_log p w i with hl | ⟨ev, hev, -, hl⟩
    · exact (hinv.purged q hq (hl ▸ hlog)).apply hd
    · rw [hl] at hlog
      rcases hlog with _ | ⟨_, hlog⟩
      · cases hev with
        | reply r => exact (hd hq rfl).apply hd
      · exact (hinv.purged q hq hlog).apply hd

end Discipline

def purgeDiscipline (ops : Pid → Op) (id : VmId) : Discipline agent where
  inv := PurgeInv ops id
  may := PurgeDuty ops id
  ok := AddChecks ops
  keeps hinv _ hd _ := hinv.apply hd

/-! ## Code under the forwards lock -/

section Locked

variable {ops : Pid → Op} {id : VmId} {me : Pid} {α : Type}

abbrev Purges (ops : Pid → Op) (id : VmId) (me : Pid) (P : World → Prop)
    (x : Prog World Oracle Act α) (Q : α → World → Prop) : Prop :=
  Triple (purgeDiscipline ops id) (PurgeDuty ops id) me P x Q

/-- Nothing is said about a failure. -/
abbrev Achieves (ops : Pid → Op) (id : VmId) (me : Pid) (P : World → Prop) (x : Agent α)
    (Q : α → World → Prop) : Prop :=
  Purges ops id me P x (ends Q fun _ _ => True)

/-- `me` holds the forwards lock, and the table is as given, in memory and on disk. -/
structure Table (me : Pid) (fs : List PortForward) (json : Option (List StoredForward))
    (w : World) : Prop where
  holds : Holds me .forwards w
  memory : w.forwards = fs
  file : w.forwardsJson = json

instance stable_table (fs : List PortForward) (json : Option (List StoredForward)) :
    Stable (purgeDiscipline ops id) me (Table me fs json) := by
  refine .of_step fun h hne _ hen hd _ => ?_
  obtain ⟨hf, hj⟩ := table_of_ne hne hd h.holds
  exact ⟨Act.apply_locks_of_ne hne hen h.holds, hf.trans h.memory, hj.trans h.file⟩

instance stable_stale : Stable (purgeDiscipline ops id) me (Stale id) :=
  .of_step fun h _ _ _ hd _ => h.apply hd.no_write

instance stable_gone : Stable (purgeDiscipline ops id) me (fun w => w.record id = none) :=
  .of_step fun h _ _ _ hd _ => gone_apply hd.no_write h

instance stable_purged : Stable (purgeDiscipline ops id) me (Purged id) :=
  .of_step fun h _ _ _ hd _ => h.apply hd

/-- A state that is not stale stays so while the lock is held: the others cannot take
it. -/
theorem stable_fresh (R : Prop) :
    Stable (purgeDiscipline ops id) me (fun w => Holds me .forwards w ∧ (Stale id w → R)) where
  keep := by
    rintro w _ ⟨hk, h⟩ ⟨p, e, i, hne, -, hen, -, -⟩
    refine ⟨Act.apply_locks_of_ne hne hen hk, fun hs => h (stale_of_apply ?_ hs)⟩
    rintro rfl
    have hlock : w.locks .forwards = some me := hk
    simp [agent, Act.enabled, hlock] at hen

/-- What the steps of a task under this discipline keep, its own included. -/
class Framed (ops : Pid → Op) (id : VmId) (me : Pid) (X : World → Prop) : Prop
    extends Stable (purgeDiscipline ops id) me X where
  own : ∀ {e w i}, (∀ ch rec, e ≠ Act.writeRecord ch rec) → X w → X (e.apply me w i)

instance framed_true : Framed ops id me (fun _ => True) where
  own _ _ := trivial

instance framed_stale : Framed ops id me (Stale id) where
  own he h := h.apply he

instance framed_gone : Framed ops id me (fun w => w.record id = none) where
  own he h := gone_apply he h

variable {X : World → Prop} {fs : List PortForward} {json : Option (List StoredForward)}

section Framed

variable [hX : Framed ops id me X]

instance framed_imp (R : Prop) : Framed ops id me (fun w => R → X w) where
  own he h hR := hX.own he (h hR)

theorem fine_framed {e : Act} (hd : ∀ w, PurgeDuty ops id me e w) :
    Fine (purgeDiscipline ops id) (PurgeDuty ops id) me X e :=
  fun w _ _ hw _ _ => ⟨hd w, hX.own (hd w).no_write hw⟩

/-- `me` holds the forwards lock and may put `next` in the place of `fs`. -/
structure Replacing (me : Pid) (id : VmId) (fs next : List PortForward)
    (json : Option (List StoredForward)) (X : World → Prop) (w : World) : Prop
    extends Table me fs json w where
  frame : X w
  may : Stale id w → HasRule id next → HasRule id fs

instance stable_replacing (fs next : List PortForward) (json : Option (List StoredForward)) :
    Stable (purgeDiscipline ops id) me (Replacing me id fs next json X) where
  keep w w' h ho := by
    have htable := (stable_table fs json).keep w w' h.toTable ho
    exact ⟨htable, hX.keep w w' h.frame ho, ((stable_fresh _).keep w w' ⟨h.holds, h.may⟩ ho).2⟩

theorem rulesetActs_replacing (fs next : List PortForward)
    (json : Option (List StoredForward)) :
    RulesetActs (Fine (purgeDiscipline ops id) (PurgeDuty ops id) me
      (Replacing me id fs next json X)) := by
  have hkeep : ∀ e : Act, (∀ k, e ≠ .acquire k) → (∀ k, e ≠ .release k) →
      (∀ l, e ≠ .writeForwards l) → (∀ l, e ≠ .setForwards l) →
      (∀ w, PurgeDuty ops id me e w) →
      Fine (purgeDiscipline ops id) (PurgeDuty ops id) me (Replacing me id fs next json X) e := by
    intro e hacq hrel hwf hsf hd w i _ h _ _
    refine ⟨hd w, ⟨holds_apply (hrel _) h.holds, ?_, ?_⟩, hX.own (hd w).no_write h.frame,
      fun hs => h.may (stale_of_apply (hacq _) hs)⟩
    · rcases e.apply_forwards me w i with hf | ⟨l, he, -⟩
      · exact hf.trans h.memory
      · exact absurd he (hsf l)
    · rcases e.apply_forwardsJson me w i with hf | ⟨l, he, -⟩
      · exact hf.trans h.file
      · exact absurd he (hwf l)
  exact ⟨fun q => hkeep _ (by simp) (by simp) (by simp) (by simp) fun _ => trivial,
    fun rules => hkeep _ (by simp) (by simp) (by simp) (by simp) fun _ => trivial⟩

theorem purges_replaceForwards (rt : Runtime) (fs next : List PortForward)
    (json : Option (List StoredForward)) :
    Purges ops id me (Replacing me id fs next json X) (rt.replaceForwards next)
      (ends (fun _ w => Table me next (some (next.map .ofForward)) w ∧ X w)
        (fun _ => Table me fs json)) := by
  refine .seq (Triple.of_uses (uses_applyNetwork (rulesetActs_replacing _ _ _) rt next))
    (fun _ _ _ h => h.toTable) fun _ => ?_
  refine .procBind (R := fun _ => Replacing me id fs next (some (next.map .ofForward)) X)
    ?_ fun _ => ?_
  · refine .perform fun w i _ h _ _ => ?_
    have hmay : MayReplace id w next := fun hs hn => h.memory ▸ h.may hs hn
    refine ⟨⟨h.holds, next, rfl, hmay⟩, ?_⟩
    have hX' : X ((Act.writeForwards (next.map .ofForward)).apply me w i) :=
      hX.own (by simp) h.frame
    cases hc : (Act.writeForwards (next.map .ofForward)).check w i with
    | ok u =>
      simp only [Act.apply, hc, Act.perform] at hX'
      simp only [ends_ok, agent_apply, Act.apply, hc, Act.perform]
      exact ⟨⟨h.holds, h.memory, rfl⟩, hX', h.may⟩
    | error e =>
      simp only [ends_error, agent_apply, Act.apply, hc]
      exact h.toTable
  · refine .perform fun w i _ h _ _ => ?_
    have hmay : MayReplace id w next := fun hs hn => h.memory ▸ h.may hs hn
    have hX' : X ((Act.setForwards next).apply me w i) := hX.own (by simp) h.frame
    exact ⟨⟨h.holds, hmay⟩, ⟨h.holds, rfl, h.file⟩, hX'⟩

end Framed

/-- Before the forwards lock is released. -/
structure Ready (me : Pid) (id : VmId) (X : World → Prop) (w : World) : Prop where
  holds : Holds me .forwards w
  covered : Covered id w
  frame : X w

instance stable_ready [hX : Stable (purgeDiscipline ops id) me X] :
    Stable (purgeDiscipline ops id) me (Ready me id X) where
  keep w w' h ho := by
    have hX' := hX.keep w w' h.frame ho
    obtain ⟨p, e, i, hne, -, hen, hd, -⟩ := ho
    obtain ⟨hf, hj⟩ := table_of_ne (i := i) hne hd h.holds
    refine ⟨Act.apply_locks_of_ne hne hen h.holds, ?_, hX'⟩
    have hcov := h.covered
    unfold Covered at hcov ⊢
    rwa [agent_apply, hf, hj]

theorem purges_withForwards {P : World → Prop} {R : Except Err α → World → Prop}
    {f : List PortForward → Agent α} [Stable (purgeDiscipline ops id) me P] [Framed ops id me X]
    [∀ r, Stable (purgeDiscipline ops id) me (R r)]
    (hacq : ∀ w i, P w → X ((Act.acquire .forwards).apply me w i))
    (hf : ∀ fs json, (HasStored id json → HasRule id fs) →
      Purges ops id me (fun w => Table me fs json w ∧ X w) (f fs) (fun r => Ready me id (R r)))
    (hrel : ∀ r w i, Covered id w → R r w → R r ((Act.release .forwards).apply me w i)) :
    Purges ops id me P (Runtime.withForwards f) R := by
  refine .bracket (B := Ready me id X) ?_ (R := fun r => Ready me id (R r)) ?_
    (fun r => ?_)
  · refine .perform fun w i hinv hw hen _ => ?_
    have hfree : w.locks .forwards = none := by simpa [agent, Act.enabled] using hen
    refine ⟨trivial, ?_, hinv.covered hfree, hacq w i hw⟩
    simp [Act.apply, Act.check, Act.perform, Holds]
  · -- the table that is read is the table as long as the lock is held
    intro w hw
    have hcov : HasStored id w.forwardsJson → HasRule id w.forwards := hw.covered
    refine (show Purges ops id me (fun v => Table me w.forwards w.forwardsJson v ∧ X v) _ _
      from ?_) w ⟨⟨hw.holds, rfl, rfl⟩, hw.frame⟩
    refine .procBind (R := fun fs v => (Table me w.forwards w.forwardsJson v ∧ X v) ∧
      fs = w.forwards) ?_ fun fs v hv => ?_
    · exact .perform fun v i _ h _ _ => ⟨trivial, h, h.1.memory⟩
    · obtain ⟨htable, rfl⟩ := hv
      exact hf _ _ hcov v htable
  · refine .perform fun w i _ h _ _ => ?_
    exact ⟨fun _ => h.covered, hrel r w i h.covered h.frame⟩

theorem Table.covered {w : World} (h : Table me fs json w)
    (hcov : HasStored id json → HasRule id fs) : Covered id w := by
  unfold Covered
  rwa [h.memory, h.file]

theorem Table.ready {w : World} (h : Table me fs json w) (hcov : HasStored id json → HasRule id fs)
    (hX : X w) : Ready me id X w :=
  ⟨h.holds, h.covered hcov, hX⟩

theorem purges_retainLocked [Framed ops id me X] (rt : Runtime) (keep : PortForward → Bool)
    (hcov : HasStored id json → HasRule id fs) {R : Except Err Unit → World → Prop}
    (hok : ∀ w fs' json', Table me fs' json' w → X w → (HasStored id json' → HasRule id fs') →
      (∀ f ∈ fs', keep f = true) → R (.ok ()) w) (herr : ∀ e w, R (.error e) w) :
    Purges ops id me (fun w => Table me fs json w ∧ X w) (rt.retainLocked keep fs)
      (fun r => Ready me id (R r)) := by
  unfold Runtime.retainLocked
  dsimp only
  split
  · rename_i hlen
    have hall : ∀ f ∈ fs, keep f = true := List.length_filter_eq_length_iff.mp hlen
    exact .ret fun w _ h => h.1.ready hcov (hok w fs json h.1 h.2 hcov hall)
  · -- a table with fewer rules never brings one back
    have hmay : HasRule id (fs.filter keep) → HasRule id fs := by
      rintro ⟨f, hf, hid⟩
      exact ⟨f, List.mem_of_mem_filter hf, hid⟩
    refine ((purges_replaceForwards rt fs (fs.filter keep) json).pre
      fun w h => ⟨h.1, h.2, fun _ => hmay⟩).post fun r w _ h => ?_
    cases r with
    | ok u =>
      have hcov' : HasStored id (some ((fs.filter keep).map .ofForward)) →
          HasRule id (fs.filter keep) := hasStored_ofForward.mp
      exact h.1.ready hcov' (hok w _ _ h.1 h.2 hcov' fun f hf => (List.mem_filter.mp hf).2)
    | error e => exact h.ready hcov (herr e w)

theorem purges_addLocked (rt : Runtime) {rule : PortForward} (hop : ops me = .setPortFwd rule)
    (hcov : HasStored id json → HasRule id fs) :
    Purges ops id me (fun w => Table me fs json w ∧ True) (rt.addLocked rule fs)
      (fun _ => Ready me id (fun _ => True)) := by
  have hdone : ∀ w, Table me fs json w → Ready me id (fun _ => True) w :=
    fun w h => h.ready hcov trivial
  unfold Runtime.addLocked
  split
  · split <;> exact .ret fun w _ h => hdone w h.1
  · refine .procBind (R := fun _ => Replacing me id fs (fs ++ [rule]) json fun _ => True)
      ?_ fun listening => ?_
    · refine .perform fun w i _ h _ hchecks => ?_
      have hrec : (w.record rule.vmId).isSome := by
        simpa only [purgeDiscipline, AddChecks, hop] using hchecks
      refine ⟨trivial, h.1, trivial, fun hstale hnew => ?_⟩
      -- a rule of another instance is no rule of `id`; one of `id` has a record
      have hnone : w.record id = none := hstale.1
      obtain ⟨f, hf, hid⟩ := hnew
      rcases List.mem_append.mp hf with hf | hf
      · exact ⟨f, hf, hid⟩
      · rw [← List.mem_singleton.mp hf, hid, hnone] at hrec
        cases hrec
    split
    · exact .ret fun w _ h => hdone w h.toTable
    · refine (purges_replaceForwards rt fs _ json).post fun r w _ h => ?_
      cases r with
      | ok u => exact h.1.ready hasStored_ofForward.mp trivial
      | error e => exact hdone w h

end Locked

/-! ## Commands -/

section Commands

variable {ops : Pid → Op} {id : VmId} {me : Pid} {α : Type} {X : World → Prop}

section Framed

variable [hX : Framed ops id me X]

theorem purges_readForwards {f : List PortForward → Agent α}
    (hf : ∀ fs json, Prog.Uses (Fine (purgeDiscipline ops id) (PurgeDuty ops id) me
      (Replacing me id fs fs json X)) (f fs)) :
    Purges ops id me X (Runtime.withForwards f) (fun _ => X) := by
  refine purges_withForwards (fun w i h => hX.own (by simp) h) (fun fs json hcov => ?_)
    fun _ w i _ h => hX.own (by simp) h
  exact ((Triple.of_uses (hf fs json)).pre
    fun w h => ⟨h.1, h.2, fun _ hr => hr⟩).post fun _ w _ h => h.toTable.ready hcov h.frame

theorem purges_reconcileNetwork (rt : Runtime) :
    Purges ops id me X rt.reconcileNetwork (fun _ => X) :=
  purges_readForwards fun fs json => uses_applyNetwork (rulesetActs_replacing fs fs json) rt fs

theorem purges_uses {x : Agent α}
    (hx : Prog.Uses (fun e => ∀ w, PurgeDuty ops id me e w) x) :
    Purges ops id me X x (fun _ => X) :=
  .of_uses (hx.mono fun _ hd => fine_framed hd)

end Framed

abbrev Obeys (ops : Pid → Op) (id : VmId) (me : Pid) (x : Prog World Oracle Act α) : Prop :=
  Purges ops id me (fun _ => True) x fun _ _ => True

theorem achieves_of_purges {x : Agent α} (h : Purges ops id me X x fun _ => X) :
    Achieves ops id me X x fun _ => X := by
  refine h.post fun r w _ hw => ?_
  cases r with
  | ok a => exact hw
  | error e => trivial

theorem unitActs_purge (id' : VmId) : UnitActs (fun e => ∀ w, PurgeDuty ops id me e w) id' :=
  ⟨fun _ _ => trivial, fun _ => trivial, fun _ => trivial, fun _ => trivial, fun _ => trivial⟩

theorem record_rmdir {w : World} {i : Oracle} {p : Pid}
    (hc : (Act.rmdir id).check w i = .ok ()) : ((Act.rmdir id).apply p w i).record id = none := by
  simp [Act.apply, hc, Act.perform, World.record, World.recordFile]

theorem purges_removeDirAll (id' : VmId) :
    Achieves ops id me (fun _ => True) (removeDirAll id')
      (fun _ w => id' = id → w.record id = none) := by
  refine .seq (R := fun _ => True) (purges_uses (.perform fun _ => trivial))
    (fun _ _ _ h => h) fun files => ?_
  refine .seq (R := fun _ => True) (purges_uses
    (Proc.uses_forEach fun f => uses_act fun _ => trivial))
    (fun _ _ _ h => h) fun _ => ?_
  refine .perform fun w i _ _ _ _ => ?_
  refine ⟨trivial, ?_⟩
  cases hc : (Act.rmdir id').check w i with
  | ok u =>
    rintro rfl
    exact record_rmdir hc
  | error e => trivial

theorem purges_deleteLocked (rt : Runtime) (id' : VmId) :
    Achieves ops id me (fun _ => True) (rt.deleteLocked id')
      (fun _ w => id' = id → w.record id = none) := by
  have hskip : ∀ {β : Type} {x : Agent β} {f : β → Agent Unit},
      Prog.Uses (fun e => ∀ w, PurgeDuty ops id me e w) x →
      (∀ b, Achieves ops id me (fun _ => True) (f b) (fun _ w => id' = id → w.record id = none)) →
      Achieves ops id me (fun _ => True) (x >>= f : Agent Unit)
        (fun _ w => id' = id → w.record id = none) :=
    fun hx hf => .seq (purges_uses hx) (fun _ _ _ h => h) hf
  refine hskip (uses_halt (unitActs_purge id') true) fun _ => ?_
  refine hskip (uses_load (fun _ _ => trivial) id') fun old => ?_
  refine hskip (uses_doIf (uses_ignore (uses_helper (fun _ _ => trivial) _))) fun _ => ?_
  refine .procBind (R := fun present w => present = false → id' = id → w.record id = none)
    ?_ fun present => ?_
  · refine .perform fun w i _ _ _ _ => ⟨trivial, fun hp hid => ?_⟩
    subst hid
    have hnone : w.dirs.lookup id' = none := by simpa using hp
    show w.record id' = none
    simp [World.record, World.recordFile, hnone]
  refine .procBind (R := fun _ w => id' = id → w.record id = none) ?_ fun _ => ?_
  · cases present with
    | false => exact .ret fun w _ h => h rfl
    | true =>
      refine .pre ?_ fun w _ => trivial
      refine hskip (.perform fun _ => trivial) fun _ => ?_
      refine hskip (.perform fun _ => trivial) fun _ => ?_
      refine .bind (purges_removeDirAll id') fun r => ?_
      cases r with
      | ok u => exact .ret fun _ _ h => h
      | error e => exact .ret fun _ _ h => h
  · refine .seq (purges_uses (uses_act fun _ => trivial)) (fun _ _ _ _ => trivial) fun _ => ?_
    exact achieves_of_purges (purges_reconcileNetwork rt)

theorem purges_lock {k : LockId} (hk : k ≠ .forwards) {R : α → World → Prop}
    [∀ r, Stable (purgeDiscipline ops id) me (R r)]
    (hrel : ∀ {r w i}, R r w → R r ((Act.release k).apply me w i)) {x : Agent α}
    (hx : Achieves ops id me (fun _ => True) x R) :
    Achieves ops id me (fun _ => True) (Proc.bracket (.acquire k) (.release k) x) R := by
  refine .bracket (B := fun _ => True) ?_ hx (fun r => ?_)
  · exact .of_uses (.perform (fine_framed fun _ => trivial))
  · refine .perform fun w i _ h _ _ => ⟨?_, ?_⟩
    · cases k with
      | forwards => exact absurd rfl hk
      | _ => trivial
    · cases r with
      | ok a => exact hrel (i := i) h
      | error e => trivial

theorem purges_delete (rt : Runtime) (id' : VmId) :
    Achieves ops id me (fun _ => True) (rt.delete id')
      (fun _ w => id' = id → w.record id = none) := by
  have hframe : Framed ops id me (fun w => id' = id → w.record id = none) := inferInstance
  refine purges_lock (by simp) (fun h => hframe.own (by simp) h) ?_
  refine .procBind (purges_deleteLocked rt id') fun _ => ?_
  exact achieves_of_purges (purges_uses (uses_ignore (uses_helper (fun _ _ => trivial) _)))

theorem purges_removeAll (rt : Runtime) (id' : VmId) :
    Achieves ops id me (fun w => id' = id → w.record id = none) (rt.removeAll id')
      (fun _ w => id' = id → Purged id w) := by
  refine purges_withForwards (X := fun w => id' = id → Stale id w) ?_ (fun fs json hcov => ?_) ?_
  · intro w i hgone hid
    refine ⟨gone_apply (by simp) (hgone hid), ?_⟩
    simp [Act.apply, Act.check, Act.perform, RemovedSince]
  · refine purges_retainLocked rt _ hcov ?_ fun _ _ => trivial
    intro w fs' json' htable hstale hcov' hkeep hid
    subst hid
    have hnone : ¬ HasRule id' fs' := by
      rintro ⟨f, hf, hid⟩
      simpa [hid] using hkeep f hf
    exact ⟨hstale rfl, htable.memory ▸ hnone, htable.file ▸ fun h => hnone (hcov' h)⟩
  · intro r w i hcov h
    cases r with
    | ok u =>
      have hd : PurgeDuty ops id me (.release .forwards) w := fun _ => hcov
      exact fun hid => (h hid).apply hd
    | error e => trivial

theorem purges_deleteVm (rt : Runtime) (id' : VmId) :
    Achieves ops id me (fun _ => True) (rt.deleteVm id') (fun _ w => id' = id → Purged id w) := by
  refine purges_lock (by simp) ?_ ?_
  · intro _ w i h hid
    have hd : PurgeDuty ops id me (.release (.cmd id')) w := trivial
    exact (h hid).apply hd
  · exact .procBind (purges_delete rt id') fun _ => purges_removeAll rt id'

theorem purges_limitedAdd (rt : Runtime) {rule : PortForward}
    (hop : ops me = .setPortFwd rule) : Obeys ops id me (limitedAdd rt rule) := by
  have hadd : Obeys ops id me (Runtime.withForwards (rt.addLocked rule)) :=
    purges_withForwards (fun _ _ _ => trivial) (fun fs json hcov => purges_addLocked rt hop hcov)
      fun _ _ _ _ _ => trivial
  have hlist : Obeys ops id me (listForwards (some rule.vmId)) :=
    purges_readForwards fun _ _ => trivial
  refine (purges_lock (R := fun _ _ => True) (by simp) (fun _ => trivial)
    (achieves_of_purges ?_)).post fun _ _ _ _ => trivial
  refine Dutiful.seq hlist fun existing => ?_
  refine .seq (purges_uses (.perform fun _ => trivial)) fun max => ?_
  refine Dutiful.ret.seq fun _ => ?_
  exact Dutiful.seq (purges_uses (uses_require (fun _ _ => trivial) _)) fun _ => hadd

theorem purges_remove (rt : Runtime) (keep : PortForward → Bool) :
    Obeys ops id me (Runtime.withForwards (rt.retainLocked keep)) :=
  purges_withForwards (X := fun _ => True) (fun _ _ _ => trivial)
    (fun _ _ hcov => purges_retainLocked rt keep hcov (fun _ _ _ _ _ _ _ => trivial)
      fun _ _ => trivial) fun _ _ _ _ _ => trivial

theorem purges_replying {x : Agent Unit} {Q : Except Err Unit → World → Prop}
    (hx : Purges ops id me (fun _ => True) x Q)
    [∀ r, Stable (purgeDiscipline ops id) me (Q r)]
    (h : ∀ w, ops me = .deleteVm id → Q (.ok ()) w → Purged id w) :
    Obeys ops id me (replying x) := by
  refine .bind hx fun r => .perform fun w i _ hw _ _ => ?_
  refine ⟨fun hop hr => ?_, trivial⟩
  subst hr
  exact h w hop hw

theorem purges_op (rt : Runtime) (hop : (ops me).isForwardCommand = true) :
    Obeys ops id me ((ops me).prog rt) := by
  have hother : ∀ {x : Agent Unit}, ops me ≠ .deleteVm id →
      Obeys ops id me x →
      Obeys ops id me (replying x) :=
    fun hne hx => purges_replying hx fun _ h _ => absurd h hne
  cases hme : ops me with
  | idle => exact .ret fun _ _ _ => trivial
  | deleteVm id' =>
    refine purges_replying (purges_deleteVm rt id') fun w h hp => ?_
    rw [hme] at h
    cases h
    exact hp rfl
  | setPortFwd rule => exact hother (by simp [hme]) (purges_limitedAdd rt hme)
  | delPortFwd id' proto hostPort => exact hother (by simp [hme]) (purges_remove rt _)
  | host es => exact triple_host (fun _ => trivial) es
  | _ => rw [hme] at hop; cases hop

end Commands

/-! ## Every run -/

/-- Once a `DeleteVm` has succeeded, no rule of its instance is left or comes back. -/
theorem deleteVm_leaves_no_forward (rt : Runtime) (w : World) (ops : Pid → Op) (id : VmId)
    (hops : ∀ p, (ops p).isForwardCommand = true)
    (hfile : HasStored id w.forwardsJson → HasRule id w.forwards) (hlog : w.log = [])
    {P : Pool World Oracle Act}
    (hrun : Pool.Run agent (AddChecks ops) (agentPool rt w ops) P) {p : Pid}
    (hp : ops p = .deleteVm id) (hdone : .replied p (.ok ()) ∈ P.mem.log) :
    ¬ HasRule id P.mem.forwards ∧ ¬ HasStored id P.mem.forwardsJson := by
  have hinv : PurgeInv ops id w := ⟨fun _ => hfile, fun q _ h => by simp [hlog] at h⟩
  have hsafe : (agentPool rt w ops).Safe (purgeDiscipline ops id) (fun _ _ _ => True) :=
    ⟨hinv, fun q => purges_op rt (hops q) w trivial⟩
  have hpurged := (Pool.run_safe hsafe hrun).inv.purged p hp hdone
  exact ⟨hpurged.memory, hpurged.file⟩

namespace SmallNode

/-- The instance is deleted while a rule for it is added. -/
def deleteAndAdd : Pid → Op := two (.deleteVm vmA) (.setPortFwd ssh)

theorem isForwardCommand_deleteAndAdd (p : Pid) : (deleteAndAdd p).isForwardCommand = true := by
  match p with
  | 0 | 1 | _ + 2 => rfl

/-- The rule is added first, and the delete removes it. -/
theorem delete_after_add : ∃ P : Pool World Oracle Act,
    Pool.Run agent (AddChecks deleteAndAdd) (agentPool rt unforwarded deleteAndAdd) P ∧
    succeeded P.mem = [0, 1] ∧ ¬ HasRule vmA P.mem.forwards ∧
    ¬ HasStored vmA P.mem.forwardsJson := by
  refine Pool.exists_run_imp (p := fun P => succeeded P.mem = [0, 1]) (steps 1 18 ++ steps 0 33)
    (by decide +kernel) fun P hrun hdone => ⟨hdone, ?_⟩
  have hreplied : .replied 0 (.ok ()) ∈ P.mem.log := replied_of_succeeded (by simp [hdone])
  refine deleteVm_leaves_no_forward rt unforwarded deleteAndAdd vmA
    isForwardCommand_deleteAndAdd ?_ rfl hrun rfl hreplied
  rintro ⟨s, hs, -⟩
  cases hs

/-- The add has found the record when the delete starts, and inserts its rule when the
delete has finished. -/
theorem add_outlives_delete : ∃ P : Pool World Oracle Act,
    Pool.Run agent anyStep (agentPool rt unforwarded deleteAndAdd) P ∧
    succeeded P.mem = [1, 0] ∧ P.mem.record vmA = none ∧
    HasRule vmA P.mem.forwards ∧ HasStored vmA P.mem.forwardsJson := by
  refine Pool.exists_run_imp (p := fun P => succeeded P.mem = [1, 0] ∧ P.mem.record vmA = none ∧
      P.mem.forwards = [ssh] ∧ P.mem.forwardsJson = some [.ofForward ssh])
    (steps 1 6 ++ steps 0 28 ++ steps 1 11) (by decide +kernel)
    fun P _ ⟨hdone, hrec, hmemory, hfile⟩ => ?_
  refine ⟨hdone, hrec, ⟨ssh, by simp [hmemory], rfl⟩, .ofForward ssh, ?_, rfl⟩
  simp [hfile]

end SmallNode

end RunmanAgent
