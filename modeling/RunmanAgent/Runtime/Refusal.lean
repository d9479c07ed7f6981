import RunmanAgent.Concurrency.Discipline
import RunmanAgent.Runtime.Effects
import RunmanAgent.Runtime.Footprint
import RunmanAgent.Runtime.Ops

/-!
# Creates that are refused

A create or reinstall is refused when its image is unknown, disabled or not ready, or
when no index or address is left. Only one of these checks, whether the image is disabled,
comes before the instance that is there is removed (`create_refused_untouched_iff`). For
every other reason the instance is gone by then (`create_refused_removes`).

The call runs alone here, with any outcome of its system calls.
-/

namespace RunmanAgent

open Concurrency Proc

/-- The image cannot be used, or no slot is free. -/
def Err.isRefusal : Err → Bool
  | imageDisabled _ | invalidImageId _ | imageNotAvailable _ | imageMeta _ => true
  | noFreeSlot | noFreeAddress _ | ipv6PrefixTooSmall => true
  | _ => false

/-- Record, disk, counters and running state of `id` are the same. -/
structure Untouched (id : VmId) (w w' : World) : Prop where
  record : w'.recordFile id = w.recordFile id
  disk : (w'.dirs.lookup id).bind (·.disk) = (w.dirs.lookup id).bind (·.disk)
  traffic : w'.trafficFile id = w.trafficFile id
  unit : w'.units id = w.units id

/-! ## What the steps of a create fail with -/

/-- The program is not what refuses a create. -/
abbrev NoRefusal {α : Type} (x : Agent α) : Prop := Proc.Fails (fun e => e.isRefusal = false) x

theorem noRefusal_act (e : Act) : NoRefusal (act e) := fails_act (fun _ => rfl) e

theorem noRefusal_check (q : Query) :
    NoRefusal (Proc.perform (.query q) fun _ _ i => i.check : Agent Unit) :=
  fails_check (fun _ => rfl) q

theorem noRefusal_ignore {α : Type} (x : Agent α) : NoRefusal (ignore x) :=
  fails_bind (fails_attempt x) fun _ => fails_pure ()

theorem noRefusal_doIf {c : Bool} {x : Agent Unit} (h : NoRefusal x) : NoRefusal (doIf c x) := by
  unfold doIf
  split
  · exact h
  · exact fails_pure ()

theorem noRefusal_load (id : VmId) : NoRefusal (load id) := fails_load (fun _ => rfl) id

theorem noRefusal_records : NoRefusal records := fails_records fun _ => rfl

theorem noRefusal_reconcileNetwork (rt : Runtime) : NoRefusal rt.reconcileNetwork :=
  fails_bracket (fails_bind fails_read fun forwards =>
    fails_applyNetwork (fun _ => rfl) rt forwards)

theorem noRefusal_halt (id : VmId) (force : Bool) : NoRefusal (halt id force) := by
  refine fails_bind fails_read fun active => noRefusal_doIf ?_
  refine fails_bind (noRefusal_doIf (fails_bind (noRefusal_ignore _) fun _ =>
    fails_read)) fun _ => ?_
  -- an error of `systemctl stop` is passed on
  have hstop : NoRefusal (stopUnit id) := by
    refine fails_bind (noRefusal_act _) fun _ => fails_perform fun _ w i r h => ?_
    split at h
    · cases h
      rfl
    · exact @Oracle.check_error (fun e => e.isRefusal = false) (fun _ => rfl) i r h
  unfold stopOrGone
  rw [Proc.attempt_bind]
  refine .bind hstop fun r hr => ?_
  cases r with
  | ok u => exact fails_pure ()
  | error e =>
    refine fails_bind fails_read fun still => ?_
    split
    · exact fails_fail (hr e rfl)
    · exact fails_pure ()

theorem noRefusal_install (rt : Runtime) (rec : Record) (password : String) :
    NoRefusal (rt.install rec password) := by
  refine fails_bind (fails_attempt _) fun r => ?_
  cases r with
  | error e => exact fails_bind (noRefusal_ignore _) fun _ => fails_fail rfl
  | ok u =>
    refine fails_bind (noRefusal_reconcileNetwork rt) fun _ => ?_
    refine fails_bind (noRefusal_ignore _) fun _ => ?_
    refine fails_bind (fails_mapErr fun _ => rfl) fun _ => ?_
    refine fails_perform fun _ w i r h => ?_
    split at h
    · cases h
    · cases h
      rfl

/-! ## The instance is gone before the later checks -/

/-- The action leaves the instance directories alone. -/
def KeepsDirs (e : Act) : Prop := ∀ me w i, (e.apply me w i).dirs = w.dirs

theorem keepsDirs_of_perform {e : Act} (h : ∀ me w i, (e.perform me w i).dirs = w.dirs) :
    KeepsDirs e := by
  intro me w i
  rcases e.apply_cases me w i with ⟨-, hdone⟩ | hfailed
  · rw [hdone, h]
  · rw [hfailed]

theorem keepsDirs_release (k : LockId) : KeepsDirs (.release k) := by
  intro me w i
  simp only [Act.apply, Act.check, Act.perform]
  split <;> rfl

theorem netActs_keepsDirs : NetActs KeepsDirs where
  query _ _ _ _ := rfl
  acquire _ _ _ := rfl
  release := keepsDirs_release _
  nft _ := keepsDirs_of_perform fun _ _ _ => rfl

theorem unitActs_keepsDirs (id : VmId) : UnitActs KeepsDirs id where
  query _ _ _ _ := rfl
  killCt _ _ _ := rfl
  terminate := keepsDirs_of_perform fun _ _ _ => rfl
  removePid _ _ _ := rfl
  systemdRun := keepsDirs_of_perform fun _ _ _ => rfl

section Alone

variable {me : Pid} {α β : Type} {id : VmId}

/-- A call that runs alone. -/
abbrev Alone (me : Pid) (P : World → Prop) (x : Prog World Oracle Act α)
    (Q : α → World → Prop) : Prop :=
  Triple (Discipline.alone agent anyStep me) (fun _ _ _ => True) me P x Q

/-- The directory of `id` is there. -/
def Present (id : VmId) (w : World) : Prop := (w.dirs.lookup id).isSome

/-- The directory of `id` is not there. -/
def Gone (id : VmId) (w : World) : Prop := w.dirs.lookup id = none

/-- A refusal comes when the directory is gone. -/
def RefusedGone (id : VmId) (e : Err) (w : World) : Prop := e.isRefusal = true → Gone id w

/-- The call runs alone, and if it refuses, the directory is gone by then. -/
abbrev Refuses (me : Pid) (id : VmId) (P : World → Prop) (x : Agent α) (Q : α → World → Prop) :
    Prop :=
  Alone me P x (ends Q (RefusedGone id))

theorem ends_of_gone {r : Except Err α} {w : World} (h : Gone id w) :
    ends (fun _ => Gone id) (RefusedGone id) r w := by
  cases r with
  | ok _ => exact h
  | error _ => exact fun _ => h

theorem ends_release {r : Except Err α} {w : World} (i : Oracle) {k : LockId}
    (h : ends (fun _ _ => True) (RefusedGone id) r w) :
    ends (fun _ _ => True) (RefusedGone id) r ((Act.release k).apply me w i) := by
  cases r with
  | ok _ => trivial
  | error _ =>
    intro he
    rw [Gone, keepsDirs_release]
    exact h he

theorem refusedGone_of_noRefusal {e : Err} {w : World} (h : e.isRefusal = false) :
    RefusedGone id e w := fun he => by simp [h] at he

variable {P : World → Prop} {x : Agent α}

theorem alone_bind {R : α → World → Prop} {Q : β → World → Prop} {f : α → Agent β}
    (hx : Refuses me id P x R) (hf : ∀ a, Refuses me id (R a) (f a) Q) :
    Refuses me id P (x >>= f) Q :=
  .procBind hx hf

theorem alone_of_uses (hu : Prog.Uses (fun e => ∀ w i, P w → P (e.apply me w i)) x)
    (hf : NoRefusal x) : Refuses me id P x (fun _ => P) := by
  have hkeep : Alone me P x (fun _ => P) :=
    .of_uses (hu.mono fun e he w i _ hw _ _ => ⟨trivial, he w i hw⟩)
  refine (hkeep.yields hf).post fun r w _ h => ?_
  cases r with
  | ok a => exact h.1
  | error e => exact refusedGone_of_noRefusal (h.2 e rfl)

theorem alone_any (hf : NoRefusal x) : Refuses me id P x (fun _ _ => True) :=
  (alone_of_uses ((Prog.uses_true x).mono fun _ _ _ _ _ => trivial) hf).pre fun _ _ => trivial

theorem alone_present (hu : Prog.Uses KeepsDirs x) (hf : NoRefusal x) :
    Refuses me id (Present id) x (fun _ => Present id) := by
  refine alone_of_uses (hu.mono fun e he w i hw => ?_) hf
  unfold Present
  rwa [he me w i]

theorem alone_gone (hu : Prog.Uses KeepsDirs x) (hf : NoRefusal x) :
    Refuses me id (Gone id) x (fun _ => Gone id) := by
  refine alone_of_uses (hu.mono fun e he w i hw => ?_) hf
  unfold Gone
  rwa [he me w i]

theorem alone_removeDirAll : Refuses me id P (removeDirAll id) (fun _ => Gone id) := by
  refine alone_bind (alone_any fails_read) fun files => ?_
  refine alone_bind (alone_any (fails_forEach fun _ => noRefusal_act _)) fun _ => ?_
  refine .perform fun w i _ _ _ _ => ?_
  refine ⟨trivial, ?_⟩
  cases hc : (Act.rmdir id).check w i with
  | ok u =>
    simp only [ends_ok, agent_apply, Act.apply, hc, Act.perform, Gone]
    exact AList.lookup_erase _ _
  | error e =>
    exact refusedGone_of_noRefusal
      (@Act.check_error (fun e => e.isRefusal = false) (fun _ => rfl) _ w i e hc)

theorem alone_deleteLocked (rt : Runtime) :
    Refuses me id (Present id) (rt.deleteLocked id) (fun _ => Gone id) := by
  have hacts := unitActs_keepsDirs id
  refine alone_bind (alone_present (uses_halt hacts true) (noRefusal_halt id true)) fun _ => ?_
  refine alone_bind (alone_present (uses_load hacts.query id) (noRefusal_load id)) fun old => ?_
  refine alone_bind (alone_present (uses_doIf (uses_ignore (uses_helper hacts.query _)))
    (noRefusal_doIf (noRefusal_ignore _))) fun _ => ?_
  refine alone_bind (R := fun present w => Present id w ∧ present = true) ?_ fun present => ?_
  · refine .perform fun w i _ hw _ _ => ?_
    exact ⟨trivial, hw, hw⟩
  refine alone_bind (R := fun _ => Gone id) ?_ fun _ =>
    alone_bind (alone_gone (uses_act hacts.removePid) (noRefusal_act _)) fun _ =>
      alone_gone (uses_reconcileNetwork netActs_keepsDirs rt) (noRefusal_reconcileNetwork rt)
  rintro w ⟨hpres, rfl⟩
  refine (show Alone me (Present id) _ _ from ?_) w hpres
  refine alone_bind (alone_any (noRefusal_check _)) fun _ => ?_
  refine alone_bind (alone_any (noRefusal_check _)) fun _ => ?_
  refine .bind (alone_removeDirAll (P := fun _ => True)) fun r => ?_
  cases r with
  | ok u => exact .ret fun _ _ h => h
  | error e => exact .ret fun _ _ _ => refusedGone_of_noRefusal rfl

theorem alone_replaceOld (rt : Runtime) :
    Refuses me id (Present id) (rt.replaceOld id) (fun _ => Gone id) := by
  have hacts := unitActs_keepsDirs id
  refine alone_bind (alone_present (uses_load hacts.query id) (noRefusal_load id)) fun old => ?_
  refine alone_bind (alone_present (.perform fun _ _ _ => rfl) fails_read) fun carried => ?_
  refine alone_bind (R := fun present w => Present id w ∧ present = true) ?_ fun present => ?_
  · refine .perform fun w i _ hw _ _ => ?_
    exact ⟨trivial, hw, hw⟩
  refine alone_bind (R := fun _ => Gone id) ?_ fun _ =>
    .ret fun _ _ h => h
  rintro w ⟨hpres, rfl⟩
  rw [Bool.or_true]
  exact alone_deleteLocked rt w hpres

/-- Whatever the part under the allocation lock refuses, it refuses before the new
directory exists. -/
theorem alone_claim (rt : Runtime) (spec : InstanceSpec) (builder : Bool) (created : Nat)
    (traffic : Option Traffic) :
    Refuses me spec.vmId (Gone spec.vmId) (rt.claim spec builder created traffic)
      (fun _ _ => True) := by
  have hacts := unitActs_keepsDirs spec.vmId
  refine .bracket (B := Gone spec.vmId)
    (R := ends (fun _ _ => True) (RefusedGone spec.vmId)) ?_ ?_ (fun r => ?_)
  · exact .perform fun w i _ hw _ _ => ⟨trivial, hw⟩
  · refine alone_bind (R := fun _ => Gone spec.vmId) ?_ fun image => ?_
    · exact .perform fun w i _ hw _ _ => ⟨trivial, ends_of_gone hw⟩
    refine alone_bind (R := fun _ => Gone spec.vmId) ?_ fun idx => ?_
    · refine alone_bind (alone_gone (uses_records hacts.query) noRefusal_records) fun used => ?_
      exact .ret fun w _ hw => ends_of_gone hw
    refine alone_bind (alone_gone (.perform (hacts.query _)) fails_read) fun generation => ?_
    refine alone_bind (R := fun _ => Gone spec.vmId) ?_ fun addrs => ?_
    · exact .ret fun w _ hw => ends_of_gone hw
    refine alone_any (fails_bind (noRefusal_act _) fun _ => ?_)
    refine fails_bind (fails_bind (noRefusal_act _) fun _ => noRefusal_act _) fun _ => ?_
    refine fails_bind ?_ fun _ => fails_pure _
    cases traffic with
    | none => exact fails_pure ()
    | some t => exact noRefusal_ignore _
  · exact .perform fun w i _ hw _ _ => ⟨trivial, ends_release i hw⟩

theorem alone_createLocked (rt : Runtime) (spec : InstanceSpec) :
    Refuses me spec.vmId
      (fun w => Present spec.vmId w ∧ w.images.isEnabled spec.osImage = true)
      (rt.createLocked spec false) (fun _ _ => True) := by
  refine alone_bind (R := fun enabled w => Present spec.vmId w ∧ enabled = true) ?_
    fun enabled => ?_
  · exact .perform fun w i _ hw _ _ => ⟨trivial, hw⟩
  rintro w ⟨hpres, rfl⟩
  refine (show Alone me (Present spec.vmId) _ _ from ?_) w hpres
  refine alone_bind (alone_replaceOld rt) fun carried => ?_
  refine alone_bind (alone_gone (.perform fun _ _ _ => rfl) fails_read) fun now => ?_
  exact alone_bind (alone_claim rt spec false _ _) fun record =>
    alone_any (noRefusal_install rt record _)

theorem alone_disabled (rt : Runtime) (spec : InstanceSpec) (w₀ : World) :
    Alone me (fun w => Untouched spec.vmId w₀ w ∧ w.images.isEnabled spec.osImage = false)
      (rt.createLocked spec false) (fun _ => Untouched spec.vmId w₀) := by
  refine .procBind (R := fun enabled w => Untouched spec.vmId w₀ w ∧ enabled = false) ?_
    fun enabled => ?_
  · exact .perform fun w i _ hw _ _ => ⟨trivial, hw⟩
  rintro w ⟨hsame, rfl⟩
  refine (show Alone me (Untouched spec.vmId w₀) _ _ from ?_) w hsame
  exact .ret fun _ _ h => h

theorem Untouched.release {w₀ w : World} (h : Untouched id w₀ w) (k : LockId) (i : Oracle) :
    Untouched id w₀ ((Act.release k).apply me w i) := by
  simp only [Act.apply, Act.check, Act.perform]
  split
  · exact ⟨h.record, h.disk, h.traffic, h.unit⟩
  · exact h

end Alone

/-- A create of an existing instance with an image that is enabled, but refused, has
removed the instance. -/
theorem create_refused_removes (rt : Runtime) (spec : InstanceSpec) {me : Pid} {w w' : World}
    {e : Err} (hpres : Present spec.vmId w)
    (hen : w.images.isEnabled spec.osImage = true)
    (hrun : Prog.Runs agent anyStep me (rt.create spec) w (.error e) w')
    (href : e.isRefusal = true) : Gone spec.vmId w' := by
  have htriple : Refuses me spec.vmId
      (fun w => Present spec.vmId w ∧ w.images.isEnabled spec.osImage = true) (rt.create spec)
      (fun _ _ => True) := by
    refine .bracket ?_ (alone_createLocked rt spec) (fun r => ?_)
    · exact .perform fun w i _ hw _ _ => ⟨trivial, hw⟩
    · exact .perform fun w i _ hw _ _ => ⟨trivial, ends_release i hw⟩
  exact hrun.post htriple ⟨hpres, hen⟩ href

/-- A create or reinstall of an existing instance that is refused leaves record, disk,
counters and running state as they were if and only if the image is disabled. -/
theorem create_refused_untouched_iff (rt : Runtime) (spec : InstanceSpec) {me : Pid}
    {w w' : World} {e : Err} {rec : Record}
    (hrec : w.record spec.vmId = some rec)
    (hrun : Prog.Runs agent anyStep me (rt.create spec) w (.error e) w')
    (href : e.isRefusal = true) :
    Untouched spec.vmId w w' ↔ w.images.isEnabled spec.osImage = false := by
  have hpres : Present spec.vmId w := by
    unfold World.record World.recordFile at hrec
    cases hd : w.dirs.lookup spec.vmId with
    | none => simp [hd] at hrec
    | some d => simp [Present, hd]
  constructor
  · intro hsame
    by_contra hen
    have hgone := create_refused_removes rt spec hpres (Bool.not_eq_false _ ▸ hen) hrun href
    have hnone : w'.recordFile spec.vmId = none := by
      rw [World.recordFile, show w'.dirs.lookup spec.vmId = none from hgone]
      rfl
    have hrecord := hsame.record
    rw [hnone] at hrecord
    simp [World.record, ← hrecord] at hrec
  · intro hdis
    have htriple : Alone me
        (fun s => Untouched spec.vmId w s ∧ s.images.isEnabled spec.osImage = false)
        (rt.create spec) (fun _ => Untouched spec.vmId w) := by
      refine .bracket ?_ (alone_disabled rt spec w) (fun r => ?_)
      · refine .perform fun s i _ hs _ _ => ⟨trivial, ?_, hs.2⟩
        exact ⟨hs.1.record, hs.1.disk, hs.1.traffic, hs.1.unit⟩
      · exact .perform fun s i _ hs _ _ => ⟨trivial, hs.release (.vm spec.vmId) i⟩
    exact hrun.post htriple ⟨⟨rfl, rfl, rfl, rfl⟩, hdis⟩

namespace SmallNode

/-- An image that is disabled: the instance stays. -/
theorem disabled_image_untouched : ∃ w', Prog.Runs agent anyStep 0 (rt.create (spec vmA "debian"))
      (world recordA true) (.error (.imageDisabled "debian")) w' ∧
    Untouched vmA (world recordA true) w' := by
  have hrun : ∃ w', Prog.Runs agent anyStep 0 (rt.create (spec vmA "debian"))
      (world recordA true) (.error (.imageDisabled "debian")) w' :=
    ⟨_, Prog.runs_of_alone (List.replicate 3 calm) rfl⟩
  obtain ⟨w', hrun⟩ := hrun
  have hrec : (world recordA true).record vmA = some recordA := rfl
  exact ⟨w', hrun, (create_refused_untouched_iff rt (spec vmA "debian") hrec hrun rfl).mpr rfl⟩

/-- An image that is not there: the create fails, and the instance is gone. -/
theorem unknown_image_removes : ∃ w', Prog.Runs agent anyStep 0 (rt.create (spec vmA "ubuntu"))
      (world recordA true) (.error (.imageNotAvailable "ubuntu")) w' ∧
    (world recordA true).record vmA = some recordA ∧ w'.record vmA = none ∧
    ¬ Untouched vmA (world recordA true) w' := by
  refine ⟨_, Prog.runs_of_alone (List.replicate 40 calm) rfl, rfl, rfl, fun h => ?_⟩
  have hrecord := h.record
  cases hrecord

end SmallNode

end RunmanAgent
