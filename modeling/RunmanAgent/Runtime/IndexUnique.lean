import RunmanAgent.Runtime.Scan

/-!
# Instance indexes are unique

An instance's index determines its UID range, veth name, MAC and addresses. A create
chooses the first index that no record uses, and writes the record that claims it, under
the allocation lock. Indexes stay unique (`run_distinctIdx`; the recovery is left out), as
long as the scans made for an allocation read a record in every directory. The condition is
needed: `records` skips a record it cannot read, so its index counts as
free (`create_reuses_index`), and a directory from which a delete has removed the record.

Invariant and rules of the discipline: the indexes of the directories are distinct; a record
is written with the index it had, or with one that no directory has, by the holder of the
allocation lock.
-/

namespace RunmanAgent

open Concurrency

/-- No two instances whose directories exist have the same index: that of the record last
written there, which may have become unreadable or have been removed. -/
def World.DistinctIdx (w : World) : Prop :=
  ∀ id id' rec rec', w.lastRecord id = some rec → w.lastRecord id' = some rec' →
    rec.idx = rec'.idx → id = id'

/-- A scan made for an allocation comes to the directory of an instance: its record is still
there, and the read succeeds. -/
def ScanReads (p : Pid) (e : Act) (w : World) (i : Oracle) : Prop :=
  match e with
  | .query (.load id) =>
    w.locks .alloc = some p → ∀ rec ∈ w.lastRecord id, w.readRecord id i = .ok (some rec)
  | _ => True

instance (p : Pid) (e : Act) (w : World) (i : Oracle) : Decidable (ScanReads p e w i) :=
  decidable_of_iff (∀ id ∈ e.loads, w.locks .alloc = some p →
    ∀ rec ∈ w.lastRecord id, w.readRecord id i = .ok (some rec)) <| by
      unfold ScanReads Act.loads
      split <;> simp

/-- A record may be written: with the index it had, or with one that is free. -/
def IdxDuty (p : Pid) (e : Act) (w : World) : Prop :=
  ∀ ch rec, e = .writeRecord ch rec →
    (∃ old, w.lastRecord rec.id = some old ∧ old.idx = rec.idx) ∨
      (w.locks .alloc = some p ∧ ∀ id old, w.lastRecord id = some old → old.idx ≠ rec.idx)

theorem World.DistinctIdx.apply {w : World} (h : w.DistinctIdx) {e : Act} {p : Pid}
    (hduty : IdxDuty p e w) (i : Oracle) : (e.apply p w i).DistinctIdx := by
  -- an old record with the index that `rec` is written with is the record of `rec.id`
  have hwrite : ∀ ch rec id old, e = .writeRecord ch rec → w.lastRecord id = some old →
      old.idx = rec.idx → id = rec.id := by
    intro ch rec id old he hold hidx
    rcases hduty ch rec he with ⟨o, ho, hoi⟩ | ⟨-, hfree⟩
    · exact h _ _ _ _ hold ho (hidx.trans hoi.symm)
    · exact absurd hidx (hfree id old hold)
  intro id id' rec rec' hr hr' hidx
  rcases e.apply_lastRecord p w i id with h1 | ⟨ch, r, he, hid, h1⟩ | h1
  · rcases e.apply_lastRecord p w i id' with h2 | ⟨ch, r', he', hid', h2⟩ | h2
    · exact h _ _ _ _ (h1 ▸ hr) (h2 ▸ hr') hidx
    · rw [h2, Option.some.injEq] at hr'
      subst hr'
      exact (hwrite ch r' id rec he' (h1 ▸ hr) hidx).trans hid'
    · rw [h2] at hr'; cases hr'
  · rw [h1, Option.some.injEq] at hr
    subst hr
    rcases e.apply_lastRecord p w i id' with h2 | ⟨ch', r', he', hid', h2⟩ | h2
    · exact (hid.symm.trans (hwrite ch r id' rec' he (h2 ▸ hr') hidx.symm).symm)
    · rw [he] at he'
      cases he'
      exact hid.symm.trans hid'
    · rw [h2] at hr'; cases hr'
  · rw [h1] at hr; cases hr

def idxDiscipline : Discipline agent where
  inv w := w.Stored ∧ w.DistinctIdx
  may p e w := e.guarded p w ∧ IdxDuty p e w
  ok := ScanReads
  keeps hi _ hm _ := ⟨hi.1.apply _ _ _, hi.2.apply hm.2 _⟩

/-! ## The duty, task by task -/

section Tasks

variable {me : Pid}

theorem idxDuty_of_ne {e : Act} (h : ∀ ch rec, e ≠ .writeRecord ch rec) (w : World) :
    IdxDuty me e w :=
  fun ch rec he => absurd he (h ch rec)

theorem freeDuty_idx : FreeDuty IdxDuty me := by
  intro e w he
  refine idxDuty_of_ne (fun ch rec h => ?_) w
  subst h
  exact he

theorem Change.Updates.idx {ch : Change} {rec rec' : Record} (h : ch.Updates rec rec') :
    rec'.idx = rec.idx := by
  cases ch with
  | desired d | refresh | quarantine on => subst h; rfl
  | create | fillGeneration | fillCreated => cases h

theorem saveDuty_idx (rt : Runtime) (id : VmId) : SaveDuty idxDiscipline IdxDuty rt me id where
  write {ch rec rec' w} hi hown hch := by
    rintro ch' r ⟨⟩
    have hid := hch.id.trans (hi.1 _ _ hown.2)
    exact .inl ⟨rec, hid ▸ World.lastRecord_of_record hown.2, hch.idx.symm⟩
  runtime _ _ := idxDuty_of_ne (by simp) _

theorem fine_idx {e : Act} {k : LockId} (hr : e ≠ .release k)
    (h : ∀ ch rec, e ≠ .writeRecord ch rec) :
    Fine idxDiscipline IdxDuty me (Holds me k) e :=
  fine_holds hr fun w _ _ => idxDuty_of_ne h w

theorem installActs_idx (id : VmId) :
    InstallActs (Fine idxDiscipline IdxDuty me (Holds me (.vm id))) id where
  toNetActs := netActs_holds freeDuty_idx
  killCt := fine_idx (by simp) (by simp)
  terminate := fine_idx (by simp) (by simp)
  removePid := fine_idx (by simp) (by simp)
  systemdRun := fine_idx (by simp) (by simp)
  unlink _ := fine_idx (by simp) (by simp)
  rmdir := fine_idx (by simp) (by simp)
  mkdir := fine_idx (by simp) (by simp)
  makeDisk _ := fine_idx (by simp) (by simp)
  prepareRoot _ := fine_idx (by simp) (by simp)

/-! ### Allocation -/

instance keepsField_idx : KeepsField idxDiscipline Record.idx where
  keeps _ ch rec _ hmay := (hmay.2 ch rec rfl).imp_right And.left

theorem readsRecords_idx : ReadsRecords idxDiscipline me :=
  fun _ _ _ hok halloc rec hrec => hok halloc rec hrec

/-- A scan of the indexes by a create of `id`. -/
abbrev ScanningIdx (me : Pid) (id : VmId) (used : List Nat) (w : World) : Prop :=
  Scanning me Record.idx (Holds me (.vm id)) used [] w

theorem fine_allocating {id : VmId} {e : Act} (hr : ∀ k, e ≠ .release k)
    (h : ∀ ch rec, e ≠ .writeRecord ch rec) :
    Fine idxDiscipline IdxDuty me (Allocating me id) e :=
  fun w _ _ hk _ _ => ⟨idxDuty_of_ne h w, holds_apply (hr _) hk.1, holds_apply (hr _) hk.2⟩

/-- `me` allocates, and no directory has the index `idx`. -/
def Claiming (me : Pid) (id : VmId) (idx : Nat) (w : World) : Prop :=
  ∃ used, ScanningIdx me id used w ∧ idx ∉ used

instance stable_claiming (id : VmId) (idx : Nat) : Stable idxDiscipline me (Claiming me id idx) :=
  Stable.exists

theorem Claiming.allocating {id : VmId} {idx : Nat} {w : World} (h : Claiming me id idx w) :
    Allocating me id w := by
  obtain ⟨used, hs, -⟩ := h
  exact ⟨hs.kept, hs.alloc⟩

theorem fine_claiming {id : VmId} {idx : Nat} {e : Act} (hr : ∀ k, e ≠ .release k)
    (h : ∀ ch rec, e ≠ .writeRecord ch rec) :
    Fine idxDiscipline IdxDuty me (Claiming me id idx) e := by
  rintro w i - ⟨used, hs, hidx⟩ - -
  exact ⟨idxDuty_of_ne h w, used, hs.apply (holds_apply (hr _) hs.kept) h (hr _), hidx⟩

theorem triple_allocateIdx (rt : Runtime) (id : VmId) :
    Triple idxDiscipline IdxDuty me (Allocating me id) (allocateIdx rt)
      (ends (Claiming me id) (fun _ => Allocating me id)) := by
  refine .chain (triple_records (g := Record.idx) freeDuty_idx readsRecords_idx)
    (fun _ _ _ h => h.1) fun recs => ?_
  cases hpick : rt.pickIdx (recs.map (·.idx)) with
  | error e =>
    simp only [Proc.lift]
    exact .ret fun _ _ h => ⟨h.kept, h.alloc⟩
  | ok idx =>
    simp only [Proc.lift]
    exact .ret fun _ _ h => ⟨_, h, Runtime.pickIdx_not_mem hpick⟩

theorem triple_claimWrite {id : VmId} {rec : Record} {idx : Nat} (h : rec.idx = idx) :
    Triple idxDiscipline IdxDuty me (Claiming me id idx) (act (.writeRecord .create rec))
      (fun _ => Allocating me id) := by
  subst h
  refine .perform fun w i _ hk _ _ => ?_
  refine ⟨?_, holds_apply (by simp) hk.allocating.1, holds_apply (by simp) hk.allocating.2⟩
  rintro ch r ⟨⟩
  obtain ⟨used, hs, hidx⟩ := hk
  refine .inr ⟨hs.alloc, fun id' old hold heq => hidx ?_⟩
  rcases hs.covers id' old hold with h | h
  · exact heq ▸ h
  · cases h

theorem triple_claim (rt : Runtime) (spec : InstanceSpec) (builder : Bool) (created : Nat)
    (traffic : Option Traffic) :
    Triple idxDiscipline IdxDuty me (Holds me (.vm spec.vmId))
      (rt.claim spec builder created traffic) (fun _ => Holds me (.vm spec.vmId)) := by
  refine triple_alloc freeDuty_idx (fun _ _ h => holds_apply (by simp) h)
    (fun _ _ h => holds_apply (by simp) h) ?_
  refine .seq (Triple.of_uses (.perform (fine_allocating (by simp) (by simp))))
    (fun _ _ _ h => h) fun image => ?_
  refine .procBind (triple_allocateIdx rt spec.vmId) fun idx => ?_
  refine .seq (Triple.of_uses (.perform (fine_claiming (by simp) (by simp))))
    (fun _ _ _ h => h.allocating) fun generation => ?_
  refine .seq (R := Claiming me spec.vmId idx) ?_ (fun _ _ _ h => h.allocating)
    fun addrs => ?_
  · exact .ret fun _ _ h => h
  refine .seq (Triple.of_uses (.perform (fine_claiming (by simp) (by simp))))
    (fun _ _ _ h => h.allocating) fun _ => ?_
  refine .seq (R := Allocating me spec.vmId) ?_ (fun _ _ _ h => h) fun _ => ?_
  · refine .seq (triple_claimWrite rfl) (fun _ _ _ h => h) fun _ => ?_
    exact .of_uses (.perform (fine_allocating (by simp) (by simp)))
  · refine .of_uses (Proc.uses_bind ?_ fun _ => trivial)
    cases traffic with
    | none => trivial
    | some t => exact uses_ignore (uses_act (fine_allocating (by simp) (by simp)))

theorem triple_create_idx (rt : Runtime) (spec : InstanceSpec) (builder : Bool) :
    Dutiful idxDiscipline IdxDuty me (withVm spec.vmId (rt.createLocked spec builder)) :=
  triple_create_of_claim freeDuty_idx (installActs_idx _)
    (fun _ => fine_idx (by simp) (by simp)) rt builder (triple_claim rt spec builder)

theorem taskDuties_idx (rt : Runtime) : TaskDuties idxDiscipline IdxDuty rt me where
  locks := ⟨fun _ _ _ h => h.1⟩
  stored _ h := h.1
  free := freeDuty_idx
  save := saveDuty_idx rt
  removal id := (installActs_idx id).toRemovalActs
  create := triple_create_idx rt
  sample := ⟨fine_query freeDuty_idx, fun _ _ _ => fine_idx (by simp) (by simp),
    fun _ _ => fine_idx (by simp) (by simp), fun _ => fine_idx (by simp) (by simp)⟩
  heal _ _ _ _ := fine_owns (by simp) (by simp) (by simp) fun w _ _ => idxDuty_of_ne (by simp) w
  isolate _ _ := fine_idx (by simp) (by simp)
  reconnect _ _ _ :=
    fine_owns (by simp) (by simp) (by simp) fun w _ _ => idxDuty_of_ne (by simp) w
  forwards := by
    rintro _ w (⟨l, rfl⟩ | ⟨l, rfl⟩) _ <;> exact idxDuty_of_ne (by simp) w

theorem triple_op_idx (rt : Runtime) {op : Op} (hop : op ≠ .init) :
    Dutiful idxDiscipline IdxDuty me (op.prog rt) :=
  triple_op (taskDuties_idx rt) hop fun es _ =>
    triple_host (fun _ => idxDuty_of_ne (by simp) _) es

end Tasks

/-! ## Every run -/

/-- In every run in which each scan under the allocation lock finds and reads a record in
every instance directory, no two existing directories have the same index. -/
theorem run_distinctIdx (rt : Runtime) (w : World) (ops : Pid → Op) (hw : w.Stored)
    (hidx : w.DistinctIdx) (hops : ∀ p, ops p ≠ .init) {P : Pool World Oracle Act}
    (hrun : Pool.Run agent ScanReads (agentPool rt w ops) P) : P.mem.DistinctIdx :=
  (Pool.run_safe (agentPool_safe (D := idxDiscipline) rfl (fun _ h => h.1) ⟨hw, hidx⟩ hops
    fun p => triple_op_idx rt (hops p)) hrun).inv.2

namespace SmallNode

theorem distinctIdx_world (rec : Record) (readable : Bool) :
    (world rec readable).DistinctIdx := by
  have hvm : ∀ id r, (world rec readable).lastRecord id = some r → id = vmA := by
    intro id r h
    obtain ⟨d, hd, -⟩ := Option.bind_eq_some_iff.mp h
    have hmem := AList.mem_keys.mp (AList.lookup_isSome.mp (Option.isSome_of_mem hd))
    simpa [world, AList.keys_singleton] using hmem
  exact fun id id' r r' h h' _ => (hvm id r h).trans (hvm id' r' h').symm

/-- A second instance gets the index 1. -/
theorem distinctIdx_create : ∃ P : Pool World Oracle Act,
    Pool.Run agent ScanReads
      (agentPool rt (world recordA true) (one (.create (spec vmB "alpine")))) P ∧
    (P.mem.record vmB).map (·.idx) = some 1 ∧ P.mem.DistinctIdx := by
  have hops : ∀ p, one (.create (spec vmB "alpine")) p ≠ .init := by
    rintro (_ | p) <;> simp [one]
  exact Pool.exists_run_imp (p := fun P => (P.mem.record vmB).map (·.idx) = some 1) (steps 0 13)
    (by decide +kernel) fun P hrun hB => ⟨hB, run_distinctIdx rt _ _ (stored_world rfl true)
      (distinctIdx_world recordA true) hops hrun⟩

/-- The record of the first instance cannot be read: the second one gets its index. -/
theorem create_reuses_index : (world recordA false).DistinctIdx ∧
    ∃ P : Pool World Oracle Act, Pool.Run agent anyStep
      (agentPool rt (world recordA false) (one (.create (spec vmB "alpine")))) P ∧
    ¬ P.mem.DistinctIdx := by
  refine ⟨distinctIdx_world recordA false, Pool.exists_run_imp (p := fun P =>
      (P.mem.record vmA).map (·.idx) = some 0 ∧ (P.mem.record vmB).map (·.idx) = some 0)
    (steps 0 13) (by decide +kernel) fun P _ ⟨hA, hB⟩ h => ?_⟩
  obtain ⟨a, ha, hai⟩ := Option.map_eq_some_iff.mp hA
  obtain ⟨b, hb, hbi⟩ := Option.map_eq_some_iff.mp hB
  exact absurd (h vmA vmB a b (World.lastRecord_of_record ha) (World.lastRecord_of_record hb)
    (hai.trans hbi.symm)) (by decide)

end SmallNode

end RunmanAgent
