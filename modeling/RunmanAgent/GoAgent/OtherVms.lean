import RunmanAgent.GoAgent.FailedAdd

/-!
# The port forwards of the other VMs

The manager looks for an existing rule among the active mappings of the VM it is called for,
and the listener keeps it from taking a port that is active for another VM. The table has one
row for a protocol and a host port, whoever it belongs to: a rule that is only in the table,
because its VM is down, is overwritten by the next VM that asks for the port
(`stored_rule_overwritten`). Nothing else is lost (`ops_keep_others`).
-/

namespace RunmanAgent.GoAgent

open Concurrency Proc

/-! ## Operations -/

inductive Op where
  | add (r : Rule)
  | remove (vmId : String) (k : PortKey)
  | sync (vmId : String) (desired : List DesiredRule)
  | refresh (vmId : String)
  | delete (vmId : String)
  | tick

namespace Op

def code : Op → MProc Unit
  | add r => requestMapping r
  | remove vmId k => removeMapping vmId k
  | sync vmId desired => syncForVM vmId desired
  | refresh vmId => refreshVM vmId
  | delete vmId => deleteVM vmId
  | tick => reconcile

/-- The VM the operation is for; a tick of the loop is for all of them. -/
def vm : Op → Option String
  | add r => some r.vmId
  | remove vmId _ | sync vmId _ | refresh vmId | delete vmId => some vmId
  | tick => none

/-- The keys an operation adds or removes on request. -/
def keys (s : State) : Op → List PortKey
  | add r => [r.toPortKey]
  | remove _ k => [k]
  | sync vmId desired => desired.map (·.toPortKey) ++ s.active vmId
  | delete vmId => s.active vmId
  | refresh _ | tick => []

/-- The rows of these keys, where there are any, belong to the VM of the operation. -/
def Owns (op : Op) (s : State) : Prop :=
  ∀ k ∈ op.keys s, ∀ row, s.rows.lookup k = some row → op.vm = some row.vmId

end Op

/-- Operations one after another, each one in a state that satisfies `ok`. -/
inductive Sequence (ok : Op → State → Prop) : List Op → State → State → Prop where
  | nil (s : State) : Sequence ok [] s s
  | cons {op : Op} {ops : List Op} {s s' s'' : State} {a : Except Err Unit} (hok : ok op s)
      (hrun : Prog.Runs machine anyStep 0 op.code s a s') (hrest : Sequence ok ops s' s'') :
      Sequence ok (op :: ops) s s''

/-- Every active mapping and every row of the VM is still there, unchanged. -/
structure Kept (vmId : String) (s s' : State) : Prop where
  mapping : ∀ k e, s.mappings.lookup (vmId, k) = some e → s'.mappings.lookup (vmId, k) = some e
  row : ∀ k row, s.rows.lookup k = some row → row.vmId = vmId → s'.rows.lookup k = some row

theorem Kept.refl (vmId : String) (s : State) : Kept vmId s s := ⟨fun _ _ h => h, fun _ _ h _ => h⟩

variable {vmId : String} {s : State}

theorem Kept.trans {s' s'' : State} (h : Kept vmId s s') (h' : Kept vmId s' s'') :
    Kept vmId s s'' :=
  ⟨fun k e he => h'.mapping k e (h.mapping k e he),
    fun k row hr hv => h'.row k row (h.row k row hr hv) hv⟩

/-! ## Reads of the tables -/

theorem mem_active {k : PortKey} : k ∈ s.active vmId ↔ (vmId, k) ∈ s.mappings := by
  rw [State.active, List.mem_filterMap, AList.mem_keys]
  constructor
  · rintro ⟨⟨v, k'⟩, hmem, hk⟩
    split at hk
    · rename_i hv
      cases hk
      exact hv ▸ hmem
    · cases hk
  · intro h
    exact ⟨(vmId, k), h, if_pos rfl⟩

theorem mem_rules {r : Rule} : r ∈ s.rules ↔ s.rows.lookup r.toPortKey = some r.toRow := by
  rw [State.rules, List.mem_map, ← Option.mem_def, AList.mem_lookup_iff]
  constructor
  · rintro ⟨⟨k, row⟩, hmem, rfl⟩
    exact hmem
  · intro h
    exact ⟨_, h, rfl⟩

theorem mem_rulesOf {r : Rule} :
    r ∈ s.rulesOf vmId ↔ s.rows.lookup r.toPortKey = some r.toRow ∧ r.vmId = vmId := by
  rw [State.rulesOf, List.mem_filter, mem_rules, decide_eq_true_eq]

/-! ## Actions on behalf of another VM -/

/-- The key has no row of the VM. -/
def Foreign (vmId : String) (s : State) (k : PortKey) : Prop :=
  ∀ row, s.rows.lookup k = some row → row.vmId ≠ vmId

/-- The action leaves alone what the VM has in `s₀`. -/
def Spares (vmId : String) (s₀ : State) : Act → Prop
  | .close v _ => v ≠ vmId
  | .append r _ => r.vmId ≠ vmId
  | .save r => Foreign vmId s₀ r.toPortKey
  | .delete k => Foreign vmId s₀ k
  | .deleteForVM v => v ≠ vmId
  | _ => True

theorem Kept.apply {s₀ : State} {p : Pid} {i : Input} {e : Act} (h : Kept vmId s₀ s)
    (he : Spares vmId s₀ e) : Kept vmId s₀ (s.apply p i e) := by
  have hkey : ∀ {k' : PortKey}, Foreign vmId s₀ k' → ∀ {k row}, s₀.rows.lookup k = some row →
      row.vmId = vmId → k ≠ k' := by
    rintro k' hk k row hr hv rfl
    exact hk row hr hv
  cases e with
  | close v k =>
    refine ⟨fun k' e' hk => ?_, h.row⟩
    exact (AList.lookup_erase_ne fun heq => he (congrArg Prod.fst heq).symm).trans
      (h.mapping k' e' hk)
  | append r t =>
    refine ⟨fun k' e' hk => ?_, h.row⟩
    exact (AList.lookup_insert_ne fun heq => he (congrArg Prod.fst heq).symm).trans
      (h.mapping k' e' hk)
  | save r =>
    rw [State.apply]
    split
    · exact h
    · refine ⟨h.mapping, fun k row hr hv => ?_⟩
      exact (AList.lookup_insert_ne (hkey he hr hv)).trans (h.row k row hr hv)
  | delete k =>
    rw [State.apply]
    split
    · exact h
    · refine ⟨h.mapping, fun k' row hr hv => ?_⟩
      exact (AList.lookup_erase_ne (hkey he hr hv)).trans (h.row k' row hr hv)
  | deleteForVM v =>
    refine ⟨h.mapping, fun k row hr hv => ?_⟩
    simp only [State.apply]
    split
    · exact h.row k row hr hv
    · rw [AList.lookup_retain, h.row k row hr hv]
      have hne : row.vmId ≠ v := fun heq => he (heq.symm.trans hv)
      simp [Option.filter, hne]
  | deleteIPLimitRow v =>
    rw [State.apply]
    split
    · exact h
    · exact ⟨h.mapping, h.row⟩
  | _ => exact ⟨h.mapping, h.row⟩

section Uses

variable {vmId : String} {s₀ : State}

theorem total_spares {me : Pid} {α : Type} {x : Prog State Input Act α}
    (h : x.Uses (Spares vmId s₀)) :
    Finishes me (Kept vmId s₀) x (fun _ => Kept vmId s₀) :=
  .of_uses (h.mono fun _ he _ hs => ⟨False.elim, fun _ _ => hs.apply he⟩)

theorem spares_removeEntryLocked {v : String} {k : PortKey} {deleteDB : Bool} (hv : v ≠ vmId)
    (hk : Foreign vmId s₀ k) : Prog.Uses (Spares vmId s₀) (removeEntryLocked v k deleteDB) := by
  refine uses_bind (.perform trivial) fun e => ?_
  cases e with
  | none => trivial
  | some _ =>
    refine uses_bind (.perform hv) fun _ => ?_
    cases deleteDB with
    | false => trivial
    | true => exact .perform hk

theorem spares_removeMapping {v : String} {k : PortKey} (hv : v ≠ vmId)
    (hk : Foreign vmId s₀ k) : Prog.Uses (Spares vmId s₀) (removeMapping v k) :=
  uses_bracket trivial trivial (spares_removeEntryLocked hv hk)

variable {r : Rule}

theorem spares_establish (hv : r.vmId ≠ vmId) (hk : Foreign vmId s₀ r.toPortKey) :
    Prog.Uses (Spares vmId s₀) (establish r) := by
  refine uses_bind (.perform trivial) fun ip => ?_
  split
  · trivial
  · refine uses_bind (.perform trivial) fun _ => uses_bind (.perform hv) fun _ => ?_
    exact .perform hk

theorem spares_admitted {checkLimit existing : Bool} (hv : r.vmId ≠ vmId)
    (hk : Foreign vmId s₀ r.toPortKey) :
    Prog.Uses (Spares vmId s₀) (admitted r checkLimit existing) := by
  have hlimited : ∀ existing, Prog.Uses (Spares vmId s₀) (limited r checkLimit existing) :=
    fun existing => uses_bind (uses_checkedLimit trivial trivial ..) fun _ => spares_establish hv hk
  unfold admitted
  split
  · refine uses_bind (uses_hasPersistedMapping trivial _) fun persisted => ?_
    split
    · exact hlimited true
    · trivial
  · exact hlimited existing

theorem spares_addMapping {checkLimit : Bool} (hv : r.vmId ≠ vmId)
    (hk : Foreign vmId s₀ r.toPortKey) : Prog.Uses (Spares vmId s₀) (addMapping r checkLimit) := by
  obtain ⟨e, heq⟩ | ⟨-, -, heq⟩ := addMapping_cases r checkLimit
  · rw [heq]
    trivial
  · rw [heq]
    refine uses_bracket trivial trivial (uses_bind (.perform trivial) fun e => ?_)
    cases e with
    | none => exact spares_admitted hv hk
    | some e =>
      dsimp only
      split
      · trivial
      · exact uses_bind (spares_removeEntryLocked hv hk) fun _ => spares_admitted hv hk

theorem spares_tryAdd (hv : r.vmId ≠ vmId) (hk : Foreign vmId s₀ r.toPortKey) :
    Prog.Uses (Spares vmId s₀) (tryAdd r) :=
  uses_bind (uses_attempt (spares_addMapping hv hk)) fun _ => trivial

end Uses

/-! ## Operations on another VM -/

section Kept

variable {vmId v : String} {s₀ : State}

theorem Same.kept {s : State} (h : Same s₀ s) : Kept vmId s₀ s :=
  ⟨fun _ _ he => h.1 ▸ he, fun _ _ hr _ => h.2 ▸ hr⟩

theorem total_read_spares {α β : Type} {x : MProc α} {f : α → MProc β} {R : α → Prop}
    (hx : Finishes 0 (Same s₀) x (ends (fun a s => Same s₀ s ∧ R a) (fun _ => Same s₀)))
    (hf : ∀ a, R a → Prog.Uses (Spares vmId s₀) (f a)) :
    Finishes 0 (Same s₀) (x >>= f : MProc β) (fun _ => Kept vmId s₀) := by
  refine .chain hx (fun _ _ h => h.kept) fun a => .given fun ha => ?_
  exact (total_spares (hf a ha)).pre fun _ hs => hs.kept

theorem total_copy : Finishes 0 (Same s₀) (copy v)
    (ends (fun ks s => Same s₀ s ∧ ks = s₀.active v) (fun _ => Same s₀)) := by
  refine .perform (fun _ _ => False.elim) fun s i hs _ => ⟨hs, ?_⟩
  show s.active v = s₀.active v
  rw [State.active, hs.1, State.active]

theorem total_listPortForwards : Finishes 0 (Same s₀) (listPortForwards v)
    (ends (fun rules s => Same s₀ s ∧ rules = s₀.rulesOf v) (fun _ => Same s₀)) := by
  refine .perform (fun _ _ => False.elim) fun s i hs _ => ?_
  cases i.fail with
  | some msg => exact hs
  | none =>
    refine ⟨hs, ?_⟩
    show s.rulesOf v = s₀.rulesOf v
    rw [State.rulesOf, State.rules, hs.2, State.rulesOf, State.rules]

theorem foreign_of_owns {k : PortKey} (hv : v ≠ vmId)
    (h : ∀ row, s₀.rows.lookup k = some row → some v = some row.vmId) : Foreign vmId s₀ k := by
  intro row hrow heq
  exact hv ((Option.some.inj (h row hrow)).trans heq)

theorem kept_sync {desired : List DesiredRule} (hv : v ≠ vmId) (h : (Op.sync v desired).Owns s₀) :
    Finishes 0 (Same s₀) (syncForVM v desired) (fun _ => Kept vmId s₀) := by
  have hforeign : ∀ k ∈ (Op.sync v desired).keys s₀, Foreign vmId s₀ k :=
    fun k hk => foreign_of_owns hv (h k hk)
  have hlist : Prog.Uses Neutral (mapErr (fun e => .listExisting e.text) (listPortForwards v)) :=
    uses_mapErr (.perform fun _ _ _ => ⟨rfl, rfl⟩)
  refine total_neutral_bind hlist (fun _ _ hs => hs.kept) fun persisted => ?_
  refine total_read_spares total_copy fun current hcurrent => ?_
  subst hcurrent
  refine uses_bind (x := lift _) trivial fun _ =>
    uses_bind (uses_forEach_mem fun k hk => ?_) fun _ =>
    uses_forEach_mem fun d hd => ?_
  · unfold dropUndesired
    split
    · trivial
    · exact spares_removeMapping hv (hforeign k (List.mem_append_right _ hk))
  · exact spares_addMapping hv (hforeign _ (List.mem_append_left _ (List.mem_map_of_mem hd)))

theorem kept_delete (hv : v ≠ vmId) (h : (Op.delete v).Owns s₀) :
    Finishes 0 (Same s₀) (deleteVM v) (fun _ => Kept vmId s₀) := by
  refine total_read_spares total_copy fun entries hentries => ?_
  subst hentries
  refine uses_bind (uses_forEach_mem fun k hk => ?_) fun _ => ?_
  · exact spares_removeMapping hv (foreign_of_owns hv (h k hk))
  · refine uses_bind (.perform hv) fun _ => uses_bind (.perform trivial) fun _ => ?_
    exact .perform trivial

theorem kept_refresh (hv : v ≠ vmId) :
    Finishes 0 (Same s₀) (refreshVM v) (fun _ => Kept vmId s₀) := by
  have hforeign : ∀ r ∈ s₀.rulesOf v, r.vmId ≠ vmId ∧ Foreign vmId s₀ r.toPortKey := by
    intro r hr
    obtain ⟨hrow, rfl⟩ := mem_rulesOf.mp hr
    exact ⟨hv, fun row hrow' => by cases hrow.symm.trans hrow'; exact hv⟩
  refine .attemptBind total_listPortForwards fun a => ?_
  cases a with
  | error _ => exact .ret fun _ hs => hs.kept
  | ok rules =>
    refine .given fun hrules => ?_
    subst hrules
    refine (total_spares ?_).pre fun _ hs => hs.kept
    dsimp only
    split
    · trivial
    · refine uses_bind ?_ fun _ => uses_forEach_mem fun r hr => ?_
      · exact uses_bracket trivial trivial
          (uses_forEach_mem fun r hr => spares_removeEntryLocked hv (hforeign r hr).2)
      · exact spares_tryAdd (hforeign r hr).1 (hforeign r hr).2

end Kept

/-! ## A tick of the loop -/

section Tick

variable {vmId : String} {s₀ : State} {r : Rule}

/-- The rule is a row of the table, and it is not active. -/
structure Missing (vmId : String) (s₀ : State) (r : Rule) (s : State) : Prop where
  kept : Kept vmId s₀ s
  absent : s.mappings.lookup (r.vmId, r.toPortKey) = none

theorem Missing.neutral {s : State} (h : Missing vmId s₀ r s) {p : Pid} {i : Input} {e : Act}
    (he : Neutral e) : Missing vmId s₀ r (s.apply p i e) := by
  obtain ⟨hm, hr⟩ := he p i s
  refine ⟨⟨fun k e' hk => ?_, fun k row hk hv => ?_⟩, ?_⟩
  · rw [hm]
    exact h.kept.mapping k e' hk
  · rw [hr]
    exact h.kept.row k row hk hv
  · rw [hm]
    exact h.absent

theorem total_missing {α : Type} {x : Prog State Input Act α} (h : x.Uses Neutral) :
    Finishes 0 (Missing vmId s₀ r) x (fun _ => Missing vmId s₀ r) :=
  .of_uses (h.mono fun _ he _ hs => ⟨False.elim, fun _ _ => hs.neutral he⟩)

theorem total_missing_bind {α : Type} {x : MProc α} {f : α → MProc Unit}
    (hx : Prog.Uses Neutral x)
    (hf : ∀ a, Finishes 0 (Missing vmId s₀ r) (f a) (fun _ => Kept vmId s₀)) :
    Finishes 0 (Missing vmId s₀ r) (x >>= f : MProc Unit) (fun _ => Kept vmId s₀) := by
  refine .chain (R := fun _ => Missing vmId s₀ r) (E := fun _ => Missing vmId s₀ r) ?_
    (fun _ _ h => h.kept) hf
  refine (total_missing hx).post fun a s h => ?_
  cases a <;> exact h

theorem kept_establish (hr : r ∈ s₀.rules) :
    Finishes 0 (Missing vmId s₀ r) (establish r) (fun _ => Kept vmId s₀) := by
  refine total_missing_bind (.perform fun _ _ _ => ⟨rfl, rfl⟩) fun ip => ?_
  split
  · exact .ret fun _ hs => hs.kept
  · refine total_missing_bind (.perform fun _ _ _ => ⟨rfl, rfl⟩) fun _ => ?_
    refine .step (R := fun _ => Kept vmId s₀) ?_ fun _ => ?_
    · refine .perform (fun _ _ => False.elim) fun s i hs _ => ?_
      refine ⟨fun k e hk => ?_, hs.kept.row⟩
      have hne : (vmId, k) ≠ (r.vmId, r.toPortKey) := by
        intro heq
        have hold := hs.kept.mapping k e hk
        rw [heq, hs.absent] at hold
        cases hold
      exact (AList.lookup_insert_ne hne).trans (hs.kept.mapping k e hk)
    · refine .perform (fun _ _ => False.elim) fun s i hs _ => ?_
      show Kept vmId s₀ (s.apply 0 i (.save r))
      rw [State.apply]
      split
      · exact hs
      · refine ⟨hs.mapping, fun k row hk hv => ?_⟩
        by_cases heq : k = r.toPortKey
        · subst heq
          cases hk.symm.trans (mem_rules.mp hr)
          exact AList.lookup_insert ..
        · exact (AList.lookup_insert_ne heq).trans (hs.row k row hk hv)

theorem kept_addMapping (hr : r ∈ s₀.rules) :
    Finishes 0 (Missing vmId s₀ r) (addMapping r false) (fun _ => Kept vmId s₀) := by
  obtain ⟨e, heq⟩ | ⟨-, -, heq⟩ := addMapping_cases r false
  · rw [heq]
    exact .ret fun _ hs => hs.kept
  · rw [heq]
    refine .bind (total_missing (.perform (neutral_lock _))) fun _ => ?_
    refine .bind (R := fun _ => Kept vmId s₀) ?_ fun a => ?_
    · refine .step (R := fun e s => Missing vmId s₀ r s ∧ e = none) ?_ fun e => ?_
      · exact .perform (fun _ _ => False.elim) fun s i hs _ => ⟨hs, hs.absent⟩
      · refine .given fun he => ?_
        subst he
        exact total_missing_bind
          (uses_checkedLimit (fun _ _ _ => ⟨rfl, rfl⟩) (fun _ _ _ => ⟨rfl, rfl⟩) ..)
          fun _ => kept_establish hr
    · refine .bind (total_spares (.perform trivial)) fun _ => ?_
      exact .ret fun _ hs => hs

theorem kept_reconcileRule (hr : r ∈ s₀.rules) :
    Finishes 0 (Kept vmId s₀) (reconcileRule r) (succeedsWith fun _ => Kept vmId s₀) := by
  refine .step (R := fun active s => Kept vmId s₀ s ∧
    (active = false → s.mappings.lookup (r.vmId, r.toPortKey) = none)) ?_ fun active => ?_
  · refine .step (R := fun e s => Kept vmId s₀ s ∧
      s.mappings.lookup (r.vmId, r.toPortKey) = e) ?_ fun e => ?_
    · exact .perform (fun _ _ => False.elim) fun s i hs _ => ⟨hs, rfl⟩
    · refine .ret fun s hs => ⟨hs.1, fun he => ?_⟩
      rw [hs.2]
      exact Option.isNone_iff_eq_none.mp (Option.isSome_eq_false_iff.mp he)
  · cases active with
    | true => exact .ret fun _ hs => hs.1
    | false =>
      refine .attemptBind (R := fun _ => Kept vmId s₀) ?_ fun _ => .ret fun _ hs => hs
      exact (kept_addMapping hr).pre fun s hs => ⟨hs.1, hs.2 rfl⟩

theorem kept_reconcile :
    Finishes 0 (Same s₀) reconcile (fun _ => Kept vmId s₀) := by
  have hlist : Finishes 0 (Same s₀) listAllPortForwards
      (ends (fun all s => Same s₀ s ∧ all = s₀.rules) (fun _ => Same s₀)) := by
    refine .perform (fun _ _ => False.elim) fun s i hs _ => ?_
    cases i.fail with
    | some msg => exact hs
    | none =>
      refine ⟨hs, ?_⟩
      show s.rules = s₀.rules
      rw [State.rules, hs.2, State.rules]
  refine .attemptBind hlist fun a => ?_
  cases a with
  | error _ => exact .ret fun _ hs => hs.kept
  | ok all =>
    refine .given fun hall => ?_
    have hloop : Finishes 0 (fun s => Kept vmId s₀ s ∧ all ⊆ s₀.rules)
        (forEach reconcileRule all) (succeedsWith fun _ s => Kept vmId s₀ s ∧ [] ⊆ s₀.rules) := by
      refine .forEach (P := fun rs s => Kept vmId s₀ s ∧ rs ⊆ s₀.rules) fun r rs => ?_
      refine .given fun hsub => ?_
      have hmem := List.cons_subset.mp hsub
      refine (kept_reconcileRule hmem.1).post fun a s hs => ?_
      cases a with
      | ok _ => exact ⟨hs, hmem.2⟩
      | error _ => exact hs.elim
    refine (hloop.pre fun s hs => ⟨hs.kept, hall ▸ List.Subset.refl _⟩).post fun a s hs => ?_
    cases a with
    | ok _ => exact hs.1
    | error _ => exact hs.elim

end Tick

/-! ## Sequences of operations -/

theorem op_keeps_others {op : Op} {s' : State} {a : Except Err Unit} (hvm : op.vm ≠ some vmId)
    (h : op.Owns s) (hrun : Prog.Runs machine anyStep 0 op.code s a s') : Kept vmId s s' := by
  have hv : ∀ {v : String}, some v ≠ some vmId → v ≠ vmId := fun hne heq => hne (congrArg some heq)
  have hone : ∀ {v : String} {k : PortKey}, some v ≠ some vmId →
      (∀ row, s.rows.lookup k = some row → some v = some row.vmId) → Foreign vmId s k :=
    fun hne hrow => foreign_of_owns (hv hne) hrow
  have htotal : Finishes 0 (Same s) op.code (fun _ => Kept vmId s) := by
    cases op with
    | add r =>
      exact (total_spares (spares_addMapping (hv hvm) (hone hvm (h _ (.head _))))).pre
        fun _ hs => hs.kept
    | remove v k =>
      exact (total_spares (spares_removeMapping (hv hvm) (hone hvm (h _ (.head _))))).pre
        fun _ hs => hs.kept
    | sync v desired => exact kept_sync (hv hvm) h
    | refresh v => exact kept_refresh (hv hvm)
    | delete v => exact kept_delete (hv hvm) h
    | tick => exact kept_reconcile
  exact (htotal.runs ⟨rfl, rfl⟩).2 _ _ hrun

/-- A sequence of operations on other VMs, which only touch keys whose rows are their own, leaves
the mappings and the rows of a VM alone, whatever fails. -/
theorem ops_keep_others {vmId : String} {ops : List Op} {s s' : State}
    (hrun : Sequence Op.Owns ops s s') (hvm : ∀ op ∈ ops, op.vm ≠ some vmId) :
    Kept vmId s s' := by
  induction hrun with
  | nil s => exact Kept.refl vmId s
  | cons hown hop _ ih =>
    have hfirst := op_keeps_others (hvm _ (.head _)) hown hop
    exact hfirst.trans (ih fun op hmem => hvm op (.tail _ hmem))

/-- A rule of the VM `b` for a port of its own. -/
def shop : Rule := { web "b" "shop" with hostPort := 30001 }

def shopActive : State where
  mappings := webActive.mappings.insert ("b", shop.toPortKey) ⟨80, "10.0.0.3:80", "shop"⟩
  rows := webActive.rows.insert shop.toPortKey shop.toRow

theorem shop_keeps_web :
    Sequence Op.Owns [.add shop, .tick] webActive shopActive ∧ Kept "a" webActive shopActive := by
  have hadd : Prog.Runs machine anyStep 0 (Op.add shop).code webActive (.ok ()) shopActive :=
    Prog.runs_of_alone [{}, {}, {}, {}, { ip := "10.0.0.3" }, {}, {}, {}, {}] rfl
  have htick : Prog.Runs machine anyStep 0 Op.tick.code shopActive (.ok ()) shopActive :=
    Prog.runs_of_alone [{}, {}, {}] rfl
  have hown : (Op.add shop).Owns webActive := by
    intro k hk row hrow
    cases List.mem_singleton.mp hk
    cases hrow
  have hseq : Sequence Op.Owns [.add shop, .tick] webActive shopActive :=
    .cons hown hadd (.cons nofun htick (.nil _))
  exact ⟨hseq, ops_keep_others hseq (by decide)⟩

/-- The VM `a` is down: its rule is only in the table. -/
def webStored : State where
  rows := .singleton (web "a" "web").toPortKey (web "a" "web").toRow

/-- Another VM asks for the port and gets it; the rule of `a` is no longer in the table. -/
theorem stored_rule_overwritten :
    ∃ s', Sequence (fun _ _ => True) [.add (web "b" "web")] webStored s' ∧
      s'.rows.lookup (web "a" "web").toPortKey = some (web "b" "web").toRow ∧
      ¬Kept "a" webStored s' := by
  have hadd : Prog.Runs machine anyStep 0 (Op.add (web "b" "web")).code webStored (.ok ())
      { mappings := .singleton ("b", (web "b" "web").toPortKey) ⟨80, "10.0.0.3:80", "web"⟩
        rows := .singleton (web "b" "web").toPortKey (web "b" "web").toRow } :=
    Prog.runs_of_alone [{}, {}, {}, {}, { ip := "10.0.0.3" }, {}, {}, {}, {}] rfl
  refine ⟨_, .cons trivial hadd (.nil _), rfl, fun h => ?_⟩
  exact absurd (h.row (web "a" "web").toPortKey (web "a" "web").toRow rfl rfl) (by decide)

end RunmanAgent.GoAgent
