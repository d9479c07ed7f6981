import RunmanAgent.HostPolicy.Manager

/-!
# The readback of the host firewall (`Manager::readback`)

The rules that RFW lists are compared with the stored policy twice: row by row, through the
managed rule that owns the row, and desired rule by desired rule, through the managed rule of
its key. Both passes write into one `Readback`.

* `readback`: the comparison, for the rows and the capabilities that RFW answered.
* `Readback.report`: status, counts and sync states of a readback.
* `report_readback`: the report as a function of the sync states alone.
* `Report.total_eq_iff`: what it takes that counting drifted rows makes no difference.
-/

namespace RunmanAgent.HostPolicy

structure ExpectedRuleReadback where
  key : String
  id : Int
  syncState : String
  deriving DecidableEq

structure Readback where
  status : String
  observedAt : Int
  rfwApiVersion : String
  capabilitiesKnown : Bool
  supportedProtocols : List String
  policyRevision : Int
  ruleCount : Nat
  managedRuleCount : Nat := 0
  driftCount : Nat := 0
  missingCount : Nat := 0
  rules : List RuleReadback := []
  expectedRules : List ExpectedRuleReadback := []
  deriving DecidableEq

/-- The entry of a key in a map that is collected from a list: a later entry replaces an
earlier one. -/
def collected {α κ : Type} [DecidableEq κ] (key : α → κ) (l : List α) (k : κ) : Option α :=
  l.reverse.find? fun a => key a == k

section Collected

variable {α κ : Type} [DecidableEq κ] {key : α → κ} {l : List α} {k : κ} {a : α}

theorem mem_of_collected (h : collected key l k = some a) : a ∈ l ∧ key a = k := by
  have hkey := List.find?_some h
  exact ⟨List.mem_reverse.mp (List.mem_of_find?_eq_some h), by simpa using hkey⟩

theorem collected_of_mem (hl : (l.map key).Nodup) (ha : a ∈ l) :
    collected key l (key a) = some a := by
  cases hfind : collected key l (key a) with
  | none =>
    have hnone := List.find?_eq_none.mp hfind a (List.mem_reverse.mpr ha)
    simp at hnone
  | some b =>
    obtain ⟨hb, hkey⟩ := mem_of_collected hfind
    rw [List.inj_on_of_nodup_map hl hb ha hkey]

end Collected

def readbackRow (st : State) (result : Readback) (row : RawRule) : Readback :=
  match collected (·.id) st.managedRules row.id with
  | none => { result with rules := result.rules ++ [readbackRule row] }
  | some owner =>
    let syncState :=
      match collected (·.key) st.policy.rules owner.key with
      | none => "orphaned"
      | some want =>
        if owner.fingerprint == fingerprint want && rawMatches row want then "in_sync"
        else "drifted"
    let item := { readbackRule row with
      origin := "platform"
      managedKey := owner.key
      syncState := syncState }
    let result := { result with
      managedRuleCount := result.managedRuleCount + 1
      rules := result.rules ++ [item] }
    if syncState ≠ "in_sync" then
      { result with driftCount := result.driftCount + 1, status := "drifted" }
    else result

/-- The end of a turn of the loop through the desired rules. -/
def Readback.expect (result : Readback) (key : String) (id : Int) (syncState : String) :
    Readback :=
  let result := { result with expectedRules := result.expectedRules ++ [⟨key, id, syncState⟩] }
  if syncState = "missing" then
    { result with missingCount := result.missingCount + 1, status := "drifted" }
  else if syncState = "drifted" then
    { result with driftCount := result.driftCount + 1, status := "drifted" }
  else result

def readbackWant (st : State) (rows : List RawRule) (result : Readback) (want : Rule) :
    Readback :=
  let owner := st.managedRules.find? fun r => r.key == want.key
  let syncState :=
    match owner.bind fun r => (collected (·.id) rows r.id).map (r, ·) with
    | none => "missing"
    | some (owner, actual) =>
      if owner.fingerprint == fingerprint want && rawMatches actual want then "in_sync"
      else "drifted"
  result.expect want.key (owner.elim 0 (·.id)) syncState

def readback (st : State) (rows : List RawRule) (caps : Capabilities) (now : Int) : Readback :=
  st.policy.rules.foldl (readbackWant st rows) (rows.foldl (readbackRow st) {
    status := "in_sync"
    observedAt := now
    rfwApiVersion := caps.apiVersion
    capabilitiesKnown := caps.known
    supportedProtocols := caps.protocols
    policyRevision := st.revision
    ruleCount := rows.length })

/-! ## Sync states -/

section States

-- whether a listed rule is what its managed rule and its desired rule say
variable (same : ManagedRule → RawRule → Rule → Bool)

def rowState (st : State) (row : RawRule) : String :=
  match collected (·.id) st.managedRules row.id with
  | none => "manual"
  | some owner =>
    match collected (·.key) st.policy.rules owner.key with
    | none => "orphaned"
    | some want => if same owner row want then "in_sync" else "drifted"

def wantState (st : State) (rows : List RawRule) (want : Rule) : String :=
  match st.managedRules.find? fun r => r.key == want.key with
  | none => "missing"
  | some owner =>
    match collected (·.id) rows owner.id with
    | none => "missing"
    | some actual => if same owner actual want then "in_sync" else "drifted"

end States

/-- What a readback says about the rules, their contents apart. -/
structure Report where
  status : String := "in_sync"
  managedRuleCount : Nat := 0
  driftCount : Nat := 0
  missingCount : Nat := 0
  ruleStates : List String := []
  expectedStates : List String := []
  deriving DecidableEq

def Readback.report (r : Readback) : Report where
  status := r.status
  managedRuleCount := r.managedRuleCount
  driftCount := r.driftCount
  missingCount := r.missingCount
  ruleStates := r.rules.map (·.syncState)
  expectedStates := r.expectedRules.map (·.syncState)

namespace Report

/-- One more row; `counts` are the states that add to the drift count. -/
def observe (counts : List String) (r : Report) (syncState : String) : Report where
  status := if syncState = "orphaned" ∨ syncState = "drifted" then "drifted" else r.status
  managedRuleCount := if syncState = "manual" then r.managedRuleCount else r.managedRuleCount + 1
  driftCount := if syncState ∈ counts then r.driftCount + 1 else r.driftCount
  missingCount := r.missingCount
  ruleStates := r.ruleStates ++ [syncState]
  expectedStates := r.expectedStates

/-- One more desired rule. -/
def expect (r : Report) (syncState : String) : Report where
  status := if syncState = "missing" ∨ syncState = "drifted" then "drifted" else r.status
  managedRuleCount := r.managedRuleCount
  driftCount := if syncState = "drifted" then r.driftCount + 1 else r.driftCount
  missingCount := if syncState = "missing" then r.missingCount + 1 else r.missingCount
  ruleStates := r.ruleStates
  expectedStates := r.expectedStates ++ [syncState]

def total (counts ruleStates expectedStates : List String) : Report :=
  expectedStates.foldl expect (ruleStates.foldl (observe counts) {})

theorem foldl_expect (l : List String) (r : Report) :
    (l.foldl expect r).ruleStates = r.ruleStates ∧
      (l.foldl expect r).expectedStates = r.expectedStates ++ l ∧
      (l.foldl expect r).driftCount = r.driftCount + l.count "drifted" := by
  induction l generalizing r with
  | nil => exact ⟨rfl, (List.append_nil _).symm, rfl⟩
  | cons s l ih =>
    obtain ⟨hrules, hexpected, hdrift⟩ := ih (r.expect s)
    refine ⟨hrules, ?_, ?_⟩
    · rw [List.foldl_cons, hexpected, expect, List.append_assoc, List.singleton_append]
    · rw [List.foldl_cons, hdrift, List.count_cons, expect]
      by_cases hs : s = "drifted"
      · simp only [hs, if_true, beq_self_eq_true]
        omega
      · simp only [hs, if_false, beq_iff_eq]
        omega

theorem foldl_observe (counts l : List String) (r : Report) :
    (l.foldl (observe counts) r).ruleStates = r.ruleStates ++ l ∧
      (l.foldl (observe counts) r).expectedStates = r.expectedStates ∧
      (l.foldl (observe counts) r).driftCount = r.driftCount + l.countP (· ∈ counts) := by
  induction l generalizing r with
  | nil => exact ⟨(List.append_nil _).symm, rfl, rfl⟩
  | cons s l ih =>
    obtain ⟨hrules, hexpected, hdrift⟩ := ih (r.observe counts s)
    refine ⟨?_, hexpected, ?_⟩
    · rw [List.foldl_cons, hrules, observe, List.append_assoc, List.singleton_append]
    · rw [List.foldl_cons, hdrift, List.countP_cons, observe]
      by_cases hs : s ∈ counts
      · simp only [hs, if_true, decide_true]
        omega
      · simp only [hs, if_false, decide_false]
        rfl

@[simp] theorem total_ruleStates (counts ss es : List String) :
    (total counts ss es).ruleStates = ss := by
  rw [total, (foldl_expect es _).1, (foldl_observe counts ss {}).1]
  rfl

@[simp] theorem total_expectedStates (counts ss es : List String) :
    (total counts ss es).expectedStates = es := by
  rw [total, (foldl_expect es _).2.1, (foldl_observe counts ss {}).2.1]
  rfl

@[simp] theorem total_driftCount (counts ss es : List String) :
    (total counts ss es).driftCount = ss.countP (· ∈ counts) + es.count "drifted" := by
  rw [total, (foldl_expect es _).2.2, (foldl_observe counts ss {}).2.2]
  simp

theorem countP_drift (ss : List String) :
    ss.countP (· ∈ ["orphaned", "drifted"]) =
      ss.countP (· ∈ ["orphaned"]) + ss.count "drifted" := by
  induction ss with
  | nil => rfl
  | cons s ss ih =>
    rw [List.countP_cons, List.countP_cons, List.count_cons, ih]
    by_cases ho : s = "orphaned"
    · subst ho
      simp
      omega
    · by_cases hd : s = "drifted"
      · subst hd
        simp
        omega
      · simp [ho, hd]

theorem total_eq_iff {ss ss' es es' : List String} :
    total ["orphaned", "drifted"] ss es = total ["orphaned"] ss' es' ↔
      ss = ss' ∧ es = es' ∧ "drifted" ∉ ss := by
  constructor
  · intro h
    have hss : ss = ss' := by simpa using congrArg ruleStates h
    have hes : es = es' := by simpa using congrArg expectedStates h
    subst hss hes
    have hcount := congrArg driftCount h
    rw [total_driftCount, total_driftCount, countP_drift] at hcount
    exact ⟨rfl, rfl, List.count_eq_zero.mp (by omega)⟩
  · rintro ⟨rfl, rfl, hdrift⟩
    have hsame : ∀ r : Report,
        ss.foldl (observe ["orphaned", "drifted"]) r = ss.foldl (observe ["orphaned"]) r := by
      intro r
      refine List.foldl_ext _ _ _ fun r s hs => ?_
      have hne : s ≠ "drifted" := fun heq => hdrift (heq ▸ hs)
      simp [observe, hne]
    rw [total, total, hsame]

end Report

/-! ## The report of a readback -/

theorem Readback.report_expect (r : Readback) (key : String) (id : Int) (s : String) :
    (r.expect key id s).report = r.report.expect s := by
  unfold Readback.expect
  by_cases hm : s = "missing"
  · simp [hm, Readback.report, Report.expect]
  · by_cases hd : s = "drifted"
    · simp [hd, Readback.report, Report.expect]
    · simp [hm, hd, Readback.report, Report.expect]

def inSync (owner : ManagedRule) (row : RawRule) (want : Rule) : Bool :=
  owner.fingerprint == fingerprint want && rawMatches row want

theorem report_readbackRow (st : State) (r : Readback) (row : RawRule) :
    (readbackRow st r row).report =
      r.report.observe ["orphaned", "drifted"] (rowState inSync st row) := by
  unfold readbackRow rowState
  cases collected (·.id) st.managedRules row.id with
  | none => simp [Readback.report, Report.observe, readbackRule]
  | some owner =>
    dsimp only
    cases collected (·.key) st.policy.rules owner.key with
    | none => simp [Readback.report, Report.observe]
    | some want =>
      dsimp only
      by_cases hs : inSync owner row want = true
      · rw [if_pos hs]
        rw [inSync] at hs
        simp [hs, Readback.report, Report.observe]
      · rw [if_neg hs]
        rw [inSync] at hs
        simp [hs, Readback.report, Report.observe]

theorem report_readbackWant (st : State) (rows : List RawRule) (r : Readback) (want : Rule) :
    (readbackWant st rows r want).report = r.report.expect (wantState inSync st rows want) := by
  unfold readbackWant wantState
  dsimp only
  rw [Readback.report_expect]
  cases st.managedRules.find? fun r => r.key == want.key with
  | none => rfl
  | some owner =>
    dsimp only [Option.bind_some]
    cases collected (·.id) rows owner.id with
    | none => rfl
    | some actual => rfl

theorem report_foldl {α : Type} {step : Readback → α → Readback}
    {acc : Report → String → Report} {state : α → String}
    (h : ∀ r a, (step r a).report = acc r.report (state a)) (l : List α) (r : Readback) :
    (l.foldl step r).report = (l.map state).foldl acc r.report := by
  induction l generalizing r with
  | nil => rfl
  | cons a l ih => rw [List.foldl_cons, ih, h, List.map_cons, List.foldl_cons]

theorem report_readback (st : State) (rows : List RawRule) (caps : Capabilities) (now : Int) :
    (readback st rows caps now).report =
      Report.total ["orphaned", "drifted"] (rows.map (rowState inSync st))
        (st.policy.rules.map (wantState inSync st rows)) := by
  rw [readback, report_foldl (report_readbackWant st rows), report_foldl (report_readbackRow st)]
  rfl

end RunmanAgent.HostPolicy
