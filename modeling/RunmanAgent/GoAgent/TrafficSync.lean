import RunmanAgent.Concurrency.Discipline
import RunmanAgent.Traffic

/-!
# Traffic totals of the Go agent (`traffic/traffic.go`)

The service reads the counters of each VM, reads its row, adds what the counters grew by and
saves the row. A row that cannot be read is taken for one that does not exist, and then a new
row is saved in its place: the totals start at 0 again. `Fits` leaves this out
(`traffic_monotone`). Counters are `int64`.
-/

namespace RunmanAgent.GoAgent.TrafficSync

open Concurrency Proc

/-- The columns of `db.Traffic` besides its key. -/
structure Traffic where
  rawIn : Int
  rawOut : Int
  totalIn : Int
  totalOut : Int
  month : String
  monthIn : Int
  monthOut : Int
  updatedAt : Nat
deriving DecidableEq

structure NetStats where
  inBytes : Int
  outBytes : Int
deriving DecidableEq

/-- The bytes since the last sample; after a reset of the counter, all of them. -/
def delta (cur raw : Int) : Int :=
  let d := wrapI64 (cur - raw)
  if d < 0 then cur else d

def initial (now : Nat) (cycle : String) (st : NetStats) : Traffic where
  rawIn := st.inBytes
  rawOut := st.outBytes
  totalIn := 0
  totalOut := 0
  month := cycle
  monthIn := 0
  monthOut := 0
  updatedAt := now

def updated (now : Nat) (cycle : String) (st : NetStats) (t : Traffic) : Traffic :=
  let deltaIn := delta st.inBytes t.rawIn
  let deltaOut := delta st.outBytes t.rawOut
  let t := { t with
    totalIn := wrapI64 (t.totalIn + deltaIn)
    totalOut := wrapI64 (t.totalOut + deltaOut) }
  let t := if t.month ≠ cycle then { t with month := cycle, monthIn := 0, monthOut := 0 } else t
  { t with
    monthIn := wrapI64 (t.monthIn + deltaIn)
    monthOut := wrapI64 (t.monthOut + deltaOut)
    rawIn := st.inBytes
    rawOut := st.outBytes
    updatedAt := now }

/-- `%04d` and `%02d`. -/
def padded (width : Nat) (z : Int) : String :=
  let digits := toString z
  "".pushn '0' (width - digits.length) ++ digits

/-- The first day of the billing cycle that a date is in. -/
def currentCycle (y m d resetDay : Int) : String :=
  let resetDay := if resetDay ≤ 0 ∨ 28 < resetDay then 1 else resetDay
  let (y, m) := if d < resetDay then (if m - 1 = 0 then (y - 1, 12) else (y, m - 1)) else (y, m)
  padded 4 y ++ "-" ++ padded 2 m ++ "-" ++ padded 2 resetDay

/-! ## Actions -/

structure State where
  /-- The table `Traffic`. -/
  rows : String → Option Traffic := fun _ => none

inductive Act where
  | listVMs
  | clock
  | netStats (vmId : String)
  | get (vmId : String)
  | save (vmId : String) (t : Traffic)
  | delete (vmId : String)
  | resetMonth (vmId : String)

structure Input where
  fail : Option String := none
  vms : List String := []
  now : Nat := 0
  /-- Year, month and day of `now`. -/
  date : Int × Int × Int := (2026, 1, 1)
  resetDay : Int := 1
  stats : NetStats := ⟨0, 0⟩

def State.apply (s : State) (i : Input) : Act → State
  | .save vmId t =>
    if i.fail.isSome then s else { s with rows := Function.update s.rows vmId (some t) }
  | .delete vmId =>
    if i.fail.isSome then s else { s with rows := Function.update s.rows vmId none }
  | .resetMonth vmId =>
    if i.fail.isSome then s
    else
      let row := (s.rows vmId).map fun t => { t with monthIn := 0, monthOut := 0 }
      { s with rows := Function.update s.rows vmId row }
  | .listVMs | .clock | .netStats _ | .get _ => s

def machine : Machine State Input Act where
  enabled _ _ _ := true
  apply e _ s i := s.apply i e

abbrev SProc := Proc State Input Act String

def fallible {α : Type} (e : Act) (f : Input → α) : SProc α :=
  perform e fun _ _ i =>
    match i.fail with
    | some msg => .error msg
    | none => .ok (f i)

def getTraffic (vmId : String) : SProc Traffic :=
  perform (.get vmId) fun _ s i =>
    match i.fail, s.rows vmId with
    | some msg, _ => .error msg
    | none, none => .error "record not found"
    | none, some t => .ok t

def saveTraffic (vmId : String) (t : Traffic) : SProc Unit := fallible (.save vmId t) fun _ => ()

def deleteTraffic (vmId : String) : SProc Unit := fallible (.delete vmId) fun _ => ()

def resetTrafficMonth (vmId : String) : SProc Unit := fallible (.resetMonth vmId) fun _ => ()

/-! ## The service -/

/-- The row to be saved; a row that could not be read counts as a new one. -/
def next (now : Nat) (cycle : String) (st : NetStats) : Except String Traffic → Traffic
  | .error _ => initial now cycle st
  | .ok t => updated now cycle st t

def syncVM (now : Nat) (cycle vmId : String) : SProc Unit := do
  match ← (fallible (.netStats vmId) (·.stats)).attempt with
  | .error _ => pure ()
  | .ok st =>
    let row ← (getTraffic vmId).attempt
    let _ ← (saveTraffic vmId (next now cycle st row)).attempt
    pure ()

def syncOnce : SProc Unit := do
  match ← (fallible .listVMs (·.vms)).attempt with
  | .error _ => pure ()
  | .ok vms =>
    let (now, cycle) ← read .clock fun _ _ i =>
      (i.now, currentCycle i.date.1 i.date.2.1 i.date.2.2 i.resetDay)
    forEach (syncVM now cycle) vms

/-- The loop of the service, for the given number of rounds. -/
def run : Nat → SProc Unit
  | 0 => pure ()
  | n + 1 => do
    syncOnce
    run n

/-- What other parts of the agent do with the table. -/
inductive Call where
  | delete (vmId : String)
  | resetMonth (vmId : String)

def Call.code : Call → SProc Unit
  | .delete vmId => deleteTraffic vmId
  | .resetMonth vmId => resetTrafficMonth vmId

/-- The service and any number of calls. -/
def task (n : Nat) (calls : Pid → Call) : Pid → SProc Unit
  | 0 => run n
  | p + 1 => (calls (p + 1)).code

def pool (n : Nat) (calls : Pid → Call) (s : State) : Pool State Input Act where
  mem := s
  procs p := Prog.bind (task n calls p) fun _ => .ret ()

/-! ## What a sample does to a row -/

def Int64 (z : Int) : Prop := -2 ^ 63 ≤ z ∧ z < 2 ^ 63

instance (z : Int) : Decidable (Int64 z) := inferInstanceAs (Decidable (_ ∧ _))

/-- The sums of the row with what the counters grew by do not overflow. -/
structure Adds (st : NetStats) (t : Traffic) : Prop where
  totalIn : Int64 (t.totalIn + delta st.inBytes t.rawIn)
  totalOut : Int64 (t.totalOut + delta st.outBytes t.rawOut)
  monthIn : Int64 (t.monthIn + delta st.inBytes t.rawIn)
  monthOut : Int64 (t.monthOut + delta st.outBytes t.rawOut)

instance (st : NetStats) (t : Traffic) : Decidable (Adds st t) :=
  decidable_of_iff (Int64 (t.totalIn + delta st.inBytes t.rawIn) ∧
      Int64 (t.totalOut + delta st.outBytes t.rawOut) ∧
      Int64 (t.monthIn + delta st.inBytes t.rawIn) ∧
      Int64 (t.monthOut + delta st.outBytes t.rawOut))
    ⟨fun ⟨a, b, c, d⟩ => ⟨a, b, c, d⟩, fun ⟨a, b, c, d⟩ => ⟨a, b, c, d⟩⟩

/-- The totals do not decrease, nor do the month counters within a cycle. -/
structure Grows (t t' : Traffic) : Prop where
  totalIn : t.totalIn ≤ t'.totalIn
  totalOut : t.totalOut ≤ t'.totalOut
  month : t.month = t'.month → t.monthIn ≤ t'.monthIn ∧ t.monthOut ≤ t'.monthOut

theorem delta_nonneg {cur : Int} (h : 0 ≤ cur) (raw : Int) : 0 ≤ delta cur raw := by
  unfold delta
  dsimp only
  split <;> omega

theorem le_wrapI64_add {a d : Int} (hd : 0 ≤ d) (h : Int64 (a + d)) : a ≤ wrapI64 (a + d) := by
  rw [wrapI64_of_bounds h.1 h.2]
  omega

theorem grows_updated {now : Nat} {cycle : String} {st : NetStats} {t : Traffic}
    (hin : 0 ≤ st.inBytes) (hout : 0 ≤ st.outBytes) (h : Adds st t) :
    Grows t (updated now cycle st t) := by
  have hdin := delta_nonneg hin t.rawIn
  have hdout := delta_nonneg hout t.rawOut
  refine ⟨?_, ?_, fun hmonth => ?_⟩
  · unfold updated
    dsimp only
    split <;> exact le_wrapI64_add hdin h.totalIn
  · unfold updated
    dsimp only
    split <;> exact le_wrapI64_add hdout h.totalOut
  · by_cases hcycle : t.month = cycle
    · unfold updated
      dsimp only
      rw [if_neg (not_not.mpr hcycle)]
      exact ⟨le_wrapI64_add hdin h.monthIn, le_wrapI64_add hdout h.monthOut⟩
    · -- the row has been given the new cycle
      have hnew : (updated now cycle st t).month = cycle := by
        unfold updated
        dsimp only
        rw [if_pos hcycle]
      exact absurd (hmonth.trans hnew) hcycle

/-! ## Runs -/

/-- For the VM: its counters are numbers of bytes whose sums with the row fit, its row is read
without an error if there is one, and nobody deletes the row or resets its month. -/
def Fits (v : String) (_ : Pid) (e : Act) (s : State) (i : Input) : Prop :=
  match e with
  | .netStats vmId => vmId = v → i.fail = none →
    0 ≤ i.stats.inBytes ∧ 0 ≤ i.stats.outBytes ∧ ∀ t ∈ s.rows v, Adds i.stats t
  | .get vmId => vmId = v → (s.rows v).isSome = true → i.fail = none
  | .delete vmId | .resetMonth vmId => vmId ≠ v
  | _ => True

instance (v : String) (p : Pid) (e : Act) (s : State) (i : Input) : Decidable (Fits v p e s i) := by
  unfold Fits
  split <;> infer_instance

/-- Only the service saves a row, and then it grows. -/
def May (v : String) (p : Pid) (e : Act) (s : State) : Prop :=
  ∀ t', e = .save v t' → p = 0 ∧ ∀ t ∈ s.rows v, Grows t t'

def discipline (v : String) : Discipline machine where
  inv _ := True
  may := May v
  ok := Fits v
  keeps _ _ _ _ := trivial

section Runs

variable {v : String} {me : Pid} {α : Type}

theorem rows_apply {p : Pid} {e : Act} {s : State} {i : Input} (hmay : May v p e s)
    (hok : Fits v p e s i) : (s.apply i e).rows v = s.rows v ∨
      p = 0 ∧ ∃ t', (s.apply i e).rows v = some t' ∧ ∀ t ∈ s.rows v, Grows t t' := by
  cases e with
  | save vmId t' =>
    rw [State.apply]
    split
    · exact .inl rfl
    · by_cases hv : v = vmId
      · subst hv
        obtain ⟨hp, hgrows⟩ := hmay t' rfl
        exact .inr ⟨hp, t', Function.update_self .., hgrows⟩
      · exact .inl (Function.update_of_ne hv ..)
  | delete vmId | resetMonth vmId =>
    have hv : vmId ≠ v := hok
    rw [State.apply]
    split
    · exact .inl rfl
    · exact .inl (Function.update_of_ne hv.symm ..)
  | _ => exact .inl rfl

instance stable_row (φ : Option Traffic → Prop) :
    Stable (discipline v) 0 (fun s => φ (s.rows v)) := by
  refine .of_step fun h hne _ _ hmay hok => ?_
  obtain heq | ⟨hp, -⟩ := rows_apply hmay hok
  · exact (congrArg φ heq).mpr h
  · exact absurd hp hne

/-- An action that saves no row of the VM. -/
def Quiet (v : String) (e : Act) : Prop := ∀ t, e ≠ .save v t

theorem triple_quiet {x : Prog State Input Act α} (h : x.Uses (Quiet v)) :
    Dutiful (discipline v) (May v) me x :=
  .of_uses (h.mono fun _ he _ _ _ _ _ _ => ⟨fun t ht => absurd ht (he t), trivial⟩)

theorem uses_syncVM {now : Nat} {cycle vmId : String} (h : vmId ≠ v) :
    Prog.Uses (Quiet v) (syncVM now cycle vmId) := by
  refine uses_bind (uses_attempt (.perform nofun)) fun r => ?_
  cases r with
  | error e => trivial
  | ok st =>
    refine uses_bind (uses_attempt (.perform nofun)) fun row => ?_
    refine uses_bind (uses_attempt (.perform fun t ht => ?_)) fun _ => trivial
    cases ht
    exact h rfl

/-- The sample is one of byte counters, and its sums with the row fit. -/
def Sampled (st : NetStats) (row : Option Traffic) : Prop :=
  0 ≤ st.inBytes ∧ 0 ≤ st.outBytes ∧ ∀ t ∈ row, Adds st t

theorem triple_netStats :
    Triple (discipline v) (May v) 0 (fun _ => True) (fallible (.netStats v) (·.stats))
      (ends (fun st s => Sampled st (s.rows v)) (fun _ _ => True)) := by
  refine .perform fun s i _ _ _ hok => ?_
  refine ⟨nofun, ?_⟩
  cases hfail : i.fail with
  | some msg => trivial
  | none => exact hok rfl hfail

/-- A row, if there is one, has been read. -/
def IsRead (r : Except String Traffic) (row : Option Traffic) : Prop := ∀ t ∈ row, r = .ok t

theorem triple_getTraffic (st : NetStats) :
    Triple (discipline v) (May v) 0 (fun s => Sampled st (s.rows v)) (getTraffic v)
      (fun r s => Sampled st (s.rows v) ∧ IsRead r (s.rows v)) := by
  refine .perform fun s i _ hs _ hok => ?_
  refine ⟨nofun, hs, fun t ht => ?_⟩
  have hrow : s.rows v = some t := ht
  have hfail : i.fail = none := hok rfl (by rw [hrow]; rfl)
  rw [hfail, hrow]

theorem triple_syncVM (now : Nat) (cycle : String) :
    Dutiful (discipline v) (May v) 0 (syncVM now cycle v) := by
  refine .attemptBind triple_netStats fun r => ?_
  cases r with
  | error e => exact Dutiful.ret
  | ok st =>
    refine .attemptBind (triple_getTraffic st) fun row => ?_
    refine .attemptBind (R := fun _ _ => True) ?_ fun _ => Dutiful.ret
    refine .perform fun s i _ hs _ _ => ⟨fun t' ht' => ⟨rfl, fun t ht => ?_⟩, trivial⟩
    obtain ⟨⟨hin, hout, hadds⟩, hread⟩ := hs
    cases ht'
    rw [hread t ht]
    exact grows_updated hin hout (hadds t ht)

theorem triple_syncOnce : Dutiful (discipline v) (May v) 0 syncOnce := by
  refine .attemptBind (triple_quiet (.perform nofun)) fun r => ?_
  cases r with
  | error e => exact Dutiful.ret
  | ok vms =>
    refine Dutiful.seq (triple_quiet (.perform nofun)) fun c => Dutiful.forEach fun vmId _ => ?_
    by_cases hv : vmId = v
    · subst hv
      exact triple_syncVM _ _
    · exact triple_quiet (uses_syncVM hv)

theorem triple_run (n : Nat) : Dutiful (discipline v) (May v) 0 (run n) := by
  induction n with
  | zero => exact .ret
  | succ n ih => exact .seq triple_syncOnce fun _ => ih

theorem pool_safe (n : Nat) (calls : Pid → Call) (s : State) :
    (pool n calls s).Safe (discipline v) (fun _ _ _ => True) := by
  refine ⟨trivial, fun p => ?_⟩
  have htask : Dutiful (discipline v) (May v) p (task n calls p) := by
    cases p with
    | zero => exact triple_run n
    | succ p =>
      refine triple_quiet ?_
      show Prog.Uses (Quiet v) (calls (p + 1)).code
      cases calls (p + 1) with
      | delete vmId => exact .perform nofun
      | resetMonth vmId => exact .perform nofun
  exact (htask.bind fun _ => Dutiful.ret) s trivial

/-- The row of the VM, if there is one, belongs to the cycle. -/
def InCycle (v cycle : String) (s : State) : Prop := ∀ t ∈ s.rows v, t.month = cycle

variable {t : Traffic} {P Q : Pool State Input Act}

theorem grows_step (hP : P.Safe (discipline v) (fun _ _ _ => True))
    (h : Pool.Step machine (Fits v) P Q) (ht : P.mem.rows v = some t) :
    ∃ t', Q.mem.rows v = some t' ∧ Grows t t' := by
  obtain ⟨⟨p, e, i, -, hmay, hok, heq⟩, -⟩ := hP.step h
  rw [heq]
  obtain hsame | ⟨-, t', ht', hgrows⟩ := rows_apply hmay hok
  · exact ⟨t, hsame.trans ht, Int.le_refl _, Int.le_refl _, fun _ => ⟨Int.le_refl _, Int.le_refl _⟩⟩
  · exact ⟨t', ht', hgrows t ht⟩

theorem totals_run (hP : P.Safe (discipline v) (fun _ _ _ => True))
    (h : Pool.Run machine (Fits v) P Q) (ht : P.mem.rows v = some t) :
    ∃ t', Q.mem.rows v = some t' ∧ t.totalIn ≤ t'.totalIn ∧ t.totalOut ≤ t'.totalOut := by
  induction h with
  | refl => exact ⟨t, ht, Int.le_refl _, Int.le_refl _⟩
  | tail hrun hstep ih =>
    obtain ⟨t₁, ht₁, hin, hout⟩ := ih
    obtain ⟨t₂, ht₂, hgrows⟩ := grows_step (Pool.run_safe hP hrun) hstep ht₁
    exact ⟨t₂, ht₂, Int.le_trans hin hgrows.totalIn, Int.le_trans hout hgrows.totalOut⟩

theorem month_run {cycle : String} (hP : P.Safe (discipline v) (fun _ _ _ => True))
    (h : Pool.Run machine (fun p e s i => Fits v p e s i ∧ InCycle v cycle s) P Q)
    (ht : P.mem.rows v = some t) (hQ : InCycle v cycle Q.mem) :
    ∃ t', Q.mem.rows v = some t' ∧ t.monthIn ≤ t'.monthIn ∧ t.monthOut ≤ t'.monthOut := by
  induction h with
  | refl => exact ⟨t, ht, Int.le_refl _, Int.le_refl _⟩
  | tail hrun hstep ih =>
    obtain ⟨p, i, hact, hen, hok, hcycle⟩ := hstep
    obtain ⟨t₁, ht₁, hin, hout⟩ := ih hcycle
    have hsafe := Pool.run_safe hP (Pool.Run.mono (fun _ _ _ _ h => h.1) hrun)
    obtain ⟨t₂, ht₂, hgrows⟩ := grows_step hsafe (.mk p i hact hen hok) ht₁
    have hmonth := hgrows.month ((hcycle t₁ ht₁).trans (hQ t₂ ht₂).symm)
    exact ⟨t₂, ht₂, Int.le_trans hin hmonth.1, Int.le_trans hout hmonth.2⟩

/-- In every interleaving whose steps satisfy `Fits`, the totals of a VM do not decrease from one
state to a later one, nor do its month counters within a billing cycle. -/
theorem traffic_monotone {n : Nat} {calls : Pid → Call} {s : State} {P Q : Pool State Input Act}
    (hP : Pool.Run machine (Fits v) (pool n calls s) P) (hQ : Pool.Run machine (Fits v) P Q)
    {t : Traffic} (ht : P.mem.rows v = some t) :
    ∃ t', Q.mem.rows v = some t' ∧ t.totalIn ≤ t'.totalIn ∧ t.totalOut ≤ t'.totalOut ∧
      ∀ cycle, Pool.Run machine (fun p e s i => Fits v p e s i ∧ InCycle v cycle s) P Q →
        InCycle v cycle Q.mem → t.monthIn ≤ t'.monthIn ∧ t.monthOut ≤ t'.monthOut := by
  have hsafe := Pool.run_safe (pool_safe (v := v) n calls s) hP
  obtain ⟨t', ht', hin, hout⟩ := totals_run hsafe hQ ht
  refine ⟨t', ht', hin, hout, fun cycle hrun hcycle => ?_⟩
  obtain ⟨t₂, ht₂, hmonth⟩ := month_run hsafe hrun ht hcycle
  cases ht'.symm.trans ht₂
  exact hmonth

end Runs

def stored : Traffic where
  rawIn := 900
  rawOut := 90
  totalIn := 5000
  totalOut := 500
  month := "2026-01-01"
  monthIn := 700
  monthOut := 70
  updatedAt := 0

def before : Pool State Input Act :=
  pool 1 (fun _ => .delete "b") { rows := fun v => if v = "a" then some stored else none }

/-- One round for the VM `a`, whose counters have been reset. -/
def round (fail : Option String) : List (Pid × Input) :=
  [(0, { vms := ["a"] }), (0, {}), (0, { stats := ⟨40, 4⟩ }), (0, { fail := fail }), (0, {})]

theorem reset_counters_added :
    ∃ Q t, Pool.Run machine (Fits "a") before Q ∧ Q.mem.rows "a" = some t ∧ t.totalIn = 5040 ∧
      stored.totalIn ≤ t.totalIn ∧ stored.totalOut ≤ t.totalOut := by
  obtain ⟨Q, hrun, hQ⟩ : ∃ Q, Pool.Run machine (Fits "a") before Q ∧
      (Q.mem.rows "a").map (·.totalIn) = some 5040 :=
    Pool.exists_run (round none) (by decide +kernel)
  obtain ⟨t, ht, hin, hout, -⟩ := traffic_monotone .refl hrun (t := stored) rfl
  rw [ht] at hQ
  exact ⟨Q, t, hrun, ht, Option.some.inj hQ, hin, hout⟩

/-- The database is busy when the row is read: the totals start again. -/
theorem busy_database_resets :
    ∃ Q, Pool.Run machine anyStep before Q ∧ before.mem.rows "a" = some stored ∧
      (Q.mem.rows "a").map (fun t => (t.totalIn, t.month, t.monthIn)) = some (0, "2026-01-01", 0) :=
  Pool.exists_run (round (some "database is locked")) (by decide +kernel)

end RunmanAgent.GoAgent.TrafficSync
