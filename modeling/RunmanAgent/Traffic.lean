import Mathlib

/-!
# Traffic accounting (`src/traffic.rs`)

The counters of the host end of an instance's veth pair are folded into persistent
totals; month counters carry the label of the billing period they belong to. A
`Schedule` says when billing periods start.

Counters are `u64`: an addition wraps at `2 ^ 64`, as in a release build. Times are
`i64` seconds.
-/

namespace RunmanAgent

/-- `u64` addition. -/
def addU64 (a b : Nat) : Nat := (a + b) % 2 ^ 64

theorem addU64_of_lt {a b : Nat} (h : a + b < 2 ^ 64) : addU64 a b = a + b :=
  Nat.mod_eq_of_lt h

/-- `i64` arithmetic. -/
def wrapI64 (z : Int) : Int := z.bmod (2 ^ 64)

theorem wrapI64_of_bounds {z : Int} (h : -2 ^ 63 ≤ z) (h' : z < 2 ^ 63) : wrapI64 z = z := by
  unfold wrapI64
  exact Int.bmod_eq_of_le (by omega) (by omega)

/-! ## Counters -/

structure Traffic where
  /-- Bytes received by the instance (host end transmitted them). -/
  totalIn : Nat := 0
  /-- Bytes sent by the instance (host end received them). -/
  totalOut : Nat := 0
  monthIn : Nat := 0
  monthOut : Nat := 0
  /-- Billing period the month counters belong to, `YYYY-MM`. -/
  period : String := ""
  lastIfindex : Nat := 0
  lastRx : Nat := 0
  lastTx : Nat := 0
  deriving DecidableEq

namespace Traffic

/-- Bytes a counter grew by: the whole counter if the interface is a new one or the
counter went backwards. -/
def delta (fresh : Bool) (cur last : Nat) : Nat :=
  if fresh || decide (cur < last) then cur else cur - last

/-- Start a new billing period if `period` is not the one the counters belong to. -/
def roll (t : Traffic) (period : String) : Traffic :=
  if t.period ≠ period then { t with period := period, monthIn := 0, monthOut := 0 } else t

/-- Fold in a counter sample of the host-side interface. -/
def update (t : Traffic) (ifindex rx tx : Nat) (period : String) : Traffic :=
  let t := t.roll period
  let fresh := decide (ifindex ≠ t.lastIfindex)
  let dOut := delta fresh rx t.lastRx
  let dIn := delta fresh tx t.lastTx
  { t with
    totalOut := addU64 t.totalOut dOut
    totalIn := addU64 t.totalIn dIn
    monthOut := addU64 t.monthOut dOut
    monthIn := addU64 t.monthIn dIn
    lastIfindex := ifindex
    lastRx := rx
    lastTx := tx }

/-- Month counters as seen now (zero once a new period has started). -/
def month (t : Traffic) (period : String) : Nat × Nat :=
  if t.period = period then (t.monthIn, t.monthOut) else (0, 0)

@[simp] theorem roll_totalIn (t : Traffic) (p : String) : (t.roll p).totalIn = t.totalIn := by
  unfold roll
  split_ifs <;> rfl

@[simp] theorem roll_totalOut (t : Traffic) (p : String) :
    (t.roll p).totalOut = t.totalOut := by
  unfold roll
  split_ifs <;> rfl

theorem roll_of_eq {t : Traffic} {p : String} (h : t.period = p) : t.roll p = t := by
  simp [roll, h]

end Traffic

/-! ## Schedules -/

/-- How monthly periods are aligned. -/
inductive ResetMode where
  /-- Every instance on 00:00 of `resetDay`. -/
  | fixed
  /-- Each instance monthly on the day and time it was created (clamped to the last day
  of shorter months). -/
  | creation
  deriving DecidableEq

/-- When monthly counters restart, at a fixed UTC offset. -/
structure Schedule where
  mode : ResetMode := .fixed
  /-- Day of month for `ResetMode.fixed`. -/
  resetDay : Nat := 1
  /-- Minutes east of UTC. -/
  utcOffsetMin : Int := 0
  deriving DecidableEq

def nextMonth (y : Int) (m : Nat) : Int × Nat := if m = 12 then (y + 1, 1) else (y, m + 1)

/-- Days since 1970-01-01 to (year, month, day), proleptic Gregorian. -/
def civilFromDays (z : Int) : Int × Nat × Nat :=
  let z := z + 719468
  let era := z / 146097
  let doe := z % 146097
  let yoe := (doe - doe / 1460 + doe / 36524 - doe / 146096) / 365
  let doy := doe - (365 * yoe + yoe / 4 - yoe / 100)
  let mp := (5 * doy + 2) / 153
  let d := (doy - (153 * mp + 2) / 5 + 1).toNat
  let m := (if mp < 10 then mp + 3 else mp - 9).toNat
  let y := yoe + era * 400 + (if m ≤ 2 then 1 else 0)
  (y, m, d)

/-- (year, month, day) to days since 1970-01-01, proleptic Gregorian. -/
def daysFromCivil (y : Int) (m d : Nat) : Int :=
  let y := if m ≤ 2 then y - 1 else y
  let era := y / 400
  let yoe := y % 400
  let mp : Int := if m > 2 then m - 3 else m + 9
  let doy := (153 * mp + 2) / 5 + d - 1
  let doe := yoe * 365 + yoe / 4 - yoe / 100 + doy
  era * 146097 + doe - 719468

/-- `{n:0width}`. -/
def padZero (width n : Nat) : String :=
  let s := toString n
  String.ofList (List.replicate (width - s.length) '0') ++ s

/-- `{y:04}`: the sign counts towards the width. -/
def padYear (y : Int) : String :=
  if y < 0 then "-" ++ padZero 3 y.natAbs else padZero 4 y.natAbs

namespace Schedule

def offset (s : Schedule) : Int := s.utcOffsetMin * 60

/-- Seconds since the epoch on the schedule's clock. -/
def localTime (s : Schedule) (unix : Nat) : Int := wrapI64 (wrapI64 unix + s.offset)

/-- Day of month and second of day (local) periods start on, for an instance created at
`created` (unix time; 0 = unknown, aligned like `fixed`). -/
def anchor (s : Schedule) (created : Nat) : Nat × Int :=
  if s.mode = .creation ∧ 0 < created then
    let t := s.localTime created
    ((civilFromDays (t / 86400)).2.2, t % 86400)
  else (s.resetDay, 0)

/-- Local time at which the period of month `(y, m)` starts. -/
def startOf (anchor : Nat × Int) (y : Int) (m : Nat) : Int :=
  let (ny, nm) := nextMonth y m
  let daysInMonth := (daysFromCivil ny nm 1 - daysFromCivil y m 1).toNat
  wrapI64 (daysFromCivil y m (min anchor.1 daysInMonth) * 86400 + anchor.2)

/-- (year, month) of the period containing `now`. -/
def periodMonth (s : Schedule) (created now : Nat) : Int × Nat :=
  let t := s.localTime now
  let (y, m, _) := civilFromDays (t / 86400)
  if startOf (s.anchor created) y m ≤ t then (y, m)
  else if m = 1 then (y - 1, 12)
  else (y, m - 1)

/-- Billing period of an instance created at `created` that contains `now`: `YYYY-MM` of
the month it started in. -/
def period (s : Schedule) (created now : Nat) : String :=
  let ym := s.periodMonth created now
  padYear ym.1 ++ "-" ++ padZero 2 ym.2

/-- Unix time at which that period ends. -/
def nextReset (s : Schedule) (created now : Nat) : Nat :=
  let ym := s.periodMonth created now
  let next := nextMonth ym.1 ym.2
  (max (wrapI64 (startOf (s.anchor created) next.1 next.2 - s.offset)) 0).toNat

end Schedule

end RunmanAgent
