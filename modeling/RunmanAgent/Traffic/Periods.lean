import RunmanAgent.Data.Calendar
import RunmanAgent.Traffic

/-!
# Billing periods partition time (`Schedule` of `src/traffic.rs`)

A month `(y, m)` has the number `12 * y + m - 3` of the calendar. On the clock of the schedule the
period of month `k` begins at `begins a k`, on the anchor's day or the last day of a shorter
month. These instants increase with `k`; `period_month` finds the one that the present instant
follows, and `next_reset` is the next one.
-/

namespace RunmanAgent

open Calendar

/-! ## Dates -/

/-- The day of the calendar that is 1970-01-01. -/
def epochDay : Int := 719468

def monthNumber (y : Int) (m : Nat) : Int := 12 * y + m - 3

theorem daysFromCivil_eq {y : Int} {m : Nat} (d : Nat) (hm : 1 ≤ m) (hm' : m ≤ 12) :
    daysFromCivil y m d = monthStart (monthNumber y m) + d - 1 - epochDay := by
  unfold daysFromCivil monthStart yearStart monthOffset monthNumber epochDay
  by_cases hearly : m ≤ 2
  · have hyear : (12 * y + (m : Int) - 3) / 12 = y - 1 := by omega
    have hmonth : (12 * y + (m : Int) - 3) % 12 = m + 9 := by omega
    rw [hyear, hmonth, if_pos hearly, if_neg (by omega)]
    dsimp only
    omega
  · have hyear : (12 * y + (m : Int) - 3) / 12 = y := by omega
    have hmonth : (12 * y + (m : Int) - 3) % 12 = m - 3 := by omega
    rw [hyear, hmonth, if_neg hearly, if_pos (by omega)]
    dsimp only
    omega

theorem civilFromDays_eq (z : Int) :
    let n := z + epochDay
    let y := 400 * (n / 146097) + scaled (n % 146097) / 365
    let mp := monthOfDay (n - yearStart y)
    let m := (if mp < 10 then mp + 3 else mp - 9).toNat
    yearStart y ≤ n ∧ n < yearStart (y + 1) ∧
      civilFromDays z = (if m ≤ 2 then y + 1 else y, m,
        (n - yearStart y - monthOffset mp + 1).toNat) := by
  intro n y mp m
  have hdoe0 : 0 ≤ n % 146097 := by omega
  have hdoe : n % 146097 < 146097 := by omega
  obtain ⟨hyoe0, hyoe, hfirst, hlast⟩ := yearStart_scaled hdoe0 hdoe
  have hy : yearStart y = 146097 * (n / 146097) + yearStart (scaled (n % 146097) / 365) :=
    yearStart_add_era _ _
  have hy' : yearStart (y + 1) = 146097 * (n / 146097) + yearStart
    (scaled (n % 146097) / 365 + 1) := by
    rw [← yearStart_add_era]
    congr 1
    omega
  refine ⟨by omega, by omega, ?_⟩
  -- the day of the year
  have hyoe400 : yearStart (scaled (n % 146097) / 365) = 365 * (scaled (n % 146097) / 365) +
      scaled (n % 146097) / 365 / 4 - scaled (n % 146097) / 365 / 100 := by
    unfold yearStart
    omega
  have hdoy : n % 146097 - (365 * (scaled (n % 146097) / 365) + scaled (n % 146097) / 365 / 4 -
      scaled (n % 146097) / 365 / 100) = n - yearStart y := by
    omega
  show (let doy := n % 146097 - (365 * (scaled (n % 146097) / 365) +
      scaled (n % 146097) / 365 / 4 - scaled (n % 146097) / 365 / 100)
    let mp := (5 * doy + 2) / 153
    let m := (if mp < 10 then mp + 3 else mp - 9).toNat
    (scaled (n % 146097) / 365 + n / 146097 * 400 + (if m ≤ 2 then 1 else 0), m,
      (doy - (153 * mp + 2) / 5 + 1).toNat)) = _
  rw [hdoy]
  refine Prod.ext ?_ rfl
  show scaled (n % 146097) / 365 + n / 146097 * 400 + (if m ≤ 2 then 1 else 0) =
    if m ≤ 2 then y + 1 else y
  split <;> omega

theorem civilFromDays_spec {z y : Int} {m d : Nat} (h : civilFromDays z = (y, m, d)) :
    1 ≤ m ∧ m ≤ 12 ∧ monthStart (monthNumber y m) ≤ z + epochDay ∧
      z + epochDay < monthStart (monthNumber y m + 1) ∧
      (d : Int) = z + epochDay - monthStart (monthNumber y m) + 1 := by
  obtain ⟨hfirst, hlast, heq⟩ := civilFromDays_eq z
  have hspec := month_spec hfirst hlast
  rw [h] at heq
  generalize hy : 400 * ((z + epochDay) / 146097) + scaled ((z + epochDay) % 146097) / 365 = y' at *
  have hlen := yearStart_succ y'
  have hmp := monthOfDay_bounds (d := z + epochDay - yearStart y') (by omega) (by omega)
  have hoffset := monthOffset_monthOfDay (z + epochDay - yearStart y')
  have hstart := monthStart_mk y' hmp.1 hmp.2
  generalize monthOfDay (z + epochDay - yearStart y') = mp at *
  simp only [Prod.mk.injEq] at heq
  obtain ⟨hyear, hmonth, hday⟩ := heq
  have hnumber : monthNumber y m = 12 * y' + mp := by
    unfold monthNumber
    split at hyear <;> split at hmonth <;> omega
  rw [hnumber]
  refine ⟨?_, ?_, hspec.1, hspec.2, by omega⟩ <;> split at hmonth <;> omega

theorem monthNumber_nextMonth (y : Int) (m : Nat) :
    monthNumber (nextMonth y m).1 (nextMonth y m).2 = monthNumber y m + 1 := by
  unfold nextMonth monthNumber
  split <;> dsimp only <;> omega

theorem nextMonth_bounds (y : Int) {m : Nat} (hm : m ≤ 12) :
    1 ≤ (nextMonth y m).2 ∧ (nextMonth y m).2 ≤ 12 := by
  unfold nextMonth
  split <;> dsimp only <;> omega

/-! ## The beginnings of the periods -/

/-- A day of the month and a time of the day. -/
structure Anchored (a : Nat × Int) : Prop where
  day : 1 ≤ a.1
  time : 0 ≤ a.2
  lt : a.2 < 86400

/-- When the period of month `k` begins. -/
def begins (a : Nat × Int) (k : Int) : Int :=
  (monthStart k + min (a.1 : Int) (monthLength k) - 1 - epochDay) * 86400 + a.2

/-- Midnight at the beginning of month `k`. -/
def midnight (k : Int) : Int := (monthStart k - epochDay) * 86400

section Begins

variable {a : Nat × Int} {k : Int}

theorem midnight_le_begins (ha : Anchored a) (k : Int) : midnight k ≤ begins a k := by
  have hday := ha.day
  have htime := ha.time
  have hlen := monthLength_bounds k
  unfold midnight begins
  omega

theorem begins_lt_midnight (ha : Anchored a) (k : Int) : begins a k < midnight (k + 1) := by
  have hlt := ha.lt
  have hnext := monthStart_succ k
  unfold midnight begins
  omega

theorem begins_lt_succ (ha : Anchored a) (k : Int) : begins a k < begins a (k + 1) :=
  (begins_lt_midnight ha k).trans_le (midnight_le_begins ha (k + 1))

theorem begins_strictMono (ha : Anchored a) : StrictMono (begins a) :=
  strictMono_int_of_lt_succ (begins_lt_succ ha)

theorem begins_succ_le (a : Nat × Int) (k : Int) : begins a (k + 1) ≤ begins a k + 31 * 86400 := by
  have hlen := monthLength_bounds k
  have hlen' := monthLength_bounds (k + 1)
  have hnext := monthStart_succ k
  unfold begins
  omega

theorem midnight_succ_le (k : Int) : midnight (k + 1) ≤ midnight k + 31 * 86400 := by
  have hlen := monthLength_bounds k
  have hnext := monthStart_succ k
  unfold midnight
  omega

theorem begins_unique (ha : Anchored a) {j t : Int} (hk : begins a k ≤ t)
    (hk' : t < begins a (k + 1))
    (hj : begins a j ≤ t) (hj' : t < begins a (j + 1)) : k = j := by
  have hle : k < j + 1 := (begins_strictMono ha).lt_iff_lt.mp (hk.trans_lt hj')
  have hge : j < k + 1 := (begins_strictMono ha).lt_iff_lt.mp (hj.trans_lt hk')
  omega

theorem startOf_eq {y : Int} {m : Nat} (hm : 1 ≤ m) (hm' : m ≤ 12)
    (h : -2 ^ 63 ≤ begins a (monthNumber y m)) (h' : begins a (monthNumber y m) < 2 ^ 63) :
    Schedule.startOf a y m = begins a (monthNumber y m) := by
  have hnext := nextMonth_bounds y hm'
  have hlen := monthLength_bounds (monthNumber y m)
  have hdays : daysFromCivil (nextMonth y m).1 (nextMonth y m).2 1 - daysFromCivil y m 1 =
      monthLength (monthNumber y m) := by
    rw [daysFromCivil_eq 1 hnext.1 hnext.2, daysFromCivil_eq 1 hm hm', monthNumber_nextMonth y m]
    unfold monthLength
    omega
  unfold Schedule.startOf
  dsimp only
  rw [hdays, daysFromCivil_eq _ hm hm']
  have hbegins : (monthStart (monthNumber y m) +
      ((min a.1 (monthLength (monthNumber y m)).toNat : Nat) : Int) - 1 - epochDay) * 86400 + a.2 =
        begins a (monthNumber y m) := by
    unfold begins
    omega
  rw [hbegins, wrapI64_of_bounds h h']

end Begins

/-! ## The period of an instant -/

namespace Schedule

/-- What the configuration accepts. -/
structure Valid (s : Schedule) : Prop where
  firstDay : 1 ≤ s.resetDay
  lastDay : s.resetDay ≤ 28
  west : -720 ≤ s.utcOffsetMin
  east : s.utcOffsetMin ≤ 840

variable {s : Schedule}

theorem anchored (hs : s.Valid) (created : Nat) : Anchored (s.anchor created) := by
  unfold anchor
  split
  · generalize s.localTime created = t
    dsimp only
    rcases hcivil : civilFromDays (t / 86400) with ⟨y, m, d⟩
    obtain ⟨-, -, hfirst, -, hday⟩ := civilFromDays_spec hcivil
    exact ⟨by dsimp only; omega, by dsimp only; omega, by dsimp only; omega⟩
  · exact ⟨hs.firstDay, le_refl _, by dsimp only; omega⟩

theorem localTime_eq (hs : s.Valid) {now : Nat} (hnow : now < 2 ^ 51) :
    s.localTime now = now + s.offset := by
  have hwest := hs.west
  have heast := hs.east
  unfold localTime offset
  rw [wrapI64_of_bounds (z := now) (by omega) (by omega), wrapI64_of_bounds (by omega) (by omega)]

theorem exists_pred (y : Int) {m : Nat} (hm : 1 ≤ m) (hm' : m ≤ 12) :
    ∃ y' m', (if m = 1 then (y - 1, 12) else (y, m - 1)) = (y', m') ∧ 1 ≤ m' ∧ m' ≤ 12 ∧
      monthNumber y' m' = monthNumber y m - 1 := by
  unfold monthNumber
  by_cases hjan : m = 1
  · exact ⟨y - 1, 12, if_pos hjan, by omega, by omega, by omega⟩
  · exact ⟨y, m - 1, if_neg hjan, by omega, by omega, by omega⟩

theorem periodMonth_spec (hs : s.Valid) (created : Nat) {now : Nat} (hnow : now < 2 ^ 51) :
    ∃ y m, s.periodMonth created now = (y, m) ∧ 1 ≤ m ∧ m ≤ 12 ∧
      begins (s.anchor created) (monthNumber y m) ≤ now + s.offset ∧
      now + s.offset < begins (s.anchor created) (monthNumber y m + 1) := by
  have hwest := hs.west
  have heast := hs.east
  have ha := anchored hs created
  have hoffset : s.offset = s.utcOffsetMin * 60 := rfl
  rcases hcivil : civilFromDays ((now + s.offset) / 86400) with ⟨y, m, d⟩
  obtain ⟨hm, hm', hfirst, hlast, -⟩ := civilFromDays_spec hcivil
  have hmid : midnight (monthNumber y m) ≤ now + s.offset := by
    unfold midnight
    omega
  have hmid' : now + s.offset < midnight (monthNumber y m + 1) := by
    unfold midnight
    omega
  have hmonth := midnight_succ_le (monthNumber y m)
  have hlow := midnight_le_begins ha (monthNumber y m)
  have hhigh := begins_lt_midnight ha (monthNumber y m)
  have hstart := startOf_eq (a := s.anchor created) (y := y) hm hm' (by omega) (by omega)
  have hperiod : s.periodMonth created now =
      if begins (s.anchor created) (monthNumber y m) ≤ now + s.offset then (y, m)
      else if m = 1 then (y - 1, 12) else (y, m - 1) := by
    unfold periodMonth
    rw [localTime_eq hs hnow]
    dsimp only
    rw [hcivil]
    dsimp only
    rw [hstart]
  by_cases hle : begins (s.anchor created) (monthNumber y m) ≤ now + s.offset
  · rw [if_pos hle] at hperiod
    have hnext := midnight_le_begins ha (monthNumber y m + 1)
    exact ⟨y, m, hperiod, hm, hm', hle, by omega⟩
  · -- before the anchor of this month: the period of the month before
    obtain ⟨y', m', hpred, h1, h12, hnumber⟩ := exists_pred y hm hm'
    rw [if_neg hle, hpred] at hperiod
    have hprev := begins_lt_midnight ha (monthNumber y m - 1)
    rw [Int.sub_add_cancel] at hprev
    refine ⟨y', m', hperiod, h1, h12, ?_, ?_⟩
    · rw [hnumber]
      omega
    · rw [hnumber, Int.sub_add_cancel]
      omega

theorem label_injective {y y' : Int} {m m' : Nat} (hm : m ≤ 12) (hm' : m' ≤ 12)
    (h : padYear y ++ "-" ++ padZero 2 m = padYear y' ++ "-" ++ padZero 2 m') : m = m' := by
  have hlen : ∀ n ≤ 12, (padZero 2 n).toList.length = 2 := by decide
  have hinj : ∀ n ≤ 12, ∀ n' ≤ 12, (padZero 2 n).toList = (padZero 2 n').toList →
    n = n' := by decide
  have hlist : (padYear y ++ "-").toList ++ (padZero 2 m).toList =
      (padYear y' ++ "-").toList ++ (padZero 2 m').toList := by
    rw [← String.toList_append, ← String.toList_append, h]
  exact hinj m hm m' hm' (List.append_inj' hlist ((hlen m hm).trans (hlen m' hm').symm)).2

theorem nextReset_eq (hs : s.Valid) (created : Nat) {now : Nat} (hnow : now < 2 ^ 50) {y : Int}
    {m : Nat} (hperiod : s.periodMonth created now = (y, m)) (hm : m ≤ 12)
    (hbegins : begins (s.anchor created) (monthNumber y m) ≤ now + s.offset)
    (hends : now + s.offset < begins (s.anchor created) (monthNumber y m + 1)) :
    (s.nextReset created now : Int) = begins (s.anchor created)
      (monthNumber y m + 1) - s.offset := by
  have hwest := hs.west
  have heast := hs.east
  have hoffset : s.offset = s.utcOffsetMin * 60 := rfl
  have hnext := nextMonth_bounds y hm
  have hnumber := monthNumber_nextMonth y m
  have hlen := begins_succ_le (s.anchor created) (monthNumber y m)
  have hstart := startOf_eq (a := s.anchor created) (y := (nextMonth y m).1) hnext.1 hnext.2
    (by rw [hnumber]; omega) (by rw [hnumber]; omega)
  unfold nextReset
  rw [hperiod]
  dsimp only
  rw [hstart, hnumber, wrapI64_of_bounds (by omega) (by omega)]
  omega

/-- The next reset lies after the present, within 31 days, and it is the first instant of another
period. -/
theorem periods_partition (hs : s.Valid) (created : Nat) {now : Nat} (hnow : now < 2 ^ 50) :
    now < s.nextReset created now ∧ s.nextReset created now ≤ now + 31 * 86400 ∧
      (∀ t, now ≤ t → t < s.nextReset created now → s.period created t = s.period created now) ∧
      s.period created (s.nextReset created now) ≠ s.period created now := by
  have ha := anchored hs created
  obtain ⟨y, m, hperiod, hm, hm', hbegins, hends⟩ := periodMonth_spec hs created
    (show now < 2 ^ 51 by omega)
  have hreset := nextReset_eq hs created hnow hperiod hm' hbegins hends
  have hlen := begins_succ_le (s.anchor created) (monthNumber y m)
  refine ⟨by omega, by omega, fun t ht ht' => ?_, fun hlabel => ?_⟩
  · -- the instants before the reset belong to the period of `now`
    obtain ⟨y', m', hperiod', h1, h12, hbegins', hends'⟩ := periodMonth_spec hs created
      (show t < 2 ^ 51 by omega)
    have hnumber : monthNumber y' m' = monthNumber y m :=
      begins_unique ha hbegins' hends' (by omega) (by omega)
    have hmonth : m' = m := by
      unfold monthNumber at hnumber
      omega
    have hyear : y' = y := by
      unfold monthNumber at hnumber
      omega
    unfold period
    rw [hperiod, hperiod', hmonth, hyear]
  · -- the reset belongs to the next month, which has another number in the year
    obtain ⟨y', m', hperiod', h1, h12, hbegins', hends'⟩ := periodMonth_spec hs created
      (show s.nextReset created now < 2 ^ 51 by omega)
    have hlater := begins_lt_succ ha (monthNumber y m + 1)
    have hnumber : monthNumber y' m' = monthNumber y m + 1 :=
      begins_unique ha hbegins' hends' (by omega) (by omega)
    unfold period at hlabel
    rw [hperiod, hperiod'] at hlabel
    have hsame := label_injective h12 hm' hlabel
    unfold monthNumber at hnumber
    omega

def anniversary : Schedule where
  mode := .creation

/-- Created on 31 January: the first period ends on 28 February. -/
theorem january_ends_in_february :
    anniversary.nextReset 1769853600 1769853600 = 1772272800 ∧
      anniversary.period 1769853600 1772272800 ≠ anniversary.period 1769853600 1769853600 := by
  have hreset : anniversary.nextReset 1769853600 1769853600 = 1772272800 := by decide +kernel
  have hpartition := periods_partition (s := anniversary)
    ⟨by decide, by decide, by decide, by decide⟩
    1769853600 (show 1769853600 < 2 ^ 50 by omega)
  rw [hreset] at hpartition
  exact ⟨hreset, hpartition.2.2.2⟩

end Schedule

end RunmanAgent
