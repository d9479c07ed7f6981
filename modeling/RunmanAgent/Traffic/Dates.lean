import RunmanAgent.Traffic.Periods

/-!
# Days and dates

`civil_from_days` and `days_from_civil` are inverse to each other, and the day after a date is the
next date of the Gregorian calendar.
-/

namespace RunmanAgent

open Calendar

/-- The length of a month of the Gregorian calendar. -/
def daysInMonth (y : Int) (m : Nat) : Nat :=
  if m = 2 then if y % 4 = 0 ∧ (y % 100 ≠ 0 ∨ y % 400 = 0) then 29 else 28
  else if m ∈ [4, 6, 9, 11] then 30 else 31

/-- A date of the Gregorian calendar. -/
def ValidDate (y : Int) (m d : Nat) : Prop := 1 ≤ m ∧ m ≤ 12 ∧ 1 ≤ d ∧ d ≤ daysInMonth y m

def nextDate (y : Int) (m d : Nat) : Int × Nat × Nat :=
  if d < daysInMonth y m then (y, m, d + 1) else ((nextMonth y m).1, (nextMonth y m).2, 1)

variable {y z : Int} {m d : Nat}

theorem monthLength_eq (hm : 1 ≤ m) (hm' : m ≤ 12) :
    monthLength (monthNumber y m) = daysInMonth y m := by
  by_cases hfeb : m = 2
  · -- the leap day ends the year that began in March
    have hstart : monthNumber y m = 12 * (y - 1) + 11 := by unfold monthNumber; omega
    have hnext : 12 * (y - 1) + 11 + 1 = 12 * y + 0 := by omega
    rw [daysInMonth, if_pos hfeb, monthLength, hstart, monthStart_mk (y - 1) (by omega) (by omega),
      hnext, monthStart_mk y (by omega) (by omega)]
    unfold yearStart monthOffset
    split <;> omega
  · obtain ⟨y', mp, h0, h10, hstart⟩ : ∃ y' mp : Int, 0 ≤ mp ∧ mp ≤ 10 ∧
        monthNumber y m = 12 * y' + mp := by
      unfold monthNumber
      by_cases hjan : m = 1
      · exact ⟨y - 1, 10, by omega, by omega, by omega⟩
      · exact ⟨y, m - 3, by omega, by omega, by omega⟩
    rw [monthLength, hstart, Int.add_assoc, monthStart_mk y' (by omega) (by omega),
      monthStart_mk y' h0 (by omega)]
    unfold monthNumber at hstart
    unfold monthOffset daysInMonth
    interval_cases m <;> simp at hfeb ⊢ <;> omega

theorem monthStart_strictMono : StrictMono monthStart :=
  strictMono_int_of_lt_succ fun k => by
    have hlen := monthLength_bounds k
    rw [monthStart_succ]
    omega

theorem civilFromDays_daysFromCivil (h : ValidDate y m d) :
    civilFromDays (daysFromCivil y m d) = (y, m, d) := by
  obtain ⟨hm, hm', hd, hd'⟩ := h
  have hlen := monthLength_eq (y := y) hm hm'
  have hdays := daysFromCivil_eq (y := y) d hm hm'
  have hsucc := monthStart_succ (monthNumber y m)
  rcases hcivil : civilFromDays (daysFromCivil y m d) with ⟨y', m', d'⟩
  obtain ⟨h1, h12, hfirst, hlast, hday⟩ := civilFromDays_spec hcivil
  -- a day belongs to one month
  have hle : monthNumber y m < monthNumber y' m' + 1 :=
    monthStart_strictMono.lt_iff_lt.mp (by omega)
  have hge : monthNumber y' m' < monthNumber y m + 1 :=
    monthStart_strictMono.lt_iff_lt.mp (by omega)
  have hnumber : monthNumber y' m' = monthNumber y m := by omega
  rw [hnumber] at hday
  unfold monthNumber at hnumber
  have hmonth : m' = m := by omega
  have hyear : y' = y := by omega
  have hday : d' = d := by omega
  rw [hmonth, hyear, hday]

theorem validDate_civilFromDays (h : civilFromDays z = (y, m, d)) :
    ValidDate y m d ∧ daysFromCivil y m d = z := by
  obtain ⟨hm, hm', hfirst, hlast, hday⟩ := civilFromDays_spec h
  have hlen := monthLength_eq (y := y) hm hm'
  have hsucc := monthStart_succ (monthNumber y m)
  refine ⟨⟨hm, hm', by omega, by omega⟩, ?_⟩
  rw [daysFromCivil_eq d hm hm']
  omega

theorem daysFromCivil_nextDate (h : ValidDate y m d) : ∃ y' m' d', nextDate y m d = (y', m', d') ∧
    ValidDate y' m' d' ∧ daysFromCivil y' m' d' = daysFromCivil y m d + 1 := by
  obtain ⟨hm, hm', hd, hd'⟩ := h
  unfold nextDate
  split
  · refine ⟨y, m, d + 1, rfl, ⟨hm, hm', by omega, by omega⟩, ?_⟩
    rw [daysFromCivil_eq _ hm hm', daysFromCivil_eq _ hm hm']
    omega
  · have hnext := nextMonth_bounds y hm'
    have hpos := monthLength_bounds (monthNumber (nextMonth y m).1 (nextMonth y m).2)
    have hlen := monthLength_eq (y := y) hm hm'
    have hsucc := monthStart_succ (monthNumber y m)
    rw [monthLength_eq hnext.1 hnext.2] at hpos
    refine ⟨_, _, 1, rfl, ⟨hnext.1, hnext.2, by omega, by omega⟩, ?_⟩
    rw [daysFromCivil_eq _ hnext.1 hnext.2, daysFromCivil_eq _ hm hm', monthNumber_nextMonth]
    omega

/-- For every day: its date is valid and converts back to it, and the next day has the next date;
and for every valid date, its day converts back to it. -/
theorem dates_inverse :
    (∀ z y m d, civilFromDays z = (y, m, d) → ValidDate y m d ∧ daysFromCivil y m d = z ∧
      civilFromDays (z + 1) = nextDate y m d) ∧
    ∀ y m d, ValidDate y m d → civilFromDays (daysFromCivil y m d) = (y, m, d) := by
  refine ⟨fun z y m d h => ?_, fun _ _ _ => civilFromDays_daysFromCivil⟩
  obtain ⟨hvalid, hback⟩ := validDate_civilFromDays h
  obtain ⟨y', m', d', hnext, hvalid', hdays⟩ := daysFromCivil_nextDate hvalid
  refine ⟨hvalid, hback, ?_⟩
  rw [hnext, ← civilFromDays_daysFromCivil hvalid', hdays, hback]

theorem dates_inverse_leap : ValidDate 2024 2 29 ∧
    civilFromDays (daysFromCivil 2024 2 29) = (2024, 2, 29) := by
  have hvalid : ValidDate 2024 2 29 := ⟨by decide, by decide, by decide, by decide⟩
  exact ⟨hvalid, dates_inverse.2 2024 2 29 hvalid⟩

end RunmanAgent
