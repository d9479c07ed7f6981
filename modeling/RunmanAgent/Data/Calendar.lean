import Mathlib

/-!
# The proleptic Gregorian calendar

Years begin on 1 March, so that the leap day is the last day of its year. Months are numbered by
the integers: month `k` is the month `k % 12`, counted from March, of the year `k / 12`. Days are
numbered from 1 March of the year 0.
-/

namespace RunmanAgent.Calendar

/-- The first day of a year. -/
def yearStart (y : Int) : Int := 365 * y + y / 4 - y / 100 + y / 400

/-- Days of a year before its month `m`. -/
def monthOffset (m : Int) : Int := (153 * m + 2) / 5

/-- The first day of month `k`. -/
def monthStart (k : Int) : Int := yearStart (k / 12) + monthOffset (k % 12)

def monthLength (k : Int) : Int := monthStart (k + 1) - monthStart k

/-! ## Lengths -/

theorem yearStart_succ (y : Int) :
    yearStart (y + 1) = yearStart y + 365 ∨ yearStart (y + 1) = yearStart y + 366 := by
  unfold yearStart
  omega

theorem yearStart_add_era (e y : Int) : yearStart (400 * e + y) = 146097 * e + yearStart y := by
  unfold yearStart
  omega

theorem monthLength_bounds (k : Int) : 28 ≤ monthLength k ∧ monthLength k ≤ 31 := by
  unfold monthLength monthStart monthOffset
  by_cases hlast : k % 12 = 11
  · -- the next month begins the next year
    have hyear : (k + 1) / 12 = k / 12 + 1 := by omega
    have hmonth : (k + 1) % 12 = 0 := by omega
    have hnext := yearStart_succ (k / 12)
    rw [hyear, hmonth, hlast]
    omega
  · have hyear : (k + 1) / 12 = k / 12 := by omega
    have hmonth : (k + 1) % 12 = k % 12 + 1 := by omega
    rw [hyear, hmonth]
    omega

theorem monthStart_succ (k : Int) : monthStart (k + 1) = monthStart k + monthLength k := by
  unfold monthLength
  omega

/-! ## The year of a day

`scaled n` is 365 times the year to which the day `n` of an era belongs, and less than 365
more. -/

def scaled (n : Int) : Int := n - n / 1460 + n / 36524 - n / 146096

theorem scaled_mono : Monotone scaled := by
  apply monotone_int_of_le_succ
  intro n
  unfold scaled
  omega

theorem scaled_year :
    ∀ k : Nat, k < 400 → 365 * (k : Int) ≤ scaled (yearStart k) ∧
      scaled (yearStart (k + 1) - 1) < 365 * (k + 1) := by
  decide +kernel

theorem exists_year {n : Nat} {day : Int} (h0 : 0 ≤ day) (h : day < yearStart n) :
    ∃ k : Nat, k < n ∧ yearStart k ≤ day ∧ day < yearStart (k + 1) := by
  induction n with
  | zero =>
    have hfirst : yearStart (0 : Nat) = 0 := rfl
    omega
  | succ n ih =>
    by_cases hn : day < yearStart n
    · obtain ⟨k, hk, hday⟩ := ih hn
      exact ⟨k, by omega, hday⟩
    · exact ⟨n, by omega, by omega, h⟩

theorem yearStart_scaled {day : Int} (h0 : 0 ≤ day) (h : day < 146097) :
    0 ≤ scaled day / 365 ∧ scaled day / 365 < 400 ∧
      yearStart (scaled day / 365) ≤ day ∧ day < yearStart (scaled day / 365 + 1) := by
  obtain ⟨k, hk, hfirst, hlast⟩ := exists_year (n := 400) h0 h
  obtain ⟨hlow, hhigh⟩ := scaled_year k hk
  have hge : scaled (yearStart k) ≤ scaled day := scaled_mono hfirst
  have hle : scaled day ≤ scaled (yearStart (k + 1) - 1) := scaled_mono (by omega)
  have hyear : scaled day / 365 = k := by omega
  rw [hyear]
  omega

/-- The month, counted from March, of a day of a year. -/
def monthOfDay (day : Int) : Int := (5 * day + 2) / 153

theorem monthOfDay_bounds {d : Int} (h0 : 0 ≤ d) (h : d ≤ 365) :
    0 ≤ monthOfDay d ∧ monthOfDay d ≤ 11 := by
  unfold monthOfDay
  omega

theorem monthOffset_monthOfDay (day : Int) :
    monthOffset (monthOfDay day) ≤ day ∧ day < monthOffset (monthOfDay day + 1) := by
  unfold monthOffset monthOfDay
  omega

theorem monthStart_mk (y : Int) {m : Int} (h0 : 0 ≤ m) (h : m ≤ 11) :
    monthStart (12 * y + m) = yearStart y + monthOffset m := by
  have hyear : (12 * y + m) / 12 = y := by omega
  have hmonth : (12 * y + m) % 12 = m := by omega
  rw [monthStart, hyear, hmonth]

theorem month_spec {y n : Int} (hfirst : yearStart y ≤ n) (hlast : n < yearStart (y + 1)) :
    monthStart (12 * y + monthOfDay (n - yearStart y)) ≤ n ∧
      n < monthStart (12 * y + monthOfDay (n - yearStart y) + 1) := by
  have hlen := yearStart_succ y
  have h0 : 0 ≤ n - yearStart y := by omega
  have h365 : n - yearStart y ≤ 365 := by omega
  have hbounds := monthOfDay_bounds h0 h365
  have hday := monthOffset_monthOfDay (n - yearStart y)
  generalize monthOfDay (n - yearStart y) = m at hbounds hday
  refine ⟨?_, ?_⟩
  · rw [monthStart_mk y hbounds.1 hbounds.2]
    omega
  · by_cases hm : m = 11
    · -- the last month ends with the year
      have hmarch : 12 * y + m + 1 = 12 * (y + 1) + 0 := by omega
      have hzero : monthOffset 0 = 0 := rfl
      rw [hmarch, monthStart_mk (y + 1) (le_refl _) (by omega), hzero]
      omega
    · rw [Int.add_assoc, monthStart_mk y (by omega) (by omega)]
      omega

end RunmanAgent.Calendar
