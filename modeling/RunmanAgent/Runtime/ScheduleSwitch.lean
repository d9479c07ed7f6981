import RunmanAgent.Runtime.Watch
import RunmanAgent.Traffic.Periods

/-!
# A change of the traffic schedule (`traffic_schedule` of `src/runtime/mod.rs`)

The switch relabels the counters of the current period, so that they stay visible under the new
schedule. It leaves the others alone, which are not visible. But the new schedule may call its
current period as the old one called an earlier period: a record that was not sampled since then
shows its old counters again.
-/

namespace RunmanAgent

/-- What is stored of an instance after the switch. -/
def switched (seen wanted : Schedule) (now created : Nat) (t : Traffic) : Traffic :=
  (Runtime.relabelled seen wanted now created t).getD t

theorem switched_of_current {seen wanted : Schedule} {now created : Nat} {t : Traffic}
    (h : t.period = seen.period created now) :
    switched seen wanted now created t = { t with period := wanted.period created now } := by
  unfold switched Runtime.relabelled
  by_cases hsame : seen.period created now = wanted.period created now
  · rw [if_neg (fun hne => hne.1 hsame), Option.getD_none, ← hsame, ← h]
  · rw [if_pos ⟨hsame, h⟩, Option.getD_some]

theorem switched_of_stale {seen wanted : Schedule} {now created : Nat} {t : Traffic}
    (h : t.period ≠ seen.period created now) : switched seen wanted now created t = t := by
  unfold switched Runtime.relabelled
  rw [if_neg (fun hne => h hne.2), Option.getD_none]

/-- A switch shows the same month counters as before, unless they were hidden, are not empty and
carry the label of the new current period. -/
theorem switch_keeps_month_iff (seen wanted : Schedule) (now created : Nat) (t : Traffic) :
    (switched seen wanted now created t).month (wanted.period created now) =
        t.month (seen.period created now) ↔
      t.period = seen.period created now ∨ t.period ≠ wanted.period created now ∨
        t.monthIn = 0 ∧ t.monthOut = 0 := by
  by_cases hcurrent : t.period = seen.period created now
  · rw [switched_of_current hcurrent]
    simp [Traffic.month, hcurrent]
  · -- not visible before: it has to be invisible after the switch too, or empty
    have hbefore : t.month (seen.period created now) = (0, 0) := if_neg hcurrent
    rw [switched_of_stale hcurrent, hbefore]
    by_cases hnew : t.period = wanted.period created now
    · have hafter : t.month (wanted.period created now) = (t.monthIn, t.monthOut) := if_pos hnew
      rw [hafter, Prod.mk.injEq]
      constructor
      · intro hzero
        exact .inr (.inr hzero)
      · rintro (hperiod | hne | hzero)
        · exact absurd hperiod hcurrent
        · exact absurd hnew hne
        · exact hzero
    · have hafter : t.month (wanted.period created now) = (0, 0) := if_neg hnew
      rw [hafter]
      exact ⟨fun _ => .inr (.inl hnew), fun _ => rfl⟩

/-- On 25 October 2026 the reset day changes from the 1st to the 28th. The instance was sampled
last in September, and the current period is that of September again. -/
theorem september_visible_again :
    let seen : Schedule := { resetDay := 1 }
    let wanted : Schedule := { resetDay := 28 }
    let t : Traffic := { totalIn := 5, monthIn := 5, period := "2026-09" }
    seen.Valid ∧ wanted.Valid ∧ t.period = seen.period 0 1788998400 ∧ 1788998400 ≤ 1792929600 ∧
      t.month (seen.period 0 1792929600) = (0, 0) ∧
      (switched seen wanted 1792929600 0 t).month (wanted.period 0 1792929600) = (5, 0) := by
  refine ⟨⟨by decide, by decide, by decide, by decide⟩,
    ⟨by decide, by decide, by decide, by decide⟩,
    by decide +kernel, by decide +kernel, by decide +kernel, by decide +kernel⟩

end RunmanAgent
