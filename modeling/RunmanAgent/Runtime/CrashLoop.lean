import RunmanAgent.Runtime.Supervisor

/-!
# Giving up on an instance (`run`, `crash_delay` of `src/runtime/supervisor.rs`)

The loop of `run` over a whole sequence of boots, none of which ended in a failure of the
supervisor itself, while no stop is requested. `crashes` counts the boots that ended in a
crash since the last one that both lasted `CRASH_STABLE` and ended in a crash: a reboot
continues the loop before the duration of the boot is looked at.
-/

namespace RunmanAgent

/-! ## The last element with a property -/

section SinceLast

variable {α : Type*} {p q : α → Bool}

/-- The last element that satisfies `p` and what follows it; the whole list if there is
none. -/
def sinceLast (p : α → Bool) : List α → List α
  | [] => []
  | x :: xs => if xs.any p then sinceLast p xs else x :: xs

theorem sinceLast_concat (xs : List α) (x : α) :
    sinceLast p (xs ++ [x]) = if p x then [x] else sinceLast p xs ++ [x] := by
  induction xs with
  | nil => simp [sinceLast]
  | cons y xs ih =>
    cases hx : p x with
    | true => simp [sinceLast, ih, hx]
    | false =>
      cases hany : xs.any p <;> simp [sinceLast, ih, hx, hany]

theorem sinceLast_of_none {xs : List α} (h : ∀ x ∈ xs, p x = false) : sinceLast p xs = xs := by
  cases xs with
  | nil => rfl
  | cons x xs =>
    have hxs : xs.any p = false := by
      simp only [List.any_eq_false, Bool.not_eq_true]
      intro y hy
      exact h y (List.mem_cons_of_mem x hy)
    simp [sinceLast, hxs]

theorem sinceLast_split {pre post : List α} {x : α} (hx : p x = true)
    (hpost : ∀ y ∈ post, p y = false) : sinceLast p (pre ++ x :: post) = x :: post := by
  induction pre with
  | nil =>
    have hnone : post.any p = false := by simpa using hpost
    simp [sinceLast, hnone]
  | cons y pre ih => simp [sinceLast, ih, hx]

theorem sinceLast_append_of_none (pre : List α) {post : List α}
    (hpost : ∀ y ∈ post, p y = false) : sinceLast p (pre ++ post) = sinceLast p pre ++ post := by
  induction post using List.reverseRecOn with
  | nil => simp
  | append_singleton post y ih =>
    have hy : p y = false := hpost y (by simp)
    have hinit : ∀ z ∈ post, p z = false := fun z hz => hpost z (by simp [hz])
    rw [← List.append_assoc, sinceLast_concat, hy, ih hinit]
    simp

theorem exists_last {xs : List α} (h : ∃ x ∈ xs, p x = true) :
    ∃ pre x post, xs = pre ++ x :: post ∧ p x = true ∧ ∀ y ∈ post, p y = false := by
  induction xs with
  | nil => simp at h
  | cons x xs ih =>
    by_cases hxs : ∃ y ∈ xs, p y = true
    · obtain ⟨pre, y, post, rfl, hy, hpost⟩ := ih hxs
      exact ⟨x :: pre, y, post, rfl, hy, hpost⟩
    · have hnone : ∀ y ∈ xs, p y = false := by simpa using hxs
      obtain ⟨y, hy, hpy⟩ := h
      rcases List.mem_cons.mp hy with rfl | hmem
      · exact ⟨[], y, xs, rfl, hpy, hnone⟩
      · rw [hnone y hmem] at hpy
        cases hpy

/-- What is counted since the last counted element is zero only when nothing is counted
at all. -/
theorem countP_sinceLast_eq_zero (h : ∀ x, p x = true → q x = true) (xs : List α) :
    (sinceLast p xs).countP q = 0 ↔ ∀ x ∈ xs, q x = false := by
  constructor
  · intro hzero
    by_cases hp : ∃ x ∈ xs, p x = true
    · obtain ⟨pre, x, post, rfl, hx, hpost⟩ := exists_last hp
      rw [sinceLast_split hx hpost] at hzero
      simp [h x hx] at hzero
    · have hnone : ∀ x ∈ xs, p x = false := by simpa using hp
      rw [sinceLast_of_none hnone] at hzero
      simpa using hzero
  · intro hnone
    have hp : ∀ x ∈ xs, p x = false := by
      intro x hx
      cases hpx : p x with
      | false => rfl
      | true => rw [← hnone x hx, h x hpx]
    rw [sinceLast_of_none hp]
    simpa using hnone

end SinceLast

/-! ## Boots -/

/-- In nanoseconds. -/
def CRASH_STABLE : Nat := 60 * 10 ^ 9

/-- How a boot ended, and the time `booted.elapsed()` gives when it is over. -/
structure Boot where
  outcome : Outcome
  elapsed : Nat
  deriving DecidableEq

namespace Boot

def stable (b : Boot) : Bool := CRASH_STABLE ≤ b.elapsed

def crashed (b : Boot) : Bool :=
  match b.outcome with
  | .other _ => true
  | _ => false

end Boot

namespace Supervisor

/-- The loop of `run` from the end of a boot to the beginning of the next, or out of the
loop; no stop is requested while it sleeps. -/
def afterBoot (u : Supervisor) (b : Boot) : Supervisor :=
  let u := { u with phase := .cleaning (.ok b.outcome) }
  let u := (u.step none (.decide b.stable)).1
  (u.step none .wake).1

/-- The loop over a sequence of boots; `none` when it is left before the last of them. -/
def afterBoots (u : Supervisor) : List Boot → Option Supervisor
  | [] => some u
  | b :: boots =>
    match u.phase with
    | .leaving => none
    | _ => (u.afterBoot b).afterBoots boots

end Supervisor

/-- The supervisor leaves its loop after these boots, because of the crash of the last. -/
def GivesUp (boots : List Boot) : Prop :=
  ∃ pre b u, boots = pre ++ [b] ∧ b.crashed = true ∧
    ({} : Supervisor).afterBoots boots = some u ∧ u.phase = .leaving

/-- The boots that ended in a crash since the last one that lasted `CRASH_STABLE`, which
counts as well. -/
def crashesSinceStable (boots : List Boot) : Nat :=
  (sinceLast Boot.stable boots).countP Boot.crashed

namespace Supervisor

variable {u u' : Supervisor} {b : Boot} {boots : List Boot}

/-- One turn of the loop on the counter. -/
def countBoot (crashes : Nat) (b : Boot) : Nat :=
  if b.crashed then (if b.stable then 0 else crashes) + 1 else crashes

theorem crashDelay_isSome (n : Nat) : (crashDelay n).isSome = true ↔ n ≤ CRASH_RESTARTS := by
  unfold crashDelay
  split <;> simp_all

theorem afterBoot_crashes (h : u.stopRequested = false) :
    (u.afterBoot b).crashes = countBoot u.crashes b ∧ (u.afterBoot b).stopRequested = false := by
  cases hb : b.outcome with
  | reboot => simp [afterBoot, step, decideNext, enterBoot, countBoot, Boot.crashed, hb, h]
  | halted => simp [afterBoot, step, decideNext, countBoot, Boot.crashed, hb, h]
  | other why =>
    simp only [afterBoot, step, decideNext, countBoot, Boot.crashed, hb, h]
    cases crashDelay ((if b.stable = true then 0 else u.crashes) + 1) <;>
      simp [enterBoot]

theorem afterBoot_leaving (h : u.stopRequested = false) (hb : b.crashed = true) :
    (u.afterBoot b).phase = .leaving ↔ CRASH_RESTARTS < countBoot u.crashes b := by
  cases ho : b.outcome with
  | reboot => simp [Boot.crashed, ho] at hb
  | halted => simp [Boot.crashed, ho] at hb
  | other why =>
    have hsome := crashDelay_isSome ((if b.stable = true then 0 else u.crashes) + 1)
    simp only [afterBoot, step, decideNext, countBoot, hb, ho, h]
    cases hd : crashDelay ((if b.stable = true then 0 else u.crashes) + 1) with
    | none =>
      rw [hd] at hsome
      simpa using hsome
    | some delay =>
      rw [hd] at hsome
      simpa [enterBoot] using hsome

theorem afterBoots_concat :
    ∀ (boots : List Boot) (u : Supervisor), u.afterBoots (boots ++ [b]) = some u' →
      ∃ v, u.afterBoots boots = some v ∧ v.phase ≠ .leaving ∧ u' = v.afterBoot b := by
  intro boots
  induction boots with
  | nil =>
    intro u h
    cases hphase : u.phase <;> simp_all [afterBoots]
  | cons c boots ih =>
    intro u h
    simp only [List.cons_append, afterBoots] at h ⊢
    split at h
    · cases h
    · exact ih _ h

theorem afterBoots_crashes :
    ∀ (boots : List Boot) (u : Supervisor), ({} : Supervisor).afterBoots boots = some u →
      u.crashes = (sinceLast (fun b => b.stable && b.crashed) boots).countP Boot.crashed ∧
        u.stopRequested = false := by
  intro boots
  induction boots using List.reverseRecOn with
  | nil =>
    rintro u ⟨⟩
    exact ⟨rfl, rfl⟩
  | append_singleton boots b ih =>
    intro u h
    obtain ⟨v, hv, -, rfl⟩ := afterBoots_concat boots {} h
    obtain ⟨hcrashes, hstop⟩ := ih v hv
    obtain ⟨hcount, hstop'⟩ := afterBoot_crashes (b := b) hstop
    refine ⟨?_, hstop'⟩
    rw [hcount, sinceLast_concat, hcrashes, countBoot]
    cases hc : b.crashed <;> cases hs : b.stable <;> simp [hc]

theorem afterBoots_le :
    ∀ (boots : List Boot) (u : Supervisor), ({} : Supervisor).afterBoots boots = some u →
      u.phase ≠ .leaving → u.crashes ≤ CRASH_RESTARTS := by
  intro boots
  induction boots using List.reverseRecOn with
  | nil =>
    intro u h _
    cases h
    exact Nat.zero_le _
  | append_singleton boots b ih =>
    intro u h hphase
    obtain ⟨v, hv, hnot, rfl⟩ := afterBoots_concat boots {} h
    obtain ⟨-, hstop⟩ := afterBoots_crashes boots v hv
    rw [(afterBoot_crashes hstop).1]
    cases hc : b.crashed with
    | true => exact Nat.not_lt.mp (mt (afterBoot_leaving hstop hc).mpr hphase)
    | false =>
      simp only [countBoot, hc]
      exact ih v hv hnot

end Supervisor

/-! ## Giving up -/

open Supervisor

variable {boots : List Boot}

theorem givesUp_count (h : GivesUp boots) :
    (sinceLast (fun b => b.stable && b.crashed) boots).countP Boot.crashed =
      CRASH_RESTARTS + 1 := by
  obtain ⟨pre, b, u, rfl, hb, hu, hleft⟩ := h
  obtain ⟨v, hv, hnot, rfl⟩ := afterBoots_concat pre {} hu
  obtain ⟨-, hstop⟩ := afterBoots_crashes pre v hv
  have hle := afterBoots_le pre v hv hnot
  have hlt := (afterBoot_leaving hstop hb).mp hleft
  have hcount := (afterBoots_crashes _ _ hu).1
  rw [(afterBoot_crashes hstop).1] at hcount
  have hstep : countBoot v.crashes b ≤ v.crashes + 1 := by
    cases hs : b.stable <;> simp [countBoot, hb, hs]
  omega

/-- Every stable boot but the last of them may have ended as it likes; if the last one was
a reboot, no boot before it may have ended in a crash. -/
def LastStableClears (boots : List Boot) : Prop :=
  ∀ pre b post, boots = pre ++ b :: post → b.stable = true → b.crashed = false →
    (∀ x ∈ post, x.stable = false) → ∀ x ∈ pre, x.crashed = false

theorem count_of_last_reboot {pre post : List Boot} {b : Boot} (hs : b.stable = true)
    (hc : b.crashed = false) (hpost : ∀ x ∈ post, x.stable = false) :
    (sinceLast (fun x => x.stable && x.crashed) (pre ++ b :: post)).countP Boot.crashed =
      (sinceLast (fun x => x.stable && x.crashed) pre).countP Boot.crashed +
        crashesSinceStable (pre ++ b :: post) := by
  have hnone : ∀ x ∈ b :: post, (x.stable && x.crashed) = false := by
    intro x hx
    rcases hx with _ | ⟨_, hmem⟩
    · simp [hc]
    · simp [hpost x hmem]
  unfold crashesSinceStable
  rw [sinceLast_append_of_none pre hnone, List.countP_append, sinceLast_split hs hpost]

/-- When the supervisor gives up, it has counted more crashes since the last stable boot than it
restarts after, unless that boot was a reboot with crashes before it. -/
theorem givesUp_iff_lastStableClears (boots : List Boot) (h : GivesUp boots) :
    CRASH_RESTARTS + 1 ≤ crashesSinceStable boots ↔ LastStableClears boots := by
  have hcount := givesUp_count h
  by_cases hstable : ∃ b ∈ boots, b.stable = true
  · obtain ⟨pre, b, post, rfl, hb, hpost⟩ := exists_last hstable
    have hunique : ∀ pre' b' post', pre ++ b :: post = pre' ++ b' :: post' → b'.stable = true →
        (∀ x ∈ post', x.stable = false) → pre' = pre ∧ b' = b := by
      intro pre' b' post' heq hb' hpost'
      have hlast : sinceLast Boot.stable (pre ++ b :: post) = b :: post :=
        sinceLast_split hb hpost
      rw [heq, sinceLast_split hb' hpost'] at hlast
      cases hlast
      exact ⟨(List.append_cancel_right heq).symm, rfl⟩
    cases hc : b.crashed with
    | true =>
      -- the last stable boot has reset the counter itself
      have hsame : crashesSinceStable (pre ++ b :: post) = CRASH_RESTARTS + 1 := by
        rw [← hcount, crashesSinceStable, sinceLast_split hb hpost,
          sinceLast_split (by simp [hb, hc]) (by intro y hy; simp [hpost y hy])]
      refine iff_of_true (Nat.le_of_eq hsame.symm) ?_
      intro pre' b' post' heq hb' hc' hpost'
      obtain ⟨-, rfl⟩ := hunique pre' b' post' heq hb' hpost'
      rw [hc] at hc'
      cases hc'
    | false =>
      rw [count_of_last_reboot hb hc hpost] at hcount
      have hzero := countP_sinceLast_eq_zero (p := fun x : Boot => x.stable && x.crashed)
        (q := Boot.crashed) (by simp) pre
      constructor
      · intro hle pre' b' post' heq hb' _ hpost'
        obtain ⟨rfl, -⟩ := hunique pre' b' post' heq hb' hpost'
        exact hzero.mp (by omega)
      · intro hclears
        have hpre := hzero.mpr (hclears pre b post rfl hb hc hpost)
        omega
  · have hnone : ∀ b ∈ boots, b.stable = false := by simpa using hstable
    have hsame : crashesSinceStable boots = CRASH_RESTARTS + 1 := by
      rw [← hcount, crashesSinceStable, sinceLast_of_none hnone,
        sinceLast_of_none (by intro b hb; simp [hnone b hb])]
    refine iff_of_true (Nat.le_of_eq hsame.symm) ?_
    intro pre b post heq hb
    rw [hnone b (by simp [heq])] at hb
    cases hb

def quickCrash : Boot := ⟨.other "init killed by signal 9", 10 ^ 9⟩

theorem givesUp_iff_lastStableClears_quick :
    GivesUp (List.replicate 6 quickCrash) ∧
      (CRASH_RESTARTS + 1 ≤ crashesSinceStable (List.replicate 6 quickCrash) ↔
        LastStableClears (List.replicate 6 quickCrash)) := by
  have h : GivesUp (List.replicate 6 quickCrash) :=
    ⟨List.replicate 5 quickCrash, quickCrash, _, rfl, rfl, rfl, rfl⟩
  exact ⟨h, givesUp_iff_lastStableClears _ h⟩

/-- Five quick crashes, a reboot after a day, and one more crash: the supervisor gives up
after a single crash since the stable boot. -/
theorem stable_reboot_not_counted :
    let boots := List.replicate 5 quickCrash ++ [⟨.reboot, 86400 * 10 ^ 9⟩, quickCrash]
    GivesUp boots ∧ crashesSinceStable boots = 1 :=
  ⟨⟨List.replicate 5 quickCrash ++ [⟨.reboot, 86400 * 10 ^ 9⟩], quickCrash, _, rfl, rfl, rfl,
    rfl⟩, by decide⟩

end RunmanAgent
