import RunmanAgent.Concurrency.Prog

/-!
# Programs that are observed

An observer sees every action of a program that runs alone, the state it finds and its input, and
remembers what it likes in a `γ`. The program does not see the observer.
-/

namespace RunmanAgent.Concurrency

variable {σ ι ε α β γ err : Type} {M : Machine σ ι ε} {see : ε → σ → ι → γ → γ} {me : Pid}

namespace Prog

/-- `p` run alone, with what the observer remembers beside the state. -/
inductive Observed (M : Machine σ ι ε) (see : ε → σ → ι → γ → γ) (me : Pid) :
    Prog σ ι ε α → σ × γ → α → σ × γ → Prop where
  | ret (a : α) (x : σ × γ) : Observed M see me (.ret a) x a x
  | act {e : ε} {nx : Pid → σ → ι → Prog σ ι ε α} {x y : σ × γ} {a : α} (i : ι)
      (hen : M.enabled e me x.1 = true)
      (hrest : Observed M see me (nx me x.1 i) (M.apply e me x.1 i, see e x.1 i x.2) a y) :
      Observed M see me (.act e nx) x a y

variable {a : α} {x y : σ × γ} {p : Prog σ ι ε α}

theorem Observed.of_ret {b : α} (h : Observed M see me (.ret a) x b y) : b = a ∧ y = x := by
  cases h
  exact ⟨rfl, rfl⟩

theorem Observed.of_perform {e : ε} {f : Pid → σ → ι → α}
    (h : Observed M see me (perform e f) x a y) :
    ∃ i, a = f me x.1 i ∧ y = (M.apply e me x.1 i, see e x.1 i x.2) := by
  cases h with
  | act i _ hrest =>
    obtain ⟨ha, hy⟩ := hrest.of_ret
    exact ⟨i, ha, hy⟩

theorem Observed.of_bind {f : α → Prog σ ι ε β} {z : σ × γ} {b : β}
    (h : Observed M see me (Prog.bind p f) x b z) :
    ∃ a y, Observed M see me p x a y ∧ Observed M see me (f a) y b z := by
  induction p generalizing x with
  | ret a => exact ⟨a, x, .ret a x, h⟩
  | act e nx ih =>
    cases h with
    | act i hen hrest =>
      obtain ⟨a, y, hp, hf⟩ := ih me x.1 i hrest
      exact ⟨a, y, .act i hen hp, hf⟩

theorem Observed.keeps {P : σ × γ → Prop} (h : Observed M see me p x a y)
    (hp : p.Uses fun e => ∀ s i o, P (s, o) → P (M.apply e me s i, see e s i o)) (hx : P x) :
    P y := by
  induction h with
  | ret => exact hx
  | @act e nx x y a i hen _ ih => exact ih (hp.2 me x.1 i) (hp.1 x.1 i x.2 hx)

theorem Observed.yields {ψ : α → Prop} (h : Observed M see me p x a y) (hp : p.Yields ψ) : ψ a := by
  induction h with
  | ret => exact hp
  | @act e nx x y a i hen _ ih => exact ih (hp me x.1 i)

/-- Run `p` alone and observed on a list of inputs that is long enough. -/
def observe (M : Machine σ ι ε) (see : ε → σ → ι → γ → γ) (me : Pid) :
    Prog σ ι ε α → σ × γ → List ι → Option (α × σ × γ)
  | ret a, x, _ => some (a, x)
  | act _ _, _, [] => none
  | act e nx, x, i :: is =>
    if M.enabled e me x.1 then
      (nx me x.1 i).observe M see me (M.apply e me x.1 i, see e x.1 i x.2) is
    else none

theorem observed_of_observe (is : List ι) (h : p.observe M see me x is = some (a, y)) :
    Observed M see me p x a y := by
  induction p generalizing x is with
  | ret b =>
    cases h
    exact .ret _ _
  | act e nx ih =>
    cases is with
    | nil => cases h
    | cons i is =>
      rw [observe] at h
      split at h
      · rename_i hen
        exact .act i hen (ih me x.1 i is h)
      · cases h

end Prog

namespace Proc

open Prog

theorem observed_of_bind {p : Proc σ ι ε err α} {f : α → Proc σ ι ε err β} {x z : σ × γ}
    {r : Except err β} (h : Observed M see me (p >>= f : Proc σ ι ε err β) x r z) :
    (∃ e, Observed M see me p x (.error e) z ∧ r = .error e) ∨
      ∃ a y, Observed M see me p x (.ok a) y ∧ Observed M see me (f a) y r z := by
  obtain ⟨r', y, hp, hf⟩ := Observed.of_bind h
  cases r' with
  | ok a => exact .inr ⟨a, y, hp, hf⟩
  | error e =>
    obtain ⟨rfl, rfl⟩ := hf.of_ret
    exact .inl ⟨e, hp, rfl⟩

theorem observed_of_attempt {p : Proc σ ι ε err α} {f : Except err α → Proc σ ι ε err β}
    {x z : σ × γ} {r : Except err β}
    (h : Observed M see me (attempt p >>= f : Proc σ ι ε err β) x r z) :
    ∃ a y, Observed M see me p x a y ∧ Observed M see me (f a) y r z := by
  rw [attempt_bind] at h
  exact h.of_bind

end Proc

end RunmanAgent.Concurrency
