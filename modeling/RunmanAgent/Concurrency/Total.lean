import RunmanAgent.Concurrency.Discipline

/-!
# Programs that run alone: total correctness

`Wp M ok me go Q p s` says that `p`, run alone from `s`, ends in `Q` whatever the inputs
are, and that, under the condition `go`, it can go on at every point: its action is enabled
and there is an input that satisfies `ok`. `Total` is the triple over it. `Total.runs` says
what this means for `Prog.Runs`: there is a run, and every run ends as stated.
-/

namespace RunmanAgent.Concurrency

variable {σ ι ε err α β γ : Type} {M : Machine σ ι ε} {ok : Pid → ε → σ → ι → Prop} {me : Pid}
  {go : Prop}

/-- Weakest precondition of a program that runs alone. -/
def Wp (M : Machine σ ι ε) (ok : Pid → ε → σ → ι → Prop) (me : Pid) (go : Prop)
    (Q : α → σ → Prop) : Prog σ ι ε α → σ → Prop
  | .ret a, s => Q a s
  | .act e nx, s => (go → M.enabled e me s = true ∧ ∃ i, ok me e s i) ∧
      ∀ i, ok me e s i → Wp M ok me go Q (nx me s i) (M.apply e me s i)

/-- Hoare triple for total correctness. -/
def Total (M : Machine σ ι ε) (ok : Pid → ε → σ → ι → Prop) (me : Pid) (go : Prop)
    (P : σ → Prop) (p : Prog σ ι ε α) (Q : α → σ → Prop) : Prop :=
  ∀ s, P s → Wp M ok me go Q p s

variable {s : σ} {P : σ → Prop} {Q R : α → σ → Prop} {p : Prog σ ι ε α} {x : Proc σ ι ε err α}

theorem Wp.exists_runs (h : Wp M ok me go Q p s) (hgo : go) :
    ∃ a s', Prog.Runs M ok me p s a s' := by
  induction p generalizing s with
  | ret a => exact ⟨a, s, .ret a s⟩
  | act e nx ih =>
    obtain ⟨hen, i, hi⟩ := h.1 hgo
    obtain ⟨a, s', hrun⟩ := ih me s i (h.2 i hi)
    exact ⟨a, s', .act i hen hi hrun⟩

theorem Wp.post {s' : σ} {a : α} (h : Wp M ok me go Q p s) (hrun : Prog.Runs M ok me p s a s') :
    Q a s' := by
  induction hrun with
  | ret a s => exact h
  | act i _ hok _ ih => exact ih (h.2 i hok)

theorem Total.runs (h : Total M ok me go P p Q) (hs : P s) :
    (go → ∃ a s', Prog.Runs M ok me p s a s') ∧ ∀ a s', Prog.Runs M ok me p s a s' → Q a s' :=
  ⟨(h s hs).exists_runs, fun _ _ hrun => (h s hs).post hrun⟩

theorem Wp.mono {Q' : α → σ → Prop} (hQ : ∀ a s, Q a s → Q' a s) (h : Wp M ok me go Q p s) :
    Wp M ok me go Q' p s := by
  induction p generalizing s with
  | ret a => exact hQ a s h
  | act e nx ih => exact ⟨h.1, fun i hi => ih me s i (h.2 i hi)⟩

theorem Wp.bind {Q : β → σ → Prop} {f : α → Prog σ ι ε β} (h : Wp M ok me go R p s)
    (hf : ∀ a, Total M ok me go (R a) (f a) Q) : Wp M ok me go Q (Prog.bind p f) s := by
  induction p generalizing s with
  | ret a => exact hf a s h
  | act e nx ih => exact ⟨h.1, fun i hi => ih me s i (h.2 i hi)⟩

theorem Total.ret {a : α} (h : ∀ s, P s → Q a s) : Total M ok me go P (.ret a) Q := h

theorem Total.perform {e : ε} {f : Pid → σ → ι → α}
    (hi : ∀ s, P s → go → M.enabled e me s = true ∧ ∃ i, ok me e s i)
    (h : ∀ s i, P s → ok me e s i → Q (f me s i) (M.apply e me s i)) :
    Total M ok me go P (Prog.perform e f) Q :=
  fun s hs => ⟨hi s hs, fun i hok => h s i hs hok⟩

theorem Total.bind {Q : β → σ → Prop} {f : α → Prog σ ι ε β} (hp : Total M ok me go P p R)
    (hf : ∀ a, Total M ok me go (R a) (f a) Q) : Total M ok me go P (Prog.bind p f) Q :=
  fun s hs => (hp s hs).bind hf

theorem Total.pre {P' : σ → Prop} (h : Total M ok me go P' p Q) (hP : ∀ s, P s → P' s) :
    Total M ok me go P p Q :=
  fun s hs => h s (hP s hs)

theorem Total.post {Q' : α → σ → Prop} (h : Total M ok me go P p Q') (hQ : ∀ a s, Q' a s → Q a s) :
    Total M ok me go P p Q :=
  fun s hs => (h s hs).mono hQ

theorem Total.given {H : Prop} (h : H → Total M ok me go P p Q) :
    Total M ok me go (fun s => P s ∧ H) p Q :=
  fun s hs => h hs.2 s hs.1

theorem Total.of_uses
    (h : p.Uses fun e => ∀ s, P s → (go → M.enabled e me s = true ∧ ∃ i, ok me e s i) ∧
      ∀ i, ok me e s i → P (M.apply e me s i)) : Total M ok me go P p (fun _ => P) := by
  induction p with
  | ret a => exact .ret fun _ hs => hs
  | act e nx ih =>
    intro s hs
    obtain ⟨hgo, hkeep⟩ := h.1 s hs
    exact ⟨hgo, fun i hi => ih me s i (h.2 me s i) _ (hkeep i hi)⟩

/-! ## Fallible programs -/

theorem Total.chain {E : err → σ → Prop} {Q : Except err β → σ → Prop} {f : α → Proc σ ι ε err β}
    (hx : Total M ok me go P x (ends R E)) (hE : ∀ e s, E e s → Q (.error e) s)
    (hf : ∀ a, Total M ok me go (R a) (f a) Q) :
    Total M ok me go P (x >>= f : Proc σ ι ε err β) Q := by
  refine .bind hx fun r => ?_
  cases r with
  | ok a => exact hf a
  | error e => exact .ret (hE e)

/-- Postcondition of a program that does not fail. -/
def succeedsWith (Q : α → σ → Prop) : Except err α → σ → Prop := ends Q (fun _ _ => False)

theorem Total.step {Q : Except err β → σ → Prop} {f : α → Proc σ ι ε err β}
    (hx : Total M ok me go P x (succeedsWith R)) (hf : ∀ a, Total M ok me go (R a) (f a) Q) :
    Total M ok me go P (x >>= f : Proc σ ι ε err β) Q :=
  .chain hx (fun _ _ h => h.elim) hf

theorem Total.mapErr {g : err → err} (hx : Total M ok me go P x (succeedsWith R)) :
    Total M ok me go P (Proc.mapErr g x) (succeedsWith R) := by
  refine .bind hx fun r => ?_
  cases r with
  | ok a => exact .ret fun _ hs => hs
  | error e => exact .ret fun _ hs => hs.elim

theorem Total.attemptBind {R : Except err α → σ → Prop} {Q : Except err β → σ → Prop}
    {f : Except err α → Proc σ ι ε err β} (hx : Total M ok me go P x R)
    (hf : ∀ r, Total M ok me go (R r) (f r) Q) :
    Total M ok me go P (Proc.attempt x >>= f : Proc σ ι ε err β) Q := by
  rw [Proc.attempt_bind]
  exact .bind hx hf

theorem Total.attempt {Q : Except err β → σ → Prop} {f : Except err α → Proc σ ι ε err β}
    (hx : Total M ok me go P x (succeedsWith R))
    (hf : ∀ a, Total M ok me go (R a) (f (.ok a)) Q) :
    Total M ok me go P (Proc.attempt x >>= f : Proc σ ι ε err β) Q := by
  refine .attemptBind hx fun r => ?_
  cases r with
  | ok a => exact hf a
  | error e => exact fun _ h => h.elim

theorem Total.imp {E : err → σ → Prop} (hx : Total M ok me go P x (succeedsWith R))
    (h : ∀ a s, R a s → Q a s) : Total M ok me go P x (ends Q E) := by
  refine .post hx fun r s hs => ?_
  cases r with
  | ok a => exact h a s hs
  | error e => exact hs.elim

theorem Total.fold {J : γ → List α → σ → Prop} {f : γ → α → Proc σ ι ε err γ} {c : γ}
    {as : List α} (h : ∀ c a as, Total M ok me go (J c (a :: as)) (f c a)
      (succeedsWith fun c' => J c' as)) :
    Total M ok me go (J c as) (Proc.fold f c as) (succeedsWith fun c' => J c' []) := by
  induction as generalizing c with
  | nil => exact .ret fun _ hs => hs
  | cons a as ih => exact .step (h c a as) fun _ => ih

theorem Total.forEach {P : List α → σ → Prop} {f : α → Proc σ ι ε err Unit} {as : List α}
    (h : ∀ a as, Total M ok me go (P (a :: as)) (f a) (succeedsWith fun _ => P as)) :
    Total M ok me go (P as) (Proc.forEach f as) (succeedsWith fun _ => P []) := by
  induction as with
  | nil => exact .ret fun _ hs => hs
  | cons a as ih => exact .step (h a as) fun _ => ih

/-- Rule for `while check is Ok`: `P n` holds before a check with `n` rounds left, `B n` before
the last but `n` round. -/
theorem Total.whileOk {P B : Nat → σ → Prop} {check body : Proc σ ι ε err Unit} {n : Nat}
    (hzero : Total M ok me go (P 0) check (ends (fun _ _ => False) (fun _ => P 0)))
    (hcheck : ∀ n, Total M ok me go (P (n + 1)) check (succeedsWith fun _ => B n))
    (hbody : ∀ n, Total M ok me go (B n) body (succeedsWith fun _ => P n)) :
    Total M ok me go (P n) (Proc.whileOk check body n) (succeedsWith fun _ => P 0) := by
  induction n with
  | zero =>
    refine .attemptBind hzero fun r => ?_
    cases r with
    | ok _ => exact fun _ h => h.elim
    | error _ => exact .ret fun _ h => h
  | succ n ih =>
    refine .attemptBind (hcheck n) fun r => ?_
    cases r with
    | ok _ => exact .step (hbody n) fun _ => ih
    | error _ => exact fun _ h => h.elim

end RunmanAgent.Concurrency
