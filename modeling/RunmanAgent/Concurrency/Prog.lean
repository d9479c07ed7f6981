import Mathlib

/-!
# Programs made of atomic actions, and pools of them

A `Machine` says what the atomic actions `ε` do to a shared state `σ`: an action may be
blocked (a lock that is taken), and it changes the state in one step, given an input `ι`
from outside (the answer of a system call, a clock reading, the choice between success
and failure).

An asynchronous program is a finite tree of such actions: after each one it reads the
state the action found and its input, and goes on. Fallible code is a `Proc`: a program
that returns an `Except`, with the short-circuiting bind of a `?` operator.

A `Pool` runs any number of programs over one state. `Pool.Run M ok` is every
interleaving whose steps satisfy `ok`; `Pool.execOk` computes one of them from a
schedule.
-/

namespace RunmanAgent.Concurrency

/-- Index of a program in a pool. -/
abbrev Pid := Nat

/-- The atomic actions of a system. -/
structure Machine (σ ι ε : Type) where
  enabled : ε → Pid → σ → Bool
  apply : ε → Pid → σ → ι → σ

/-- No restriction on the steps of a run. -/
def anyStep {σ ι ε : Type} : Pid → ε → σ → ι → Prop := fun _ _ _ _ => True

instance {σ ι ε : Type} (p : Pid) (e : ε) (s : σ) (i : ι) : Decidable (anyStep p e s i) :=
  .isTrue trivial

/-- A program: it returns, or it has one next action. -/
inductive Prog (σ ι ε α : Type) where
  | ret (a : α)
  | act (e : ε) (next : Pid → σ → ι → Prog σ ι ε α)

namespace Prog

variable {σ ι ε α β : Type}

protected def bind : Prog σ ι ε α → (α → Prog σ ι ε β) → Prog σ ι ε β
  | ret a, f => f a
  | act e nx, f => act e (fun me s i => (nx me s i).bind f)

instance : Monad (Prog σ ι ε) where
  pure := ret
  bind := Prog.bind

protected theorem bind_assoc {γ : Type} (p : Prog σ ι ε α) (f : α → Prog σ ι ε β)
    (g : β → Prog σ ι ε γ) :
    Prog.bind (Prog.bind p f) g = Prog.bind p fun a => Prog.bind (f a) g := by
  induction p with
  | ret a => rfl
  | act e nx ih =>
    simp only [Prog.bind]
    congr 1
    funext me s i
    exact ih me s i

/-- One action; `f` is the value it returns. -/
def perform (e : ε) (f : Pid → σ → ι → α) : Prog σ ι ε α :=
  act e (fun me s i => ret (f me s i))

/-- One action without a result. -/
def run (e : ε) : Prog σ ι ε Unit := perform e (fun _ _ _ => ())

/-- Every action of the program is one of `φ`, whatever it reads. -/
def Uses (φ : ε → Prop) : Prog σ ι ε α → Prop
  | ret _ => True
  | act e nx => φ e ∧ ∀ me s i, (nx me s i).Uses φ

variable {a : α} {me : Pid} {s : σ} {φ : ε → Prop} {M : Machine σ ι ε} {p : Prog σ ι ε α}
  {ok : Pid → ε → σ → ι → Prop} {f : α → Prog σ ι ε β}

theorem Uses.bind (hp : p.Uses φ) (hf : ∀ a, (f a).Uses φ) : (Prog.bind p f).Uses φ := by
  induction p with
  | ret a => exact hf a
  | act e nx ih => exact ⟨hp.1, fun me s i => ih me s i (hp.2 me s i)⟩

theorem Uses.mono {ψ : ε → Prop} (hp : p.Uses φ) (h : ∀ e, φ e → ψ e) : p.Uses ψ := by
  induction p with
  | ret a => trivial
  | act e nx ih => exact ⟨h e hp.1, fun me s i => ih me s i (hp.2 me s i)⟩

theorem uses_true (p : Prog σ ι ε α) : p.Uses (fun _ => True) := by
  induction p with
  | ret a => trivial
  | act e nx ih => exact ⟨trivial, fun me s i => ih me s i⟩

theorem Uses.perform {e : ε} {f : Pid → σ → ι → α} (h : φ e) : (perform e f).Uses φ :=
  ⟨h, fun _ _ _ => trivial⟩

/-- Every value the program can return satisfies `ψ`, whatever it reads. -/
def Yields (ψ : α → Prop) : Prog σ ι ε α → Prop
  | ret a => ψ a
  | act _ nx => ∀ me s i, (nx me s i).Yields ψ

theorem Yields.bind {ψ : α → Prop} {χ : β → Prop} (hp : p.Yields ψ)
    (hf : ∀ a, ψ a → (f a).Yields χ) :
    (Prog.bind p f).Yields χ := by
  induction p with
  | ret a => exact hf a hp
  | act e nx ih => exact fun me s i => ih me s i (hp me s i)

theorem yields_true (p : Prog σ ι ε α) : p.Yields (fun _ => True) := by
  induction p with
  | ret a => trivial
  | act e nx ih => exact fun me s i => ih me s i

theorem Uses.bind_yields {ψ : α → Prop} (hp : p.Uses φ) (hy : p.Yields ψ)
    (hf : ∀ a, ψ a → (f a).Uses φ) : (Prog.bind p f).Uses φ := by
  induction p with
  | ret a => exact hf a hy
  | act e nx ih => exact ⟨hp.1, fun me s i => ih me s i (hp.2 me s i) (hy me s i)⟩

/-- The value of a program that has returned. -/
def result : Prog σ ι ε α → Option α
  | ret a => some a
  | act _ _ => none

theorem result_eq_some : p.result = some a ↔ p = ret a := by
  cases p <;> simp [result]

instance [DecidableEq α] : Decidable (p = ret a) := decidable_of_iff _ result_eq_some

/-- The next action of a program that has not returned. -/
def next : Prog σ ι ε α → Option ε
  | ret _ => none
  | act e _ => some e

/-- `p` run alone, every step satisfying `ok`: the value it returns and the last
state. -/
inductive Runs (M : Machine σ ι ε) (ok : Pid → ε → σ → ι → Prop) (me : Pid) :
    Prog σ ι ε α → σ → α → σ → Prop where
  | ret (a : α) (s : σ) : Runs M ok me (.ret a) s a s
  | act {e : ε} {nx : Pid → σ → ι → Prog σ ι ε α} {s s' : σ} {a : α} (i : ι)
      (hen : M.enabled e me s = true) (hok : ok me e s i)
      (hrest : Runs M ok me (nx me s i) (M.apply e me s i) a s') : Runs M ok me (.act e nx) s a s'

theorem Runs.mono {ok' : Pid → ε → σ → ι → Prop} (hok : ∀ p e s i, ok p e s i → ok' p e s i)
    {s' : σ} (h : Runs M ok me p s a s') : Runs M ok' me p s a s' := by
  induction h with
  | ret a s => exact .ret a s
  | act i hen ho _ ih => exact .act i hen (hok _ _ _ _ ho) ih

theorem exists_runs {I : σ → Prop} (hen : ∀ e s, I s → M.enabled e me s = true)
    (hok : ∀ e s, I s → ∃ i, ok me e s i ∧ I (M.apply e me s i)) (p : Prog σ ι ε α) (hs : I s) :
    ∃ a s', Runs M ok me p s a s' := by
  induction p generalizing s with
  | ret a => exact ⟨a, s, .ret a s⟩
  | act e nx ih =>
    obtain ⟨i, hi, hI⟩ := hok e s hs
    obtain ⟨a, s', hrun⟩ := ih me s i hI
    exact ⟨a, s', .act i (hen e s hs) hi hrun⟩

/-- Run `p` alone on a list of inputs that is long enough. -/
def alone (M : Machine σ ι ε) (ok : Pid → ε → σ → ι → Prop)
    [∀ p e s i, Decidable (ok p e s i)] (me : Pid) :
    Prog σ ι ε α → σ → List ι → Option (α × σ)
  | ret a, s, _ => some (a, s)
  | act _ _, _, [] => none
  | act e nx, s, i :: is =>
    if M.enabled e me s && decide (ok me e s i) then
      (nx me s i).alone M ok me (M.apply e me s i) is
    else none

@[simp] theorem alone_ret [∀ p e s i, Decidable (ok p e s i)] {is : List ι} :
    alone M ok me (.ret a) s is = some (a, s) := rfl

@[simp] theorem alone_act_anyStep {e : ε} {nx : Pid → σ → ι → Prog σ ι ε α} {i : ι} {is : List ι} :
    alone M anyStep me (.act e nx) s (i :: is) =
      if M.enabled e me s = true then (nx me s i).alone M anyStep me (M.apply e me s i) is
      else none := by
  cases hen : M.enabled e me s <;> rw [alone, hen] <;> rfl

theorem runs_of_alone [∀ p e s i, Decidable (ok p e s i)] {s' : σ} (is : List ι)
    (h : p.alone M ok me s is = some (a, s')) : Runs M ok me p s a s' := by
  induction p generalizing s is with
  | ret b =>
    simp only [alone, Option.some.injEq, Prod.mk.injEq] at h
    obtain ⟨rfl, rfl⟩ := h
    exact .ret _ _
  | act e nx ih =>
    cases is with
    | nil => cases h
    | cons i is =>
      simp only [alone] at h
      split at h
      · rename_i hen
        obtain ⟨he, ho⟩ := Bool.and_eq_true_iff.mp hen
        exact .act i he (of_decide_eq_true ho) (ih me s i is h)
      · cases h

theorem runs_of_any [∀ p e s i, Decidable (ok p e s i)] {q : α × σ → Bool} {is : List ι}
    (h : (p.alone M ok me s is).any q = true) :
    ∃ a s', Runs M ok me p s a s' ∧ q (a, s') = true := by
  obtain ⟨⟨a, s'⟩, hx, hq⟩ := (Option.any_eq_true _ _).mp h
  exact ⟨a, s', runs_of_alone is hx, hq⟩

end Prog

/-! ## Fallible programs -/

/-- A program that returns a value or an error. -/
def Proc (σ ι ε err α : Type) : Type := Prog σ ι ε (Except err α)

namespace Proc

variable {σ ι ε err α β : Type}

/-- The `?` operator: an error ends the program. -/
protected def bind (x : Proc σ ι ε err α) (f : α → Proc σ ι ε err β) : Proc σ ι ε err β :=
  Prog.bind x fun r =>
    match r with
    | .ok a => f a
    | .error e => Prog.ret (.error e)

instance : Monad (Proc σ ι ε err) where
  pure a := Prog.ret (.ok a)
  bind := Proc.bind

/-- `bail!`. -/
def fail (e : err) : Proc σ ι ε err α := Prog.ret (.error e)

/-- A value that is already there, or an error. -/
def lift (r : Except err α) : Proc σ ι ε err α := Prog.ret r

/-- One fallible action. -/
def perform (e : ε) (f : Pid → σ → ι → Except err α) : Proc σ ι ε err α := Prog.perform e f

/-- One action that cannot fail. -/
def read (e : ε) (f : Pid → σ → ι → α) : Proc σ ι ε err α :=
  Prog.perform e (fun me s i => .ok (f me s i))

/-- One action that cannot fail and returns nothing. -/
def run (e : ε) : Proc σ ι ε err Unit := read e (fun _ _ _ => ())

/-- The result as a value, for code that inspects it instead of propagating it. -/
def attempt (x : Proc σ ι ε err α) : Proc σ ι ε err (Except err α) :=
  Prog.bind x fun r => Prog.ret (.ok r)

/-- `Result::map_err`. -/
def mapErr (g : err → err) (x : Proc σ ι ε err α) : Proc σ ι ε err α :=
  Prog.bind x fun r =>
    match r with
    | .ok a => Prog.ret (.ok a)
    | .error e => Prog.ret (.error (g e))

/-- Run `x` between the actions `before` and `after`; `after` also runs when `x` fails. -/
def bracket (before after : ε) (x : Proc σ ι ε err α) : Proc σ ι ε err α :=
  Prog.bind (Prog.run before) fun _ => Prog.bind x fun r =>
    Prog.bind (Prog.run after) fun _ => Prog.ret r

/-- Run `f` on the elements of a list, one after another. -/
def forEach (f : α → Proc σ ι ε err Unit) : List α → Proc σ ι ε err Unit
  | [] => pure ()
  | a :: as => f a >>= fun _ => forEach f as

/-- Run `f` on the elements of a list, one after another, with an accumulator. -/
def fold {γ : Type} (f : γ → α → Proc σ ι ε err γ) : γ → List α → Proc σ ι ε err γ
  | c, [] => pure c
  | c, a :: as => f c a >>= fun c' => fold f c' as

/-- `while check is Ok { body? }`, for at most `n` rounds. -/
def whileOk (check body : Proc σ ι ε err Unit) : Nat → Proc σ ι ε err Unit
  | 0 => do
    let _ ← check.attempt
    pure ()
  | n + 1 => do
    match ← check.attempt with
    | .error _ => pure ()
    | .ok _ =>
      body
      whileOk check body n

variable {γ : Type} {a b : ε} {φ : ε → Prop} {as : List α} {ψ : err → Prop} {x : Proc σ ι ε err α}
  {f : α → Proc σ ι ε err β}

theorem uses_bind (hx : Prog.Uses φ x) (hf : ∀ a, Prog.Uses φ (f a)) :
    Prog.Uses φ (x >>= f : Proc σ ι ε err β) := by
  refine .bind hx fun r => ?_
  cases r with
  | ok a => exact hf a
  | error e => trivial

theorem attempt_bind (x : Proc σ ι ε err α) (f : Except err α → Proc σ ι ε err β) :
    (attempt x >>= f : Proc σ ι ε err β) = Prog.bind x f :=
  Prog.bind_assoc x _ _

protected theorem bind_assoc (x : Proc σ ι ε err α) (f : α → Proc σ ι ε err β)
    (g : β → Proc σ ι ε err γ) :
    ((x >>= f) >>= g : Proc σ ι ε err γ) = x >>= fun a => f a >>= g := by
  refine (Prog.bind_assoc x _ _).trans (congrArg (Prog.bind x) ?_)
  funext r
  cases r <;> rfl

/-- What a fallible program returns when it succeeds. -/
def Returns (ψ : α → Prop) (x : Proc σ ι ε err α) : Prop :=
  Prog.Yields (fun r => ∀ a, r = .ok a → ψ a) x

theorem returns_bind {ψ : β → Prop} (hf : ∀ a, Returns ψ (f a)) :
    Returns ψ (x >>= f : Proc σ ι ε err β) := by
  refine Prog.Yields.bind (Prog.yields_true x) fun r _ => ?_
  cases r with
  | ok a => exact hf a
  | error e => exact nofun

theorem Returns.bind {ψ : α → Prop} {χ : β → Prop} (hx : Returns ψ x)
    (hf : ∀ a, ψ a → Returns χ (f a)) : Returns χ (x >>= f : Proc σ ι ε err β) := by
  refine Prog.Yields.bind hx fun r hr => ?_
  cases r with
  | ok a => exact hf a (hr a rfl)
  | error e => exact nofun

theorem returns_pure {ψ : α → Prop} {a : α} (h : ψ a) :
    Returns ψ (pure a : Proc σ ι ε err α) :=
  fun _ hb => by cases hb; exact h

theorem returns_bracket {ψ : α → Prop} (hx : Returns ψ x) : Returns ψ (bracket b a x) :=
  Prog.Yields.bind (Prog.yields_true _) fun _ _ => Prog.Yields.bind hx fun _ hr =>
    Prog.Yields.bind (Prog.yields_true _) fun _ _ => hr

theorem uses_bind_returns {ψ : α → Prop} (hx : Prog.Uses φ x) (hy : Returns ψ x)
    (hf : ∀ a, ψ a → Prog.Uses φ (f a)) : Prog.Uses φ (x >>= f : Proc σ ι ε err β) := by
  refine .bind_yields hx hy fun r hr => ?_
  cases r with
  | ok a => exact hf a (hr a rfl)
  | error e => trivial

/-- What a fallible program fails with. -/
def Fails (ψ : err → Prop) (x : Proc σ ι ε err α) : Prop :=
  Prog.Yields (fun r => ∀ e, r = .error e → ψ e) x

theorem fails_pure (a : α) : Fails ψ (pure a : Proc σ ι ε err α) :=
  nofun

theorem fails_fail {e : err} (h : ψ e) : Fails ψ (fail e : Proc σ ι ε err α) :=
  fun _ he => by cases he; exact h

theorem fails_perform {e : ε} {f : Pid → σ → ι → Except err α}
    (h : ∀ me s i r, f me s i = .error r → ψ r) : Fails ψ (perform e f) :=
  fun me s i => h me s i

theorem fails_read {e : ε} {f : Pid → σ → ι → α} : Fails ψ (read e f : Proc σ ι ε err α) :=
  nofun

theorem fails_bind (hx : Fails ψ x) (hf : ∀ a, Fails ψ (f a)) :
    Fails ψ (x >>= f : Proc σ ι ε err β) := by
  refine .bind hx fun r hr => ?_
  cases r with
  | ok a => exact hf a
  | error e => exact fun e' h => by cases h; exact hr e rfl

theorem fails_attempt (x : Proc σ ι ε err α) : Fails ψ (attempt x) :=
  .bind (Prog.yields_true x) nofun

theorem fails_mapErr {g : err → err} (h : ∀ e, ψ (g e)) : Fails ψ (mapErr g x) := by
  refine .bind (Prog.yields_true x) fun r _ => ?_
  cases r with
  | ok a => exact nofun
  | error e => exact fun _ he => by cases he; exact h e

theorem fails_bracket (hx : Fails ψ x) : Fails ψ (bracket b a x) :=
  .bind (Prog.yields_true _) fun _ _ => .bind hx fun _ hr =>
    .bind (Prog.yields_true _) fun _ _ => hr

theorem fails_forEach {f : α → Proc σ ι ε err Unit} (h : ∀ a, Fails ψ (f a)) :
    Fails ψ (forEach f as) := by
  induction as with
  | nil => exact fails_pure ()
  | cons a as ih => exact fails_bind (h a) fun _ => ih

theorem uses_attempt (hx : Prog.Uses φ x) : Prog.Uses φ (attempt x) :=
  .bind hx fun _ => trivial

theorem uses_mapErr {g : err → err} (hx : Prog.Uses φ x) : Prog.Uses φ (mapErr g x) := by
  refine .bind hx fun r => ?_
  cases r <;> trivial

theorem uses_bracket (hb : φ b) (ha : φ a) (hx : Prog.Uses φ x) : Prog.Uses φ (bracket b a x) :=
  .bind (.perform hb) fun _ => .bind hx fun _ =>
    .bind (.perform ha) fun _ => trivial

theorem uses_forEach_mem {f : α → Proc σ ι ε err Unit} (h : ∀ a ∈ as, Prog.Uses φ (f a)) :
    Prog.Uses φ (forEach f as) := by
  induction as with
  | nil => trivial
  | cons a as ih =>
    exact uses_bind (h a (.head _)) fun _ => ih fun b hb => h b (.tail _ hb)

theorem uses_forEach {f : α → Proc σ ι ε err Unit} (h : ∀ a, Prog.Uses φ (f a)) :
    Prog.Uses φ (forEach f as) :=
  uses_forEach_mem fun a _ => h a

theorem uses_fold {f : γ → α → Proc σ ι ε err γ} {c : γ} (h : ∀ c a, Prog.Uses φ (f c a)) :
    Prog.Uses φ (fold f c as) := by
  induction as generalizing c with
  | nil => trivial
  | cons a as ih => exact uses_bind (h c a) fun _ => ih

theorem uses_whileOk {check body : Proc σ ι ε err Unit} {n : Nat} (hc : Prog.Uses φ check)
    (hb : Prog.Uses φ body) : Prog.Uses φ (whileOk check body n) := by
  induction n with
  | zero => exact uses_bind (uses_attempt hc) fun _ => trivial
  | succ n ih =>
    refine uses_bind (uses_attempt hc) fun r => ?_
    cases r with
    | error e => trivial
    | ok a => exact uses_bind hb fun _ => ih

end Proc

/-! ## Pools -/

/-- Any number of programs over one state. A program that has returned stays as it is. -/
structure Pool (σ ι ε : Type) where
  mem : σ
  procs : Pid → Prog σ ι ε Unit

namespace Pool

variable {σ ι ε : Type} {M : Machine σ ι ε}

/-- One step that satisfies `ok`. -/
inductive Step (M : Machine σ ι ε) (ok : Pid → ε → σ → ι → Prop) :
    Pool σ ι ε → Pool σ ι ε → Prop where
  | mk {P : Pool σ ι ε} (p : Pid) (i : ι) {e : ε} {nx : Pid → σ → ι → Prog σ ι ε Unit}
      (hact : P.procs p = .act e nx) (hen : M.enabled e p P.mem = true)
      (hok : ok p e P.mem i) :
      Step M ok P ⟨M.apply e p P.mem i, Function.update P.procs p (nx p P.mem i)⟩

/-- Every interleaving whose steps all satisfy `ok`. -/
def Run (M : Machine σ ι ε) (ok : Pid → ε → σ → ι → Prop) :
    Pool σ ι ε → Pool σ ι ε → Prop :=
  Relation.ReflTransGen (Step M ok)

variable {P P' : Pool σ ι ε} {ok : Pid → ε → σ → ι → Prop}

theorem Run.mono {ok' : Pid → ε → σ → ι → Prop} (hok : ∀ p e s i, ok p e s i → ok' p e s i)
    (hrun : Run M ok P P') : Run M ok' P P' := by
  induction hrun with
  | refl => exact .refl
  | tail _ hs ih =>
    obtain ⟨p, i, hact, hen, ho⟩ := hs
    exact ih.tail (.mk p i hact hen (hok _ _ _ _ ho))

theorem Run.returned (hrun : Run M ok P P') {p : Pid} (h : (P.procs p).next = none) :
    (P'.procs p).next = none := by
  induction hrun with
  | refl => exact h
  | tail _ hs ih =>
    obtain ⟨q, i, hact, -, -⟩ := hs
    have hne : p ≠ q := by
      rintro rfl
      rw [hact] at ih
      cases ih
    exact (congrArg Prog.next (Function.update_of_ne hne ..)).trans ih

theorem Run.invariant {I : σ → Prop} (hrun : Run M ok P P') (h : I P.mem)
    (hstep : ∀ {p e s i}, I s → ok p e s i → I (M.apply e p s i)) : I P'.mem := by
  induction hrun with
  | refl => exact h
  | tail _ hs ih =>
    obtain ⟨p, i, -, -, hok⟩ := hs
    exact hstep ih hok

/-- When a program of a pool, run alone, loses a property, the pool gets to the action that
loses it. -/
theorem exists_loss {I : σ → Prop} {φ : ε → Prop} {p : Pid} {x : Prog σ ι ε Unit} {s s' : σ}
    {a : Unit} (h : Prog.Runs M ok p x s a s') (hx : x.Uses φ) (hs : I s) (hs' : ¬I s')
    (hmem : P.mem = s) (hproc : P.procs p = x) :
    ∃ Q e nx i, Run M ok P Q ∧ Q.procs p = .act e nx ∧ φ e ∧ I Q.mem ∧
      ¬I (M.apply e p Q.mem i) := by
  induction h generalizing P with
  | ret a s => exact absurd hs hs'
  | @act e nx s s' a i hen hok _ ih =>
    subst hmem
    by_cases hi : I (M.apply e p P.mem i)
    · obtain ⟨Q, e', nx', i', hrun, hQ⟩ := ih (hx.2 p P.mem i) hi hs'
        (P := ⟨M.apply e p P.mem i, Function.update P.procs p (nx p P.mem i)⟩) rfl
        (Function.update_self ..)
      exact ⟨Q, e', nx', i', .head (.mk p i hproc hen hok) hrun, hQ⟩
    · exact ⟨P, e, nx, i, .refl, hproc, hx.1, hs, hi⟩

section Exec

variable {ok : Pid → ε → σ → ι → Prop} [∀ p e s i, Decidable (ok p e s i)]

/-- Run a schedule, refusing a step that is blocked or not `ok`. -/
def execOk (M : Machine σ ι ε) (ok : Pid → ε → σ → ι → Prop)
    [∀ p e s i, Decidable (ok p e s i)] :
    List (Pid × ι) → Pool σ ι ε → Option (Pool σ ι ε)
  | [], P => some P
  | (p, i) :: rest, P =>
    match P.procs p with
    | .ret _ => none
    | .act e nx =>
      if M.enabled e p P.mem && decide (ok p e P.mem i) then
        execOk M ok rest ⟨M.apply e p P.mem i, Function.update P.procs p (nx p P.mem i)⟩
      else none

variable {P : Pool σ ι ε}

theorem run_of_execOk {sched : List (Pid × ι)} {Q : Pool σ ι ε} (h : execOk M ok sched P = some Q) :
    Run M ok P Q := by
  induction sched generalizing P with
  | nil =>
    cases h
    exact .refl
  | cons c rest ih =>
    obtain ⟨p, i⟩ := c
    simp only [execOk] at h
    split at h
    · cases h
    · rename_i e nx hact
      split at h
      · rename_i hen
        obtain ⟨he, ho⟩ := Bool.and_eq_true_iff.mp hen
        exact .head (.mk p i hact he (of_decide_eq_true ho)) (ih h)
      · cases h

/-- A run that is computed: what is checked at its end is `p`. -/
theorem exists_run_imp {p q : Pool σ ι ε → Prop} [DecidablePred p] (sched : List (Pid × ι))
    (h : (execOk M ok sched P).any (p ·) = true) (hq : ∀ Q, Run M ok P Q → p Q → q Q) :
    ∃ Q, Run M ok P Q ∧ q Q := by
  obtain ⟨Q, hQ, hp⟩ := (Option.any_eq_true _ _).mp h
  have hrun := run_of_execOk hQ
  exact ⟨Q, hrun, hq Q hrun (of_decide_eq_true hp)⟩

theorem exists_run {p : Pool σ ι ε → Prop} [DecidablePred p] (sched : List (Pid × ι))
    (h : (execOk M ok sched P).any (p ·) = true) : ∃ Q, Run M ok P Q ∧ p Q :=
  exists_run_imp sched h fun _ _ hp => hp

theorem exists_run_eq {β : Type} {b : β} {f : Pool σ ι ε → β} (sched : List (Pid × ι))
    (h : (execOk M ok sched P).map f = some b) : ∃ Q, Run M ok P Q ∧ f Q = b := by
  obtain ⟨Q, hQ, hf⟩ := Option.map_eq_some_iff.mp h
  exact ⟨Q, run_of_execOk hQ, hf⟩

theorem exists_run_run {p : Pool σ ι ε → Pool σ ι ε → Prop} [∀ Q R, Decidable (p Q R)]
    (sched sched' : List (Pid × ι))
    (h : (execOk M ok sched P).any (fun Q => (execOk M ok sched' Q).any (p Q ·)) = true) :
    ∃ Q R, Run M ok P Q ∧ Run M ok Q R ∧ p Q R := by
  obtain ⟨Q, hQ, hR⟩ := (Option.any_eq_true _ _).mp h
  obtain ⟨R, hrun, hp⟩ := exists_run sched' hR
  exact ⟨Q, R, run_of_execOk hQ, hrun, hp⟩

theorem exists_run_step {p : Pool σ ι ε → Pool σ ι ε → Prop} [∀ Q R, Decidable (p Q R)]
    (sched : List (Pid × ι)) (c : Pid × ι)
    (h : (execOk M ok sched P).any (fun Q => (execOk M ok [c] Q).any (p Q ·)) = true) :
    ∃ Q R, Run M ok P Q ∧ Step M ok Q R ∧ p Q R := by
  obtain ⟨Q, hQ, hR⟩ := (Option.any_eq_true _ _).mp h
  obtain ⟨R, hstep, hp⟩ := (Option.any_eq_true _ _).mp hR
  refine ⟨Q, R, run_of_execOk hQ, ?_, of_decide_eq_true hp⟩
  simp only [execOk] at hstep
  split at hstep
  · cases hstep
  · rename_i e nx hact
    split at hstep
    · rename_i hen
      obtain ⟨he, ho⟩ := Bool.and_eq_true_iff.mp hen
      cases hstep
      exact .mk c.1 c.2 hact he (of_decide_eq_true ho)
    · cases hstep

end Exec

end Pool

end RunmanAgent.Concurrency
