import RunmanAgent.Concurrency.Prog

/-!
# Disciplines: invariants of pools, one program at a time

A `Discipline` for a machine names an invariant, says when a program may take an action
(`may`: it holds the lock the action needs, it writes back what it read), and which
steps the runs under consideration contain at all (`ok`). It carries the proof that a
step taken with permission keeps the invariant, so this is shown once for each action.

`Safe D duty me Q p s` says that `p`, started at `s` and interrupted by any number of
permitted steps of others before each of its actions, does its `duty` at every action it
takes and ends in `Q`. `Triple` is the Hoare triple over it. Duties can be shown one at a
time (`Triple.and`); the permission of a discipline is the whole of them. A pool whose
programs all keep to the permissions keeps the invariant in every interleaving
(`Pool.run_safe`), and every step it takes is a permitted one (`Pool.Safe.step`).

`Discipline.alone` lets nobody else move: a triple over it speaks about a program that
runs alone (`Prog.Runs.post`).
-/

namespace RunmanAgent.Concurrency

open Relation

/-- An invariant, the permissions that keep it, and the steps that are considered. -/
structure Discipline {σ ι ε : Type} (M : Machine σ ι ε) where
  inv : σ → Prop
  may : Pid → ε → σ → Prop
  ok : Pid → ε → σ → ι → Prop
  keeps : ∀ {p e s i}, inv s → M.enabled e p s = true → may p e s → ok p e s i →
    inv (M.apply e p s i)

variable {σ ι ε err α β : Type} {M : Machine σ ι ε}

/-- A permitted step of a program other than `me`. -/
inductive Discipline.Other (D : Discipline M) (me : Pid) : σ → σ → Prop where
  | mk {s : σ} (p : Pid) (e : ε) (i : ι) (hne : p ≠ me) (hinv : D.inv s)
      (hen : M.enabled e p s = true) (hmay : D.may p e s) (hok : D.ok p e s i) :
      D.Other me s (M.apply e p s i)

/-- `P` survives the steps of the others. The rules look for this by themselves. -/
class Stable (D : Discipline M) (me : Pid) (P : σ → Prop) : Prop where
  keep : ∀ s s', P s → D.Other me s s' → P s'

variable {me : Pid} {s : σ} {D : Discipline M} {P : σ → Prop}

theorem Stable.of_step (h : ∀ {s p e i}, P s → p ≠ me → D.inv s → M.enabled e p s = true →
    D.may p e s → D.ok p e s i → P (M.apply e p s i)) : Stable D me P where
  keep := by
    rintro s _ hs ⟨p, e, i, hne, hinv, hen, hmay, hok⟩
    exact h hs hne hinv hen hmay hok

theorem Stable.star (h : Stable D me P) {t : σ} (hs : P s) (hst : ReflTransGen (D.Other me) s t) :
    P t := by
  induction hst with
  | refl => exact hs
  | tail _ hr ih => exact h.keep _ _ ih hr

instance Stable.const (H : Prop) : Stable D me (fun _ => H) := ⟨fun _ _ h _ => h⟩

instance Stable.and {Q : σ → Prop} [hP : Stable D me P] [hQ : Stable D me Q] :
    Stable D me (fun s => P s ∧ Q s) :=
  ⟨fun s s' h hr => ⟨hP.keep s s' h.1 hr, hQ.keep s s' h.2 hr⟩⟩

instance Stable.all {γ : Sort*} {P : γ → σ → Prop} [h : ∀ c, Stable D me (P c)] :
    Stable D me (fun s => ∀ c, P c s) :=
  ⟨fun s s' hs hr c => (h c).keep s s' (hs c) hr⟩

instance Stable.exists {γ : Sort*} {P : γ → σ → Prop} [h : ∀ c, Stable D me (P c)] :
    Stable D me (fun s => ∃ c, P c s) :=
  ⟨fun s s' ⟨c, hc⟩ hr => ⟨c, (h c).keep s s' hc hr⟩⟩

/-- `p`, started at `s` under interference, does its duty and ends in `Q`. -/
def Safe (D : Discipline M) (duty : Pid → ε → σ → Prop) (me : Pid) (Q : α → σ → Prop) :
    Prog σ ι ε α → σ → Prop
  | .ret a, s => ∀ t, ReflTransGen (D.Other me) s t → D.inv t → Q a t
  | .act e nx, s => ∀ t, ReflTransGen (D.Other me) s t → D.inv t → ∀ i,
      M.enabled e me t = true → D.ok me e t i →
      duty me e t ∧ Safe D duty me Q (nx me t i) (M.apply e me t i)

/-- Hoare triple under interference. -/
def Triple (D : Discipline M) (duty : Pid → ε → σ → Prop) (me : Pid) (P : σ → Prop)
    (p : Prog σ ι ε α) (Q : α → σ → Prop) : Prop :=
  ∀ s, P s → Safe D duty me Q p s

section Rules

variable {D : Discipline M} {duty : Pid → ε → σ → Prop} {me : Pid}

variable {s : σ} {P : σ → Prop} {as : List α} {Q Q' R : α → σ → Prop} {E : err → σ → Prop}
  {p : Prog σ ι ε α} {x : Proc σ ι ε err α} {f : α → Proc σ ι ε err β}

theorem Safe.other {s' : σ} (h : Safe D duty me Q p s) (hr : D.Other me s s') :
    Safe D duty me Q p s' := by
  cases p with
  | ret a => exact fun t ht => h t (.head hr ht)
  | act e nx => exact fun t ht => h t (.head hr ht)

theorem Safe.mono (hQ : ∀ a s, D.inv s → Q a s → Q' a s) (h : Safe D duty me Q p s) :
    Safe D duty me Q' p s := by
  induction p generalizing s with
  | ret a => exact fun t ht hi => hQ a t hi (h t ht hi)
  | act e nx ih =>
    intro t ht hi i hen hok
    obtain ⟨hg, hn⟩ := h t ht hi i hen hok
    exact ⟨hg, ih me t i hn⟩

theorem Safe.bind {Q : β → σ → Prop} {f : α → Prog σ ι ε β} (hp : Safe D duty me R p s)
    (hf : ∀ a, Triple D duty me (R a) (f a) Q) : Safe D duty me Q (Prog.bind p f) s := by
  induction p generalizing s with
  | ret a =>
    -- nothing has been done yet: the others may still move before `f a` acts
    have hR : ∀ t, ReflTransGen (D.Other me) s t → D.inv t → R a t := hp
    show Safe D duty me Q (f a) s
    cases hfa : f a with
    | ret b =>
      intro t ht hi
      have := hf a t (hR t ht hi)
      rw [hfa] at this
      exact this t .refl hi
    | act e nx =>
      intro t ht hi
      have := hf a t (hR t ht hi)
      rw [hfa] at this
      exact this t .refl hi
  | act e nx ih =>
    intro t ht hi i hen hok
    obtain ⟨hg, hn⟩ := hp t ht hi i hen hok
    exact ⟨hg, ih me t i hn⟩

theorem Safe.and {duty' : Pid → ε → σ → Prop} (h : Safe D duty me Q p s)
    (h' : Safe D duty' me Q' p s) :
    Safe D (fun p e s => duty p e s ∧ duty' p e s) me (fun a s => Q a s ∧ Q' a s) p s := by
  induction p generalizing s with
  | ret a => exact fun t ht hi => ⟨h t ht hi, h' t ht hi⟩
  | act e nx ih =>
    intro t ht hi i hen hok
    obtain ⟨hg, hn⟩ := h t ht hi i hen hok
    obtain ⟨hg', hn'⟩ := h' t ht hi i hen hok
    exact ⟨⟨hg, hg'⟩, ih me t i hn hn'⟩

/-- What holds under the interference of a discipline holds under that of a stricter
one. -/
theorem Safe.stricter {D' : Discipline M} (hinv : ∀ s, D'.inv s → D.inv s)
    (hmay : ∀ p e s, D'.may p e s → D.may p e s) (hok : ∀ p e s i, D'.ok p e s i → D.ok p e s i)
    (h : Safe D duty me Q p s) : Safe D' duty me Q p s := by
  have hother : ∀ s t, D'.Other me s t → D.Other me s t := by
    rintro s _ ⟨p, e, i, hne, hi, hen, hm, ho⟩
    exact .mk p e i hne (hinv _ hi) hen (hmay _ _ _ hm) (hok _ _ _ _ ho)
  induction p generalizing s with
  | ret a => exact fun t ht hi => h t (ReflTransGen.mono hother _ _ ht) (hinv _ hi)
  | act e nx ih =>
    intro t ht hi i hen ho
    obtain ⟨hg, hn⟩ := h t (ReflTransGen.mono hother _ _ ht) (hinv _ hi) i hen (hok _ _ _ _ ho)
    exact ⟨hg, ih me t i hn⟩

theorem Triple.ret {a : α} [hP : Stable D me P] (h : ∀ s, D.inv s → P s → Q a s) :
    Triple D duty me P (.ret a) Q :=
  fun _ hs t ht hi => h t hi (hP.star hs ht)

theorem Triple.bind {Q : β → σ → Prop} {f : α → Prog σ ι ε β} (hp : Triple D duty me P p R)
    (hf : ∀ a, Triple D duty me (R a) (f a) Q) : Triple D duty me P (Prog.bind p f) Q :=
  fun s hs => (hp s hs).bind hf

theorem Triple.pre {P' : σ → Prop} (h : Triple D duty me P' p Q) (hP : ∀ s, P s → P' s) :
    Triple D duty me P p Q :=
  fun s hs => h s (hP s hs)

theorem Triple.post (h : Triple D duty me P p Q') (hQ : ∀ a s, D.inv s → Q' a s → Q a s) :
    Triple D duty me P p Q :=
  fun s hs => (h s hs).mono hQ

theorem Triple.withInv [hP : Stable D me P] (h : Triple D duty me (fun s => D.inv s ∧ P s) p Q) :
    Triple D duty me P p Q := by
  intro s hs
  cases p with
  | ret a => exact fun t ht hi => h t ⟨hi, hP.star hs ht⟩ t .refl hi
  | act e nx => exact fun t ht hi => h t ⟨hi, hP.star hs ht⟩ t .refl hi

theorem Triple.given {H : Prop} (h : H → Triple D duty me P p Q) :
    Triple D duty me (fun s => P s ∧ H) p Q :=
  fun s hs => h hs.2 s hs.1

theorem Triple.yields {ψ : α → Prop} (h : Triple D duty me P p Q) (hy : p.Yields ψ) :
    Triple D duty me P p (fun a s => Q a s ∧ ψ a) := by
  intro s hs
  have hsafe := h s hs
  clear h hs
  induction p generalizing s with
  | ret a => exact fun t ht hi => ⟨hsafe t ht hi, hy⟩
  | act e nx ih =>
    intro t ht hi i hen hok
    obtain ⟨hg, hn⟩ := hsafe t ht hi i hen hok
    exact ⟨hg, ih me t i (hy me t i) _ hn⟩

theorem Triple.perform {e : ε} {f : Pid → σ → ι → α} [hP : Stable D me P]
    [hQ : ∀ a, Stable D me (Q a)]
    (h : ∀ s i, D.inv s → P s → M.enabled e me s = true → D.ok me e s i →
      duty me e s ∧ Q (f me s i) (M.apply e me s i)) : Triple D duty me P (Prog.perform e f) Q := by
  intro s hs t ht hi i hen hok
  obtain ⟨hg, hq⟩ := h t i hi (hP.star hs ht) hen hok
  exact ⟨hg, fun u hu _ => (hQ _).star hq hu⟩

/-- Wherever `P` holds, the action does its duty and keeps `P`. -/
def Fine (D : Discipline M) (duty : Pid → ε → σ → Prop) (me : Pid) (P : σ → Prop) (e : ε) :
    Prop :=
  ∀ s i, D.inv s → P s → M.enabled e me s = true → D.ok me e s i →
    duty me e s ∧ P (M.apply e me s i)

theorem Triple.of_uses [hP : Stable D me P] (h : p.Uses (Fine D duty me P)) :
    Triple D duty me P p (fun _ => P) := by
  induction p with
  | ret a => exact .ret fun _ _ hs => hs
  | act e nx ih =>
    intro s hs t ht hi i hen hok
    obtain ⟨hg, hP'⟩ := h.1 t i hi (hP.star hs ht) hen hok
    exact ⟨hg, ih me t i (h.2 me t i) _ hP'⟩

/-! ### Fallible programs -/

/-- Postcondition of a fallible program from one for success and one for failure. -/
def ends (Q : α → σ → Prop) (E : err → σ → Prop) : Except err α → σ → Prop
  | .ok a => Q a
  | .error e => E e

@[simp] theorem ends_ok (Q : α → σ → Prop) (E : err → σ → Prop) (a : α) :
    ends Q E (.ok a) = Q a := rfl

@[simp] theorem ends_error (Q : α → σ → Prop) (E : err → σ → Prop) (e : err) :
    ends Q E (.error e) = E e := rfl

instance Stable.ends [hQ : ∀ a, Stable D me (Q a)] [hE : ∀ e, Stable D me (E e)] :
    ∀ r, Stable D me (ends Q E r)
  | .ok a => hQ a
  | .error e => hE e

instance Stable.ends_error {e : err} [hE : Stable D me (E e)] :
    Stable D me (Concurrency.ends Q E (.error e)) := hE

instance Stable.ends_ok {a : α} [hQ : Stable D me (Q a)] :
    Stable D me (Concurrency.ends Q E (.ok a)) := hQ

theorem Triple.imp {R' : α → σ → Prop} {E' : err → σ → Prop} (h : Triple D duty me P x (ends R E))
    (hR : ∀ a s, D.inv s → R a s → R' a s) (hE : ∀ e s, D.inv s → E e s → E' e s) :
    Triple D duty me P x (ends R' E') :=
  h.post fun
    | .ok a => hR a
    | .error e => hE e

theorem Triple.procBind {Q : Except err β → σ → Prop}
    (hx : Triple D duty me P x (ends R (fun e => Q (.error e))))
    [∀ e, Stable D me (Q (.error e))] (hf : ∀ a, Triple D duty me (R a) (f a) Q) :
    Triple D duty me P (x >>= f : Proc σ ι ε err β) Q := by
  refine .bind hx fun r => ?_
  cases r with
  | ok a => exact hf a
  | error e => exact .ret fun _ _ hs => hs

theorem Triple.chain {Q : Except err β → σ → Prop} (hx : Triple D duty me P x (ends R E))
    (hE : ∀ e s, D.inv s → E e s → Q (.error e) s) [∀ e, Stable D me (Q (.error e))]
    (hf : ∀ a, Triple D duty me (R a) (f a) Q) :
    Triple D duty me P (x >>= f : Proc σ ι ε err β) Q := by
  refine .procBind (hx.post fun r s hi hs => ?_) hf
  cases r with
  | ok a => exact hs
  | error e => exact hE e s hi hs

/-- `Triple.chain` after a program that does not fail. -/
theorem Triple.step {Q : Except err β → σ → Prop}
    (hx : Triple D duty me P x (ends R (fun _ _ => False))) [∀ e, Stable D me (Q (.error e))]
    (hf : ∀ a, Triple D duty me (R a) (f a) Q) :
    Triple D duty me P (x >>= f : Proc σ ι ε err β) Q :=
  .chain hx (fun _ _ _ h => h.elim) hf

theorem Triple.seq {R : σ → Prop} {Q : Except err β → σ → Prop}
    (hx : Triple D duty me P x (fun _ => R)) (hR : ∀ e s, D.inv s → R s → Q (.error e) s)
    [∀ e, Stable D me (Q (.error e))] (hf : ∀ a, Triple D duty me R (f a) Q) :
    Triple D duty me P (x >>= f : Proc σ ι ε err β) Q := by
  refine .procBind (hx.post fun r s hi hs => ?_) hf
  cases r with
  | ok a => exact hs
  | error e => exact hR e s hi hs

theorem Triple.seqReturns {R : σ → Prop} {ψ : α → Prop} {Q : Except err β → σ → Prop}
    (hx : Triple D duty me P x (fun _ => R)) (hy : Proc.Returns ψ x)
    (hR : ∀ e s, D.inv s → R s → Q (.error e) s) [∀ e, Stable D me (Q (.error e))]
    (hf : ∀ a, ψ a → Triple D duty me R (f a) Q) :
    Triple D duty me P (x >>= f : Proc σ ι ε err β) Q := by
  refine .procBind (R := fun a s => R s ∧ ψ a) ((hx.yields hy).post fun r s hi hs => ?_)
    fun a s hs => hf a hs.2 s hs.1
  cases r with
  | ok a => exact ⟨hs.1, hs.2 a rfl⟩
  | error e => exact hR e s hi hs.1

theorem Triple.attemptBind {R : Except err α → σ → Prop} {Q : Except err β → σ → Prop}
    {f : Except err α → Proc σ ι ε err β} (hx : Triple D duty me P x R)
    (hf : ∀ r, Triple D duty me (R r) (f r) Q) :
    Triple D duty me P (Proc.attempt x >>= f : Proc σ ι ε err β) Q := by
  rw [Proc.attempt_bind]
  exact .bind hx hf

theorem Triple.mapErr {E : σ → Prop} {g : err → err} [∀ a, Stable D me (Q a)]
    [Stable D me E] (hx : Triple D duty me P x (ends Q (fun _ => E))) :
    Triple D duty me P (Proc.mapErr g x) (ends Q (fun _ => E)) := by
  refine .bind hx fun r => ?_
  cases r with
  | ok a => exact .ret fun _ _ hs => hs
  | error e => exact .ret fun _ _ hs => hs

theorem Triple.bracket {B : σ → Prop} {R Q : Except err α → σ → Prop} {b a : ε}
    (hb : Triple D duty me P (Prog.run b) (fun _ => B)) (hx : Triple D duty me B x R)
    (ha : ∀ r, Triple D duty me (R r) (Prog.run a) (fun _ => Q r)) [∀ r, Stable D me (Q r)] :
    Triple D duty me P (Proc.bracket b a x) Q :=
  .bind hb fun _ => .bind hx fun r => .bind (ha r) fun _ =>
    .ret fun _ _ hs => hs

theorem Triple.forEach {f : α → Proc σ ι ε err Unit} [Stable D me P]
    [∀ e, Stable D me (E e)] (h : ∀ a ∈ as, Triple D duty me P (f a) (ends (fun _ => P) E)) :
    Triple D duty me P (Proc.forEach f as) (ends (fun _ => P) E) := by
  induction as with
  | nil => exact .ret fun _ _ hs => hs
  | cons a as ih =>
    refine .procBind (h a (by simp)) fun _ => ih fun b hb => h b (by simp [hb])

theorem Triple.forEachRest {P : List α → σ → Prop} {f : α → Proc σ ι ε err Unit}
    [Stable D me (P [])] [∀ e, Stable D me (E e)]
    (h : ∀ a as, Triple D duty me (P (a :: as)) (f a) (ends (fun _ => P as) E)) :
    Triple D duty me (P as) (Proc.forEach f as) (ends (fun _ => P []) E) := by
  induction as with
  | nil => exact .ret fun _ _ hs => hs
  | cons a as ih => exact .procBind (h a as) fun _ => ih

theorem Triple.fold {γ : Type} {J : γ → List α → σ → Prop} {f : γ → α → Proc σ ι ε err γ} {c : γ}
    [∀ c, Stable D me (J c [])] [∀ e, Stable D me (E e)]
    (h : ∀ c a as, Triple D duty me (J c (a :: as)) (f c a) (ends (fun c' => J c' as) E)) :
    Triple D duty me (J c as) (Proc.fold f c as) (ends (fun c' => J c' []) E) := by
  induction as generalizing c with
  | nil => exact .ret fun _ _ hs => hs
  | cons a as ih => exact .procBind (h c a as) fun _ => ih

theorem Triple.whileOk {P B : Nat → σ → Prop} {Q : σ → Prop} {check body : Proc σ ι ε err Unit}
    {n : Nat} [Stable D me Q] [∀ n, Stable D me (B n)] [∀ e, Stable D me (E e)]
    (hcheck : ∀ n, Triple D duty me (P n) check (ends (fun _ => B n) (fun _ => Q)))
    (hbody : ∀ n, Triple D duty me (B (n + 1)) body (ends (fun _ => P n) E))
    (hzero : ∀ s, D.inv s → B 0 s → Q s) :
    Triple D duty me (P n) (Proc.whileOk check body n) (ends (fun _ => Q) E) := by
  induction n with
  | zero =>
    refine .attemptBind (hcheck 0) fun r => ?_
    cases r with
    | ok _ => exact .ret hzero
    | error _ => exact .ret fun _ _ hs => hs
  | succ n ih =>
    refine .attemptBind (hcheck (n + 1)) fun r => ?_
    cases r with
    | ok _ => exact .procBind (hbody n) fun _ => ih
    | error _ => exact .ret fun _ _ hs => hs

/-! ### Programs of which only the duty matters -/

/-- `p` does its duty, whatever holds. -/
abbrev Dutiful (D : Discipline M) (duty : Pid → ε → σ → Prop) (me : Pid)
    (p : Prog σ ι ε α) : Prop :=
  Triple D duty me (fun _ => True) p (fun _ _ => True)

theorem Dutiful.ret {a : α} : Dutiful D duty me (.ret a : Prog σ ι ε α) :=
  Triple.ret fun _ _ h => h

theorem Dutiful.seq (hx : Dutiful D duty me x) (hf : ∀ a, Dutiful D duty me (f a)) :
    Dutiful D duty me (x >>= f : Proc σ ι ε err β) :=
  Triple.seq hx (fun _ _ _ h => h) hf

theorem Dutiful.attempt (hx : Dutiful D duty me x) : Dutiful D duty me x.attempt :=
  hx.bind fun _ => ret

theorem Dutiful.forEach {f : α → Proc σ ι ε err Unit} (h : ∀ a ∈ as, Dutiful D duty me (f a)) :
    Dutiful D duty me (Proc.forEach f as) := by
  induction as with
  | nil => exact ret
  | cons a as ih => exact seq (h a (by simp)) fun _ => ih fun b hb => h b (by simp [hb])

end Rules

/-! ## Pools of safe programs -/

section Pools

variable {D : Discipline M} {Q : Pid → Unit → σ → Prop}

/-- The invariant holds and every program of the pool keeps to its permissions. -/
structure Pool.Safe (D : Discipline M) (Q : Pid → Unit → σ → Prop) (P : Pool σ ι ε) :
    Prop where
  inv : D.inv P.mem
  safe : ∀ p, Concurrency.Safe D D.may p (Q p) (P.procs p) P.mem

variable {P : Pool σ ι ε}

theorem Pool.Safe.step {P' : Pool σ ι ε} (hP : P.Safe D Q) (h : Pool.Step M D.ok P P') :
    (∃ p e i, M.enabled e p P.mem = true ∧ D.may p e P.mem ∧ D.ok p e P.mem i ∧
      P'.mem = M.apply e p P.mem i) ∧ P'.Safe D Q := by
  obtain ⟨p, i, hact, hen, hok⟩ := h
  rename_i e nx
  have hsafe := hP.safe p
  rw [hact] at hsafe
  obtain ⟨hmay, hn⟩ := hsafe P.mem .refl hP.inv i hen hok
  refine ⟨⟨p, e, i, hen, hmay, hok, rfl⟩, D.keeps hP.inv hen hmay hok, fun q => ?_⟩
  by_cases hq : q = p
  · subst hq
    simpa using hn
  · simp only [Function.update_of_ne hq]
    exact (hP.safe q).other (.mk p e i (Ne.symm hq) hP.inv hen hmay hok)

theorem Pool.run_safe {P' : Pool σ ι ε} (hP : P.Safe D Q) (h : Pool.Run M D.ok P P') :
    P'.Safe D Q := by
  induction h with
  | refl => exact hP
  | tail _ hs ih => exact (ih.step hs).2

theorem Pool.Safe.may (hP : P.Safe D Q) {p : Pid} {e : ε} {nx : Pid → σ → ι → Prog σ ι ε Unit}
    {i : ι} (hact : P.procs p = .act e nx) (hen : M.enabled e p P.mem = true)
    (hok : D.ok p e P.mem i) : D.may p e P.mem := by
  have hs := hP.safe p
  rw [hact] at hs
  exact (hs P.mem .refl hP.inv i hen hok).1

theorem Pool.Safe.post (hP : P.Safe D Q) {p : Pid} {a : Unit} (h : P.procs p = .ret a) :
    Q p a P.mem := by
  have hs := hP.safe p
  rw [h] at hs
  exact hs P.mem .refl hP.inv

end Pools

/-! ## Programs that run alone -/

/-- Only `me` moves, and nothing has to be kept. -/
def Discipline.alone (M : Machine σ ι ε) (ok : Pid → ε → σ → ι → Prop) (me : Pid) :
    Discipline M where
  inv _ := True
  may p _ _ := p = me
  ok := ok
  keeps _ _ _ _ := trivial

instance stable_alone {ok : Pid → ε → σ → ι → Prop} : Stable (Discipline.alone M ok me) me P :=
  .of_step fun _ hne _ _ hmay _ => absurd hmay hne

theorem Prog.Runs.post {ok : Pid → ε → σ → ι → Prop} {duty : Pid → ε → σ → Prop} {Q : α → σ → Prop}
    {p : Prog σ ι ε α} {s' : σ} {a : α} (hrun : Prog.Runs M ok me p s a s')
    (h : Triple (Discipline.alone M ok me) duty me P p Q) (hs : P s) : Q a s' := by
  have hsafe := h s hs
  clear h hs
  induction hrun with
  | ret a s => exact hsafe s .refl trivial
  | act i hen hok _ ih => exact ih (hsafe _ .refl trivial i hen hok).2

/-- What a safe program that runs alone has done: it ends in `Q`, and a preorder that contains
its steps relates the first and the last state. -/
theorem Safe.runs {T : σ → σ → Prop} (hrefl : ∀ s, T s s) (htrans : ∀ s t u, T s t → T t u → T s u)
    (hT : ∀ e s i, D.inv s → D.may me e s → D.ok me e s i → T s (M.apply e me s i))
    {Q : α → σ → Prop} {p : Prog σ ι ε α} {s' : σ} {a : α} (h : Safe D D.may me Q p s)
    (hs : D.inv s) (hrun : Prog.Runs M D.ok me p s a s') : Q a s' ∧ D.inv s' ∧ T s s' := by
  induction hrun with
  | ret a s => exact ⟨h s .refl hs, hs, hrefl s⟩
  | act i hen hok _ ih =>
    obtain ⟨hmay, hn⟩ := h _ .refl hs i hen hok
    obtain ⟨hq, hinv, ht⟩ := ih hn (D.keeps hs hen hmay hok)
    exact ⟨hq, hinv, htrans _ _ _ (hT _ _ i hs hmay hok) ht⟩

end RunmanAgent.Concurrency
