import RunmanAgent.Concurrency.Along

/-!
# Programs inside a larger state

`Prog.embed get f` runs a program of a component in a larger system: `get` finds the component in
the state, and `f` is what its actions are called there. `Prog.feed g` is the program in a system
with more inputs, of which `g` takes those that it knows.
-/

namespace RunmanAgent.Concurrency

variable {σ τ ι κ ε δ α : Type} {get : τ → σ} {f : ε → δ}

def Prog.embed (get : τ → σ) (f : ε → δ) : Prog σ ι ε α → Prog τ ι δ α
  | .ret a => .ret a
  | .act e nx => .act (f e) fun me s i => (nx me (get s) i).embed get f

theorem Prog.Uses.embed {φ : δ → Prop} (h : ∀ e, φ (f e)) (p : Prog σ ι ε α) :
    (p.embed get f).Uses φ := by
  induction p with
  | ret a => trivial
  | act e nx ih => exact ⟨h e, fun me s i => ih me (get s) i⟩

theorem Prog.Uses.embed_of {φ : δ → Prop} {p : Prog σ ι ε α} (h : p.Uses fun e => φ (f e)) :
    (p.embed get f).Uses φ := by
  induction p with
  | ret a => trivial
  | act e nx ih => exact ⟨h.1, fun me s i => ih me (get s) i (h.2 me (get s) i)⟩

def Prog.feed (g : κ → ι) : Prog σ ι ε α → Prog σ κ ε α
  | .ret a => .ret a
  | .act e nx => .act e fun me s i => (nx me s (g i)).feed g

theorem Prog.Uses.feed {g : κ → ι} {φ : ε → Prop} {p : Prog σ ι ε α} (h : p.Uses φ) :
    (p.feed g).Uses φ := by
  induction p with
  | ret a => trivial
  | act e nx ih => exact ⟨h.1, fun me s i => ih me s (g i) (h.2 me s (g i))⟩

theorem Hoare.embed (get : τ → σ) (f : ε → δ) {M : Machine σ ι ε} {N : Machine τ ι δ}
    {ok : Pid → ε → σ → ι → Prop}
    {k : Pid → δ → τ → ι → Prop} {me : Pid} {I P : σ → Prop} {Q : α → σ → Prop}
    {p : Prog σ ι ε α}
    (happly : ∀ e s i, get (N.apply (f e) me s i) = M.apply e me (get s) i)
    (henabled : ∀ e s, N.enabled (f e) me s = true → M.enabled e me (get s) = true)
    (hok : ∀ e s i, k me (f e) s i → ok me e (get s) i) (h : Hoare M ok me I P p Q) :
    Hoare N k me (fun s => I (get s)) (fun s => P (get s)) (p.embed get f)
      (fun a s => Q a (get s)) := by
  intro s hs
  have hsafe := h (get s) hs
  clear hs h
  induction p generalizing s with
  | ret a =>
    intro t ht hI
    cases stable_keeping.star (P := (· = s)) rfl ht
    exact hsafe (get s) .refl hI
  | act e nx ih =>
    intro t ht hI i hen hi
    cases stable_keeping.star (P := (· = s)) rfl ht
    obtain ⟨hmay, hrest⟩ := hsafe (get s) .refl hI i (henabled e s hen) (hok e s i hi)
    refine ⟨⟨rfl, fun j hj => ?_⟩, ih me (get s) i _ (happly e s i ▸ hrest)⟩
    show I (get (N.apply (f e) me s j))
    rw [happly e s j]
    exact hmay.2 j (hok e s j hj)

end RunmanAgent.Concurrency
