import RunmanAgent.Concurrency.Server

/-!
# Servers that nobody disturbs

`Hoare M ok me I P p Q` says that `p`, run alone from a state of `I` and `P`, passes only through
states of `I` and ends in `Q`: it is the triple over the discipline in which only `me` moves, with
steps that keep `I`. For a server whose state nobody else changes this is all there is to show
about a call (`Server.run_alone`).
-/

namespace RunmanAgent.Concurrency

variable {σ ι ε α κ : Type} {M : Machine σ ι ε} {ok : Pid → ε → σ → ι → Prop} {me : Pid}
  {I P : σ → Prop} {Q : α → σ → Prop} {p : Prog σ ι ε α}

/-- Only `me` moves, and its steps keep `I`. -/
def Discipline.keeping (M : Machine σ ι ε) (ok : Pid → ε → σ → ι → Prop) (me : Pid)
    (I : σ → Prop) : Discipline M where
  inv := I
  may p e s := p = me ∧ ∀ i, ok p e s i → I (M.apply e p s i)
  ok := ok
  keeps _ _ hmay hok := hmay.2 _ hok

instance stable_keeping : Stable (Discipline.keeping M ok me I) me P :=
  .of_step fun _ hne _ _ hmay _ => absurd hmay.1 hne

/-- Hoare triple with an invariant of every step. -/
abbrev Hoare (M : Machine σ ι ε) (ok : Pid → ε → σ → ι → Prop) (me : Pid) (I : σ → Prop)
    (P : σ → Prop) (p : Prog σ ι ε α) (Q : α → σ → Prop) : Prop :=
  Triple (Discipline.keeping M ok me I) (Discipline.keeping M ok me I).may me P p Q

theorem Hoare.perform {e : ε} {f : Pid → σ → ι → α}
    (h : ∀ s i, I s → P s → ok me e s i → I (M.apply e me s i) ∧ Q (f me s i) (M.apply e me s i)) :
    Hoare M ok me I P (Prog.perform e f) Q :=
  Triple.perform fun s i hI hs _ hok =>
    ⟨⟨rfl, fun j hj => (h s j hI hs hj).1⟩, (h s i hI hs hok).2⟩

theorem Hoare.of_uses (h : p.Uses fun e => ∀ s i, I s → P s → ok me e s i →
    I (M.apply e me s i) ∧ P (M.apply e me s i)) : Hoare M ok me I P p (fun _ => P) :=
  Triple.of_uses (h.mono fun _ he s i hI hs _ hok =>
    ⟨⟨rfl, fun j hj => (he s j hI hs hj).1⟩, (he s i hI hs hok).2⟩)

theorem Hoare.pre {P' : σ → Prop} (h : Hoare M ok me I P' p Q) (hP : ∀ s, I s → P s → P' s) :
    Hoare M ok me I P p Q :=
  .withInv (Triple.pre h fun s hs => hP s hs.1 hs.2)

theorem Hoare.runs {s s' : σ} {a : α} (h : Hoare M ok me I P p Q) (hI : I s) (hs : P s)
    (hrun : Prog.Runs M ok me p s a s') : Q a s' :=
  (Safe.runs (T := fun _ _ => True) (fun _ => trivial) (fun _ _ _ _ _ => trivial)
    (fun _ _ _ _ _ _ => trivial) (h s hs) hI hrun).1

namespace Server

variable {S : Server M κ} {calls : κ → σ → Prop} {J : σ → Prop}

/-- `I` holds in every state of every history, crashes included, and `J` between calls. -/
theorem run_alone {err : Type} {f : κ → Proc σ ι ε err Unit}
    (hcode : ∀ k, S.code k = Prog.bind (f k) fun _ => .ret ()) (hothers : ∀ e, ¬S.others e)
    (hcalls : ∀ k, Hoare M ok self I (fun s => J s ∧ calls k s) (f k) (fun _ => J))
    (hrestart : ∀ s s', I s → S.restart s = some s' → I s' ∧ J s') {s : σ} {c : Conf σ ι ε}
    (hI : I s) (hJ : J s) (h : Run S calls ok ⟨s, none⟩ c) :
    c.Safe (Discipline.keeping M ok self I) J := by
  have hsound : Sound S calls (Discipline.keeping M ok self I) J :=
    { code := fun k => hcode k ▸ Triple.bind (hcalls k) fun _ => .ret fun _ _ hs => hs
      restart := hrestart
      others := fun _ e _ _ he => absurd he (hothers e) }
  exact hsound.run_safe (Conf.Safe.start hI hJ) h

end Server

end RunmanAgent.Concurrency
