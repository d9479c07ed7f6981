import RunmanAgent.Concurrency.Discipline

/-!
# Servers: one call after the other, with crashes

A `Server` holds its state behind one lock: it works on one call at a time. Others may
change the shared state before each of its actions, and it may crash between any two of
them. A crash loses what is only in memory: `restart` says what the process starts again
with, or that it does not start again.

`Server.Run` is every history of such a server whose calls and steps satisfy given
conditions. `Server.Sound` collects what a discipline has to know about the calls, the
others and the restart; then every state of every history satisfies the invariant, and
every action is taken with permission (`Sound.run_safe`, `Conf.Safe.next`,
`Sound.run_rel`).
-/

namespace RunmanAgent.Concurrency

variable {σ ι ε κ : Type} {M : Machine σ ι ε}

/-- Code of the calls `κ`, the restart after a crash, and the actions of others. -/
structure Server (M : Machine σ ι ε) (κ : Type) where
  code : κ → Prog σ ι ε Unit
  restart : σ → Option σ := fun _ => none
  others : ε → Prop := fun _ => False

namespace Server

/-- The server itself, as a program index. -/
def self : Pid := 0

/-- The state, and what is left of the call the server works on. -/
structure Conf (σ ι ε : Type) where
  mem : σ
  run : Option (Prog σ ι ε Unit) := none

/-- The next action of the server. -/
def Conf.Next (c : Conf σ ι ε) (e : ε) : Prop := ∃ nx, c.run = some (.act e nx)

def Conf.next (c : Conf σ ι ε) : Option ε :=
  match c.run with
  | some (.act e _) => some e
  | _ => none

variable {e : ε} {s : σ} {D : Discipline M} {Idle : σ → Prop} {c : Conf σ ι ε}

theorem Conf.next_iff : c.next = some e ↔ c.Next e := by
  obtain ⟨s, r⟩ := c
  match r with
  | none => simp [Conf.next, Conf.Next]
  | some (.ret _) => simp [Conf.next, Conf.Next]
  | some (.act e' nx) => simp [Conf.next, Conf.Next]

instance [DecidableEq ε] : Decidable (c.Next e) := decidable_of_iff _ Conf.next_iff

/-- One step; `calls` says which calls are made in which states, `ok` which steps are
considered. -/
inductive Step (S : Server M κ) (calls : κ → σ → Prop) (ok : Pid → ε → σ → ι → Prop) :
    Conf σ ι ε → Conf σ ι ε → Prop where
  | call {s : σ} (k : κ) (hk : calls k s) : Step S calls ok ⟨s, none⟩ ⟨s, some (S.code k)⟩
  | act {s : σ} {e : ε} {nx : Pid → σ → ι → Prog σ ι ε Unit} (i : ι)
      (hen : M.enabled e self s = true) (hok : ok self e s i) :
      Step S calls ok ⟨s, some (.act e nx)⟩ ⟨M.apply e self s i, some (nx self s i)⟩
  | done {s : σ} (a : Unit) : Step S calls ok ⟨s, some (.ret a)⟩ ⟨s, none⟩
  | crash {s s' : σ} {r : Option (Prog σ ι ε Unit)} (h : S.restart s = some s') :
      Step S calls ok ⟨s, r⟩ ⟨s', none⟩
  | other {s : σ} {r : Option (Prog σ ι ε Unit)} (p : Pid) (e : ε) (i : ι) (hp : p ≠ self)
      (he : S.others e) (hen : M.enabled e p s = true) (hok : ok p e s i) :
      Step S calls ok ⟨s, r⟩ ⟨M.apply e p s i, r⟩

/-- Every history. -/
def Run (S : Server M κ) (calls : κ → σ → Prop) (ok : Pid → ε → σ → ι → Prop) :
    Conf σ ι ε → Conf σ ι ε → Prop :=
  Relation.ReflTransGen (Step S calls ok)

theorem Run.mono {S : Server M κ} {calls calls' : κ → σ → Prop} {ok ok' : Pid → ε → σ → ι → Prop}
    {c' : Conf σ ι ε} (hcalls : ∀ k s, calls k s → calls' k s)
    (hok : ∀ p e s i, ok p e s i → ok' p e s i) (h : Run S calls ok c c') :
    Run S calls' ok' c c' := by
  refine Relation.ReflTransGen.mono (fun c c' hs => ?_) _ _ h
  cases hs with
  | call k hk => exact .call k (hcalls k _ hk)
  | act i hen ho => exact .act i hen (hok _ _ _ _ ho)
  | done a => exact .done a
  | crash h => exact .crash h
  | other p e i hp he hen ho => exact .other p e i hp he hen (hok _ _ _ _ ho)

/-- The invariant holds, and the rest of the call keeps to the permissions; between calls
`Idle` holds. -/
structure Conf.Safe (D : Discipline M) (Idle : σ → Prop) (c : Conf σ ι ε) : Prop where
  inv : D.inv c.mem
  idle : c.run = none → Idle c.mem
  run : ∀ p, c.run = some p → Concurrency.Safe D D.may self (fun _ => Idle) p c.mem

theorem Conf.Safe.start (hs : D.inv s) (hidle : Idle s) : Conf.Safe D Idle ⟨s, none⟩ :=
  ⟨hs, fun _ => hidle, nofun⟩

/-- Hoare triples of a server. -/
abbrev Serves {α : Type} (D : Discipline M) (P : σ → Prop) (p : Prog σ ι ε α) (Q : α → σ → Prop) :
    Prop :=
  Triple D D.may self P p Q

/-- What has to be shown about a server, for a discipline. -/
structure Sound (S : Server M κ) (calls : κ → σ → Prop) (D : Discipline M)
    (Idle : σ → Prop) : Prop where
  code : ∀ k, Serves D (fun s => Idle s ∧ calls k s) (S.code k) (fun _ => Idle)
  restart : ∀ s s', D.inv s → S.restart s = some s' → D.inv s' ∧ Idle s'
  others : ∀ p e s, p ≠ self → S.others e → D.inv s → D.may p e s

/-- The discipline of a server: it does its `duty`, and the others do what they may. -/
def discipline (S : Server M κ) (inv : σ → Prop) (duty : ε → σ → Prop)
    (ok : Pid → ε → σ → ι → Prop)
    (keeps : ∀ {e s i}, inv s → duty e s → ok self e s i → inv (M.apply e self s i))
    (others : ∀ {p e s i}, S.others e → inv s → ok p e s i → inv (M.apply e p s i)) :
    Discipline M where
  inv := inv
  may p e s := (p = self → duty e s) ∧ (p ≠ self → S.others e)
  ok := ok
  keeps {p e s i} hs _ hmay hok := by
    by_cases hp : p = self
    · subst hp
      exact keeps hs (hmay.1 rfl) hok
    · exact others (hmay.2 hp) hs hok

theorem stable_of_others {S : Server M κ} {inv : σ → Prop} {duty : ε → σ → Prop}
    {ok : Pid → ε → σ → ι → Prop} {keeps others} {P : σ → Prop}
    (h : ∀ {p e s i}, S.others e → ok p e s i → inv s → P s → P (M.apply e p s i)) :
    Stable (S.discipline inv duty ok keeps others) self P :=
  .of_step fun hs hne hinv _ hmay hok => h (hmay.2 hne) hok hinv hs

theorem may_self {S : Server M κ} {inv : σ → Prop} {duty : ε → σ → Prop}
    {ok : Pid → ε → σ → ι → Prop} {keeps others} :
    (S.discipline inv duty ok keeps others).may self e s ↔ duty e s :=
  ⟨fun h => h.1 rfl, fun h => ⟨fun _ => h, fun hne => absurd rfl hne⟩⟩

theorem Conf.Safe.next {i : ι} (h : c.Safe D Idle) (he : c.Next e)
    (hen : M.enabled e self c.mem = true) (hok : D.ok self e c.mem i) : D.may self e c.mem := by
  obtain ⟨nx, hrun⟩ := he
  exact (h.run _ hrun c.mem .refl h.inv i hen hok).1

section

variable {S : Server M κ} {calls : κ → σ → Prop} {D : Discipline M} {Idle : σ → Prop}
  [hI : Stable D self Idle] {c c' : Conf σ ι ε}

/-- What a step does to the state: nothing, a permitted action, or a restart. -/
inductive Change (S : Server M κ) (D : Discipline M) (s : σ) : σ → Prop where
  | refl : Change S D s s
  | act (p : Pid) (e : ε) (i : ι) (hen : M.enabled e p s = true) (hmay : D.may p e s)
      (hok : D.ok p e s i) : Change S D s (M.apply e p s i)
  | restart {s' : σ} (h : S.restart s = some s') : Change S D s s'

theorem Sound.step (hS : Sound S calls D Idle) (hc : c.Safe D Idle)
    (h : Step S calls D.ok c c') : c'.Safe D Idle ∧ Change S D c.mem c'.mem := by
  cases h with
  | call k hk =>
    have hidle := hc.idle rfl
    refine ⟨⟨hc.inv, nofun, ?_⟩, .refl⟩
    rintro _ ⟨⟩
    exact hS.code k _ ⟨hidle, hk⟩
  | act i hen hok =>
    obtain ⟨hmay, hn⟩ := hc.run _ rfl _ .refl hc.inv i hen hok
    refine ⟨⟨D.keeps hc.inv hen hmay hok, nofun, ?_⟩, .act _ _ i hen hmay hok⟩
    rintro _ ⟨⟩
    exact hn
  | done a =>
    refine ⟨⟨hc.inv, fun _ => hc.run _ rfl _ .refl hc.inv, ?_⟩, .refl⟩
    rintro _ ⟨⟩
  | crash h =>
    obtain ⟨hinv, hidle⟩ := hS.restart _ _ hc.inv h
    refine ⟨⟨hinv, fun _ => hidle, ?_⟩, .restart h⟩
    rintro _ ⟨⟩
  | other p e i hp he hen hok =>
    have hmay := hS.others p e _ hp he hc.inv
    have hother := Discipline.Other.mk p e i hp hc.inv hen hmay hok
    refine ⟨⟨D.keeps hc.inv hen hmay hok, fun h => hI.keep _ _ (hc.idle h) hother, ?_⟩,
      .act p e i hen hmay hok⟩
    exact fun q hq => (hc.run q hq).other hother

theorem Sound.run_safe (hS : Sound S calls D Idle) (hc : c.Safe D Idle)
    (h : Run S calls D.ok c c') : c'.Safe D Idle := by
  induction h with
  | refl => exact hc
  | tail _ hs ih => exact (hS.step ih hs).1

theorem Sound.run_rel (hS : Sound S calls D Idle) {T : σ → σ → Prop} (hrefl : ∀ s, T s s)
    (htrans : ∀ s t u, T s t → T t u → T s u)
    (hT : ∀ s s', D.inv s → Change S D s s' → T s s') (hc : c.Safe D Idle)
    (h : Run S calls D.ok c c') : T c.mem c'.mem := by
  induction h with
  | refl => exact hrefl _
  | tail hr hs ih =>
    have hsafe := hS.run_safe hc hr
    exact htrans _ _ _ ih (hT _ _ hsafe.inv (hS.step hsafe hs).2)

end

/-! ## One program -/

/-- Nothing but the program it has been started with. -/
def solo (M : Machine σ ι ε) : Server M Empty where
  code := Empty.elim

instance : DecidablePred (solo M).others := fun _ => .isFalse id

theorem solo_safe {p : Prog σ ι ε Unit} (hs : D.inv s)
    (hp : Concurrency.Safe D D.may self (fun _ => Idle) p s) [Stable D self Idle]
    (h : Run (solo M) (fun _ _ => False) D.ok ⟨s, some p⟩ c) : c.Safe D Idle := by
  have hsound : Sound (solo M) (fun _ _ => False) D Idle :=
    ⟨fun k => k.elim, nofun, fun _ _ _ _ h => False.elim h⟩
  refine hsound.run_safe ⟨hs, fun h => (by cases h), ?_⟩ h
  rintro _ ⟨⟩
  exact hp

/-! ## Computing histories -/

section Exec

/-- What happens next in a history that is computed. -/
inductive Move (ι ε κ : Type) where
  | call (k : κ)
  | act (i : ι)
  | done
  | crash
  | other (p : Pid) (e : ε) (i : ι)

variable (S : Server M κ) (calls : κ → σ → Prop) (ok : Pid → ε → σ → ι → Prop)
  [∀ k s, Decidable (calls k s)] [∀ p e s i, Decidable (ok p e s i)] [DecidablePred S.others]

/-- One step, refused if it is blocked or not considered. -/
def move : Move ι ε κ → Conf σ ι ε → Option (Conf σ ι ε)
  | .call k, ⟨s, none⟩ => if calls k s then some ⟨s, some (S.code k)⟩ else none
  | .act i, ⟨s, some (.act e nx)⟩ =>
    if M.enabled e self s = true ∧ ok self e s i then
      some ⟨M.apply e self s i, some (nx self s i)⟩
    else none
  | .done, ⟨s, some (.ret _)⟩ => some ⟨s, none⟩
  | .crash, ⟨s, _⟩ => (S.restart s).map fun s' => ⟨s', none⟩
  | .other p e i, ⟨s, r⟩ =>
    if p ≠ self ∧ S.others e ∧ M.enabled e p s = true ∧ ok p e s i then
      some ⟨M.apply e p s i, r⟩
    else none
  | _, _ => none

def exec : List (Move ι ε κ) → Conf σ ι ε → Option (Conf σ ι ε)
  | [], c => some c
  | m :: ms, c =>
    match move S calls ok m c with
    | some c' => exec ms c'
    | none => none

variable {S calls ok}

variable {c : Conf σ ι ε}

theorem step_of_move {m : Move ι ε κ} {c' : Conf σ ι ε} (h : move S calls ok m c = some c') :
    Step S calls ok c c' := by
  unfold move at h
  split at h
  · split at h
    · cases h
      exact .call _ ‹_›
    · cases h
  · split at h
    · rename_i hc
      cases h
      exact .act _ hc.1 hc.2
    · cases h
  · cases h
    exact .done _
  · obtain ⟨s', hs', rfl⟩ := Option.map_eq_some_iff.mp h
    exact .crash hs'
  · split at h
    · rename_i hc
      cases h
      exact .other _ _ _ hc.1 hc.2.1 hc.2.2.1 hc.2.2.2
    · cases h
  · cases h

theorem run_of_exec {ms : List (Move ι ε κ)} {c' : Conf σ ι ε}
    (h : exec S calls ok ms c = some c') :
    Run S calls ok c c' := by
  induction ms generalizing c with
  | nil =>
    cases h
    exact .refl
  | cons m ms ih =>
    rw [exec] at h
    split at h
    · exact .head (step_of_move ‹_›) (ih h)
    · cases h

/-- A history that is computed: what is checked at its end is `p`. -/
theorem exists_run_imp {p q : Conf σ ι ε → Prop} [DecidablePred p] (ms : List (Move ι ε κ))
    (h : (exec S calls ok ms c).any (p ·) = true)
    (hq : ∀ c', Run S calls ok c c' → p c' → q c') : ∃ c', Run S calls ok c c' ∧ q c' := by
  obtain ⟨c', hc, hp⟩ := (Option.any_eq_true _ _).mp h
  have hrun := run_of_exec hc
  exact ⟨c', hrun, hq c' hrun (of_decide_eq_true hp)⟩

theorem exists_run {p : Conf σ ι ε → Prop} [DecidablePred p] (ms : List (Move ι ε κ))
    (h : (exec S calls ok ms c).any (p ·) = true) : ∃ c', Run S calls ok c c' ∧ p c' :=
  exists_run_imp ms h fun _ _ hp => hp

end Exec

end Server

end RunmanAgent.Concurrency
