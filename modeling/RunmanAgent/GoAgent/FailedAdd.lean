import RunmanAgent.Concurrency.Total
import RunmanAgent.GoAgent.Forwards

/-!
# What a failed `AddMapping` leaves behind

A changed rule is first removed, with its row, and then added again. The address of the guest
and the listener come after that, so a failure there loses the old rule. Every other failure
leaves the mappings and the table as they were (`requestMapping_keeps_iff`).
-/

namespace RunmanAgent.GoAgent

open Concurrency Proc

/-- The same active mappings and the same table. -/
def Same (s₀ s : State) : Prop := s.mappings = s₀.mappings ∧ s.rows = s₀.rows

/-- The action changes neither the mappings nor the table. -/
def Neutral (e : Act) : Prop := ∀ p i s, Same s (s.apply p i e)

theorem Neutral.same {e : Act} (h : Neutral e) {p : Pid} {i : Input} {s₀ s : State}
    (hs : Same s₀ s) : Same s₀ (s.apply p i e) :=
  ⟨(h p i s).1.trans hs.1, (h p i s).2.trans hs.2⟩

theorem neutral_lock (why : Section) : Neutral (.lock why) := fun _ _ _ => ⟨rfl, rfl⟩

theorem neutral_unlock : Neutral .unlock := fun _ _ _ => ⟨rfl, rfl⟩

/-! ## Failures that change nothing -/

section Keeps

variable {me : Pid} {s₀ : State} {r : Rule} {checkLimit existing : Bool} {α β : Type}

/-- The program runs alone, whatever fails. -/
abbrev Finishes (me : Pid) (P : State → Prop) (x : Prog State Input Act α)
    (Q : α → State → Prop) : Prop :=
  Total machine anyStep me False P x Q

theorem total_neutral {x : Prog State Input Act α} (h : x.Uses Neutral) :
    Finishes me (Same s₀) x (fun _ => Same s₀) :=
  .of_uses (h.mono fun _ he _ hs => ⟨False.elim, fun _ _ => he.same hs⟩)

theorem total_neutral_bind {x : MProc α} {f : α → MProc β} {Q : Except Err β → State → Prop}
    (hx : Prog.Uses Neutral x) (hE : ∀ e s, Same s₀ s → Q (.error e) s)
    (hf : ∀ a, Finishes me (Same s₀) (f a) Q) :
    Finishes me (Same s₀) (x >>= f : MProc β) Q := by
  refine .chain (R := fun _ => Same s₀) (E := fun _ => Same s₀) ?_ hE hf
  refine (total_neutral hx).post fun a s h => ?_
  cases a <;> exact h

/-- If the code fails, the mappings and the table are as they were. -/
def FailsSame (s₀ : State) : Except Err Unit → State → Prop :=
  ends (fun _ _ => True) (fun _ => Same s₀)

theorem total_establish :
    Finishes me (Same s₀) (establish r) (FailsSame s₀) := by
  refine total_neutral_bind (.perform fun _ _ _ => ⟨rfl, rfl⟩) (fun _ _ h => h) fun ip => ?_
  split
  · exact .ret fun _ hs => hs
  · refine total_neutral_bind (.perform fun _ _ _ => ⟨rfl, rfl⟩) (fun _ _ h => h) fun _ => ?_
    -- the entry and the row are written without a way to fail
    refine .step (R := fun _ _ => True) ?_ fun _ => ?_
    · exact .perform (fun _ _ => False.elim) fun _ _ _ _ => trivial
    · exact .perform (fun _ _ => False.elim) fun _ _ _ _ => trivial

theorem total_limited :
    Finishes me (Same s₀) (limited r checkLimit existing) (FailsSame s₀) :=
  total_neutral_bind (uses_checkedLimit (fun _ _ _ => ⟨rfl, rfl⟩) (fun _ _ _ => ⟨rfl, rfl⟩) _ _)
    (fun _ _ h => h) fun _ => total_establish

theorem total_admitted :
    Finishes me (Same s₀) (admitted r checkLimit existing) (FailsSame s₀) := by
  unfold admitted
  split
  · refine total_neutral_bind (uses_hasPersistedMapping (fun _ _ _ => ⟨rfl, rfl⟩) _)
      (fun _ _ h => h)
      fun persisted => ?_
    split
    · exact total_limited
    · refine .ret fun s hs => ?_
      cases validateHostPort r.hostPort false with
      | ok _ => trivial
      | error _ => exact hs
  · exact total_limited

/-- The rule passes the checks of the ports, and an active mapping has another guest port or
description for its key. -/
def Replaces (r : Rule) (s : State) : Prop :=
  validateHostPort r.hostPort true = .ok () ∧ validateGuestPort r.guestPort = .ok () ∧
    ∃ e, s.mappings.lookup (r.vmId, r.toPortKey) = some e ∧ ¬e.Is r.toRow

theorem total_addLocked
    (h : ∀ e, s₀.mappings.lookup (r.vmId, r.toPortKey) = some e → e.Is r.toRow) :
    Finishes me (Same s₀) (addLocked r checkLimit) (FailsSame s₀) := by
  refine .step
    (R := fun e s => Same s₀ s ∧ s₀.mappings.lookup (r.vmId, r.toPortKey) = e) ?_ fun e => ?_
  · refine .perform (fun _ _ => False.elim) fun s i hs _ => ?_
    exact ⟨hs, congrArg (AList.lookup _) hs.1.symm⟩
  · refine .given fun he => ?_
    cases e with
    | none => exact total_admitted
    | some e =>
      dsimp only
      rw [if_pos (h e he)]
      exact .ret fun _ _ => trivial

theorem total_addMapping (h : ¬Replaces r s₀) :
    Finishes me (Same s₀) (addMapping r checkLimit) (FailsSame s₀) := by
  obtain ⟨e, heq⟩ | ⟨hhost, hguest, heq⟩ := addMapping_cases r checkLimit
  · rw [heq]
    exact .ret fun _ hs => hs
  · have hsame : ∀ e, s₀.mappings.lookup (r.vmId, r.toPortKey) = some e → e.Is r.toRow :=
      fun e he => by_contra fun hne => h ⟨hhost, hguest, e, he, hne⟩
    rw [heq]
    refine .bind (total_neutral (.perform (neutral_lock _))) fun _ => ?_
    refine .bind (total_addLocked hsame) fun a => ?_
    refine .bind (R := fun _ => FailsSame s₀ a) ?_ fun _ => .ret fun _ hs => hs
    cases a with
    | ok _ => exact .perform (fun _ _ => False.elim) fun _ _ _ _ => trivial
    | error _ => exact total_neutral (.perform neutral_unlock)

end Keeps

/-! ## The failure that loses the rule -/

/-- The address of the guest cannot be found. -/
def noAddress : List Input := [{}, {}, {}, {}, {}, { fail := some "no such VM" }, {}]

theorem replaced_lost {r : Rule} {s : State} (me : Pid) (hfree : s.holder = none)
    (h : Replaces r s) :
    ∃ e s', Prog.Runs machine anyStep me (requestMapping r) s (.error e) s' ∧
      s'.mappings.lookup (r.vmId, r.toPortKey) = none := by
  obtain ⟨hhost, hguest, e, he, hne⟩ := h
  refine ⟨.other "no such VM", { s with
    mappings := s.mappings.erase (r.vmId, r.toPortKey)
    rows := s.rows.erase r.toPortKey }, Prog.runs_of_alone noAddress ?_, AList.lookup_erase ..⟩
  simp only [requestMapping, addMapping, hhost, hguest]
  simp [noAddress, bind, Proc.bind, Prog.bind, lift, bracket, Prog.run, Prog.perform,
    Proc.read, Proc.run, Proc.perform, pure, State.enabled, State.readable, State.apply, hfree,
    addLocked, find, he, hne, removeEntryLocked, admitted, limited, checkedLimit,
    establish, fallible]

/-- A call of `AddMapping` that returns an error leaves the mappings and the table as they were. -/
def FailureKeeps (me : Pid) (r : Rule) (s : State) : Prop :=
  ∀ e s', Prog.Runs machine anyStep me (requestMapping r) s (.error e) s' →
    s'.mappings = s.mappings ∧ s'.rows = s.rows

/-- A failed `AddMapping` leaves everything as it was, whatever has failed, exactly if the rule does
not replace an active mapping. -/
theorem requestMapping_keeps_iff (me : Pid) (r : Rule) (s : State) (hfree : s.holder = none) :
    FailureKeeps me r s ↔ ¬Replaces r s := by
  constructor
  · intro hkeeps hrep
    obtain ⟨e, s', hrun, hlost⟩ := replaced_lost me hfree hrep
    obtain ⟨-, -, e', he', -⟩ := hrep
    rw [(hkeeps e s' hrun).1, he'] at hlost
    cases hlost
  · intro h e s' hrun
    exact ((total_addMapping h).runs ⟨rfl, rfl⟩).2 _ _ hrun

/-- TCP port 30000 forwarded to port 80. -/
def web (vmId description : String) : Rule where
  protocol := "tcp"
  hostPort := 30000
  vmId := vmId
  guestPort := 80
  description := description

/-- The rule is active for the VM `a`. -/
def webActive : State where
  mappings := .singleton ("a", (web "a" "web").toPortKey) ⟨80, "10.0.0.2:80", "web"⟩
  rows := .singleton (web "a" "web").toPortKey (web "a" "web").toRow

/-- A request of another VM for the same port. -/
theorem requestMapping_keeps_taken :
    FailureKeeps 0 (web "b" "web") webActive ∧ ¬Replaces (web "b" "web") webActive := by
  have hfree : ¬Replaces (web "b" "web") webActive := by
    rintro ⟨-, -, e, he, -⟩
    cases he
  exact ⟨(requestMapping_keeps_iff 0 _ webActive rfl).mpr hfree, hfree⟩

/-- The description of a rule is changed while the address of its VM cannot be found: the rule
is no longer active, and it is not in the table any more. -/
theorem changed_rule_lost :
    ∃ e s', Prog.Runs machine anyStep 0 (requestMapping (web "a" "shop")) webActive (.error e) s' ∧
      s'.mappings.lookup ("a", (web "a" "shop").toPortKey) = none ∧
      s'.rows.lookup (web "a" "shop").toPortKey = none :=
  ⟨.other "no such VM", {}, Prog.runs_of_alone noAddress rfl, rfl, rfl⟩

end RunmanAgent.GoAgent
