import RunmanAgent.Runtime.Supervisor

/-!
# Stop requests (`run`, `sleep_unless_stopped`, `boot_once` of `src/runtime/supervisor.rs`)

The supervisor takes its signals from one descriptor, which it drains in two loops: the
wait loop of `boot_once` and the restart delay. `step` is one system call of the process,
so that signals arrive between any two of them; time is left to the events (a deadline or
a delay may be over at any check). A signal that is pending already stays pending once.

`Mark` records what the property is about: a stop signal became pending, one was read, a
boot began.
-/

namespace RunmanAgent.StopRequest

inductive Signal where
  | sigint
  | sigterm
  | sigchld
  deriving DecidableEq

def Signal.stops : Signal → Bool
  | .sigchld => false
  | _ => true

/-- The blocked signals that are pending. -/
structure Pending where
  sigint : Bool := false
  sigterm : Bool := false
  sigchld : Bool := false
  deriving DecidableEq

namespace Pending

def raise (p : Pending) : Signal → Pending
  | .sigint => { p with sigint := true }
  | .sigterm => { p with sigterm := true }
  | .sigchld => { p with sigchld := true }

/-- `sfd.read_signal()`: the pending signal with the lowest number (2, 15, 17). -/
def read (p : Pending) : Option (Signal × Pending) :=
  if p.sigint then some (.sigint, { p with sigint := false })
  else if p.sigterm then some (.sigterm, { p with sigterm := false })
  else if p.sigchld then some (.sigchld, { p with sigchld := false })
  else none

/-- A stop signal is pending. -/
def stop (p : Pending) : Bool := p.sigint || p.sigterm

theorem raise_stop (p : Pending) (g : Signal) : (p.raise g).stop = (p.stop || g.stops) := by
  cases g <;> simp [raise, stop, Signal.stops]

theorem stop_of_read_sigchld {p p' : Pending} (h : p.read = some (.sigchld, p')) :
    p.stop = false ∧ p'.stop = false := by
  unfold read at h
  split at h
  · cases h
  · split at h
    · cases h
    · split at h
      · cases h
        simp_all [stop]
      · cases h

end Pending

/-- What `waitpid` finds of the intermediate. -/
inductive Child where
  | running
  | exited (code : Int)
  | signaled (sig : Nat)
  deriving DecidableEq

inductive Place where
  /-- Signals are not blocked yet. -/
  | starting
  /-- Run directory, cgroups, disk. -/
  | setup
  /-- In `boot_once`, before its wait loop. -/
  | launching
  | polling
  /-- Draining the descriptor in the wait loop. -/
  | reading
  /-- SIGCHLD has been read. -/
  | waiting
  /-- The descriptor is drained; the deadline is looked at. -/
  | checking
  /-- `boot_once` has returned; what it left behind is cleaned up. -/
  | ended (result : Except Err Outcome)
  | cleaned (result : Except Err Outcome)
  /-- At the top of the loop of `sleep_unless_stopped`. -/
  | sleeping
  /-- Draining the descriptor in that loop. -/
  | draining
  | left

structure State where
  place : Place := .starting
  stopRequested : Bool := false
  crashes : Nat := 0
  /-- `deadline` of the wait loop is set. -/
  deadline : Bool := false
  /-- The console is open. -/
  master : Bool := true
  pending : Pending := {}
  child : Child := .running

/-- How `poll` returns; `console` is what reading the console gave. -/
inductive Polled where
  | interrupted
  | failed (text : String)
  | ready (console : Option Nat)
  deriving DecidableEq

inductive Event where
  /-- A signal is sent to the supervisor, by anyone. -/
  | raise (g : Signal)
  | childExits (code : Int)
  | childKilled (sig : Nat)
  /-- The supervisor is killed. -/
  | die
  /-- `sigprocmask` and the signal descriptor. -/
  | block (failed : Bool)
  | setUp (failed : Bool)
  | launch (failed : Option String)
  | poll (r : Polled)
  | read (failed : Option String)
  | wait (failed : Option String)
  | check (expired : Bool)
  | clean (failed : Bool)
  /-- `match outcome`; `stable` is `booted.elapsed() >= CRASH_STABLE`. -/
  | decide (stable : Bool)
  /-- The restart delay is over, or `poll` returns before that. -/
  | sleep (elapsed : Bool)
  deriving DecidableEq

inductive Mark where
  | asked
  | read
  | boot
  deriving DecidableEq

namespace State

/-- Enter `boot_once`. -/
def boot (s : State) : State × Option Mark :=
  ({ s with place := .launching, deadline := false, master := true, child := .running }, some .boot)

def leave (s : State) : State × Option Mark := ({ s with place := .left }, none)

/-- `boot_once` returns. -/
def finish (s : State) (r : Except Err Outcome) : State × Option Mark :=
  ({ s with place := .ended r }, none)

/-- A signal that is not blocked yet takes its default action. -/
def raise (s : State) (g : Signal) : State × Option Mark :=
  let mark := if g.stops then some .asked else none
  match s.place with
  | .starting => (if g.stops then { s with place := .left } else s, mark)
  | _ => ({ s with pending := s.pending.raise g }, mark)

/-- The intermediate ends. -/
def endChild (s : State) (c : Child) : State × Option Mark :=
  match s.child with
  | .running => ({ s with child := c, pending := s.pending.raise .sigchld }, none)
  | _ => (s, none)

/-- One turn of `while let Some(info) = sfd.read_signal()?` in the wait loop. -/
def readSignal (s : State) : State × Option Mark :=
  match s.pending.read with
  | none => ({ s with place := .checking }, none)
  | some (.sigchld, pending) => ({ s with pending := pending, place := .waiting }, none)
  | some (_, pending) =>
    if s.deadline then ({ s with pending := pending }, some .read)
    else ({ s with pending := pending, stopRequested := true, deadline := true }, some .read)

/-- One turn of the same loop in `sleep_unless_stopped`. -/
def drainSignal (s : State) : State × Option Mark :=
  match s.pending.read with
  | none => ({ s with place := .sleeping }, none)
  | some (.sigchld, pending) => ({ s with pending := pending }, none)
  | some (_, pending) => ({ s with pending := pending, place := .left }, some .read)

/-- `waitpid(child, WNOHANG)` after SIGCHLD. -/
def waitChild (s : State) : State × Option Mark :=
  match s.child with
  | .running => ({ s with place := .reading }, none)
  | .exited code => s.finish (.ok (outcome code))
  | .signaled sig => s.finish (.ok (.other ("intermediate killed by " ++ toString sig)))

/-- `match outcome`. -/
def decideNext (s : State) (r : Except Err Outcome) (stable : Bool) : State × Option Mark :=
  let u : Supervisor := { stopRequested := s.stopRequested, crashes := s.crashes }
  let u := u.decideNext r stable
  let s := { s with crashes := u.crashes }
  match u.phase with
  | .booting _ => s.boot
  | .sleeping _ => ({ s with place := .sleeping }, none)
  | _ => s.leave

/-- One step; an event that does not apply changes nothing. -/
def step (s : State) : Event → State × Option Mark
  | .raise g => s.raise g
  | .childExits code => s.endChild (.exited code)
  | .childKilled sig => s.endChild (.signaled sig)
  | .die => s.leave
  | .block failed =>
    match s.place with
    | .starting => if failed then s.leave else ({ s with place := .setup }, none)
    | _ => (s, none)
  | .setUp failed =>
    match s.place with
    | .setup => if failed then s.leave else s.boot
    | _ => (s, none)
  | .launch failed =>
    match s.place, failed with
    | .launching, none => ({ s with place := .polling }, none)
    | .launching, some text => s.finish (.error (.context "launch container" (.io text)))
    | _, _ => (s, none)
  | .poll r =>
    match s.place, r with
    | .polling, .interrupted => (s, none)
    | .polling, .failed text => s.finish (.error (.io text))
    | .polling, .ready none => ({ s with place := .reading }, none)
    | .polling, .ready (some n) =>
      ({ s with place := .reading, master := s.master && 0 < n }, none)
    | _, _ => (s, none)
  | .read failed =>
    match s.place, failed with
    | .reading, none => s.readSignal
    | .reading, some text => s.finish (.error (.io text))
    | .draining, none => s.drainSignal
    | .draining, some _ => s.leave
    | _, _ => (s, none)
  | .wait failed =>
    match s.place, failed with
    | .waiting, none => s.waitChild
    | .waiting, some text => s.finish (.error (.io text))
    | _, _ => (s, none)
  | .check expired =>
    match s.place with
    | .checking => ({ s with place := .polling, deadline := s.deadline && !expired }, none)
    | _ => (s, none)
  | .clean failed =>
    match s.place with
    | .ended r => if failed then s.leave else ({ s with place := .cleaned r }, none)
    | _ => (s, none)
  | .decide stable =>
    match s.place with
    | .cleaned r => s.decideNext r stable
    | _ => (s, none)
  | .sleep elapsed =>
    match s.place with
    | .sleeping => if elapsed then s.boot else ({ s with place := .draining }, none)
    | _ => (s, none)

/-- What the supervisor does and is asked during a run, in order. -/
def marks (s : State) : List Event → List Mark
  | [] => []
  | e :: es => (s.step e).2.toList ++ (s.step e).1.marks es

/-- The state a run ends in. -/
def after (s : State) (es : List Event) : State := es.foldl (fun s e => (s.step e).1) s

/-! ## No further boot -/

/-- No boot follows: the loop is left, or it will be, whatever happens. In the wait loop a
pending stop signal is enough, since it is read before SIGCHLD. -/
def Last (s : State) : Prop :=
  match s.place with
  | .left | .ended (.error _) | .cleaned (.error _) => True
  | .ended (.ok _) | .cleaned (.ok _) | .waiting => s.stopRequested = true
  | .launching | .polling | .reading | .checking =>
    s.stopRequested = true ∨ s.pending.stop = true
  | _ => False

/-- A stop that is under way was requested. -/
def Consistent (s : State) : Prop := s.deadline = true → s.stopRequested = true

/-- At most one boot follows. -/
def Asked (s : State) : Prop := s.pending.stop = true ∨ s.Last

/-- What a step does to these, with the mark it leaves. -/
structure Follows (s s' : State) (mark : Option Mark) : Prop where
  consistent : s.Consistent → s'.Consistent
  last : s.Consistent → s.Last → s'.Last ∧ mark ≠ some .boot
  asked : s.Consistent → s.Asked → s'.Asked ∧ (mark = some .boot → s'.Last)
  /-- A stop signal stays pending until it is read. -/
  kept : s.pending.stop = true → s'.pending.stop = true ∨ mark = some .read
  onAsked : mark = some .asked → s'.pending.stop = true ∨ s'.place = .left
  onRead : s.Consistent → mark = some .read → s'.Last

variable {s s' : State}

theorem Follows.quiet (hpending : s'.pending.stop = s.pending.stop)
    (hstop : s'.stopRequested = s.stopRequested)
    (hdeadline : s'.deadline = true → s.deadline = true) (hlast : s.Last → s'.Last) :
    Follows s s' none where
  consistent hc hd := by
    rw [hstop]
    exact hc (hdeadline hd)
  last _ h := ⟨hlast h, by simp⟩
  asked _ h := by
    refine ⟨?_, by simp⟩
    rcases h with h | h
    · exact .inl (hpending.trans h)
    · exact .inr (hlast h)
  kept h := .inl (hpending.trans h)
  onAsked h := by cases h
  onRead _ h := by cases h

theorem follows_stay (s : State) : Follows s s none := .quiet rfl rfl id id

theorem follows_leave (s : State) : Follows s s.leave.1 s.leave.2 :=
  .quiet rfl rfl id fun _ => trivial

theorem follows_finish_error (s : State) (e : Err) :
    Follows s (s.finish (.error e)).1 (s.finish (.error e)).2 :=
  .quiet rfl rfl id fun _ => trivial

/-- A boot begins where it is not excluded; a stop signal that is pending then is read in
its wait loop. -/
theorem follows_boot (h : ¬ s.Last) (n : Nat) :
    Follows s { s with crashes := n }.boot.1 { s with crashes := n }.boot.2 where
  consistent _ hd := by cases hd
  last _ hl := absurd hl h
  asked _ ha := by
    have hpending : s.pending.stop = true := ha.resolve_right h
    exact ⟨.inl hpending, fun _ => .inr hpending⟩
  kept hpending := .inl hpending
  onAsked hm := by cases hm
  onRead _ hm := by cases hm

theorem last_of_pending {pending : Pending} {child : Child}
    (hpending : s.pending.stop = true → pending.stop = true) (h : s.Last) :
    { s with pending := pending, child := child }.Last := by
  unfold Last at h ⊢
  split <;> simp_all
  all_goals exact h.imp_right hpending

theorem follows_pend (s : State) (g : Signal) :
    Follows s { s with pending := s.pending.raise g } (if g.stops then some .asked else none) := by
  have hpending := s.pending.raise_stop g
  have hlast : s.Last → { s with pending := s.pending.raise g }.Last :=
    last_of_pending fun h => by rw [hpending, h, Bool.true_or]
  cases hg : g.stops with
  | false =>
    rw [hg, Bool.or_false] at hpending
    exact .quiet hpending rfl id hlast
  | true =>
    rw [hg, Bool.or_true] at hpending
    exact
      { consistent := id
        last := fun _ h => ⟨hlast h, by simp⟩
        asked := fun _ _ => ⟨.inl hpending, by simp⟩
        kept := fun _ => .inl hpending
        onAsked := fun _ => .inl hpending
        onRead := fun _ hm => by cases hm }

theorem follows_raise (s : State) (g : Signal) : Follows s (s.raise g).1 (s.raise g).2 := by
  cases hp : s.place with
  | starting =>
    cases hg : g.stops with
    | true =>
      simp only [raise, hp, hg]
      exact ⟨id, fun _ _ => ⟨trivial, by simp⟩, fun _ _ => ⟨.inr trivial, by simp⟩, .inl,
        fun _ => .inr rfl, nofun⟩
    | false => simpa [raise, hp, hg] using s.follows_stay
  | _ =>
    have heq : s.raise g =
        ({ s with pending := s.pending.raise g }, if g.stops then some .asked else none) := by
      simp only [raise, hp]
    rw [heq]
    exact s.follows_pend g

theorem follows_endChild (s : State) (c : Child) :
    Follows s (s.endChild c).1 (s.endChild c).2 := by
  unfold endChild
  split
  · have hpending := s.pending.raise_stop .sigchld
    rw [Signal.stops, Bool.or_false] at hpending
    exact .quiet hpending rfl id (last_of_pending hpending.trans)
  · exact s.follows_stay

theorem follows_readSignal (hp : s.place = .reading) :
    Follows s s.readSignal.1 s.readSignal.2 := by
  have hl : s.Last ↔ s.stopRequested = true ∨ s.pending.stop = true := by simp [Last, hp]
  unfold readSignal
  split
  · exact .quiet rfl rfl id hl.mp
  · rename_i hread
    obtain ⟨hstop, hstop'⟩ := Pending.stop_of_read_sigchld hread
    refine .quiet (hstop'.trans hstop.symm) rfl id fun h => ?_
    exact (hl.mp h).resolve_right (by simp [hstop])
  · split
    · rename_i pending _ _ hd
      have hlast : s.Consistent → { s with pending := pending }.Last := by
        intro hc
        simp [Last, hp, hc hd]
      exact ⟨id, fun hc _ => ⟨hlast hc, by simp⟩, fun hc _ => ⟨.inr (hlast hc), by simp⟩,
        fun _ => .inr rfl, nofun, fun hc _ => hlast hc⟩
    · have hlast : ∀ pending : Pending,
          { s with pending := pending, stopRequested := true, deadline := true }.Last := by
        intro pending
        simp [Last, hp]
      exact ⟨fun _ _ => rfl, fun _ _ => ⟨hlast _, by simp⟩, fun _ _ => ⟨.inr (hlast _), by simp⟩,
        fun _ => .inr rfl, nofun, fun _ _ => hlast _⟩

theorem follows_drainSignal (hp : s.place = .draining) :
    Follows s s.drainSignal.1 s.drainSignal.2 := by
  have hnot : ¬ s.Last := by simp [Last, hp]
  unfold drainSignal
  split
  · exact .quiet rfl rfl id fun h => absurd h hnot
  · rename_i hread
    obtain ⟨hstop, hstop'⟩ := Pending.stop_of_read_sigchld hread
    exact .quiet (hstop'.trans hstop.symm) rfl id fun h => absurd h hnot
  · exact ⟨id, fun _ _ => ⟨trivial, by simp⟩, fun _ _ => ⟨.inr trivial, by simp⟩,
      fun _ => .inr rfl, nofun, fun _ _ => trivial⟩

theorem follows_waitChild (hp : s.place = .waiting) :
    Follows s s.waitChild.1 s.waitChild.2 := by
  have hl : s.Last → s.stopRequested = true := by simp [Last, hp]
  unfold waitChild
  split
  · exact .quiet rfl rfl id fun h => .inl (hl h)
  · exact .quiet rfl rfl id hl
  · exact .quiet rfl rfl id hl

theorem follows_decideNext {r : Except Err Outcome} (hp : s.place = .cleaned r) (stable : Bool) :
    Follows s (s.decideNext r stable).1 (s.decideNext r stable).2 := by
  by_cases hl : s.Last
  · -- the boot failed, or a stop is requested
    have hleave : s.decideNext r stable = s.leave := by
      cases r with
      | error e => rfl
      | ok o =>
        have hstop : s.stopRequested = true := by simpa [Last, hp] using hl
        cases o <;> simp [decideNext, Supervisor.decideNext, hstop, leave]
    rw [hleave]
    exact s.follows_leave
  · unfold decideNext
    dsimp only
    split
    · exact follows_boot hl _
    · exact .quiet rfl rfl id fun h => absurd h hl
    · exact .quiet rfl rfl id fun _ => trivial

theorem follows_step (s : State) (e : Event) : Follows s (s.step e).1 (s.step e).2 := by
  cases e with
  | raise g => exact s.follows_raise g
  | childExits code => exact s.follows_endChild _
  | childKilled sig => exact s.follows_endChild _
  | die => exact s.follows_leave
  | block failed =>
    simp only [step]
    split
    · rename_i hp
      split
      · exact s.follows_leave
      · exact .quiet rfl rfl id fun h => by simp [Last, hp] at h
    · exact s.follows_stay
  | setUp failed =>
    simp only [step]
    split
    · rename_i hp
      split
      · exact s.follows_leave
      · exact follows_boot (by simp [Last, hp]) s.crashes
    · exact s.follows_stay
  | launch failed =>
    simp only [step]
    split
    · rename_i hp
      exact .quiet rfl rfl id fun h => by simpa [Last, hp] using h
    · exact s.follows_finish_error _
    · exact s.follows_stay
  | poll r =>
    simp only [step]
    split
    · exact s.follows_stay
    · exact s.follows_finish_error _
    · rename_i hp
      exact .quiet rfl rfl id fun h => by simpa [Last, hp] using h
    · rename_i hp
      exact .quiet rfl rfl id fun h => by simpa [Last, hp] using h
    · exact s.follows_stay
  | read failed =>
    simp only [step]
    split
    · rename_i hp
      exact follows_readSignal hp
    · exact s.follows_finish_error _
    · rename_i hp
      exact follows_drainSignal hp
    · exact s.follows_leave
    · exact s.follows_stay
  | wait failed =>
    simp only [step]
    split
    · rename_i hp
      exact follows_waitChild hp
    · exact s.follows_finish_error _
    · exact s.follows_stay
  | check expired =>
    simp only [step]
    split
    · rename_i hp
      exact .quiet rfl rfl (fun hd => (Bool.and_eq_true_iff.mp hd).1) fun h => by
        simpa [Last, hp] using h
    · exact s.follows_stay
  | clean failed =>
    simp only [step]
    split
    · rename_i r hp
      split
      · exact s.follows_leave
      · refine .quiet rfl rfl id fun h => ?_
        cases r with
        | error e => trivial
        | ok o => simpa [Last, hp] using h
    · exact s.follows_stay
  | decide stable =>
    simp only [step]
    split
    · rename_i hp
      exact follows_decideNext hp stable
    · exact s.follows_stay
  | sleep elapsed =>
    simp only [step]
    split
    · rename_i hp
      have hnot : ¬ s.Last := by simp [Last, hp]
      split
      · exact follows_boot hnot s.crashes
      · exact .quiet rfl rfl id fun h => absurd h hnot
    · exact s.follows_stay

/-! ## Runs -/

theorem boot_notMem_marks : ∀ (es : List Event) (s : State), s.Consistent → s.Last →
    Mark.boot ∉ s.marks es := by
  intro es
  induction es with
  | nil => simp [marks]
  | cons e es ih =>
    intro s hc hl
    have hstep := s.follows_step e
    obtain ⟨hlast, hmark⟩ := hstep.last hc hl
    simp only [marks, List.mem_append, Option.mem_toList]
    rintro (hboot | hboot)
    · exact hmark hboot
    · exact ih _ (hstep.consistent hc) hlast hboot

theorem count_boot_marks : ∀ (es : List Event) (s : State), s.Consistent → s.Asked →
    (s.marks es).count .boot ≤ 1 := by
  intro es
  induction es with
  | nil => simp [marks]
  | cons e es ih =>
    intro s hc ha
    have hstep := s.follows_step e
    obtain ⟨hasked, hboot⟩ := hstep.asked hc ha
    have hrest := ih _ (hstep.consistent hc) hasked
    simp only [marks, List.count_append]
    by_cases hm : (s.step e).2 = some .boot
    · have hnone := boot_notMem_marks es _ (hstep.consistent hc) (hboot hm)
      rw [hm, List.count_eq_zero_of_not_mem hnone]
      decide
    · have hzero : (s.step e).2.toList.count .boot = 0 :=
        List.count_eq_zero_of_not_mem (by simpa using hm)
      omega

theorem last_of_left (h : s.place = .left) : s.Last := by simp [Last, h]

theorem left_step (h : s.place = .left) (e : Event) : (s.step e).1.place = .left := by
  cases e with
  | raise g => simp [step, raise, h]
  | childExits code | childKilled sig =>
    simp only [step, endChild]
    split <;> exact h
  | die => rfl
  | _ => simp [step, h]

theorem left_after : ∀ (es : List Event) (s : State), s.place = .left →
    (s.after es).place = .left := by
  intro es
  induction es with
  | nil => exact fun _ h => h
  | cons e es ih => exact fun s h => ih _ (left_step h e)

theorem pending_after : ∀ (es : List Event) (s : State), s.pending.stop = true →
    Mark.read ∈ s.marks es ∨ (s.after es).pending.stop = true := by
  intro es
  induction es with
  | nil => exact fun _ h => .inr h
  | cons e es ih =>
    intro s h
    simp only [marks, List.mem_append]
    rcases (s.follows_step e).kept h with hkept | hread
    · exact (ih _ hkept).imp_left .inr
    · exact .inl (.inl (by simp [hread]))

end State

/-- What follows the first `m`. -/
def since (m : Mark) : List Mark → List Mark
  | [] => []
  | x :: xs => if x = m then xs else since m xs

/-- Where the first `m` of a run is left: before it there is nothing to know, after it what
holds of every run that follows such a step. -/
theorem since_marks {P : List Mark → State → Prop} {m : Mark}
    (hstep : ∀ (s : State) (e : Event) (es : List Event), s.Consistent →
      (s.step e).2 = some m → P ((s.step e).1.marks es) ((s.step e).1.after es)) :
    ∀ (es : List Event) (s : State), s.Consistent → m ∈ s.marks es →
      P (since m (s.marks es)) (s.after es) := by
  intro es
  induction es with
  | nil => exact fun _ _ hm => by cases hm
  | cons e es ih =>
    intro s hc hmem
    have hrest := ih _ ((s.follows_step e).consistent hc)
    simp only [State.marks] at hmem ⊢
    cases hm : (s.step e).2 with
    | none =>
      rw [hm] at hmem
      exact hrest hmem
    | some x =>
      rw [hm] at hmem
      simp only [Option.toList_some, List.singleton_append, since] at hmem ⊢
      split
      · rename_i hx
        exact hstep s e es hc (by rw [hm, hx])
      · rename_i hx
        exact hrest ((List.mem_cons.mp hmem).resolve_left (Ne.symm hx))

theorem since_of_notMem {m : Mark} {ms : List Mark} (h : m ∉ ms) : since m ms = [] := by
  induction ms with
  | nil => rfl
  | cons x ms ih =>
    have hne : x ≠ m := fun hx => h (by simp [hx])
    simp only [since, if_neg hne]
    exact ih fun hm => h (by simp [hm])

/-- For every interleaving of signals with the system calls: no boot begins after a stop signal has
been read, at most one begins after it has become pending, and it is not lost. -/
theorem stop_request_final (es : List Event) :
    Mark.boot ∉ since .read (State.marks {} es) ∧
      (since .asked (State.marks {} es)).count .boot ≤ 1 ∧
      (Mark.asked ∈ State.marks {} es → Mark.read ∈ since .asked (State.marks {} es) ∨
        (State.after {} es).pending.stop = true ∨ (State.after {} es).place = .left) := by
  have hinit : ({} : State).Consistent := nofun
  have hasked : Mark.asked ∈ State.marks {} es →
      (since .asked (State.marks {} es)).count .boot ≤ 1 ∧
      (Mark.read ∈ since .asked (State.marks {} es) ∨
        (State.after {} es).pending.stop = true ∨ (State.after {} es).place = .left) := by
    refine since_marks (P := fun ms s => ms.count .boot ≤ 1 ∧
      (Mark.read ∈ ms ∨ s.pending.stop = true ∨ s.place = .left)) ?_ es {} hinit
    intro s e es hc hm
    have hfollows := s.follows_step e
    have hc' := hfollows.consistent hc
    rcases hfollows.onAsked hm with hpending | hleft
    · exact ⟨State.count_boot_marks es _ hc' (.inl hpending),
        (State.pending_after es _ hpending).imp_right .inl⟩
    · exact ⟨State.count_boot_marks es _ hc' (.inr (State.last_of_left hleft)),
        .inr (.inr (State.left_after es _ hleft))⟩
  refine ⟨?_, ?_, fun h => (hasked h).2⟩
  · by_cases hread : Mark.read ∈ State.marks {} es
    · refine since_marks (P := fun ms _ => Mark.boot ∉ ms) ?_ es {} hinit hread
      intro s e es hc hm
      have hfollows := s.follows_step e
      exact State.boot_notMem_marks es _ (hfollows.consistent hc) (hfollows.onRead hc hm)
    · simp [since_of_notMem hread]
  · by_cases h : Mark.asked ∈ State.marks {} es
    · exact (hasked h).1
    · simp [since_of_notMem h]

end RunmanAgent.StopRequest
