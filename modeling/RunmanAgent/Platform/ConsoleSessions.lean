import RunmanAgent.Platform.Console

/-!
# Sessions are unique and can be closed

A task checks that its session id is not registered, attaches a terminal and registers it; a
close frame cancels what is registered. Between the check and the registration an id is taken but
not seen: a second task of the id can attach a terminal too, and a close frame does nothing.

`Apart` leaves this out: no second task passes the check in that time, and no close frame comes
before the tasks of its id are registered or finished (`one_terminal_until_closed`).
-/

namespace RunmanAgent.Console

open Concurrency

/-- The task has passed the check and has not ended. -/
def Stage.active : Stage → Bool
  | .checked | .attached | .registered => true
  | .spawned | .finished => false

/-- The task is neither on its way to the registration nor waiting to be run. -/
def Stage.known : Stage → Bool
  | .registered | .finished => true
  | .spawned | .checked | .attached => false

/-- A task passes the check while no other task of the id is between its check and its
registration; a close frame comes while every task of the id is registered or finished. -/
def Apart (p : Pid) (e : Act) (s : State) (_ : Input) : Prop :=
  match e with
  | .containsKey sid => s.sessions sid = none →
      ∀ q ∈ s.opened sid, q ≠ p → s.stage q ≠ .checked ∧ s.stage q ≠ .attached
  | .dispatch _ (.consoleClose sid) => ∀ q ∈ s.opened sid, (s.stage q).known = true
  | _ => True

structure Proper (s : State) : Prop where
  unique : ∀ {sid p q}, s.Attached sid p → s.Attached sid q → p = q
  /-- Input for an id changes nothing but the one terminal that is attached under it. -/
  input : ∀ {sid data i task p},
    (s.handle task i (.consoleInput sid data)).terminals p ≠ s.terminals p →
      ∀ q, s.Attached sid q ↔ q = p
  /-- A terminal that is still attached after a close frame is about to be detached. -/
  closing : ∀ p ∈ s.closed, (s.terminals p).isSome → s.isCancelled p = true

/-- No task can go on without a frame, output or the end of its terminal. -/
def Settled (P : Pool State Input Act) : Prop :=
  ∀ p ≠ 0, ∀ e, (P.procs p).next = some e → enabled e p P.mem = false

variable {s : State} {sid : String} {p : Pid} {i : Input}

theorem mem_opened : p ∈ s.opened sid ↔ s.tasks.lookup p = some sid := by
  unfold State.opened
  rw [List.mem_filter, decide_eq_true_eq]
  refine ⟨fun h => h.2, fun h => ⟨?_, h⟩⟩
  exact AList.mem_keys.mpr (AList.lookup_isSome.mp (h ▸ rfl))

theorem trySend_of_ne (i : Input) (f : Terminal → Terminal) (h : s.sessions sid ≠ some p) :
    s.trySend sid i f p = s.terminals p := by
  unfold State.trySend
  cases hsid : s.sessions sid with
  | none => rfl
  | some q =>
    dsimp only
    split
    · rfl
    · refine Function.update_of_ne ?_ _ _
      intro heq
      exact h (heq ▸ hsid)

theorem map_sid_trySend (sid : String) (i : Input) {f : Terminal → Terminal}
    (hf : ∀ t, (f t).sid = t.sid) (p : Pid) :
    (s.trySend sid i f p).map (·.sid) = (s.terminals p).map (·.sid) := by
  by_cases h : s.sessions sid = some p
  · unfold State.trySend
    rw [h]
    dsimp only
    split
    · rfl
    · rw [Function.update_self, Option.map_map]
      exact congrFun (congrArg Option.map (funext hf)) _
  · rw [trySend_of_ne i f h]

/-! ## The invariant -/

/-- The task has attached a terminal and has not ended. -/
def Stage.holds : Stage → Bool
  | .attached | .registered => true
  | .spawned | .checked | .finished => false

theorem Stage.active_of_holds {st : Stage} (h : st.holds = true) : st.active = true := by
  cases st <;> first | rfl | cases h

/-- The state of a task is what its terminal, its entry and the close frames say. -/
structure Fits (s : State) (p : Pid) : Prop where
  spawned : s.tasks.lookup p = none → s.stage p = .spawned
  /-- A terminal is attached under the id of its task. -/
  terminal : (s.terminals p).map (·.sid) = if (s.stage p).holds then s.tasks.lookup p else none
  entry : ∀ {sid}, s.sessions sid = some p ↔ s.stage p = .registered ∧ s.tasks.lookup p = some sid
  closing : p ∈ s.closed → s.stage p = .finished ∨ s.stage p = .registered ∧ s.isCancelled p = true

structure Inv (s : State) : Prop where
  stream : s.tasks.lookup 0 = none
  fits : ∀ p, Fits s p
  one : ∀ {sid p q}, s.tasks.lookup p = some sid → s.tasks.lookup q = some sid →
    (s.stage p).active = true → (s.stage q).active = true → p = q

namespace Inv

variable {s : State} {p : Pid} {sid : String}

theorem entry (h : Inv s) :
    s.sessions sid = some p ↔ s.stage p = .registered ∧ s.tasks.lookup p = some sid :=
  (h.fits p).entry

theorem attached (h : Inv s) (hp : s.Attached sid p) :
    s.tasks.lookup p = some sid ∧ (s.stage p).holds = true := by
  obtain ⟨t, ht, rfl⟩ := hp
  have hterminal := (h.fits p).terminal
  rw [ht] at hterminal
  split at hterminal
  · rename_i hholds
    exact ⟨hterminal.symm, hholds⟩
  · cases hterminal

theorem attached_entry (h : Inv s) (hp : s.sessions sid = some p) : s.Attached sid p := by
  obtain ⟨hstage, htask⟩ := h.entry.mp hp
  have hterminal := (h.fits p).terminal
  rw [hstage, htask] at hterminal
  exact Option.map_eq_some_iff.mp hterminal

theorem unique (h : Inv s) {q : Pid} (hp : s.Attached sid p) (hq : s.Attached sid q) : p = q :=
  h.one (h.attached hp).1 (h.attached hq).1 (Stage.active_of_holds (h.attached hp).2)
    (Stage.active_of_holds (h.attached hq).2)

theorem proper (h : Inv s) : Proper s := by
  refine ⟨h.unique, ?_, ?_⟩
  · intro sid data i task p hne q
    -- only the entry of the id is written to
    have hentry : s.sessions sid = some p := by
      by_contra hsid
      exact hne (trySend_of_ne i _ hsid)
    have hattached := h.attached_entry hentry
    constructor
    · intro hq
      exact h.unique hq hattached
    · intro hq
      exact hq ▸ hattached
  · intro p hp hsome
    obtain hover | ⟨-, hcancelled⟩ := (h.fits p).closing hp
    · have hterminal := (h.fits p).terminal
      rw [hover] at hterminal
      rw [Option.map_eq_none_iff.mp hterminal] at hsome
      cases hsome
    · exact hcancelled

/-! ### The frames -/

theorem trySend (h : Inv s) (i : Input) {f : Terminal → Terminal} (hf : ∀ t, (f t).sid = t.sid) :
    Inv { s with terminals := s.trySend sid i f } :=
  { h with fits := fun p =>
      { h.fits p with terminal := (map_sid_trySend sid i hf p).trans (h.fits p).terminal } }

theorem spawn (h : Inv s) {task : Pid} (hzero : task ≠ 0) (hnew : s.tasks.lookup task = none) :
    Inv { s with tasks := s.tasks.insert task sid } := by
  have hspawned := (h.fits task).spawned hnew
  have hlookup : ∀ {p}, s.stage p ≠ .spawned →
      (s.tasks.insert task sid).lookup p = s.tasks.lookup p := by
    intro p hp
    apply AList.lookup_insert_ne
    rintro rfl
    exact hp hspawned
  have hactive : ∀ {p}, (s.stage p).active = true → s.stage p ≠ .spawned := by
    intro p hp hstage
    rw [hstage] at hp
    cases hp
  refine ⟨(AList.lookup_insert_ne hzero.symm).trans h.stream, fun p => ?_,
    fun {sid' p q} hp hq hap haq => ?_⟩
  · refine ⟨fun hp => ?_, ?_, fun {sid'} => ?_, (h.fits p).closing⟩
    · by_cases heq : p = task
      · exact heq ▸ hspawned
      · exact (h.fits p).spawned ((AList.lookup_insert_ne heq).symm.trans hp)
    · rw [(h.fits p).terminal]
      split
      · rename_i hholds
        exact (hlookup (hactive (Stage.active_of_holds hholds))).symm
      · rfl
    · rw [h.entry]
      exact and_congr_right fun hstage => by rw [hlookup (hactive (congrArg Stage.active hstage))]
  · exact h.one ((hlookup (hactive hap)).symm.trans hp)
      ((hlookup (hactive haq)).symm.trans hq) hap haq

theorem close (h : Inv s) {task : Pid} {i : Input}
    (hknown : ∀ q ∈ s.opened sid, (s.stage q).known = true) :
    Inv (s.handle task i (.consoleClose sid)) := by
  have hkeep : ∀ {p}, s.isCancelled p = true →
      (s.handle task i (.consoleClose sid)).isCancelled p = true := by
    intro p hp
    simp only [State.isCancelled, State.handle, Bool.or_eq_true] at hp ⊢
    refine hp.imp_left fun hp => ?_
    cases s.sessions sid with
    | none => exact hp
    | some q =>
      by_cases heq : p = q
      · exact heq ▸ Function.update_self ..
      · exact (Function.update_of_ne heq ..).trans hp
  refine { h with fits := fun p => { h.fits p with closing := fun hp => ?_ } }
  obtain hp | hp := List.mem_append.mp hp
  · have htask := mem_opened.mp hp
    have hp := hknown p hp
    cases hstage : s.stage p with
    | finished => exact .inl hstage
    | registered =>
      refine .inr ⟨hstage, ?_⟩
      have hentry := h.entry.mpr ⟨hstage, htask⟩
      simp [State.isCancelled, State.handle, hentry]
    | spawned => rw [hstage] at hp; cases hp
    | checked => rw [hstage] at hp; cases hp
    | attached => rw [hstage] at hp; cases hp
  · exact ((h.fits p).closing hp).imp_right fun ⟨hr, hc⟩ => ⟨hr, hkeep hc⟩

/-! ### The tasks -/

theorem not_closed (h : Inv s) (hp : (s.stage p).known = false) : p ∉ s.closed := by
  intro hclosed
  obtain hstage | ⟨hstage, -⟩ := (h.fits p).closing hclosed <;> rw [hstage] at hp <;> cases hp

theorem others (h : Inv s) (htask : s.tasks.lookup p = some sid) (hp : (s.stage p).active = true) :
    ∀ q ≠ p, s.tasks.lookup q = some sid → (s.stage q).active = false := by
  intro q hne hq
  by_contra hactive
  exact hne (h.one hq htask (Bool.eq_true_of_not_eq_false hactive) hp)

theorem of_task (h : Inv s) {s' : State} {st : Stage} (htask : s.tasks.lookup p = some sid)
    (hst : s'.stage = Function.update s.stage p st) (htasks : s'.tasks = s.tasks)
    (hclosed : s'.closed = s.closed) (hcancelled : ∀ q, s'.isCancelled q = s.isCancelled q)
    (hterminals : ∀ q ≠ p, s'.terminals q = s.terminals q)
    (hsessions : ∀ q ≠ p, ∀ sid', s'.sessions sid' = some q ↔ s.sessions sid' = some q)
    (hterminal : (s'.terminals p).map (·.sid) = if st.holds then some sid else none)
    (hentry : ∀ sid', s'.sessions sid' = some p ↔ st = .registered ∧ sid = sid')
    (hactive : st.active = true → ∀ q ≠ p, s.tasks.lookup q = some sid → (s.stage q).active = false)
    (hclosing : p ∈ s.closed → st = .finished) : Inv s' := by
  have hstage : ∀ q ≠ p, s'.stage q = s.stage q := fun q hq => by
    rw [hst, Function.update_of_ne hq]
  obtain rfl : s'.stage p = st := by rw [hst, Function.update_self]
  -- two active tasks of one id: if one of them is `p`, the other one is not active
  have hone : ∀ {sid' q r}, s.tasks.lookup q = some sid' → s.tasks.lookup r = some sid' →
      (s'.stage q).active = true → (s'.stage r).active = true → q = p → r = p := by
    rintro sid' q r hq hr haq har rfl
    by_contra hne
    have hoff := hactive haq r hne (by rw [hr, ← hq, htask])
    rw [hstage r hne, hoff] at har
    cases har
  refine ⟨htasks ▸ h.stream, fun q => ?_, fun {sid' q r} hq hr haq har => ?_⟩
  · by_cases heq : q = p
    · subst heq
      constructor
      · rw [htasks, htask]
        exact nofun
      · rwa [htasks, htask]
      · intro sid'
        rw [htasks, htask, Option.some.injEq]
        exact hentry sid'
      · rw [hclosed]
        exact fun hq => .inl (hclosing hq)
    · have hq := h.fits q
      constructor
      · rw [htasks, hstage q heq]
        exact hq.spawned
      · rw [hterminals q heq, htasks, hstage q heq]
        exact hq.terminal
      · intro sid'
        rw [hsessions q heq, htasks, hstage q heq]
        exact hq.entry
      · rw [hclosed, hcancelled, hstage q heq]
        exact hq.closing
  · rw [htasks] at hq hr
    by_cases hqp : q = p
    · rw [hqp, hone hq hr haq har hqp]
    · have hrp : r ≠ p := fun hrp => hqp (hone hr hq har haq hrp)
      rw [hstage q hqp] at haq
      rw [hstage r hrp] at har
      exact h.one hq hr haq har

theorem advance (h : Inv s) {st : Stage} (htask : s.tasks.lookup p = some sid)
    (hold : (s.stage p).holds = false) (hnew : st.holds = false)
    (hclosing : p ∈ s.closed → st = .finished)
    (hactive : st.active = true →
      ∀ q ≠ p, s.tasks.lookup q = some sid → (s.stage q).active = false) :
    Inv { s with stage := Function.update s.stage p st } := by
  refine h.of_task htask rfl rfl rfl (fun _ => rfl) (fun _ _ => rfl) (fun _ _ _ => Iff.rfl) ?_
    (fun sid' => ?_) hactive hclosing
  · rw [(h.fits p).terminal, hold, hnew]
    rfl
  · rw [h.entry]
    constructor
    · rintro ⟨hr, -⟩
      rw [hr] at hold
      cases hold
    · rintro ⟨rfl, -⟩
      cases hnew

theorem attach (h : Inv s) (htask : s.tasks.lookup p = some sid) (hstage : s.stage p = .checked) :
    Inv { s with
      terminals := Function.update s.terminals p (some { sid := sid })
      stage := Function.update s.stage p .attached } := by
  refine h.of_task htask rfl rfl rfl (fun _ => rfl) (fun q hq => Function.update_of_ne hq ..)
    (fun _ _ _ => Iff.rfl) (by simp [Stage.holds])
    (fun sid' => ?_) (fun _ => h.others htask (congrArg Stage.active hstage)) fun hp => ?_
  · rw [h.entry, hstage]
    simp
  · exact absurd hp (h.not_closed (congrArg Stage.known hstage))

theorem free (h : Inv s) (htask : s.tasks.lookup p = some sid) (hstage : s.stage p = .attached) :
    s.sessions sid = none := by
  cases hsid : s.sessions sid with
  | none => rfl
  | some q =>
    obtain ⟨hq, hqtask⟩ := h.entry.mp hsid
    have heq := h.one hqtask htask (congrArg Stage.active hq) (congrArg Stage.active hstage)
    rw [heq, hstage] at hq
    cases hq

theorem register (h : Inv s) {i : Input} (htask : s.tasks.lookup p = some sid)
    (hstage : s.stage p = .attached) : Inv (s.step p i (.insert sid)) := by
  have hfree := h.free htask hstage
  have hdetach : (s.step p i (.insert sid)).terminals = s.terminals := by
    show s.detach sid = s.terminals
    unfold State.detach
    rw [hfree]
  refine h.of_task htask rfl rfl rfl (fun _ => rfl) (fun q _ => congrFun hdetach q)
    (fun q hq sid' => ?_) ?_ (fun sid' => ?_)
    (fun _ => h.others htask (congrArg Stage.active hstage)) fun hp => ?_
  · show Function.update s.sessions sid (some p) sid' = some q ↔ _
    by_cases hs : sid' = sid
    · rw [hs, Function.update_self, hfree]
      simp [Ne.symm hq]
    · rw [Function.update_of_ne hs]
  · rw [hdetach, (h.fits p).terminal, hstage, htask]
    rfl
  · show Function.update s.sessions sid (some p) sid' = some p ↔ _
    by_cases hs : sid' = sid
    · simp [hs]
    · rw [Function.update_of_ne hs, h.entry, hstage]
      simp [Ne.symm hs]
  · exact absurd hp (h.not_closed (congrArg Stage.known hstage))

theorem unregister (h : Inv s) {i : Input} (htask : s.tasks.lookup p = some sid)
    (hstage : s.stage p = .registered) : Inv (s.step p i (.remove sid)) := by
  have hentry := h.entry.mpr ⟨hstage, htask⟩
  have hdetach : (s.step p i (.remove sid)).terminals = Function.update s.terminals p none := by
    show s.detach sid = _
    unfold State.detach
    rw [hentry]
  refine h.of_task htask rfl rfl rfl (fun _ => rfl)
    (fun q hq => hdetach ▸ Function.update_of_ne hq ..) (fun q hq sid' => ?_) ?_ (fun sid' => ?_)
    nofun (fun _ => rfl)
  · show Function.update s.sessions sid none sid' = some q ↔ _
    by_cases hs : sid' = sid
    · rw [hs, Function.update_self, hentry]
      simp [Ne.symm hq]
    · rw [Function.update_of_ne hs]
  · rw [hdetach, Function.update_self]
    rfl
  · show Function.update s.sessions sid none sid' = some p ↔ _
    by_cases hs : sid' = sid
    · simp [hs]
    · rw [Function.update_of_ne hs, h.entry, htask]
      simp [Ne.symm hs]

end Inv

/-- What the task of an action has to be, and what the action may overwrite. -/
def May (cmds : Pid → Option CmdConsoleOpen) (p : Pid) (e : Act) (s : State) : Prop :=
  match e with
  | .dispatch task frame => p = 0 ∧ task ≠ 0 ∧ ∀ cmd, frame = .consoleOpen cmd →
      s.tasks.lookup task = none ∧ cmds task = some cmd
  | .start _ => s.stage p = .spawned
  | .containsKey sid => s.tasks.lookup p = some sid ∧ s.stage p = .spawned
  | .openConsole sid _ _ => s.tasks.lookup p = some sid ∧ s.stage p = .checked
  | .insert sid => s.tasks.lookup p = some sid ∧ s.stage p = .attached
  | .remove sid => s.tasks.lookup p = some sid ∧ s.stage p = .registered
  | .closeAll | .send _ | .select | .lastSelect => True

theorem Inv.handle {task : Pid} {frame : Down} (h : Inv s) (htask : task ≠ 0)
    (hmay : ∀ cmd, frame = .consoleOpen cmd → s.tasks.lookup task = none)
    (hok : Apart 0 (.dispatch task frame) s i) : Inv (s.handle task i frame) := by
  cases frame with
  | consoleOpen cmd => exact h.spawn htask (hmay cmd rfl)
  | consoleInput sid data => exact h.trySend i fun _ => rfl
  | consoleResize sid cols rows =>
    rw [State.handle]
    split
    · exact h.trySend i fun _ => rfl
    · exact h
  | consoleClose sid => exact h.close hok
  | other => exact h

theorem Inv.check (h : Inv s) (htask : s.tasks.lookup p = some sid) (hstage : s.stage p = .spawned)
    (hok : Apart p (.containsKey sid) s i) : Inv (s.step p i (.containsKey sid)) := by
  have hnot := h.not_closed (congrArg Stage.known hstage)
  have hholds : (s.stage p).holds = false := congrArg Stage.holds hstage
  cases hsid : s.sessions sid with
  | some q =>
    rw [State.step, hsid]
    exact h.advance htask hholds rfl (fun hp => absurd hp hnot) nofun
  | none =>
    rw [State.step, hsid]
    refine h.advance htask hholds rfl (fun hp => absurd hp hnot) fun _ q hne hq => ?_
    -- the id is not registered, and no other task of it is on its way
    obtain ⟨hchecked, hattached⟩ := hok hsid q (mem_opened.mpr hq) hne
    cases hq' : s.stage q with
    | checked => exact absurd hq' hchecked
    | attached => exact absurd hq' hattached
    | registered => cases hsid.symm.trans (h.entry.mpr ⟨hq', hq⟩)
    | spawned => rfl
    | finished => rfl

theorem Inv.step {cmds : Pid → Option CmdConsoleOpen} {e : Act} (h : Inv s)
    (hen : enabled e p s = true) (hmay : May cmds p e s) (hok : Apart p e s i) :
    Inv (s.step p i e) := by
  cases e with
  | dispatch task frame =>
    obtain ⟨rfl, htask, hnew⟩ := hmay
    exact h.handle htask (fun cmd hcmd => (hnew cmd hcmd).1) hok
  | closeAll =>
    refine { h with fits := fun p => { h.fits p with closing := fun hp => ?_ } }
    exact ((h.fits p).closing hp).imp_right fun hr => ⟨hr.1, Bool.or_true _⟩
  | start id =>
    have hstage : s.stage p = .spawned := hmay
    obtain ⟨sid, htask⟩ :=
      Option.isSome_iff_exists.mp (show (s.tasks.lookup p).isSome = true from hen)
    rw [State.step]
    split
    · exact h
    · exact h.advance htask (congrArg Stage.holds hstage) rfl (fun _ => rfl) nofun
  | containsKey sid => exact h.check hmay.1 hmay.2 hok
  | openConsole sid id size =>
    obtain ⟨htask, hstage⟩ := hmay
    rw [State.step]
    split
    · exact h.advance htask (congrArg Stage.holds hstage) rfl (fun _ => rfl) nofun
    · exact h.attach htask hstage
  | insert sid => exact h.register hmay.1 hmay.2
  | send up =>
    rw [State.step]
    split
    · exact h
    · exact { h with fits := fun p => { h.fits p with } }
  | select => exact h
  | lastSelect => exact h
  | remove sid => exact h.unregister hmay.1 hmay.2

def discipline (cmds : Pid → Option CmdConsoleOpen) : Discipline machine where
  inv := Inv
  may := May cmds
  ok := Apart
  keeps hinv hen hmay hok := hinv.step hen hmay hok

/-! ## The programs -/

section Programs

variable {cmds : Pid → Option CmdConsoleOpen} {me : Pid} {sid : String} {α : Type}

/-- The task of the session id has come so far. -/
def At (me : Pid) (sid : String) (st : Stage) (s : State) : Prop :=
  s.tasks.lookup me = some sid ∧ s.stage me = st

/-- What a step of a task leaves of the others. -/
structure Frame (p : Pid) (e : Act) (s s' : State) : Prop where
  stage : ∀ q ≠ p, s'.stage q = s.stage q
  tasks : ∀ q, s'.tasks.lookup q = s.tasks.lookup q ∨
    ∃ cmd, e = .dispatch q (.consoleOpen cmd) ∧ s'.tasks.lookup q = some cmd.sessionId

theorem frame_step (s : State) (p : Pid) (i : Input) (e : Act) : Frame p e s (s.step p i e) := by
  have hsame : Frame p e s s := ⟨fun _ _ => rfl, fun _ => .inl rfl⟩
  have hstage : ∀ st q, q ≠ p → Function.update s.stage p st q = s.stage q :=
    fun _ _ hne => Function.update_of_ne hne ..
  cases e with
  | dispatch task frame =>
    cases frame with
    | consoleOpen cmd =>
      refine { hsame with tasks := fun q => ?_ }
      by_cases hq : q = task
      · exact .inr ⟨cmd, by rw [hq], hq ▸ AList.lookup_insert _⟩
      · exact .inl (AList.lookup_insert_ne hq)
    | consoleResize sid cols rows =>
      rw [State.step, State.handle]
      split <;> exact { hsame with }
    | _ => exact { hsame with }
  | start id =>
    rw [State.step]
    split
    · exact hsame
    · exact { hsame with stage := hstage _ }
  | openConsole sid id size =>
    rw [State.step]
    split <;> exact { hsame with stage := hstage _ }
  | send up =>
    rw [State.step]
    split <;> exact { hsame with }
  | containsKey sid | insert sid | remove sid => exact { hsame with stage := hstage _ }
  | _ => exact { hsame with }

theorem lookup_step {s : State} {p q : Pid} {i : Input} {e : Act} (hmay : May cmds p e s)
    (hq : s.tasks.lookup q = some sid) : (s.step p i e).tasks.lookup q = some sid := by
  obtain heq | ⟨cmd, rfl, -⟩ := (frame_step s p i e).tasks q
  · exact heq.trans hq
  · cases (hmay.2.2 cmd rfl).1.symm.trans hq

instance stable_at (st : Stage) : Stable (discipline cmds) me (At me sid st) :=
  .of_step fun hs hne _ _ hmay _ =>
    ⟨lookup_step hmay hs.1, ((frame_step ..).stage me hne.symm).trans hs.2⟩

variable (cmds me) in
/-- Hoare triples of the task. -/
abbrev Does (P : State → Prop) (x : Code α) (Q : α → State → Prop) : Prop :=
  Triple (discipline cmds) (May cmds) me P x Q

/-- An action that is always permitted and does not change how far the task is. -/
def Idle (e : Act) : Prop :=
  match e with
  | .send _ | .select | .lastSelect => True
  | _ => False

theorem triple_idle {st : Stage} {x : Code α} (h : x.Uses Idle) :
    Does cmds me (At me sid st) x (fun _ => At me sid st) := by
  refine .of_uses (h.mono fun e he s i _ hs _ _ => ?_)
  cases e with
  | send up =>
    refine ⟨trivial, ?_⟩
    show At me sid st (s.step me i (.send up))
    rw [State.step]
    split <;> exact hs
  | select => exact ⟨trivial, hs⟩
  | lastSelect => exact ⟨trivial, hs⟩
  | _ => exact False.elim he

theorem idle_event (kind : EventType) (reason : String) : (event sid kind reason).Uses Idle :=
  .bind (.perform trivial) fun _ => trivial

theorem idle_relay (n : Nat) : (relay sid n).Uses Idle := by
  induction n with
  | zero => exact .perform trivial
  | succ n ih =>
    refine .bind (.perform trivial) fun ready => ?_
    match ready with
    | .cancelled => trivial
    | .output none => trivial
    | .output (some data) =>
      refine .bind (.perform trivial) fun sent => ?_
      split
      · exact ih
      · trivial

theorem triple_advance {st : Stage} {g : α → Stage} {e : Act} {f : Pid → State → Input → α}
    (hmay : ∀ s, At me sid st s → May cmds me e s)
    (hstage : ∀ s i, (s.step me i e).stage me = g (f me s i) ∨
      ((s.step me i e).stage me = s.stage me ∧ g (f me s i) = st)) :
    Does cmds me (At me sid st) (Prog.perform e f) (fun a => At me sid (g a)) := by
  refine .perform fun s i _ hs _ _ => ?_
  refine ⟨hmay s hs, lookup_step (hmay s hs) hs.1, ?_⟩
  obtain h | ⟨h, heq⟩ := hstage s i
  · exact h
  · rw [heq]
    exact h.trans hs.2

theorem triple_serve (n : Nat) :
    Does cmds me (At me sid .attached) (serve sid n) (fun _ => At me sid .finished) := by
  have hinsert : Does cmds me (At me sid .attached) (Prog.run (.insert sid))
      (fun _ => At me sid .registered) :=
    triple_advance (fun _ hs => hs) fun _ _ => .inl (Function.update_self ..)
  have hremove : Does cmds me (At me sid .registered) (Prog.run (.remove sid))
      (fun _ => At me sid .finished) :=
    triple_advance (fun _ hs => hs) fun _ _ => .inl (Function.update_self ..)
  refine hinsert.bind fun _ => (triple_idle (idle_event _ _)).bind fun _ => ?_
  refine (triple_idle (idle_relay n)).bind fun reason => hremove.bind fun _ => ?_
  exact triple_idle (idle_event _ _)

theorem triple_connect (cmd : CmdConsoleOpen) (id : VmId) (n : Nat) :
    Does cmds me (At me cmd.sessionId .spawned) (connect cmd id n)
      (fun _ => At me cmd.sessionId .finished) := by
  refine .bind (R := fun known =>
    At me cmd.sessionId (if known = true then .finished else .checked))
    ?_ fun known => ?_
  · exact triple_advance (g := fun known => if known = true then .finished else .checked)
      (fun _ hs => hs) fun _ _ => .inl (Function.update_self ..)
  · cases known with
    | true => exact triple_idle (idle_event _ _)
    | false =>
      refine .bind (R := fun r : Except String Unit =>
        At me cmd.sessionId (if r.isOk then .attached else .finished)) ?_ fun r => ?_
      · refine triple_advance
          (g := fun r : Except String Unit => if r.isOk then .attached else .finished)
          (fun _ hs => hs) fun s i => .inl ?_
        rw [State.step]
        cases i.fail with
        | some e => exact Function.update_self ..
        | none => exact Function.update_self ..
      · cases r with
        | error e => exact triple_idle (idle_event _ _)
        | ok _ => exact triple_serve n

/-- The task has not run yet; it will be spawned for the session id. -/
def Waiting (me : Pid) (sid : String) (s : State) : Prop :=
  s.stage me = .spawned ∧ ∀ sid', s.tasks.lookup me = some sid' → sid' = sid

theorem stable_waiting {cmd : CmdConsoleOpen} (hcmd : cmds me = some cmd) :
    Stable (discipline cmds) me (Waiting me cmd.sessionId) := by
  refine .of_step fun {s p e i} hs hne _ _ hmay _ => ?_
  refine ⟨((frame_step s p i e).stage me hne.symm).trans hs.1, fun sid' hsid' => ?_⟩
  obtain heq | ⟨cmd', rfl, heq⟩ := (frame_step s p i e).tasks me
  · exact hs.2 sid' (heq.symm.trans hsid')
  · cases hcmd.symm.trans (hmay.2.2 cmd' rfl).2
    exact (Option.some.inj (heq.symm.trans hsid')).symm

theorem triple_run (uuid : UuidReader) {cmd : CmdConsoleOpen} (hcmd : cmds me = some cmd)
    (n : Nat) :
    Does cmds me (Waiting me cmd.sessionId) (run uuid cmd n)
      (fun _ => At me cmd.sessionId .finished) := by
  have := stable_waiting hcmd
  refine .bind (R := fun _ => At me cmd.sessionId
    (if (VmId.parse uuid cmd.vmId).toOption.isSome then .spawned else .finished)) ?_ fun _ => ?_
  · refine .perform fun s i _ hs hen _ => ⟨hs.1, ?_⟩
    obtain ⟨sid', htask⟩ := Option.isSome_iff_exists.mp
      (show (s.tasks.lookup me).isSome = true from hen)
    have hlookup : s.tasks.lookup me = some cmd.sessionId := hs.2 sid' htask ▸ htask
    rw [machine_apply, State.step]
    split
    · exact ⟨hlookup, hs.1⟩
    · exact ⟨hlookup, Function.update_self ..⟩
  · cases VmId.parse uuid cmd.vmId with
    | error e => exact triple_idle (idle_event _ _)
    | ok id => exact triple_connect cmd id n

/-- The frames from `k` on have not spawned their tasks. -/
def Unspawned (k : Nat) (s : State) : Prop := ∀ p, k < p → s.tasks.lookup p = none

instance stable_unspawned (k : Nat) : Stable (discipline cmds) 0 (Unspawned k) where
  keep := by
    rintro s _ hs ⟨p, e, i, hne, -, -, hmay, -⟩ q hq
    obtain heq | ⟨cmd, rfl, -⟩ := (frame_step s p i e).tasks q
    · exact heq.trans (hs q hq)
    · exact absurd hmay.1 hne

theorem triple_receive {frames rest : List Down} {k : Nat} (hrest : frames.drop k = rest) :
    Does (spawns frames) 0 (Unspawned k) (receive k rest) (fun _ _ => True) := by
  induction rest generalizing k with
  | nil => exact .perform fun _ _ _ _ _ _ => ⟨trivial, trivial⟩
  | cons frame rest ih =>
    have hframe : frames[k]? = some frame := by
      rw [← List.head?_drop, hrest]
      rfl
    have hdrop : frames.drop (k + 1) = rest := by
      rw [← List.tail_drop, hrest]
      rfl
    refine .bind (R := fun _ => Unspawned (k + 1)) ?_ fun _ => ih hdrop
    refine .perform
      fun s i _ hs _ _ => ⟨⟨rfl, Nat.succ_ne_zero k, fun cmd hcmd => ?_⟩, fun q hq => ?_⟩
    · refine ⟨hs _ (Nat.lt_succ_self k), ?_⟩
      rw [spawns, hframe, hcmd]
    · obtain heq | ⟨cmd, he, -⟩ := (frame_step s 0 i (.dispatch (k + 1) frame)).tasks q
      · exact heq.trans (hs q (by omega))
      · cases he
        exact absurd hq (Nat.lt_irrefl _)

theorem stable_never (hcmd : cmds me = none) :
    Stable (discipline cmds) me (fun s => s.tasks.lookup me = none) := by
  refine .of_step fun {s p e i} hs _ _ _ hmay _ => ?_
  obtain heq | ⟨cmd, rfl, -⟩ := (frame_step s p i e).tasks me
  · exact heq.trans hs
  · cases hcmd.symm.trans (hmay.2.2 cmd rfl).2

end Programs

/-- A task that has returned has ended its session. -/
def Done (p : Pid) (_ : Unit) (s : State) : Prop :=
  p ≠ 0 → (s.tasks.lookup p).isSome = true → s.stage p = .finished

theorem inv_empty : Inv {} where
  stream := rfl
  fits _ := ⟨fun _ => rfl, rfl, ⟨nofun, fun h => (by cases h.1)⟩, nofun⟩
  one h := by cases h

variable {uuid : UuidReader}

theorem safe_pool (frames : List Down) (outputs : Pid → Nat) :
    (pool uuid frames outputs).Safe (discipline (spawns frames)) Done := by
  refine ⟨inv_empty, fun p => ?_⟩
  by_cases hp : p = 0
  · subst hp
    have hstream := triple_receive (show frames.drop 0 = frames from rfl) {} fun _ _ => rfl
    exact hstream.mono fun _ _ _ _ hne => absurd rfl hne
  · show Safe _ _ p _ (if p = 0 then _ else _) _
    rw [if_neg hp]
    cases hcmd : spawns frames p with
    | none =>
      have := stable_never hcmd
      refine Triple.ret (P := fun s : State => s.tasks.lookup p = none) ?_ {} rfl
      intro s _ hs _ hsome
      rw [hs] at hsome
      cases hsome
    | some cmd =>
      have htask := triple_run uuid hcmd (outputs p) {} ⟨rfl, nofun⟩
      exact htask.mono fun _ _ _ hover _ _ => hover.2

/-- In every interleaving of the stream and the tasks of its frames that keeps them `Apart`: a
session id has one terminal, and once the tasks have come to rest, a closed session has none. -/
theorem one_terminal_until_closed {frames : List Down} {outputs : Pid → Nat}
    {P : Pool State Input Act} (hrun : Pool.Run machine Apart (pool uuid frames outputs) P) :
    Proper P.mem ∧ (Settled P → ∀ p ∈ P.mem.closed, P.mem.terminals p = none) := by
  have hsafe := Pool.run_safe (safe_pool frames outputs) hrun
  have hinv : Inv P.mem := hsafe.inv
  refine ⟨hinv.proper, fun hsettled p hclosed => ?_⟩
  by_contra hattached
  have hfits := hinv.fits p
  obtain hover | ⟨hstage, hcancelled⟩ := hfits.closing hclosed
  · have hterminal := hfits.terminal
    rw [hover] at hterminal
    exact hattached (Option.map_eq_none_iff.mp hterminal)
  have htask : (P.mem.tasks.lookup p).isSome = true := by
    rw [Option.isSome_iff_ne_none]
    intro hnone
    cases hstage.symm.trans (hfits.spawned hnone)
  have hne : p ≠ 0 := by
    rintro rfl
    rw [hinv.stream] at htask
    cases htask
  -- the task is not at its end, and nothing it could wait for is missing
  cases hproc : P.procs p with
  | ret a => cases hstage.symm.trans (hsafe.post hproc hne htask)
  | act e nx =>
    have hblocked := hsettled p hne e (hproc ▸ rfl)
    cases e with
    | start id => exact absurd (htask.symm.trans hblocked) (by decide)
    | lastSelect =>
      rw [enabled, hcancelled] at hblocked
      cases hblocked
    | _ => cases hblocked

instance (p : Pid) (e : Act) (s : State) (i : Input) : Decidable (Apart p e s i) := by
  unfold Apart
  split <;> infer_instance

def openShell : Down := .consoleOpen ⟨"00000000-0000-0000-0000-000000000001", "shell", 80, 24⟩

/-- The task `p` up to the terminal it attaches. -/
def attachMoves (p : Pid) : List (Pid × Input) := [(p, {}), (p, {}), (p, {})]

def serveMoves (p : Pid) : List (Pid × Input) := [(p, {}), (p, {})]

def streamMove : List (Pid × Input) := [(0, {})]

theorem settled_of_first {frames : List Down} {outputs : Pid → Nat} {P : Pool State Input Act}
    {ok : Pid → Act → State → Input → Prop}
    (hrun : Pool.Run machine ok (pool uuid frames outputs) P)
    (hspawns : ∀ p, spawns frames (p + 2) = none)
    (hfirst : ∀ e, (P.procs 1).next = some e → enabled e 1 P.mem = false) : Settled P := by
  intro p hp e he
  rcases p with _ | _ | p
  · exact absurd rfl hp
  · exact hfirst e he
  · have hreturned : ((pool uuid frames outputs).procs (p + 2)).next = none := by
      simp only [pool, hspawns]
      rfl
    cases (hrun.returned hreturned).symm.trans he

/-- The close frame comes after the session has been registered. -/
theorem closed_after_registration :
    ∃ P, Pool.Run machine Apart (pool .canonical [openShell, .consoleClose "shell"] fun _ => 0) P ∧
      P.mem.closed = [1] ∧ P.mem.sent =
        [.consoleEvent "shell" .connected "", .consoleEvent "shell" .disconnected ""] ∧
      Proper P.mem ∧ ∀ p ∈ P.mem.closed, P.mem.terminals p = none := by
  refine Pool.exists_run_imp (p := fun P => P.mem.closed = [1] ∧ P.mem.sent =
      [.consoleEvent "shell" .connected "", .consoleEvent "shell" .disconnected ""] ∧
      P.procs 1 = .ret ())
    (streamMove ++ attachMoves 1 ++ serveMoves 1 ++ streamMove ++ attachMoves 1) (by decide +kernel)
    fun P hrun ⟨hclosed, hsent, hret⟩ => ?_
  obtain ⟨hproper, hdetached⟩ := one_terminal_until_closed hrun
  refine ⟨hclosed, hsent, hproper, hdetached (settled_of_first hrun ?_ ?_)⟩
  · intro p
    cases p <;> rfl
  · intro e he
    rw [hret] at he
    cases he

/-- Two tasks of one id pass the check before one of them is registered; and a close frame that
comes before the registration leaves a terminal that nothing detaches. -/
theorem shells_collide_and_stay :
    (∃ P, Pool.Run machine anyStep (pool .canonical [openShell, openShell] fun _ => 0) P ∧
      P.mem.Attached "shell" 1 ∧ P.mem.Attached "shell" 2) ∧
    ∃ P, Pool.Run machine anyStep
        (pool .canonical [openShell, .consoleClose "shell"] fun _ => 0) P ∧
      1 ∈ P.mem.closed ∧ Settled P ∧ P.mem.Attached "shell" 1 := by
  constructor
  · refine Pool.exists_run_imp (p := fun P => P.mem.terminals 1 = some { sid := "shell" } ∧
        P.mem.terminals 2 = some { sid := "shell" })
      (streamMove ++ streamMove ++ attachMoves 1 ++ attachMoves 2) (by decide +kernel)
      fun P _ ⟨hone, htwo⟩ => ⟨⟨_, hone, rfl⟩, ⟨_, htwo, rfl⟩⟩
  · obtain ⟨P, hrun, hP⟩ : ∃ P, Pool.Run machine anyStep
        (pool .canonical [openShell, .consoleClose "shell"] fun _ => 0) P ∧
          (P.mem.closed, P.mem.terminals 1, (P.procs 1).next, enabled .lastSelect 1 P.mem) =
            ([1], some { sid := "shell" }, some .lastSelect, false) :=
      Pool.exists_run_eq (f := fun P : Pool State Input Act =>
          (P.mem.closed, P.mem.terminals 1, (P.procs 1).next, enabled .lastSelect 1 P.mem))
        (streamMove ++ streamMove ++ attachMoves 1 ++ serveMoves 1) rfl
    simp only [Prod.mk.injEq] at hP
    obtain ⟨hclosed, hterminal, hnext, hblocked⟩ := hP
    refine ⟨P, hrun, hclosed ▸ List.mem_singleton_self 1, settled_of_first hrun ?_ ?_,
      ⟨_, hterminal, rfl⟩⟩
    · intro p
      cases p <;> rfl
    · intro e he
      cases hnext.symm.trans he
      exact hblocked

end RunmanAgent.Console
