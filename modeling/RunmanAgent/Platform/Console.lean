import RunmanAgent.Concurrency.Discipline
import RunmanAgent.Wg.Binding

/-!
# Console sessions of one platform stream (`src/platform/console.rs`)

The receive loop handles the frames of the platform one after the other. An open frame spawns a
task, which attaches a terminal, registers it under the session id and relays its output until
it is cancelled or the terminal ends. The other frames only look at the registered sessions.

A terminal is attached while a sender of its input is held: by its task until it is registered,
then by the entry in the table. Dropping the sender tells the backend to detach. Beside that the
state keeps how far each task has come, and which open frames were followed by a close frame of
the same id.
-/

namespace RunmanAgent.Console

open Concurrency

abbrev Bytes := List UInt8

structure ConsoleSize where
  cols : Nat
  rows : Nat
deriving DecidableEq

def ConsoleSize.new (cols rows : Nat) : Option ConsoleSize :=
  if 0 < cols ∧ cols < 2 ^ 16 ∧ 0 < rows ∧ rows < 2 ^ 16 then some ⟨cols, rows⟩ else none

structure CmdConsoleOpen where
  vmId : String
  sessionId : String
  cols : Nat
  rows : Nat

/-- What the platform sends. -/
inductive Down where
  | consoleOpen (cmd : CmdConsoleOpen)
  | consoleInput (sid : String) (data : Bytes)
  | consoleResize (sid : String) (cols rows : Nat)
  | consoleClose (sid : String)
  /-- A frame that is not about consoles. -/
  | other

inductive EventType where
  | connected
  | disconnected
  | error
deriving DecidableEq

/-- What the agent sends. -/
inductive Up where
  | consoleOutput (sid : String) (data : Bytes)
  | consoleEvent (sid : String) (type : EventType) (reason : String)
deriving DecidableEq

/-! ## State and actions -/

/-- How far the task of an open frame has come. -/
inductive Stage where
  | spawned
  | checked
  | attached
  | registered
  | finished
deriving DecidableEq

structure Terminal where
  sid : String
  received : List Bytes := []
  sizes : List ConsoleSize := []
deriving DecidableEq

/-- Tasks, terminals and cancellation tokens go by the program of the task. -/
structure State where
  /-- The table of the sessions: whose terminal it is. -/
  sessions : String → Option Pid := fun _ => none
  /-- The terminals whose input is held. -/
  terminals : Pid → Option Terminal := fun _ => none
  cancelled : Pid → Bool := fun _ => false
  /-- The token `all`, of which the others are children. -/
  all : Bool := false
  sent : List Up := []
  /-- The tasks that have been spawned, and for which session id. -/
  tasks : AList (fun _ : Pid => String) := ∅
  stage : Pid → Stage := fun _ => .spawned
  /-- The tasks whose open frame was followed by a close frame of the same id. -/
  closed : List Pid := []

inductive Act where
  /-- The receive loop handles a frame; an open frame spawns `task`. -/
  | dispatch (task : Pid) (frame : Down)
  | closeAll
  /-- The task runs for the first time and parses the id of the instance. -/
  | start (id : Option VmId)
  | containsKey (sid : String)
  | openConsole (sid : String) (id : VmId) (size : Option ConsoleSize)
  | insert (sid : String)
  | send (up : Up)
  | select
  /-- The `select!` of a terminal from which nothing more will come by itself. -/
  | lastSelect
  | remove (sid : String)

structure Input where
  fail : Option String := none
  /-- The channel of the terminal is full or closed. -/
  full : Bool := false
  /-- Which of the branches that are ready `select!` takes. -/
  takeCancelled : Bool := false
  /-- What `io.output.recv()` returns. -/
  output : Option Bytes := none

namespace State

variable (s : State)

/-- A terminal is attached under the session id. -/
def Attached (sid : String) (p : Pid) : Prop := ∃ t, s.terminals p = some t ∧ t.sid = sid

def isCancelled (p : Pid) : Bool := s.cancelled p || s.all

/-- The tasks that were spawned for the session id. -/
def opened (sid : String) : List Pid :=
  s.tasks.keys.filter fun p => s.tasks.lookup p = some sid

/-- The terminals after the entry of `sid` has been dropped. -/
def detach (sid : String) : Pid → Option Terminal :=
  match s.sessions sid with
  | some q => Function.update s.terminals q none
  | none => s.terminals

/-- The terminals after `try_send` to the registered one. -/
def trySend (sid : String) (i : Input) (f : Terminal → Terminal) : Pid → Option Terminal :=
  match s.sessions sid with
  | some q => if i.full then s.terminals else Function.update s.terminals q ((s.terminals q).map f)
  | none => s.terminals

def handle (task : Pid) (i : Input) : Down → State
  | .consoleOpen cmd => { s with tasks := s.tasks.insert task cmd.sessionId }
  | .consoleInput sid data =>
    { s with terminals := s.trySend sid i fun t => { t with received := t.received ++ [data] } }
  | .consoleResize sid cols rows =>
    match ConsoleSize.new cols rows with
    | some size =>
      { s with terminals := s.trySend sid i fun t => { t with sizes := t.sizes ++ [size] } }
    | none => s
  | .consoleClose sid =>
    { s with
      cancelled := match s.sessions sid with
        | some q => Function.update s.cancelled q true
        | none => s.cancelled
      closed := s.opened sid ++ s.closed }
  | .other => s

def step (p : Pid) (i : Input) : Act → State
  | .dispatch task frame => s.handle task i frame
  | .closeAll => { s with all := true }
  | .start id => if id.isSome then s else { s with stage := Function.update s.stage p .finished }
  | .containsKey sid =>
    { s with
      stage := Function.update s.stage p (if (s.sessions sid).isSome then .finished else .checked) }
  | .openConsole sid _ _ =>
    if i.fail.isSome then { s with stage := Function.update s.stage p .finished }
    else { s with
      terminals := Function.update s.terminals p (some { sid := sid })
      stage := Function.update s.stage p .attached }
  | .insert sid =>
    { s with
      sessions := Function.update s.sessions sid (some p)
      terminals := s.detach sid
      stage := Function.update s.stage p .registered }
  | .send up => if i.fail.isSome then s else { s with sent := s.sent ++ [up] }
  | .select | .lastSelect => s
  | .remove sid =>
    { s with
      sessions := Function.update s.sessions sid none
      terminals := s.detach sid
      stage := Function.update s.stage p .finished }

end State

/-- A task has to be spawned first. The output of a terminal ends after its input has been
dropped. -/
def enabled (e : Act) (p : Pid) (s : State) : Bool :=
  match e with
  | .start _ => (s.tasks.lookup p).isSome
  | .lastSelect => s.isCancelled p || (s.terminals p).isNone
  | _ => true

def machine : Machine State Input Act where
  enabled := enabled
  apply e p s i := s.step p i e

@[simp] theorem machine_apply (e : Act) (p : Pid) (s : State) (i : Input) :
    machine.apply e p s i = s.step p i e := rfl

/-! ## The task of an open frame -/

abbrev Code := Prog State Input Act

def send (up : Up) : Code Bool := .perform (.send up) fun _ _ i => i.fail.isNone

def event (sid : String) (kind : EventType) (reason : String) : Code Unit := do
  let _ ← send (.consoleEvent sid kind reason)
  pure ()

inductive Ready where
  | cancelled
  | output (chunk : Option Bytes)

def select : Code Ready :=
  .perform .select fun p s i =>
    if i.takeCancelled && s.isCancelled p then .cancelled else .output i.output

/-- The loop of `run`, for a terminal from which at most `n` more chunks come. -/
def relay (sid : String) : Nat → Code (Option String)
  | 0 => .perform .lastSelect fun p s _ => if s.isCancelled p then none else some ""
  | n + 1 => do
    match ← select with
    | .cancelled => pure none
    | .output none => pure (some "")
    | .output (some data) => do
      if ← send (.consoleOutput sid data) then relay sid n else pure none

/-- The part of `run` after the terminal has been attached. -/
def serve (sid : String) (n : Nat) : Code Unit := do
  Prog.run (.insert sid)
  event sid .connected ""
  let reason ← relay sid n
  Prog.run (.remove sid)
  event sid .disconnected (reason.getD "")

def openConsole (sid : String) (id : VmId) (size : Option ConsoleSize) :
    Code (Except String Unit) :=
  .perform (.openConsole sid id size) fun _ _ i =>
    match i.fail with
    | some e => .error e
    | none => .ok ()

/-- The part of `run` with a valid instance id. -/
def connect (cmd : CmdConsoleOpen) (id : VmId) (n : Nat) : Code Unit := do
  let sid := cmd.sessionId
  let known ← Prog.perform (.containsKey sid) fun _ s _ => (s.sessions sid).isSome
  if known = true then event sid .error "duplicate session_id"
  else do
    match ← openConsole sid id (ConsoleSize.new cmd.cols cmd.rows) with
    | .error e => event sid .error e
    | .ok () => serve sid n

variable (uuid : UuidReader)

def run (cmd : CmdConsoleOpen) (n : Nat) : Code Unit := do
  Prog.run (.start (VmId.parse uuid cmd.vmId).toOption)
  match VmId.parse uuid cmd.vmId with
  | .error e => event cmd.sessionId .error e
  | .ok id => connect cmd id n

/-! ## The stream -/

/-- The receive loop: the frame with number `k` spawns the task `k + 1`. -/
def receive : Nat → List Down → Code Unit
  | _, [] => Prog.run .closeAll
  | k, frame :: frames => do
    Prog.run (.dispatch (k + 1) frame)
    receive (k + 1) frames

/-- The command of the task `k + 1`, if the frame with number `k` opens a console. -/
def spawns (frames : List Down) : Pid → Option CmdConsoleOpen
  | 0 => none
  | k + 1 =>
    match frames[k]? with
    | some (.consoleOpen cmd) => some cmd
    | _ => none

/-- The stream and the tasks of its open frames; `outputs` says how much comes from each
terminal. -/
def pool (frames : List Down) (outputs : Pid → Nat) : Pool State Input Act where
  mem := {}
  procs p :=
    if p = 0 then receive 0 frames
    else match spawns frames p with
      | some cmd => run uuid cmd (outputs p)
      | none => .ret ()

end RunmanAgent.Console
