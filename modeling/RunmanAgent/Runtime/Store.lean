import RunmanAgent.Runtime.World

/-!
# Instance directories (`src/runtime/mod.rs`)

Reading and writing the files of instances, and choosing an index for a new one. The
agent's code is written as `Agent` programs, one action per system call.
-/

namespace RunmanAgent

open Concurrency

/-! ## Actions as code -/

/-- An action that may fail. -/
def act (e : Act) : Agent Unit := Proc.perform e fun _ w i => e.check w i

/-- `let _ = …`. -/
def ignore {α : Type} (x : Agent α) : Agent Unit := do
  let _ ← x.attempt
  pure ()

/-- `if c { x }`. -/
def doIf (c : Bool) (x : Agent Unit) : Agent Unit := if c then x else pure ()

/-- `.context(text)`. -/
def context {α : Type} (text : String) (x : Agent α) : Agent α := x.mapErr (.context text)

/-- A system call or helper process of which only success or failure matters. -/
def helper (what : String) : Agent Unit :=
  Proc.perform (.query (.helper what)) fun _ _ i => i.check

def unixNow : Agent Nat := Proc.read (.query .unixNow) fun _ _ i => i.now

def newUuid : Agent String := Proc.read (.query .newUuid) fun _ _ i => i.text

/-- `bail!` unless the condition holds. -/
def ensure (cond : Bool) (e : Err) : Agent Unit := if cond then pure () else Proc.fail e

/-! ## Records -/

/-- The content of `instance.json`; `none` when there is no such file. -/
def World.readRecord (w : World) (id : VmId) (i : Oracle) : Except Err (Option Record) :=
  match i.fail, w.recordFile id with
  | some text, _ => .error (.io text)
  | none, none => .ok none
  | none, some f => if f.readable then .ok (some f.value) else .error (.io "unreadable record")

def load (id : VmId) : Agent (Option Record) :=
  Proc.perform (.query (.load id)) fun _ w i => w.readRecord id i

def require (id : VmId) : Agent Record := do
  match ← load id with
  | some rec => pure rec
  | none => Proc.fail (.instanceNotFound id)

/-- `Path::exists` on the instance directory. -/
def dirExists (id : VmId) : Agent Bool :=
  Proc.read (.query (.dirExists id)) fun _ w _ => (w.dirs.lookup id).isSome

namespace Runtime

def save (rt : Runtime) (ch : Change) (rec : Record) : Agent Unit := do
  act (.writeRecord ch rec)
  act (.writeRuntime rec.id (rt.runSpec rec))

end Runtime

/-- Names in the directory of instances, in some order. -/
def World.listDir (w : World) (i : Oracle) : List VmId :=
  if i.names.isPerm w.dirs.keys then i.names else w.dirs.keys

/-- The records of `ids` that can be read; the others are skipped with a warning. -/
def loadAll : List VmId → Agent (List Record)
  | [] => pure []
  | id :: ids => do
    let r ← (load id).attempt
    let rest ← loadAll ids
    match r with
    | .ok (some rec) => pure (rec :: rest)
    | .ok none => pure rest
    | .error _ => pure rest

def records : Agent (List Record) := do
  let names ← Proc.perform (.query .readDir) fun _ w i => do
    i.check
    pure (w.listDir i)
  loadAll names

/-- `allocate_idx`. -/
def allocateIdx (rt : Runtime) : Agent Nat := do
  let used ← records
  Proc.lift (rt.pickIdx (used.map (·.idx)))

/-! ## Traffic counters -/

/-- A file that cannot be read counts as empty counters. -/
def World.readTraffic (w : World) (id : VmId) (i : Oracle) : Traffic :=
  if i.fail.isSome then {} else w.traffic id

def loadTraffic (id : VmId) : Agent Traffic :=
  Proc.read (.query (.loadTraffic id)) fun _ w i => w.readTraffic id i

/-- `save_traffic`: a failure is only logged. -/
def saveTraffic (why : TrafficWrite) (id : VmId) (t : Traffic) : Agent Unit :=
  ignore (act (.writeTraffic why id t))

/-! ## Removal -/

def allFiles : List DirFile := [.record, .runtime, .traffic, .disk]

/-- `remove_dir_all`: one file after the other, then the directory. -/
def removeDirAll (id : VmId) : Agent Unit := do
  let files ← Proc.read (.query (.listFiles id)) fun _ _ i =>
    if i.files.isPerm allFiles then i.files else allFiles
  Proc.forEach (fun f => act (.unlink id f)) files
  act (.rmdir id)

/-- `Path::display`. -/
def displayPath : Path → String
  | "/" :: rest => "/" ++ String.intercalate "/" rest
  | p => String.intercalate "/" p

end RunmanAgent
