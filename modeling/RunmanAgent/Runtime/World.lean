import RunmanAgent.Concurrency.Prog
import RunmanAgent.Runtime.Supervisor
import RunmanAgent.Traffic

/-!
# State and atomic actions of the agent and its host

`World` is what the agent's tasks share: the instance directories, the port-forward
table in memory and on disk, the host's units, interfaces and ruleset, the locks.
`Act` lists the atomic actions on it: one system call, helper process, lock operation or
access to shared memory each. A `Query` is an action that only reads.

Every action takes an `Oracle`: whether it fails and with which text, and what it reads
that is not part of the state (the clock, a new UUID, the order of a directory listing).
An action that fails changes nothing. `write_atomic` is one action: it writes a temporary
file and renames it.

`Act.host` is what happens outside the agent: the steps of the supervisors, interfaces
that vanish, files that become unreadable, changes of the configuration.
-/

namespace RunmanAgent

open Concurrency

/-! ## State -/

/-- A file that was written with `value`; it may have become unreadable since. -/
structure File (α : Type) where
  value : α
  readable : Bool := true

/-- `disk.img`: its size, and the root password it was prepared with. -/
structure Disk where
  sizeGb : Nat
  rootPassword : Option String
  deriving DecidableEq

/-- `<data>/instances/<id>/`. -/
structure InstanceDir where
  record : Option (File Record) := none
  runtime : Option RunSpec := none
  traffic : Option Traffic := none
  disk : Option Disk := none
  /-- The record that was removed from the directory; no function reads it. -/
  lost : Option Record := none

/-- The record last written to the directory, also when it is gone. -/
def InstanceDir.lastRecord (d : InstanceDir) : Option Record :=
  (d.record.map (·.value)).or d.lost

/-- The files of an instance directory. -/
inductive DirFile where
  | record
  | runtime
  | traffic
  | disk
  deriving DecidableEq

/-- Host end of a veth pair. -/
structure Link where
  master : Option String := none
  isolated : Bool := false
  up : Bool := false
  ifindex : Nat := 0
  rx : Nat := 0
  tx : Nat := 0
  deriving DecidableEq

inductive LockId where
  /-- `Runtime::vm_locks`. -/
  | vm (id : VmId)
  /-- `CommandRunner::vm_locks`. -/
  | cmd (id : VmId)
  | alloc
  | forwards
  /-- `LimitedForwards::adding`. -/
  | adding
  | schedule
  deriving DecidableEq

/-- What a create in progress has in its variable `carried`. -/
inductive Frame where
  /-- Creation time and counters of the instance it replaces. -/
  | carried (created : Nat) (t : Traffic)
  /-- There was no record: nothing to carry over. -/
  | fresh
  deriving DecidableEq

/-- Why a record is written. -/
inductive Change where
  | create
  | desired (d : Desired)
  | refresh
  | quarantine (on : Bool)
  | fillGeneration
  | fillCreated
  deriving DecidableEq

/-- What the history of a run records; no modelled function reads it. -/
inductive Event where
  | acquired (p : Pid) (k : LockId)
  /-- systemd started the unit of `id`. -/
  | launched (p : Pid) (id : VmId)
  /-- A forced halt wrote `cgroup.kill`. -/
  | killed (id : VmId)
  /-- The supervisor released the init of `id`. -/
  | booted (id : VmId)
  | saved (p : Pid) (ch : Change) (rec : Record)
  | removed (p : Pid) (id : VmId)
  /-- A sample of `id` found that a new billing period has started. -/
  | rolled (id : VmId)
  /-- A command ended with this result. -/
  | replied (p : Pid) (r : Except Err Unit)

structure World where
  dirs : AList (fun _ : VmId => InstanceDir) := ∅
  /-- `portforwards.json`. -/
  forwardsJson : Option (List StoredForward) := none
  images : ImageStore := {}
  units : VmId → Option Supervisor := fun _ => none
  /-- `init.pid` exists. -/
  initPid : VmId → Bool := fun _ => false
  links : String → Option Link := fun _ => none
  ruleset : Option Ruleset := none
  forwards : List PortForward := []
  schedule : Schedule := {}
  /-- Traffic schedule of the live configuration, if there is one. -/
  config : Option Schedule := none
  dedicated : VmId → List IpAddr := fun _ => []
  locks : LockId → Option Pid := fun _ => none
  frames : VmId → Option Frame := fun _ => none
  /-- Newest event first. -/
  log : List Event := []

structure Oracle where
  fail : Option String := none
  now : Nat := 0
  flag : Bool := false
  text : String := ""
  names : List VmId := []
  files : List DirFile := []

namespace World

def recordFile (w : World) (id : VmId) : Option (File Record) :=
  (w.dirs.lookup id).bind (·.record)

/-- The record last written for `id`, readable or not. -/
def record (w : World) (id : VmId) : Option Record := (w.recordFile id).map (·.value)

/-- The record last written to the directory of `id`, as long as the directory exists. -/
def lastRecord (w : World) (id : VmId) : Option Record :=
  (w.dirs.lookup id).bind (·.lastRecord)

theorem lastRecord_of_record {w : World} {id : VmId} {rec : Record}
    (h : w.record id = some rec) : w.lastRecord id = some rec := by
  obtain ⟨f, hf, rfl⟩ := Option.map_eq_some_iff.mp h
  obtain ⟨d, hd, hrec⟩ := Option.bind_eq_some_iff.mp hf
  simp [lastRecord, hd, InstanceDir.lastRecord, hrec]

def trafficFile (w : World) (id : VmId) : Option Traffic :=
  (w.dirs.lookup id).bind (·.traffic)

/-- The counters as `load_traffic` returns them when it can read the file. -/
def traffic (w : World) (id : VmId) : Traffic := (w.trafficFile id).getD {}

def modifyDir (w : World) (id : VmId) (f : InstanceDir → InstanceDir) : World :=
  { w with dirs := match w.dirs.lookup id with
      | some d => w.dirs.insert id (f d)
      | none => w.dirs }

def addLog (w : World) (e : Event) : World := { w with log := e :: w.log }

end World

/-! ## Host -/

inductive HostEvent where
  /-- A step of the supervisor of `id`. -/
  | supervisor (id : VmId) (e : SupEvent)
  /-- systemd kills what is left of the unit. -/
  | unitKilled (id : VmId)
  /-- `instance.json` becomes unreadable, or readable again. -/
  | recordReadable (id : VmId) (readable : Bool)
  | linkLost (hif : String)
  | counters (hif : String) (ifindex rx tx : Nat)
  | images (s : ImageStore)
  | dedicated (d : VmId → List IpAddr)
  /-- The owner changes the traffic schedule. -/
  | config (s : Schedule)

namespace World

def modifyLink (links : String → Option Link) (hif : String) (f : Link → Link) :
    String → Option Link :=
  Function.update links hif ((links hif).map f)

/-- Whether a network command succeeds, as far as the state decides it. -/
def commandOk (w : World) : NetCmd → Bool
  | .linkDel hif => (w.links hif).isSome
  | .linkAdd hif _ => (w.links hif).isNone
  | .setMaster hif _ => (w.links hif).isSome
  | .setIsolated hif => (w.links hif).isSome
  | .setLink hif _ => (w.links hif).isSome
  | .other _ => true

/-- The interfaces after a network command. -/
def runCommand (links : String → Option Link) : NetCmd → String → Option Link
  | .linkDel hif => Function.update links hif none
  | .linkAdd hif _ => Function.update links hif (some {})
  | .setMaster hif bridge => modifyLink links hif fun l => { l with master := some bridge }
  | .setIsolated hif => modifyLink links hif fun l => { l with isolated := true }
  | .setLink hif up => modifyLink links hif fun l => { l with up := up }
  | .other _ => links

def command (w : World) (c : NetCmd) : World := { w with links := runCommand w.links c }

def setUnit (w : World) (id : VmId) (u : Option Supervisor) : World :=
  { w with units := Function.update w.units id u }

/-- What a supervisor's step does outside of it. -/
def effect (w : World) (id : VmId) : Effect → World
  | .none => w
  | .command c => w.command c
  | .boot => { w with initPid := Function.update w.initPid id true }.addLog (.booted id)
  | .removePid => { w with initPid := Function.update w.initPid id false }
  | .exit => w.setUnit id none

def effectOk (w : World) : Effect → Bool
  | .command c => w.commandOk c
  | _ => true

/-- `runtime.json`. -/
def runtimeJson (w : World) (id : VmId) : Option RunSpec :=
  (w.dirs.lookup id).bind (·.runtime)

/-- One step of the supervisor of `id`. A command that cannot succeed is no step: the
supervisor sees it fail. -/
def supervise (w : World) (id : VmId) (e : SupEvent) : World :=
  match w.units id with
  | none => w
  | some u =>
    let (u', eff) := u.step (w.runtimeJson id) e
    if w.effectOk eff then (w.setUnit id (some u')).effect id eff else w

def host (w : World) : HostEvent → World
  | .supervisor id e => w.supervise id e
  | .unitKilled id => w.setUnit id none
  | .recordReadable id r =>
    w.modifyDir id fun d => { d with record := d.record.map fun f => { f with readable := r } }
  | .linkLost hif => { w with links := Function.update w.links hif none }
  | .counters hif ifindex rx tx =>
    { w with links := modifyLink w.links hif fun l =>
        { l with ifindex := ifindex, rx := rx, tx := tx } }
  | .images s => { w with images := s }
  | .dedicated d => { w with dedicated := d }
  | .config s => { w with config := w.config.map fun _ => s }

end World

/-! ## Actions -/

/-- Actions that only read. -/
inductive Query where
  | isEnabled (image : String)
  | getImage (image : String)
  | unixNow
  | newUuid
  | load (id : VmId)
  | dirExists (id : VmId)
  | readDir
  /-- The order in which `remove_dir_all` meets the files of a directory. -/
  | listFiles (id : VmId)
  | loadTraffic (id : VmId)
  /-- `metadata(dir)`: the birth time of an instance directory. -/
  | born (id : VmId)
  | isActive (id : VmId)
  /-- Wait for the unit to go away: until it has, or a time limit passes. -/
  | waitInactive (id : VmId)
  /-- `systemctl stop` returns. -/
  | stopped (id : VmId)
  | initPid (id : VmId)
  | umount (id : VmId)
  | dedicated
  | forwards
  | hostListening (proto : L4Proto) (port : Nat)
  | maxForwards
  | counters (hif : String)
  | linkUp (hif : String)
  | master (hif : String)
  | schedule
  | config
  /-- A step of the host network setup, or a helper process, with no modelled effect. -/
  | helper (what : String)
  deriving DecidableEq

/-- Why counters are written. -/
inductive TrafficWrite where
  /-- A sample was folded in; `rolled` if it starts a new billing period. -/
  | sample (rolled : Bool)
  /-- The counters of the current period got the label of a new schedule. -/
  | relabel
  /-- A create writes back what it carried. -/
  | restore
  deriving DecidableEq

/-- Who runs a command on an interface. -/
inductive Caller where
  | heal
  | watcher
  deriving DecidableEq

inductive Act where
  | acquire (k : LockId)
  | release (k : LockId)
  | query (q : Query)
  /-- `carried = Some((old.created, self.load_traffic(id)))`, or `None`. -/
  | carry (id : VmId) (old : Option Record)
  | writeRecord (ch : Change) (rec : Record)
  | writeRuntime (id : VmId) (spec : RunSpec)
  | writeTraffic (why : TrafficWrite) (id : VmId) (t : Traffic)
  | mkdir (id : VmId)
  | makeDisk (id : VmId) (sizeGb : Nat)
  | prepareRoot (id : VmId) (password : String)
  | unlink (id : VmId) (f : DirFile)
  | rmdir (id : VmId)
  | removePid (id : VmId)
  | systemdRun (id : VmId)
  | killCt (id : VmId)
  /-- `systemctl stop`: the request. -/
  | terminate (id : VmId)
  | nft (rules : Ruleset)
  | writeForwards (stored : List StoredForward)
  | setForwards (next : List PortForward)
  | command (who : Caller) (c : NetCmd)
  | setSchedule (s : Schedule)
  | reply (r : Except Err Unit)
  | host (e : HostEvent)

/-- The instance whose record is read. -/
def Act.loads : Act → Option VmId
  | .query (.load id) => some id
  | _ => none

def enoent : Err := .io "No such file or directory (os error 2)"

/-- An error of the system call or the helper process itself. -/
def Oracle.check (i : Oracle) : Except Err Unit :=
  match i.fail with
  | some text => .error (.io text)
  | none => .ok ()

/-- `write_atomic` into an instance directory. -/
def World.checkWrite (w : World) (id : VmId) (i : Oracle) : Except Err Unit :=
  if (w.dirs.lookup id).isSome then i.check else .error enoent

def InstanceDir.isEmpty (d : InstanceDir) : Bool :=
  d.record.isNone && d.runtime.isNone && d.traffic.isNone && d.disk.isNone

/-- Whether an action succeeds. -/
def Act.check (w : World) (i : Oracle) : Act → Except Err Unit
  | .writeRecord _ rec => w.checkWrite rec.id i
  | .writeRuntime id _ => w.checkWrite id i
  | .writeTraffic _ id _ => w.checkWrite id i
  | .mkdir _ => i.check
  | .makeDisk _ _ => i.check
  | .prepareRoot _ _ => i.check
  | .unlink _ _ => i.check
  | .rmdir id =>
    match w.dirs.lookup id with
    | none => .error enoent
    | some d => if d.isEmpty then i.check else .error (.io "Directory not empty (os error 39)")
  | .systemdRun id =>
    if (w.units id).isSome then .error (.io "Unit was already loaded") else i.check
  | .terminate id => if (w.units id).isSome then i.check else .error (.io "Unit not loaded")
  | .nft _ => i.check
  | .writeForwards _ => i.check
  | .command _ c => if w.commandOk c then i.check else .error (.io "Cannot find device")
  | _ => .ok ()

def InstanceDir.unlink (d : InstanceDir) : DirFile → InstanceDir
  | .record => { d with record := none, lost := d.lastRecord }
  | .runtime => { d with runtime := none }
  | .traffic => { d with traffic := none }
  | .disk => { d with disk := none }

/-- What an action does when it succeeds. -/
def Act.perform (me : Pid) (w : World) (i : Oracle) : Act → World
  | .acquire k =>
    { w with locks := Function.update w.locks k (some me), log := .acquired me k :: w.log }
  | .release k =>
    -- a guard is dropped by its owner; with the lock of an instance, a create of it returns
    if w.locks k = some me then
      { w with locks := Function.update w.locks k none,
               frames := match k with
                 | .vm id => Function.update w.frames id none
                 | _ => w.frames }
    else w
  | .query _ => w
  | .carry id old =>
    let frame := match old with
      | some rec => .carried rec.created (if i.fail.isSome then {} else w.traffic id)
      | none => .fresh
    { w with frames := Function.update w.frames id (some frame) }
  | .writeRecord ch rec =>
    (w.modifyDir rec.id fun d => { d with record := some ⟨rec, true⟩ }).addLog (.saved me ch rec)
  | .writeRuntime id spec => w.modifyDir id fun d => { d with runtime := some spec }
  | .writeTraffic why id t =>
    { w.modifyDir id fun d => { d with traffic := some t } with
      frames := if why = .restore then Function.update w.frames id none else w.frames
      log := if why = .sample true then .rolled id :: w.log else w.log }
  | .mkdir id =>
    { w with dirs := if (w.dirs.lookup id).isSome then w.dirs else w.dirs.insert id {} }
  | .makeDisk id sizeGb => w.modifyDir id fun d => { d with disk := some ⟨sizeGb, none⟩ }
  | .prepareRoot id password =>
    w.modifyDir id fun d => { d with disk := d.disk.map fun k =>
      { k with rootPassword := some password } }
  | .unlink id f =>
    { w.modifyDir id (·.unlink f) with
      log := if f = .record ∧ (w.record id).isSome then .removed me id :: w.log else w.log }
  | .rmdir id => { w with dirs := w.dirs.erase id }
  | .removePid id => { w with initPid := Function.update w.initPid id false }
  | .systemdRun id => (w.setUnit id (some {})).addLog (.launched me id)
  | .killCt id =>
    { w.setUnit id ((w.units id).map (·.killCt)) with
      log := if (w.units id).isSome then .killed id :: w.log else w.log }
  | .terminate id =>
    w.setUnit id ((w.units id).map fun u => { u with term := true, stopping := true })
  | .nft rules => { w with ruleset := some rules }
  | .writeForwards stored => { w with forwardsJson := some stored }
  | .setForwards next => { w with forwards := next }
  | .command _ c => w.command c
  | .setSchedule s => { w with schedule := s }
  | .reply r => w.addLog (.replied me r)
  | .host e => w.host e

/-- Only taking a lock can block. -/
def Act.enabled (w : World) : Act → Bool
  | .acquire k => (w.locks k).isNone
  | _ => true

def Act.apply (e : Act) (me : Pid) (w : World) (i : Oracle) : World :=
  match e.check w i with
  | .ok _ => e.perform me w i
  | .error _ => w

/-- The agent and its host as a machine. -/
def agent : Machine World Oracle Act where
  enabled e _ w := e.enabled w
  apply := Act.apply

@[simp] theorem agent_apply (e : Act) (p : Pid) (w : World) (i : Oracle) :
    agent.apply e p w i = e.apply p w i := rfl

/-- Code of the agent. -/
abbrev Agent (α : Type) := Proc World Oracle Act Err α

end RunmanAgent
