import RunmanAgent.Runtime.Watch

/-!
# Tasks of the agent (`src/main.rs`, `src/platform/commands.rs`)

`Op` lists the tasks that run concurrently in the agent: the operations of the platform
and the panel, the recovery, the periodic work, and the commands that hold the command
lock of an instance. `Op.host` is a sequence of things that happen on the host.
`agentPool` runs any number of them over one state; every interleaving of a pool is a
behaviour of the agent.
-/

namespace RunmanAgent

open Concurrency

inductive Op where
  /-- A task that does nothing. -/
  | idle
  /-- `create` and `reinstall`. -/
  | create (spec : InstanceSpec)
  | start (id : VmId)
  | stop (id : VmId) (force : Bool)
  | restart (id : VmId)
  | delete (id : VmId)
  | build (spec : InstanceSpec)
  | init
  | heal
  | sampleTraffic
  | noticeSchedule
  | quarantine (id : VmId) (generation project : String) (action : Runtime.QuarantineAction)
  /-- The command `DeleteVm`. -/
  | deleteVm (id : VmId)
  | setPortFwd (rule : PortForward)
  | delPortFwd (id : VmId) (proto : L4Proto) (hostPort : Nat)
  | host (events : List HostEvent)

/-- `Down::DeleteVm` of `CommandRunner::run`. -/
def Runtime.deleteVm (rt : Runtime) (id : VmId) : Agent Unit :=
  Proc.bracket (.acquire (.cmd id)) (.release (.cmd id)) do
    rt.delete id
    rt.removeAll id

/-- What happens on the host, one event after the other. -/
def hostEvents : List HostEvent → Prog World Oracle Act Unit
  | [] => .ret ()
  | e :: es => .act (.host e) fun _ _ _ => hostEvents es

/-- The code of an operation; its result goes to whoever asked for it. -/
def replying (x : Agent Unit) : Prog World Oracle Act Unit :=
  Prog.bind x fun r => Prog.run (.reply r)

def Op.prog (rt : Runtime) : Op → Prog World Oracle Act Unit
  | .idle => .ret ()
  | .create spec => replying (rt.create spec)
  | .start id => replying (rt.start id)
  | .stop id force => replying (rt.stop id force)
  | .restart id => replying (rt.restart id)
  | .delete id => replying (rt.delete id)
  | .build spec => replying (rt.runBuild spec)
  | .init => replying rt.init
  | .heal => replying rt.heal
  | .sampleTraffic => replying rt.sampleTraffic
  | .noticeSchedule => replying Runtime.noticeSchedule
  | .quarantine id generation project action => replying do
    let _ ← rt.watcherNetworkQuarantine id generation project action
    pure ()
  | .deleteVm id => replying (rt.deleteVm id)
  | .setPortFwd rule => replying (limitedAdd rt rule)
  | .delPortFwd id proto hostPort => replying (rt.remove id proto hostPort)
  | .host events => hostEvents events

/-- The tasks `ops`, at their start, over the state `w`. -/
def agentPool (rt : Runtime) (w : World) (ops : Pid → Op) : Pool World Oracle Act :=
  ⟨w, fun p => (ops p).prog rt⟩

/-! ## A small node

One image and one instance, for runs that are computed step by step. -/

namespace SmallNode

def rt : Runtime where
  data := ["/", "var", "lib", "runman-agent"]
  tun := false
  net := {
    bridge := "runman0", vethPrefix := "rmv", wgPrefix := "rmw", table := "runman"
    v4Base := 10 * 2 ^ 24, v4Len := 16, snat6Prefix := 0, v6 := .none, dns := [] }

def vmA : VmId := ⟨1⟩

def vmB : VmId := ⟨2⟩

def alpine : Image where
  id := "alpine"
  name := "Alpine"
  serial := "1"
  stopSignal := "SIGTERM"

def images : ImageStore where
  images := AList.singleton "alpine"
    { current := some "1", serials := AList.singleton "1" ⟨.ok alpine⟩ }

def spec (id : VmId) (osImage : String) : InstanceSpec where
  vmId := id
  cpu := 1
  ramMb := 128
  diskGb := 1
  bandwidthMbps := 0
  osImage := osImage
  rootPassword := "secret"

def recordA : Record :=
  Runtime.newRecord (spec vmA "alpine") false 7 alpine "g" 0 ⟨10 * 2 ^ 24 + 2, none⟩

/-- The counters of the instance. -/
def trafficA : Traffic where
  totalIn := 5
  totalOut := 5
  monthIn := 5
  monthOut := 5
  period := "1970-01"

/-- The directory of the instance; its record may be damaged. -/
def dirA (rec : Record) (readable : Bool) : InstanceDir where
  record := some ⟨rec, readable⟩
  runtime := some (rt.runSpec rec)
  traffic := some trafficA
  disk := some ⟨1, some "secret"⟩

def world (rec : Record) (readable : Bool) : World where
  dirs := AList.singleton vmA (dirA rec readable)
  images := images

theorem record_world (rec : Record) (readable : Bool) (id : VmId) :
    (world rec readable).record id = if id = vmA then some rec else none := by
  simp only [World.record, World.recordFile, world, AList.singleton, AList.lookup]
  by_cases hid : id = vmA
  · subst hid
    simp [dirA]
  · rw [List.dlookup_cons_ne _ _ hid]
    simp [hid]

theorem stored_world {rec : Record} (hid : rec.id = vmA) (readable : Bool) (id : VmId)
    (r : Record) (h : (world rec readable).record id = some r) : r.id = id := by
  rw [record_world] at h
  split at h
  · rename_i hv
    cases h
    exact hid.trans hv.symm
  · cases h

/-- The node with a supervisor of its instance. -/
def supervised (phase : Phase) : World :=
  { world recordA true with
    units := fun id =>
      if id = vmA then some { spec := some (rt.runSpec recordA), phase := phase } else none }

/-- The node without port forwards. -/
def unforwarded : World := { world recordA true with ruleset := some ⟨[], []⟩ }

def ssh : PortForward where
  vmId := vmA
  proto := .tcp
  hostPort := 2222
  guestPort := 22
  description := "ssh"

/-- A pool with one task. -/
def one (op : Op) : Pid → Op
  | 0 => op
  | _ => .idle

/-- A pool with two tasks. -/
def two (op op' : Op) : Pid → Op
  | 0 => op
  | 1 => op'
  | _ => .idle

/-- Nothing fails. -/
def calm : Oracle := {}

/-- A system call that fails. -/
def failing (text : String) : Oracle := { fail := some text }

/-- `n` steps of the task `p` in which nothing fails. -/
def steps (p : Pid) (n : Nat) : List (Pid × Oracle) := List.replicate n (p, calm)

/-- The tasks that have ended with success. -/
def succeeded (w : World) : List Pid :=
  w.log.filterMap fun e => match e with
    | .replied p (.ok _) => some p
    | _ => none

theorem replied_of_succeeded {w : World} {p : Pid} (h : p ∈ succeeded w) :
    .replied p (.ok ()) ∈ w.log := by
  obtain ⟨e, he, hp⟩ := List.mem_filterMap.mp h
  split at hp
  · cases hp
    exact he
  · cases hp

end SmallNode

end RunmanAgent
