import RunmanAgent.Runtime.Image
import RunmanAgent.Runtime.Net

/-!
# Instance records and launch descriptions (`src/runtime/spec.rs`, `src/runtime/mod.rs`)

`instance.json` holds the `Record` of an instance, `runtime.json` the `RunSpec` its
supervisor is started with.
-/

namespace RunmanAgent

/-- Size of every instance's UID/GID range. -/
def ID_RANGE : Nat := 65536

/-- First host UID used for instance ranges. -/
def ID_BASE : Nat := 1000000

/-- Highest instance index so the UID ranges stay below `2 ^ 32`. -/
def MAX_IDX : Nat := (2 ^ 32 - 1 - ID_BASE) / ID_RANGE - 1

inductive Desired where
  | running
  | stopped
  deriving DecidableEq

structure Record where
  id : VmId
  /-- Changes whenever an instance is replaced. Empty in records of older agents. -/
  generation : String
  idx : Nat
  cpu : Nat
  ramMb : Nat
  diskGb : Nat
  bandwidthMbps : Nat
  osImage : String
  /-- Image template this instance's overlay was built on. -/
  lower : Path
  stopSignal : String
  hostname : String
  addrs : Addrs
  desired : Desired
  networkQuarantined : Bool := false
  /-- Temporary instance building a custom image. -/
  builder : Bool := false
  /-- Unix time of the first create (kept across reinstalls); 0 in records of older
  agents. -/
  created : Nat := 0
  deriving DecidableEq

structure NetSpec where
  hostIf : String
  bridge : String
  mac : String
  /-- 0 = unlimited. -/
  bandwidthMbps : Nat
  /-- Keep the host-side veth administratively down across supervisor restarts. -/
  isolated : Bool
  deriving DecidableEq

structure RunSpec where
  id : VmId
  dir : Path
  lower : Path
  uidBase : Nat
  hostname : String
  stopSignal : String
  tun : Bool
  runDir : Path
  net : Option NetSpec
  cpus : Nat
  deriving DecidableEq

structure StoredForward where
  vmId : String
  proto : String
  hostPort : Nat
  guestPort : Nat
  description : String
  deriving DecidableEq

def hostnameFor (id : VmId) : String := "vps-" ++ String.ofList (id.asStr.toList.take 8)

/-- The part of `Runtime` that does not change while the agent runs. -/
structure Runtime where
  data : Path
  tun : Bool
  net : Net
  deriving DecidableEq

namespace Runtime

def dir (rt : Runtime) (id : VmId) : Path := rt.data ++ ["instances", id.asStr]

def runSpec (rt : Runtime) (rec : Record) : RunSpec where
  id := rec.id
  dir := rt.dir rec.id
  lower := rec.lower
  uidBase := ID_BASE + rec.idx * ID_RANGE
  hostname := rec.hostname
  stopSignal := rec.stopSignal
  tun := rt.tun
  runDir := ["/", "run", "runman-agent", rec.id.asStr]
  cpus := rec.cpu
  net := some {
    hostIf := rt.net.hostIf rec.idx
    bridge := rt.net.bridge
    mac := mac rec.idx
    bandwidthMbps := rec.bandwidthMbps
    isolated := rec.networkQuarantined }

/-- The first of `n` indexes from `i` on that is not used. -/
def firstFree (used : List Nat) : (i n : Nat) → Option Nat
  | _, 0 => none
  | i, n + 1 => if i ∈ used then firstFree used (i + 1) n else some i

/-- `allocate_idx`, given the indexes of the records that could be read. -/
def pickIdx (rt : Runtime) (used : List Nat) : Except Err Nat :=
  match firstFree used 0 (min MAX_IDX rt.net.maxIdx + 1) with
  | some i => .ok i
  | none => .error .noFreeSlot

theorem firstFree_not_mem {used : List Nat} {i n j : Nat} (h : firstFree used i n = some j) :
    j ∉ used := by
  induction n generalizing i with
  | zero => cases h
  | succ n ih =>
    simp only [firstFree] at h
    split at h
    · exact ih h
    · rename_i hi
      cases h
      exact hi

theorem pickIdx_not_mem {rt : Runtime} {used : List Nat} {i : Nat}
    (h : rt.pickIdx used = .ok i) : i ∉ used := by
  unfold pickIdx at h
  split at h
  · rename_i j hj
    cases h
    exact firstFree_not_mem hj
  · cases h

end Runtime

end RunmanAgent
