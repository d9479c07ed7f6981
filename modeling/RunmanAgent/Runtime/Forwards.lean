import RunmanAgent.Runtime.Store

/-!
# Port forwards and the host ruleset (`src/runtime/mod.rs`, `src/backend.rs`)

The table of port forwards exists three times: in memory, in `portforwards.json` and,
resolved to addresses, in the host's ruleset. The forwards lock serializes changes of
the table and updates of the ruleset.
-/

namespace RunmanAgent

open Concurrency

namespace Runtime

/-- `Net::apply`: the ruleset is replaced in one step; with a public IPv6 prefix, the
routes are synchronised after that. -/
def netApply (rt : Runtime) (instances : List Port) (forwards : List Forward) : Agent Unit := do
  act (.nft ⟨instances, forwards⟩)
  match rt.net.v6 with
  | .subnet _ _ _ => helper "sync_v6_routes"
  | _ => pure ()

/-- The ports of the bridge, from the records. -/
def ports (records : List Record) (dedicated : VmId → List IpAddr) : List Port :=
  records.map fun r => { idx := r.idx, addrs := r.addrs, extra := dedicated r.id }

/-- Forwards of instances without a readable record are left out. Of two records with
one id the last counts. -/
def resolve (records : List Record) (forwards : List PortForward) : List Forward :=
  forwards.filterMap fun f =>
    (records.reverse.find? (·.id = f.vmId)).map fun r =>
      { proto := f.proto, hostPort := f.hostPort, target := r.addrs.ipv4, guestPort := f.guestPort }

def applyNetwork (rt : Runtime) (forwards : List PortForward) : Agent Unit := do
  let recs ← records
  let dedicated ← Proc.read (.query .dedicated) fun _ w _ => w.dedicated
  rt.netApply (ports recs dedicated) (resolve recs forwards)

/-- Run code with the forwards lock held; it gets the table. -/
def withForwards {α : Type} (f : List PortForward → Agent α) : Agent α :=
  Proc.bracket (.acquire .forwards) (.release .forwards) do
    let forwards ← Proc.read (.query .forwards) fun _ w _ => w.forwards
    f forwards

def reconcileNetwork (rt : Runtime) : Agent Unit := withForwards rt.applyNetwork

end Runtime

def StoredForward.ofForward (f : PortForward) : StoredForward where
  vmId := f.vmId.asStr
  proto := f.proto.asStr
  hostPort := f.hostPort
  guestPort := f.guestPort
  description := f.description

def saveForwards (forwards : List PortForward) : Agent Unit :=
  act (.writeForwards (forwards.map .ofForward))

namespace Runtime

/-- The end of `add`, `remove` and `remove_all`: ruleset, file, memory. -/
def replaceForwards (rt : Runtime) (next : List PortForward) : Agent Unit := do
  rt.applyNetwork next
  saveForwards next
  act (.setForwards next)

/-- `add`, once the forwards lock is held. -/
def addLocked (rt : Runtime) (rule : PortForward) (forwards : List PortForward) :
    Agent Unit := do
  match forwards.find? fun f => f.proto = rule.proto ∧ f.hostPort = rule.hostPort with
  | some existing =>
    if existing.vmId = rule.vmId ∧ existing.guestPort = rule.guestPort then pure ()
    else Proc.fail (.portForwarded rule.hostPort rule.proto)
  | none =>
    let listening ← Proc.read (.query (.hostListening rule.proto rule.hostPort)) fun _ _ i =>
      i.flag
    if listening then Proc.fail (.portUsedByHost rule.hostPort rule.proto)
    else rt.replaceForwards (forwards ++ [rule])

def add (rt : Runtime) (rule : PortForward) : Agent Unit := do
  let _ ← require rule.vmId
  withForwards (rt.addLocked rule)

/-- `remove` and `remove_all`, once the forwards lock is held: keep the rules that pass
`keep`. -/
def retainLocked (rt : Runtime) (keep : PortForward → Bool) (forwards : List PortForward) :
    Agent Unit :=
  let next := forwards.filter keep
  if next.length = forwards.length then pure () else rt.replaceForwards next

def remove (rt : Runtime) (id : VmId) (proto : L4Proto) (hostPort : Nat) : Agent Unit :=
  withForwards <| rt.retainLocked fun f =>
    !(decide (f.vmId = id) && decide (f.proto = proto) && decide (f.hostPort = hostPort))

def removeAll (rt : Runtime) (id : VmId) : Agent Unit :=
  withForwards <| rt.retainLocked fun f => decide (f.vmId ≠ id)

end Runtime

def listForwards (id : Option VmId) : Agent (List PortForward) :=
  Runtime.withForwards fun forwards =>
    pure (forwards.filter fun f => match id with
      | none => true
      | some id => decide (f.vmId = id))

/-! ## The limit per instance -/

/-- A rule identical to an existing one is a replay, not a new rule. -/
def checkForwardLimit (existing : List PortForward) (rule : PortForward) (max : Nat) :
    Except Err Unit :=
  if max = 0 ∨ rule ∈ existing then .ok ()
  else
    let count := (existing.filter fun f => f.vmId = rule.vmId).length
    if max ≤ count then .error (.forwardLimit rule.vmId count max) else .ok ()

/-- `LimitedForwards::add`. -/
def limitedAdd (rt : Runtime) (rule : PortForward) : Agent Unit :=
  Proc.bracket (.acquire .adding) (.release .adding) do
    let existing ← listForwards (some rule.vmId)
    let max ← Proc.read (.query .maxForwards) fun _ _ i => i.now
    Proc.lift (checkForwardLimit existing rule max)
    rt.add rule

end RunmanAgent
