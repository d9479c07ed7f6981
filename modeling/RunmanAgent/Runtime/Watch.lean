import RunmanAgent.Runtime.Lifecycle

/-!
# Periodic and local-control work (`src/runtime/mod.rs`, `src/runtime/attach.rs`)

Traffic sampling and schedule changes, the repair of interfaces, and the network
quarantine of the watcher.
-/

namespace RunmanAgent

open Concurrency

namespace Runtime

/-! ## Traffic -/

/-- The counters of the current period with the label of the new schedule, if it is a
different one. -/
def relabelled (seen wanted : Schedule) (now created : Nat) (t : Traffic) : Option Traffic :=
  let old := seen.period created now
  let new := wanted.period created now
  if old ≠ new ∧ t.period = old then some { t with period := new } else none

def relabel (seen wanted : Schedule) (now : Nat) (rec : Record) : Agent Unit := do
  let t ← loadTraffic rec.id
  match relabelled seen wanted now rec.created t with
  | some t' => saveTraffic .relabel rec.id t'
  | none => pure ()

/-- `records().unwrap_or_default()`. -/
def recordsOrDefault : Agent (List Record) := do
  match ← records.attempt with
  | .ok recs => pure recs
  | .error _ => pure []

/-- The schedule in effect, switching to the configured one if it changed; the caller
holds the schedule lock. -/
def switchSchedule : Agent Schedule := do
  let seen ← Proc.read (.query .schedule) fun _ w _ => w.schedule
  match ← Proc.read (.query .config) fun _ w _ => w.config with
  | none => pure seen
  | some wanted =>
    if wanted ≠ seen then
      let now ← unixNow
      let recs ← recordsOrDefault
      Proc.forEach (relabel seen wanted now) recs
      act (.setSchedule wanted)
      pure wanted
    else pure seen

def withSchedule {α : Type} (f : Schedule → Agent α) : Agent α :=
  Proc.bracket (.acquire .schedule) (.release .schedule) do
    let schedule ← switchSchedule
    f schedule

/-- Interface index and byte counters, if the interface is there. -/
def readCounters (hif : String) : Agent (Option (Nat × Nat × Nat)) :=
  Proc.read (.query (.counters hif)) fun _ w i =>
    if i.fail.isSome then none else (w.links hif).map fun l => (l.ifindex, l.rx, l.tx)

/-- Fold the current counters of one instance into its totals. -/
def sampleOne (rt : Runtime) (schedule : Schedule) (now : Nat) (rec : Record) :
    Agent Unit := do
  let period := schedule.period rec.created now
  match ← readCounters (rt.net.hostIf rec.idx) with
  | none => pure ()
  | some (ifindex, rx, tx) =>
    let t ← loadTraffic rec.id
    saveTraffic (.sample (decide (t.period ≠ period))) rec.id
      (t.update (ifindex % 2 ^ 32) rx tx period)

def sampleTraffic (rt : Runtime) : Agent Unit :=
  withSchedule fun schedule => do
    let now ← unixNow
    let recs ← records
    Proc.forEach (rt.sampleOne schedule now) recs

/-- The part of `list` and `details` that changes anything: a schedule change is noticed
there too. -/
def noticeSchedule : Agent Unit := withSchedule fun _ => pure ()

/-! ## Interfaces -/

def validHostIf (hif : String) : Bool :=
  !hif.isEmpty && decide (hif.utf8ByteSize ≤ 15) &&
    hif.toList.all fun c => c.isAlphanum || c == '_' || c == '.' || c == '-'

def hostLinkUp (hif : String) : Agent Bool := do
  ensure (validHostIf hif) (.watcher "invalid Runman host interface name")
  Proc.perform (.query (.linkUp hif)) fun _ w i =>
    match i.fail, w.links hif with
    | some text, _ => .error (.io text)
    | none, none => .error enoent
    | none, some l => .ok l.up

/-- Change the interface and verify the kernel's readback. -/
def setHostLinkUp (who : Caller) (hif : String) (up : Bool) : Agent Unit := do
  ensure (validHostIf hif) (.watcher "invalid Runman host interface name")
  act (.command who (.setLink hif up))
  let now ← hostLinkUp hif
  ensure (now == up) (.linkReadback hif)

/-- One command of `attach`. -/
def runCommand (c : NetCmd) (ignored : Bool) : Agent Unit :=
  if ignored then ignore (act (.command .heal c)) else act (.command .heal c)

/-- `attach` by the agent: the commands in order, until one fails. -/
def runCommands : List (NetCmd × Bool) → Agent Unit
  | [] => pure ()
  | (c, ignored) :: rest => do
    runCommand c ignored
    runCommands rest

/-- Repair the interface of an instance, given its record. -/
def healRecord (rt : Runtime) (rec : Record) : Agent Unit := do
  let hif := rt.net.hostIf rec.idx
  let attached ← Proc.read (.query (.master hif)) fun _ w i =>
    i.fail.isNone && decide ((w.links hif).bind (·.master) = some rt.net.bridge)
  if ← isActive rec.id then
    if attached then
      match ← (hostLinkUp hif).attempt with
      | .ok up =>
        if up = !rec.networkQuarantined then pure ()
        else ignore (setHostLinkUp .heal hif (!rec.networkQuarantined))
      | .error _ => pure ()
    else
      -- no init.pid while the supervisor boots the instance: it attaches the network
      let pid ← Proc.read (.query (.initPid rec.id)) fun _ w i =>
        i.fail.isNone && w.initPid rec.id
      match pid, (rt.runSpec rec).net with
      | true, some net =>
        match ← (runCommands (attachCmds net)).attempt with
        | .ok _ => ignore (helper "update_instance_network")
        | .error _ => pure ()
      | _, _ => pure ()
  else pure ()

/-- Repair one instance, with its lock held: the record is read again. -/
def healLocked (rt : Runtime) (id : VmId) : Agent Unit := do
  match ← (load id).attempt with
  | .ok (some rec) => rt.healRecord rec
  | _ => pure ()

/-- Repair host state that something else removed. -/
def heal (rt : Runtime) : Agent Unit := do
  ignore rt.reconcileNetwork
  match ← records.attempt with
  | .error _ => pure ()
  | .ok recs => Proc.forEach (fun r => withVm r.id (rt.healLocked r.id)) recs

/-! ## Quarantine -/

inductive QuarantineAction where
  | inspect
  | isolate
  | release
  | replacement
  deriving DecidableEq

/-- What `watcher_network_quarantine` reports: generation, quarantined, interface up,
running, pid of init. -/
abbrev QuarantineReport := String × Bool × Bool × Bool × Nat

def inspect (rec : Record) (running interfaceUp : Bool) : Agent (Record × Bool) := do
  doIf running <| ensure (rec.networkQuarantined == !interfaceUp)
    (.watcher "Runman network link state does not match its quarantine record")
  pure (rec, interfaceUp)

/-- The record is written before the interface goes down. -/
def isolate (rt : Runtime) (rec : Record) (running interfaceUp : Bool) :
    Agent (Record × Bool) := do
  ensure running (.watcher "Runman instance is not running")
  doIf (!rec.networkQuarantined) do
    ensure interfaceUp (.watcher "Runman interface is down without a quarantine record")
    rt.save (.quarantine true) { rec with networkQuarantined := true }
  doIf interfaceUp (setHostLinkUp .watcher (rt.net.hostIf rec.idx) false)
  pure ({ rec with networkQuarantined := true }, false)

def release (rt : Runtime) (rec : Record) (running interfaceUp : Bool) :
    Agent (Record × Bool) := do
  ensure rec.networkQuarantined (.watcher "Runman instance has no active quarantine")
  doIf running <| ensure (!interfaceUp)
    (.watcher "Runman quarantine link state changed; refused to re-enable it")
  rt.save (.quarantine false) { rec with networkQuarantined := false }
  doIf running (setHostLinkUp .watcher (rt.net.hostIf rec.idx) true)
  pure ({ rec with networkQuarantined := false }, running || interfaceUp)

/-- The action itself; returns the record and the state of the interface after it. -/
def quarantineStep (rt : Runtime) (action : QuarantineAction) (rec : Record)
    (running interfaceUp : Bool) : Agent (Record × Bool) :=
  match action with
  | .inspect | .replacement => inspect rec running interfaceUp
  | .isolate => rt.isolate rec running interfaceUp
  | .release => rt.release rec running interfaceUp

def isRunning (rec : Record) : Agent Bool := do
  let active ← isActive rec.id
  pure (decide (rec.desired = .running) && active)

def linkUpIf (running : Bool) (hif : String) : Agent Bool :=
  if running then hostLinkUp hif else pure false

/-- The work of `watcher_network_quarantine`, on the record read under the lock. -/
def quarantineLocked (rt : Runtime) (expectedGeneration : String) (action : QuarantineAction)
    (rec : Record) : Agent QuarantineReport := do
  ensure (!rec.builder) (.watcher "temporary image builders are not addressable")
  ensure (action == .replacement || rec.generation == expectedGeneration)
    (.watcher "Runman instance generation changed")
  let running ← isRunning rec
  let interfaceUp ← linkUpIf running (rt.net.hostIf rec.idx)
  let (after, interfaceUp) ← rt.quarantineStep action rec running interfaceUp
  let pid ← Proc.read (.query (.initPid rec.id)) fun _ w i =>
    if w.initPid rec.id && decide (1 < i.now) then i.now else 0
  pure (after.generation, after.networkQuarantined, interfaceUp, running, pid)

/-- Apply or read a reversible network quarantine. -/
def watcherNetworkQuarantine (rt : Runtime) (id : VmId) (expectedGeneration project : String)
    (action : QuarantineAction) : Agent QuarantineReport := do
  ensure (project == "default") (.watcher "only the default project is supported")
  ensure (!expectedGeneration.isEmpty && decide (expectedGeneration.utf8ByteSize ≤ 200))
    (.watcher "Runman instance generation is required")
  withVm id do
    match ← load id with
    | none => Proc.fail (.watcher "Runman instance is not managed")
    | some rec => rt.quarantineLocked expectedGeneration action rec

end Runtime

end RunmanAgent
