import RunmanAgent.Runtime.Forwards

/-!
# Life cycle of instances (`src/runtime/mod.rs`, `src/runtime/build.rs`)

Create, delete, start, stop and restart of instances, image builds, and the recovery the
agent runs when it starts.
-/

namespace RunmanAgent

open Concurrency

/-! ## Units -/

/-- `systemctl is-active`. -/
def World.isActive (w : World) (id : VmId) : Bool :=
  match w.units id with
  | some u => !u.stopping
  | none => false

def isActive (id : VmId) : Agent Bool :=
  Proc.read (.query (.isActive id)) fun _ w i => i.fail.isNone && w.isActive id

/-- `systemctl stop`: it returns when the unit is gone, or with an error. -/
def stopUnit (id : VmId) : Agent Unit := do
  act (.terminate id)
  Proc.perform (.query (.stopped id)) fun _ w i =>
    if (w.units id).isSome then .error (.io "Job canceled") else i.check

/-- Kill only the instance, then wait for the supervisor. -/
def killInstance (id : VmId) : Agent Unit := do
  ignore (act (.killCt id))
  Proc.run (.query (.waitInactive id))

/-- An error of `systemctl stop` counts only while the unit is there. -/
def stopOrGone (id : VmId) : Agent Unit := do
  match ← (stopUnit id).attempt with
  | .ok _ => pure ()
  | .error e => if ← isActive id then Proc.fail e else pure ()

def halt (id : VmId) (force : Bool) : Agent Unit := do
  let active ← isActive id
  doIf active do
    doIf force (killInstance id)
    stopOrGone id

def launch (rec : Record) : Agent Unit := do
  ignore (act (.removePid rec.id))
  context "systemd-run" (act (.systemdRun rec.id))
  -- until `init.pid` exists, the unit is gone or the time is over
  Proc.perform (.query (.initPid rec.id)) fun _ w i =>
    if w.initPid rec.id then .ok () else .error (.didNotStart i.text)

/-- Run code with the instance lock held. -/
def withVm {α : Type} (id : VmId) (x : Agent α) : Agent α :=
  Proc.bracket (.acquire (.vm id)) (.release (.vm id)) x

namespace Runtime

/-! ## Create and delete -/

/-- `delete` with the instance lock held. -/
def deleteLocked (rt : Runtime) (id : VmId) : Agent Unit := do
  halt id true
  let old ← load id
  doIf old.isSome (ignore (helper "ip link del"))
  let present ← dirExists id
  doIf present do
    Proc.perform (.query (.umount id)) fun _ _ i => i.check
    Proc.perform (.query (.umount id)) fun _ _ i => i.check
    context ("remove " ++ displayPath (rt.dir id)) (removeDirAll id)
  act (.removePid id)
  rt.reconcileNetwork

/-- Build the disk image and prepare the root filesystem for first boot. -/
def provision (rec : Record) (password : String) : Agent Unit := do
  act (.mkdir rec.id)
  act (.makeDisk rec.id rec.diskGb)
  act (.prepareRoot rec.id password)

/-- Creation time and counters of the new instance, from what the old one had. -/
def carriedOver (carried : Option (Nat × Traffic)) (now : Nat) : Nat × Option Traffic :=
  match carried with
  | some (c, t) => (if 0 < c then c else now, some t)
  | none => (now, none)

def newRecord (spec : InstanceSpec) (builder : Bool) (created : Nat) (image : Image)
    (generation : String) (idx : Nat) (addrs : Addrs) : Record where
  id := spec.vmId
  generation := generation
  idx := idx
  cpu := spec.cpu
  ramMb := spec.ramMb
  diskGb := spec.diskGb
  bandwidthMbps := spec.bandwidthMbps
  osImage := spec.osImage
  lower := image.rootfs
  stopSignal := image.stopSignal
  hostname := hostnameFor spec.vmId
  addrs := addrs
  desired := .running
  networkQuarantined := false
  builder := builder
  created := created

/-- Write back the counters of the instance that is replaced. -/
def restoreTraffic (id : VmId) : Option Traffic → Agent Unit
  | some t => saveTraffic .restore id t
  | none => pure ()

/-- The part of a create that runs under the allocation lock: choose an index and write
the record that claims it. -/
def claim (rt : Runtime) (spec : InstanceSpec) (builder : Bool) (created : Nat)
    (traffic : Option Traffic) : Agent Record :=
  Proc.bracket (.acquire .alloc) (.release .alloc) do
    let image ← Proc.perform (.query (.getImage spec.osImage)) fun _ w _ =>
      w.images.get spec.osImage
    let idx ← allocateIdx rt
    let generation ← newUuid
    let addrs ← Proc.lift (rt.net.addrsFor idx)
    let record := newRecord spec builder created image generation idx addrs
    act (.mkdir spec.vmId)
    rt.save .create record
    restoreTraffic spec.vmId traffic
    pure record

/-- What is left of a create once the record is written. -/
def install (rt : Runtime) (rec : Record) (password : String) : Agent Unit := do
  match ← (provision rec password).attempt with
  | .error e =>
    ignore (removeDirAll rec.id)
    Proc.fail (.context "provision instance" e)
  | .ok _ =>
    rt.reconcileNetwork
    launch rec

/-- Load what a replacement has to keep, and remove the instance that is replaced. -/
def replaceOld (rt : Runtime) (id : VmId) : Agent (Option (Nat × Traffic)) := do
  let old ← load id
  let carried ← Proc.read (.carry id old) fun _ w i =>
    old.map fun o => (o.created, w.readTraffic id i)
  let present ← dirExists id
  doIf (carried.isSome || present) (rt.deleteLocked id)
  pure carried

/-- `create` with the instance lock held. -/
def createLocked (rt : Runtime) (spec : InstanceSpec) (builder : Bool) : Agent Unit := do
  let enabled ← Proc.read (.query (.isEnabled spec.osImage)) fun _ w _ =>
    w.images.isEnabled spec.osImage
  if !builder && !enabled then Proc.fail (.imageDisabled spec.osImage)
  else
    let carried ← rt.replaceOld spec.vmId
    let now ← unixNow
    let (created, traffic) := carriedOver carried now
    let record ← rt.claim spec builder created traffic
    rt.install record spec.rootPassword

/-- `create` and `reinstall`. -/
def create (rt : Runtime) (spec : InstanceSpec) : Agent Unit :=
  withVm spec.vmId (rt.createLocked spec false)

def delete (rt : Runtime) (id : VmId) : Agent Unit :=
  withVm id do
    rt.deleteLocked id
    ignore (helper "forget history")

/-! ## Start and stop -/

def setDesired (rt : Runtime) (id : VmId) (desired : Desired) : Agent Record := do
  let old ← require id
  if old.desired ≠ desired then
    let record := { old with desired := desired }
    rt.save (.desired desired) record
    pure record
  else pure old

def start (rt : Runtime) (id : VmId) : Agent Unit :=
  withVm id do
    let record ← rt.setDesired id .running
    if ← isActive id then pure ()
    else
      -- refresh runtime.json for the current binary
      rt.save .refresh record
      launch record

def stop (rt : Runtime) (id : VmId) (force : Bool) : Agent Unit :=
  withVm id do
    let _ ← rt.setDesired id .stopped
    halt id force

def restart (rt : Runtime) (id : VmId) : Agent Unit :=
  withVm id do
    let record ← rt.setDesired id .running
    halt id false
    launch record

/-! ## Image builds -/

/-- `build_in`, without what happens inside the build instance and to the image store. -/
def buildIn (rt : Runtime) (vm : VmId) : Agent Unit := do
  helper "wait for the network"
  helper "run the script"
  context "power off build instance" (rt.stop vm false)
  let _ ← require vm
  helper "copy root filesystem"

/-- `run_build`; `spec` is the specification of the temporary instance. -/
def runBuild (rt : Runtime) (spec : InstanceSpec) : Agent Unit := do
  context "start build instance" (withVm spec.vmId (rt.createLocked spec true))
  let result ← (rt.buildIn spec.vmId).attempt
  ignore (rt.delete spec.vmId)
  Proc.lift result

/-! ## Recovery -/

/-- Older records have no incarnation identity. -/
def fillGeneration (rt : Runtime) (rec : Record) : Agent Unit := do
  let generation ← newUuid
  rt.save .fillGeneration { rec with generation := generation }

/-- Records of older agents have no creation time: take the instance directory's. -/
def fillCreated (rt : Runtime) (rec : Record) : Agent Unit := do
  let born ← Proc.perform (.query (.born rec.id)) fun _ w i => do
    i.check
    if (w.dirs.lookup rec.id).isSome then .ok i.now else .error enoent
  rt.save .fillCreated { rec with created := born }

/-- Prepare host networking and start every instance that should be running. -/
def init (rt : Runtime) : Agent Unit := do
  context "host network setup" (helper "setup_host")
  let anyV6 ← Proc.read (.query .dedicated) fun _ _ i => i.flag
  doIf anyV6 (helper "enable_v6")
  rt.reconcileNetwork
  let recs ← records
  Proc.forEach rt.fillGeneration (recs.filter (·.generation.isEmpty))
  let recs ← records
  Proc.forEach rt.fillCreated (recs.filter (·.created = 0))
  let recs ← records
  Proc.forEach (fun r => ignore (rt.delete r.id)) (recs.filter (·.builder))
  let recs ← records
  Proc.forEach (fun r => ignore (rt.start r.id)) (recs.filter (·.desired = .running))

end Runtime

end RunmanAgent
