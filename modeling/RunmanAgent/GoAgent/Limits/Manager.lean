import RunmanAgent.Concurrency.Server
import RunmanAgent.GoAgent.Limits.Policy

/-!
# The connection-limit manager of the Go agent (`firewall/connlimit/connlimit_linux.go`)

`World` is what the manager works on: the policies of its state file and its chain in the two
filter tables. Every call holds the lock file from before it loads the policies to its end, so
the manager is a server that works on one call at a time; `Expire` is run by another process,
which takes the same lock. A call keeps the loaded policies (`st`) to itself, and nothing else
is in memory between calls, so a crash only ends the call.

The file has one policy per id, so the entry that `replacePolicy` finds is the one at hand,
and an entry that the loop of `reconcile` has not reached is still as it was loaded.
-/

namespace RunmanAgent.GoAgent.Limits

open Concurrency Iptables Text
open ConnLimit (Pending rejectedAfter)

structure Config where
  configPath : String
  executable : String
  /-- `uuid.Parse` accepts the text. -/
  uuid : String → Bool

structure Target where
  managed : Bool
  running : Bool
  instanceId : String
  ips : List String
  deriving DecidableEq

/-! ## State and actions -/

structure World where
  /-- The policies of the state file; none if there is no file. -/
  filed : List Policy := []
  fw : Tool → Option Chain := fun _ => none
  applying : Option Pending := none
  /-- The ids that were not stored when `apply` was called for them and failed, if no later
  call of `apply` for them has succeeded. -/
  rejected : List String := []

inductive Act where
  | lock
  | load
  | save (policies : List Policy)
  | now
  | resolve (vmId : String)
  | fw (tool : Tool) (cmd : Cmd)
  /-- `systemctl` or `systemd-run`. -/
  | systemd (name : String) (args : List String)
  | start (id : String)
  | answer (ok : Bool)
  deriving DecidableEq

structure Input where
  /-- A system call or a command fails. -/
  fail : Bool := false
  err : String := ""
  /-- What a failed command has printed. -/
  output : String := ""
  now : Int := 0
  target : Except String Target := .error ""

def World.isStored (w : World) (id : String) : Bool := w.filed.any fun p => p.id == id

def World.apply (w : World) (i : Input) : Act → World
  | .save policies => { w with filed := if i.fail then w.filed else policies }
  | .fw tool cmd => { w with fw := Function.update w.fw tool (after i.fail cmd (w.fw tool)) }
  | .start id => { w with applying := some ⟨id, w.isStored id⟩ }
  | .answer ok => { w with applying := none, rejected := rejectedAfter w.applying w.rejected ok }
  | _ => w

def host : Machine World Input Act where
  enabled _ _ _ := true
  apply e _ w i := w.apply i e

abbrev HostProc := Proc World Input Act String

open Proc

/-- `withFileLock`: the lock is given back when the call ends. -/
def withFileLock : HostProc Unit :=
  perform .lock fun _ _ i => if i.fail then .error i.err else .ok ()

def load : HostProc (List Policy) :=
  perform .load fun _ w i => if i.fail then .error i.err else .ok w.filed

def save (st : List Policy) : HostProc Unit :=
  perform (.save st) fun _ _ i => if i.fail then .error i.err else .ok ()

def now : HostProc Int := read .now fun _ _ i => i.now

def resolve (vmId : String) : HostProc Target := perform (.resolve vmId) fun _ _ i => i.target

/-- `errors.Join`. -/
def joinErrors (failures : List String) : HostProc Unit :=
  if failures = [] then pure () else fail ("\n".intercalate failures)

/-! ## Commands -/

/-- At most 300 bytes of the output are kept; it is taken to be ASCII. -/
def commandError (name : String) (args : List String) (output err : String) : String :=
  let message := String.ofList ((trim output.toList).take 300)
  name ++ " " ++ " ".intercalate args ++ " failed: " ++
    if message = "" then err else message ++ ": " ++ err

/-- `runTool`, with the error that is reported for it. -/
def runTool (tool : Tool) (cmd : Cmd) : HostProc Unit :=
  perform (.fw tool cmd) fun _ w i =>
    if succeeds i.fail cmd (w.fw tool) then .ok ()
    else .error (commandError tool.name (cmd.args chainName) i.output i.err)

def systemd (name : String) (args : List String) : HostProc Unit :=
  perform (.systemd name args) fun _ _ i =>
    if i.fail then .error (commandError name args i.output i.err) else .ok ()

def ensureTable (tool : Tool) : HostProc Unit := do
  match ← (runTool tool .newChain).attempt with
  | .ok _ => pure ()
  | .error e => mapErr (fun _ => e) (runTool tool .list)

def ensureJump (tool : Tool) : HostProc Unit := do
  match ← (runTool tool .checkJump).attempt with
  | .ok _ => pure ()
  | .error _ => runTool tool .insertJump

def ensureChain (tool : Tool) : HostProc Unit := do
  ensureTable tool
  ensureJump tool

/-! ## Rules -/

def installRule (tool : Tool) (rule : Rule) : HostProc Unit := do
  match ← (runTool tool (.check rule)).attempt with
  | .ok _ => pure ()
  | .error _ => runTool tool (.append rule)

def installAt (p : Policy) (value : String) : HostProc Unit :=
  match NetAddr.parse value.toList with
  | none => pure () -- not for validated texts
  | some addr => do
    ensureChain (toolOf addr)
    forEach (fun incoming => installRule (toolOf addr) (ruleArgs p addr incoming)) directions

def installRules (p : Policy) : HostProc Unit := do
  let ips ← lift (validateIPs p.ips)
  forEach (installAt p) ips

/-- The failure of a deletion is returned. -/
def removeRule (x : Tool × Rule) : HostProc (List String) := do
  match ← (runTool x.1 (.check x.2)).attempt with
  | .error _ => pure []
  | .ok _ =>
    match ← (runTool x.1 (.delete x.2)).attempt with
    | .ok _ => pure []
    | .error e => pure [e]

def removeRules (p : Policy) : HostProc Unit := do
  let failures ← fold (fun failures x => do
    let more ← removeRule x
    pure (failures ++ more)) [] p.rules
  joinErrors failures

/-! ## The list of policies -/

def Policy.marked (p : Policy) : Policy := { p with removeOnly := true }

def Policy.withIPs (ips : List String) (p : Policy) : Policy := { p with ips := ips }

def replacePolicy (policy : Policy) : List Policy → Except String (List Policy)
  | [] => .error ("connection-limit policy " ++ policy.id ++ " missing from state")
  | p :: ps =>
    if p.id = policy.id then .ok (policy :: ps) else (replacePolicy policy ps).map (p :: ·)

def removePolicy (policies : List Policy) (id : String) : List Policy :=
  policies.filter fun p => p.id != id

/-- The list without the policy, once it is in the file. -/
def deletePolicy (st : List Policy) (id : String) : HostProc (List Policy) := do
  save (removePolicy st id)
  pure (removePolicy st id)

/-! ## Timers -/

def expiryUnit (id : String) : String := "narwhal-connlimit-expire-" ++ id

variable (cfg : Config)

def scheduleExpiry (p : Policy) : HostProc Unit := do
  match ← (systemd "systemctl" ["is-active", "--quiet", expiryUnit p.id ++ ".timer"]).attempt with
  | .ok _ => pure ()
  | .error _ =>
    let t ← now
    let remaining := if p.expiresAt - t < 1 then 1 else p.expiresAt - t
    systemd "systemd-run" ["--unit=" ++ expiryUnit p.id,
      "--on-active=" ++ toString remaining ++ "s", "--timer-property=AccuracySec=1s", "--collect",
      cfg.executable, "--config", cfg.configPath, "--expire-connlimit", p.id]

/-- Its failure is ignored. -/
def stopExpiry (id : String) : HostProc Unit := do
  let _ ← (systemd "systemctl" ["stop", expiryUnit id ++ ".timer"]).attempt
  pure ()

/-- The list that is left in memory, and the error. -/
def retirePolicy (st : List Policy) (p : Policy) (cause : String) :
    HostProc (List Policy × String) :=
  match replacePolicy p.marked st with
  | .error e => pure (st, cause ++ "\nrecord cleanup intent: " ++ e)
  | .ok st => do
    match ← (save st).attempt with
    | .error e => pure (st, cause ++ "\npersist cleanup intent: " ++ e)
    | .ok _ =>
      match ← (removeRules p.marked).attempt with
      | .error e => pure (st, cause ++ "\ncleanup firewall rules: " ++ e)
      | .ok _ =>
        match ← (deletePolicy st p.id).attempt with
        | .error e => pure (st, cause ++ "\npersist completed cleanup: " ++ e)
        | .ok st =>
          stopExpiry p.id
          pure (st, cause)

/-! ## `Apply` -/

def validatePolicy (p : Policy) : HostProc Unit := do
  if !ConnLimit.validPolicyId p.id || p.vmId.isEmpty || decide (200 < p.vmId.utf8ByteSize) ||
      p.vmId.toList.any (fun c => c == '\x00' || c == '\r' || c == '\n') then
    fail "invalid connection-limit policy target"
  else if !cfg.uuid p.instanceId then fail "invalid Incus instance identity"
  else if p.max < 100 ∨ 10000 < p.max then
    fail "max_connections must be between 100 and 10000"
  else
    let t ← now
    if p.expiresAt < t + 60 ∨ t + 3600 < p.expiresAt then
      fail "connection-limit lease must be between 60 and 3600 seconds"
    else
      match validateIPs p.ips with
      | .error _ => fail "at least one valid global Incus address is required"
      | .ok ips =>
        if ips = [] then fail "at least one valid global Incus address is required" else pure ()

/-- `retirePolicy` as the end of a call. -/
def retire (st : List Policy) (p : Policy) (cause : String) : HostProc Unit := do
  let r ← retirePolicy st p cause
  fail r.2

/-- `apply` for an id that is stored as `old`. -/
def applyAgain (st : List Policy) (old p : Policy) : HostProc Unit := do
  if old.vmId ≠ p.vmId ∨ old.instanceId ≠ p.instanceId ∨ old.max ≠ p.max then
    fail "policy ID already exists with different contents"
  else if old.removeOnly then fail "connection-limit policy cleanup is pending"
  else
    installRules old
    match ← (scheduleExpiry cfg old).attempt with
    | .ok _ => pure ()
    | .error e => retire st old e

/-- `apply` for an id that is not stored. -/
def applyNew (st : List Policy) (p : Policy) : HostProc Unit := do
  save (st ++ [p])
  match ← (installRules p).attempt with
  | .error e => retire (st ++ [p]) p e
  | .ok _ =>
    match ← (scheduleExpiry cfg p).attempt with
    | .error e => retire (st ++ [p]) p ("schedule automatic expiry: " ++ e)
    | .ok _ => pure ()

/-- The loop over the stored policies. -/
def applyScan (st : List Policy) (p : Policy) : List Policy → HostProc Unit
  | [] => applyNew cfg st p
  | old :: rest =>
    if old.id = p.id then applyAgain cfg st old p
    else if old.vmId = p.vmId ∧ old.instanceId = p.instanceId then do
      let t ← now
      if t < old.expiresAt then
        fail "an unexpired connection limit already exists for this instance"
      else applyScan st p rest
    else applyScan st p rest

def apply (p : Policy) : HostProc Unit := do
  validatePolicy cfg p
  withFileLock
  let st ← load
  applyScan cfg st p st

/-! ## `Release` and `Expire` -/

/-- The policy is marked in the file. -/
def persistMark (st : List Policy) (p : Policy) : HostProc (List Policy) :=
  mapErr ("persist pending connection-limit cleanup: " ++ ·) do
    let st ← lift (replacePolicy p.marked st)
    save st
    pure st

def release (id vmId instanceId : String) : HostProc Unit := do
  if !ConnLimit.validPolicyId id || vmId.isEmpty then
    fail "invalid connection-limit release identity"
  else if !cfg.uuid instanceId then fail "invalid Incus instance identity"
  else
    withFileLock
    let st ← load
    match st.find? fun p => p.id == id with
    | none => pure ()
    | some p =>
      if p.vmId ≠ vmId ∨ p.instanceId ≠ instanceId then
        fail "connection-limit policy target identity mismatch"
      else
        let st ← persistMark st p
        removeRules p.marked
        let _ ← deletePolicy st id
        stopExpiry id

def expire (id : String) : HostProc Unit := do
  if !ConnLimit.validPolicyId id then fail "invalid connection-limit policy ID"
  else
    withFileLock
    let st ← load
    match st.find? fun p => p.id == id with
    | none => pure ()
    | some p =>
      let st ← persistMark st p
      removeRules p.marked
      let _ ← deletePolicy st id
      pure ()

/-! ## `Reconcile` -/

/-- A round of the loop: the list that it leaves in memory, and its failures. -/
abbrev Round := List Policy × List String

/-- A marked policy is cleaned up. -/
def dropPolicy (st : List Policy) (p : Policy) : HostProc Round := do
  match ← (removeRules p).attempt with
  | .error e => pure (st, [e])
  | .ok _ =>
    match ← (deletePolicy st p.id).attempt with
    | .error e => pure (st, [e])
    | .ok st =>
      stopExpiry p.id
      pure (st, [])

def markAndDrop (text : String) (st : List Policy) (p : Policy) : HostProc Round :=
  match replacePolicy p.marked st with
  | .error e => pure (st, [e])
  | .ok st => do
    match ← (save st).attempt with
    | .error e => pure (st, [text ++ ": " ++ e])
    | .ok _ => dropPolicy st p.marked

/-- Rules are removed while the instance is not running or has no usable address. -/
def suspendPolicy (st : List Policy) (p : Policy) : HostProc Round := do
  match ← (removeRules p).attempt with
  | .error e => pure (st, [e])
  | .ok _ =>
    if p.ips = [] then pure (st, [])
    else
      match replacePolicy (p.withIPs []) st with
      | .error e => pure (st, [e])
      | .ok st =>
        match ← (save st).attempt with
        | .error e => pure (st, [e])
        | .ok _ => pure (st, [])

/-- When the timer cannot be scheduled, the index stays: the entry, if it is still there, is
marked and is visited again. -/
def reinstall (st : List Policy) (p : Policy) : HostProc Round := do
  match ← (installRules p).attempt with
  | .error e => pure (st, [e])
  | .ok _ =>
    match ← (scheduleExpiry cfg p).attempt with
    | .ok _ => pure (st, [])
    | .error e =>
      let r ← retirePolicy st p e
      match r.1.find? fun q => q.id == p.id with
      | none => pure (r.1, [r.2])
      | some q =>
        let again ← dropPolicy r.1 q
        pure (again.1, r.2 :: again.2)

def refreshPolicy (st : List Policy) (p : Policy) (ips : List String) : HostProc Round := do
  if sameIPs p.ips ips then reinstall cfg st p
  else
    match ← (removeRules p).attempt with
    | .error e => pure (st, [e])
    | .ok _ =>
      match replacePolicy (p.withIPs ips) st with
      | .error e => pure (st, [e])
      | .ok st =>
        match ← (save st).attempt with
        | .error e => pure (st, [e])
        | .ok _ => reinstall cfg st (p.withIPs ips)

def reconcileTarget (st : List Policy) (p : Policy) (target : Target) : HostProc Round :=
  if !target.managed ∨ target.instanceId ≠ p.instanceId then
    markAndDrop "persist pending identity cleanup" st p
  else
    match validateIPs target.ips with
    | .error _ => suspendPolicy st p
    | .ok ips =>
      if !target.running ∨ ips = [] then suspendPolicy st p else refreshPolicy cfg st p ips

/-- A policy that is not marked. -/
def reconcileActive (st : List Policy) (p : Policy) : HostProc Round := do
  let t ← now
  if p.expiresAt ≤ t then markAndDrop "persist pending expiry cleanup" st p
  else
    match ← (resolve p.vmId).attempt with
    | .error e => pure (st, ["resolve " ++ p.vmId ++ ": " ++ e])
    | .ok target => reconcileTarget cfg st p target

def reconcilePolicy (st : List Policy) (p : Policy) : HostProc Round :=
  if p.removeOnly then dropPolicy st p else reconcileActive cfg st p

def reconcile : HostProc Unit := do
  withFileLock
  let st ← load
  let r ← fold (fun (acc : Round) p => do
    let r ← reconcilePolicy cfg acc.1 p
    pure (r.1, acc.2 ++ r.2)) (st, []) st
  joinErrors r.2

/-! ## The server -/

inductive Call where
  | apply (p : Policy)
  | release (id vmId instanceId : String)
  | expire (id : String)
  | reconcile

def serve : Call → Prog World Input Act Unit
  | .apply p => Prog.bind (Prog.run (.start p.id)) fun _ =>
    Prog.bind (apply cfg p) fun r => Prog.run (.answer r.isOk)
  | .release id vmId instanceId => Prog.bind (release cfg id vmId instanceId) fun _ => Prog.ret ()
  | .expire id => Prog.bind (expire id) fun _ => Prog.ret ()
  | .reconcile => Prog.bind (reconcile cfg) fun _ => Prog.ret ()

/-- A crash ends the call. -/
def manager : Server host Call where
  code := serve cfg
  restart w := some { w with applying := none }

/-- The manager without crashes. -/
def steady : Server host Call where
  code := serve cfg

instance : DecidablePred (manager cfg).others := fun _ => .isFalse id

instance : DecidablePred (steady cfg).others := fun _ => .isFalse id

/-- The policies that are given to `apply` are plain. -/
def PlainCalls : Call → World → Prop
  | .apply p, _ => p.Plain
  | _, _ => True

instance : ∀ k w, Decidable (PlainCalls k w)
  | .apply p, _ => inferInstanceAs (Decidable p.Plain)
  | .release _ _ _, _ | .expire _, _ | .reconcile, _ => .isTrue trivial

end RunmanAgent.GoAgent.Limits
