import RunmanAgent.Concurrency.Server
import RunmanAgent.ConnLimit.Policy

/-!
# The connection-limit manager (`src/connlimit.rs`)

`World` is what the manager works on: the list of policies in memory and in
`connlimit.json`, and its chain in the two filter tables. `Act` lists its atomic actions,
each with an `Input`: whether it fails, what the clock says, what is known about an
instance.

`manager` is the manager as a server: a call holds the mutex from the moment it looks at
the policies to its end. Before that `apply` only checks its arguments; the clock that it
reads there is not assumed to agree with the readings of other calls. The agent may be
restarted at any time; in `steady` it is not.
-/

namespace RunmanAgent.ConnLimit

open Concurrency Iptables

/-! ## State and actions -/

structure World where
  mem : List Policy := []
  disk : Option (List Policy) := none
  fw : Tool → Option Chain := fun _ => none
  /-- The latest time that has been read. -/
  clock : Int := 0
  /-- A save has been tried since the list in memory was changed. -/
  tried : Bool := true
  applying : Option Pending := none
  /-- The ids that were not stored when `apply` was called for them and refused, if no later
  call of `apply` for them has been accepted. -/
  rejected : List String := []

inductive Act where
  | lock
  | setState (policies : List Policy)
  | save (policies : List Policy)
  /-- The clock is read to compare it with the expiry of `policy`. -/
  | now (policy : Policy)
  /-- The instance of `policy` is looked up. -/
  | resolve (policy : Policy)
  | fw (tool : Tool) (cmd : Cmd)
  /-- Not a step of the program: the bound of a loop over the copies of a rule. -/
  | peek
  | start (id : String)
  | answer (ok : Bool)
  deriving DecidableEq

structure Input where
  /-- A system call or a command fails, with this text. -/
  fail : Option String := none
  now : Nat := 0
  target : Except String Target := .error ""

def World.isStored (w : World) (id : String) : Bool := w.mem.any fun p => p.id == id

def World.apply (w : World) (i : Input) : Act → World
  | .setState policies => { w with mem := policies, tried := false }
  | .save policies =>
    { w with disk := if i.fail.isSome then w.disk else some policies, tried := true }
  | .now _ => { w with clock := max w.clock i.now }
  | .fw tool cmd =>
    { w with fw := Function.update w.fw tool (after i.fail.isSome cmd (w.fw tool)) }
  | .start id => { w with applying := some ⟨id, w.isStored id⟩ }
  | .answer ok => { w with applying := none, rejected := rejectedAfter w.applying w.rejected ok }
  | .lock | .resolve _ | .peek => w

def host : Machine World Input Act where
  enabled _ _ _ := true
  apply e _ w i := w.apply i e

abbrev HostProc := Proc World Input Act String

open Proc

def lock : HostProc (List Policy) := read .lock fun _ w _ => w.mem

/-- A change of the guarded state. -/
def setState (policies : List Policy) : HostProc Unit := run (.setState policies)

def save (policies : List Policy) : HostProc Unit :=
  perform (.save policies) fun _ _ i => match i.fail with
    | some e => .error e
    | none => .ok ()

def now (policy : Policy) : HostProc Int := read (.now policy) fun _ _ i => (i.now : Int)

def resolve (policy : Policy) : HostProc Target := perform (.resolve policy) fun _ _ i => i.target

/-! ## Commands -/

def commandText (tool : Tool) (cmd : Cmd) : String :=
  tool.name ++ " " ++ String.intercalate " " (["-w", "5", "-t", "filter"] ++ cmd.args CHAIN)

def command (tool : Tool) (cmd : Cmd) : HostProc Unit :=
  perform (.fw tool cmd) fun _ w i =>
    if succeeds i.fail.isSome cmd (w.fw tool) then .ok ()
    else .error (commandText tool cmd ++ " failed: " ++ i.fail.getD "")

/-- `command_output` of `-S`: the chain as it is listed. -/
def commandOutput (tool : Tool) : HostProc Chain :=
  perform (.fw tool .list) fun _ w i =>
    match i.fail, w.fw tool with
    | none, some chain => .ok chain
    | _, _ => .error (commandText tool .list ++ " failed")

def createText : Tool → String
  | .iptables => "create managed IPv4 connection-limit chain: "
  | .ip6tables => ""

def familyText : Tool → String
  | .iptables => "IPv4"
  | .ip6tables => "IPv6"

def ensureTable (tool : Tool) : HostProc Unit := do
  match ← (commandOutput tool).attempt with
  | .error _ =>
    mapErr (createText tool ++ ·) (command tool .newChain)
    command tool (.append markerRule)
  | .ok chain =>
    if !chain.mentions CHAIN_MARKER then
      fail ("refusing to modify an existing unowned " ++ familyText tool ++ " chain " ++ CHAIN)
    else pure ()

def ensureJump (tool : Tool) : HostProc Unit := do
  match ← (command tool .checkJump).attempt with
  | .ok _ => pure ()
  | .error _ => command tool .insertJump

def ensureChain : HostProc Unit :=
  forEach (fun tool => do ensureTable tool; ensureJump tool) [.iptables, .ip6tables]

/-- The chains are removed; the loop has as many rounds as there are jumps in the listing. -/
def cleanupTable (tool : Tool) : HostProc Unit := do
  match ← (commandOutput tool).attempt with
  | .error _ => pure ()
  | .ok chain =>
    if !chain.mentions CHAIN_MARKER then pure ()
    else
      whileOk (command tool .checkJump) (command tool .deleteJump) chain.jumps
      command tool .flush
      command tool .deleteChain

def cleanupChainIfEmpty (policies : List Policy) : HostProc Unit :=
  if !policies.isEmpty then pure () else forEach cleanupTable [.iptables, .ip6tables]

/-! ## Rules -/

def installRule (tool : Tool) (rule : Rule) : HostProc Unit := do
  match ← (command tool (.check rule)).attempt with
  | .ok _ => pure ()
  | .error _ => command tool (.insert rule)

/-- The loop ends when the check fails, after at most as many rounds as there are copies of
the rule. -/
def removeRule (tool : Tool) (rule : Rule) : HostProc Unit := do
  let n ← read .peek fun _ w _ => copies (w.fw tool) rule
  whileOk (command tool (.check rule)) (command tool (.delete rule)) n

variable (cfg : Config)

def installAt (policy : Policy) (raw : String) : HostProc Unit :=
  match IpAddr.parse raw with
  | none => fail "invalid persisted instance address: invalid IP address syntax"
  | some ip =>
    forEach (fun incoming => installRule (toolOf ip) (ruleArgs cfg policy ip incoming))
      [false, true]

def installRules (policy : Policy) : HostProc Unit := do
  ensureChain
  forEach (installAt cfg policy) policy.ips

def removeAt (policy : Policy) (raw : String) : HostProc Unit :=
  match IpAddr.parse raw with
  | none => pure ()
  | some ip =>
    forEach (fun incoming => removeRule (toolOf ip) (ruleArgs cfg policy ip incoming)) [false, true]

def removeRules (policy : Policy) : HostProc Unit := forEach (removeAt cfg policy) policy.ips

/-! ## `apply` -/

/-- A change of the first policy with an id. -/
def updateFirst (id : String) (f : Policy → Policy) : List Policy → List Policy
  | [] => []
  | p :: ps => if p.id = id then f p :: ps else p :: updateFirst id f ps

def Policy.withIps (ips : List String) (p : Policy) : Policy := { p with ips := ips }

def Policy.marked (p : Policy) : Policy := { p with removeOnly := true }

/-- Rules that cannot be installed mark their policy for removal. -/
def installOrMark (text : String) (policies : List Policy) (policy : Policy) : HostProc Unit := do
  match ← (installRules cfg policy).attempt with
  | .ok _ => pure ()
  | .error e =>
    setState (updateFirst policy.id Policy.marked policies)
    save (updateFirst policy.id Policy.marked policies)
    fail (text ++ ": " ++ e)

/-- `apply` for an id that is stored as `old`. -/
def applyAgain (policies : List Policy) (old policy : Policy) : HostProc Unit := do
  if old.vmId ≠ policy.vmId ∨ old.instanceId ≠ policy.instanceId ∨
      old.maxConnections ≠ policy.maxConnections then
    fail "policy ID already exists with different contents"
  else if old.removeOnly then fail "connection-limit policy cleanup is pending"
  else
    let t ← now old
    if old.expiresAt ≤ t then
      fail "connection-limit policy has expired; issue a new policy ID"
    else if old.ips ≠ policy.ips then
      removeRules cfg old
      setState (updateFirst policy.id (Policy.withIps policy.ips) policies)
      save (updateFirst policy.id (Policy.withIps policy.ips) policies)
      installOrMark cfg "refresh per-instance TCP connection limit"
        (updateFirst policy.id (Policy.withIps policy.ips) policies) (old.withIps policy.ips)
    else installRules cfg old

/-- Whether one of the policies is an unexpired one for the instance of `policy`. -/
def anyUnexpired (policy : Policy) : List Policy → HostProc Bool
  | [] => pure false
  | old :: rest =>
    if old.vmId = policy.vmId ∧ old.instanceId = policy.instanceId then do
      let t ← now old
      if t < old.expiresAt then pure true else anyUnexpired policy rest
    else anyUnexpired policy rest

/-- `apply` for an id that is not stored. -/
def applyNew (policies : List Policy) (policy : Policy) : HostProc Unit := do
  if ← anyUnexpired policy policies then
    fail "an unexpired connection limit already exists for this instance"
  else
    setState (policies ++ [policy])
    save (policies ++ [policy])
    installOrMark cfg "apply per-instance TCP connection limit" (policies ++ [policy]) policy

def applyStored (policy : Policy) : HostProc Unit := do
  let policies ← lock
  match policies.find? fun old => old.id == policy.id with
  | some old => applyAgain cfg policies old policy
  | none => applyNew cfg policies policy

def validatePolicy (policy : Policy) : HostProc Unit := do
  lift (checkPolicy cfg policy)
  let t ← now policy
  lift (checkLease policy t)

def apply (policy : Policy) (target : Target) : HostProc Unit := do
  validatePolicy cfg policy
  if !target.managed || !target.running then
    fail "target is not a running Runman-managed instance"
  else if target.instanceId ≠ policy.instanceId then
    fail "instance identity changed; no connection-limit rule was applied"
  else
    match validateIps target.ips with
    | .error e => fail e
    | .ok ips =>
      if ips.isEmpty then fail "managed instance has no usable addresses"
      else applyStored cfg (policy.withIps ips)

/-! ## `release` -/

def validateRelease (id vmId instanceId : String) : Except String Unit :=
  if !validPolicyId id || vmId.isEmpty then throw "invalid connection-limit release identity"
  else do
    withContext "invalid Runman VM UUID" (parseVmId cfg vmId)
    if instanceId.isEmpty then pure ()
    else withContext "invalid instance generation identity" (cfg.uuid instanceId)

/-- `release` of a stored policy. -/
def releaseStored (policies : List Policy) (policy : Policy) : HostProc Unit := do
  setState (updateFirst policy.id Policy.marked policies)
  save (updateFirst policy.id Policy.marked policies)
  removeRules cfg policy.marked
  setState ((updateFirst policy.id Policy.marked policies).filter fun p => p.id != policy.id)
  save ((updateFirst policy.id Policy.marked policies).filter fun p => p.id != policy.id)
  cleanupChainIfEmpty ((updateFirst policy.id Policy.marked policies).filter
    fun p => p.id != policy.id)

def release (id vmId instanceId : String) : HostProc Unit := do
  lift (validateRelease cfg id vmId instanceId)
  let policies ← lock
  match policies.find? fun p => p.id == id with
  | none => pure ()
  | some policy =>
    if policy.vmId ≠ vmId ∨ (!instanceId.isEmpty ∧ policy.instanceId ≠ instanceId) then
      fail "connection-limit policy target identity mismatch"
    else releaseStored cfg policies policy

/-! ## `reconcile` -/

/-- What a round of the loop leaves: the policy at hand as it is kept, if it is; whether the
index moves past the policy that has taken its place; an entry of `failures`. -/
structure Round where
  kept : Option Policy
  skip : Bool := false
  failure : Option String := none

/-- `policy` stands between `before` and `after` in the list. -/
def dropPolicy (removing saving : String) (before after : List Policy) (policy : Policy) :
    HostProc Round := do
  match ← (removeRules cfg policy).attempt with
  | .error e =>
    pure { kept := some policy, failure := some (removing ++ policy.id ++ ": " ++ e) }
  | .ok _ =>
    setState (before ++ after)
    match ← (save (before ++ after)).attempt with
    | .error e => pure { kept := none, skip := true, failure := some (saving ++ ": " ++ e) }
    | .ok _ => pure { kept := none }

def suspendPolicy (before after : List Policy) (policy : Policy) : HostProc Round := do
  match ← (removeRules cfg policy).attempt with
  | .error e =>
    pure { kept := some policy
           failure := some ("remove stopped target policy " ++ policy.id ++ ": " ++ e) }
  | .ok _ =>
    if policy.ips.isEmpty then pure { kept := some policy }
    else
      setState (before ++ policy.withIps [] :: after)
      match ← (save (before ++ policy.withIps [] :: after)).attempt with
      | .error e =>
        pure { kept := some (policy.withIps [])
               failure := some ("persist suspended connection-limit policy: " ++ e) }
      | .ok _ => pure { kept := some (policy.withIps []) }

def reinstall (policy : Policy) : HostProc Round := do
  match ← (installRules cfg policy).attempt with
  | .error e =>
    pure { kept := some policy, failure := some ("reinstall policy " ++ policy.id ++ ": " ++ e) }
  | .ok _ => pure { kept := some policy }

def refreshPolicy (before after : List Policy) (policy : Policy) (currentIps : List String) :
    HostProc Round := do
  if currentIps ≠ policy.ips then
    match ← (removeRules cfg policy).attempt with
    | .error e =>
      pure { kept := some policy
             failure := some ("replace addresses for policy " ++ policy.id ++ ": " ++ e) }
    | .ok _ =>
      setState (before ++ policy.withIps currentIps :: after)
      match ← (save (before ++ policy.withIps currentIps :: after)).attempt with
      | .error e =>
        pure { kept := some (policy.withIps currentIps)
               failure := some ("persist connection-limit addresses: " ++ e) }
      | .ok _ => reinstall cfg (policy.withIps currentIps)
  else reinstall cfg policy

/-- The clock is not read for a policy that is marked for removal. -/
def isOver (policy : Policy) : HostProc Bool :=
  if policy.removeOnly then pure true
  else do
    let t ← now policy
    pure (decide (policy.expiresAt ≤ t))

/-- The addresses of an instance; bad ones count as none. -/
def currentIps (target : Target) : List String := (validateIps target.ips).toOption.getD []

def reconcilePolicy (before after : List Policy) (policy : Policy) : HostProc Round := do
  if ← isOver policy then
    dropPolicy cfg "remove expired policy " "persist expired policy cleanup" before after policy
  else
    match ← (resolve policy).attempt with
    | .error e =>
      pure { kept := some policy
             failure := some ("resolve managed instance " ++ policy.vmId ++ ": " ++ e) }
    | .ok target =>
      if !target.managed ∨ target.instanceId ≠ policy.instanceId then
        dropPolicy cfg "remove stale policy " "persist stale policy cleanup" before after policy
      else if !target.running ∨ currentIps target = [] then
        suspendPolicy cfg before after policy
      else refreshPolicy cfg before after policy (currentIps target)

/-- The loop; `kept` are the policies before the index. -/
def reconcileLoop (skip : Bool) (kept : List Policy) (failures : List String) :
    List Policy → HostProc (List Policy × List String)
  | [] => pure (kept, failures)
  | policy :: rest =>
    if skip then reconcileLoop false (kept ++ [policy]) failures rest
    else do
      let r ← reconcilePolicy cfg kept rest policy
      reconcileLoop r.skip (kept ++ r.kept.toList) (failures ++ r.failure.toList) rest

def reconcile : HostProc Unit := do
  let policies ← lock
  let (policies, failures) ← reconcileLoop cfg false [] [] policies
  cleanupChainIfEmpty policies
  if failures.isEmpty then pure ()
  else fail (toString failures.length ++ " connection-limit reconciliation error(s): " ++
    String.intercalate "; " failures)

/-! ## The server -/

inductive Call where
  | apply (policy : Policy) (target : Target)
  | release (id vmId instanceId : String)
  | reconcile

def serve : Call → Prog World Input Act Unit
  | .apply policy target => Prog.bind (Prog.run (.start policy.id)) fun _ =>
    Prog.bind (apply cfg policy target) fun r => Prog.run (.answer r.isOk)
  | .release id vmId instanceId => Prog.bind (release cfg id vmId instanceId) fun _ => Prog.ret ()
  | .reconcile => Prog.bind (reconcile cfg) fun _ => Prog.ret ()

def Policy.invalid (p : Policy) : Bool :=
  !validPolicyId p.id || p.vmId.isEmpty || decide (p.maxConnections < 100)

/-- `connlimit.json` as it is read at the start. -/
def loadState : Option (List Policy) → Except String (List Policy)
  | none => pure []
  | some policies =>
    if policies.any Policy.invalid then
      throw "persisted connection-limit state contains an invalid policy"
    else pure policies

/-- `Manager::new` after a crash. -/
def World.restart (w : World) : Option World :=
  if validBridge cfg.bridge then
    (loadState w.disk).toOption.map fun policies =>
      { w with mem := policies, tried := true, applying := none }
  else none

variable {cfg} in
theorem restart_eq_some {w w' : World} (h : w.restart cfg = some w') :
    w' = { w with mem := w.disk.getD [], tried := true, applying := none } := by
  unfold World.restart at h
  split at h
  · cases hdisk : w.disk with
    | none =>
      rw [hdisk] at h
      exact (Option.some.inj h).symm
    | some policies =>
      rw [hdisk, loadState] at h
      split at h
      · cases h
      · exact (Option.some.inj h).symm
  · cases h

def manager : Server host Call where
  code := serve cfg
  restart := World.restart cfg

/-- The manager without crashes. -/
def steady : Server host Call where
  code := serve cfg

instance : DecidablePred (manager cfg).others := fun _ => .isFalse id

instance : DecidablePred (steady cfg).others := fun _ => .isFalse id

/-! ## An instance with a limit -/

/-- The hyphenated form of a UUID. -/
def hyphenated (raw : String) : Bool :=
  decide (raw.toList.length = 36) && raw.toList.zipIdx.all fun (c, n) =>
    if n = 8 ∨ n = 13 ∨ n = 18 ∨ n = 23 then c == '-'
    else c.isDigit || decide ('a' ≤ c ∧ c ≤ 'f')

def bridged : Config where
  bridge := "rmbr0"
  uuid raw := if hyphenated raw then .ok () else .error "invalid UUID"

def cap : Policy where
  id := "0123456789abcdef0123456789abcdef"
  vmId := "6f1c0c5e-7a51-4d5b-9c35-0c8a5d3f2b11"
  instanceId := "2b7e1516-28ae-4d2a-abf7-158809cf4f3c"
  maxConnections := 200
  expiresAt := 1600

def instanceUp : Target where
  managed := true
  running := true
  instanceId := "2b7e1516-28ae-4d2a-abf7-158809cf4f3c"
  ips := ["10.0.0.2"]

end RunmanAgent.ConnLimit
