import RunmanAgent.Concurrency.Server
import RunmanAgent.Data.Iptables
import RunmanAgent.HostPolicy.Policy

/-!
# The host firewall manager (`src/hostpolicy.rs`)

`World` is what the manager works on: its state in memory and in `host-firewall.json`, the
rules of RFW, and the abuse chain in the two filter tables. `Act` lists its atomic
actions: file system calls, requests to RFW, firewall commands, accesses to the guarded
state. Each takes an `Input`: whether it fails, what RFW answers and whether it did what
it was asked. `Rfw` says what is assumed of RFW.

`manager` is the manager as a server: its calls work on the state one after the other,
since each holds the mutex to its end; what `apply` and `delete_manual_rule` do before
they take it touches nothing that is shared. Others may change the rules of RFW at any
time, and the agent may be restarted at any time.
-/

namespace RunmanAgent.HostPolicy

open Concurrency Iptables

/-! ## State and actions -/

structure World where
  mem : State := {}
  disk : Option State := none
  rules : List RawRule := []
  /-- The bytes of the answer with which RFW lists rules. -/
  answerLen : List RawRule → Nat := fun rules => 250 * rules.length
  fw : Tool → Option Chain := fun _ => none
  /-- The ids that RFW has given to rules so far. -/
  used : List Int := []
  /-- The ids that RFW returned to a request of the manager. -/
  posted : List Int := []
  /-- The last list of rules the manager was sent. -/
  listed : List RawRule := []
  /-- Nobody else has changed the rules since. -/
  quiet : Bool := false
  /-- The policies for which `apply` has returned `Ok`. -/
  acked : List Policy := []

/-- The function that deletes a rule. -/
inductive Deleter where
  | reconcileRfw
  | deleteManualRule (expected : RuleReadback)
  deriving DecidableEq

inductive Act where
  | lock
  | setState (st : State)
  | save (st : State)
  | bridge (iface : String)
  | ipv6
  | getStatus
  | getRules
  | post (body : Payload)
  | delete (by_ : Deleter) (id : Int)
  | fw (tool : Tool) (cmd : Cmd)
  /-- `apply` returns `Ok`. -/
  | answer (requested : Policy)
  /-- Somebody else changes the rules of RFW. -/
  | change (rules : List RawRule)
  deriving DecidableEq

/-- The body of `/api/status`. -/
structure Status where
  apiVersion : String := ""
  supportedProtocols : Option (List String) := none

structure Input where
  /-- A system call or a command fails, with this text. -/
  fail : Option String := none
  /-- The answer to a request: no answer that can be read, or a status code. -/
  reply : Except String Nat := .ok 200
  body : String := ""
  /-- RFW carried out the request. -/
  carried : Bool := true
  id : Int := 0
  status : Status := {}
  /-- The answer to a question about the host. -/
  flag : Bool := true

def success (status : Nat) : Bool := 200 ≤ status && status < 300

/-- `request` reads at most 64 KiB of an answer. -/
def World.listing (w : World) (i : Input) : Except String Nat :=
  if 64 * 1024 < w.answerLen w.rules then .error "read RFW response: length limit exceeded"
  else i.reply

def World.apply (w : World) (i : Input) : Act → World
  | .setState st => { w with mem := st }
  | .save st => if i.fail.isSome then w else { w with disk := some st }
  | .getRules =>
    if (w.listing i).toOption = some 200 then { w with listed := w.rules, quiet := true } else w
  | .post body =>
    { w with
      rules := if i.carried then w.rules ++ [body.stored i.id] else w.rules
      used := if i.carried then i.id :: w.used else w.used
      posted := if i.reply.toOption.any success then i.id :: w.posted else w.posted }
  | .delete _ id =>
    if i.carried then { w with rules := w.rules.filter fun row => row.id != id } else w
  | .fw tool cmd =>
    { w with fw := Function.update w.fw tool (after i.fail.isSome cmd (w.fw tool)) }
  | .answer requested => { w with acked := requested :: w.acked }
  | .change rules =>
    { w with rules := rules, used := rules.map (·.id) ++ w.used, quiet := false }
  | .lock | .bridge _ | .ipv6 | .getStatus => w

def host : Machine World Input Act where
  enabled _ _ _ := true
  apply e _ w i := w.apply i e

/-- What is assumed of RFW: a rule gets an id in `1..2^31-1` that no rule has had before, an
answer with a success code means that the request has been carried out, and a rule that is
not found does not exist. -/
def Rfw (_ : Pid) (e : Act) (w : World) (i : Input) : Prop :=
  match e with
  | .post _ =>
    (i.carried = true → 1 ≤ i.id ∧ i.id < 2 ^ 31 ∧ i.id ∉ w.used) ∧
      (i.reply.toOption.any success = true → i.carried = true)
  | .delete _ id =>
    (i.reply.toOption.any success = true → i.carried = true) ∧
      (i.reply.toOption = some 404 → id ∉ w.rules.map (·.id))
  | .change rules =>
    (rules.map (·.id)).Nodup ∧ ∀ row ∈ rules, 1 ≤ row.id ∧ row.id < 2 ^ 31 ∧
      (row.id ∈ w.rules.map (·.id) ∨ row.id ∉ w.used)
  | _ => True

instance (p : Pid) (w : World) (i : Input) : ∀ e, Decidable (Rfw p e w i)
  | .post _ => inferInstanceAs (Decidable (_ ∧ _))
  | .delete _ _ => inferInstanceAs (Decidable (_ ∧ _))
  | .change _ => inferInstanceAs (Decidable (_ ∧ _))
  | .lock | .setState _ | .save _ | .bridge _ | .ipv6 | .getStatus | .getRules | .fw _ _
  | .answer _ => .isTrue trivial

abbrev HostProc := Proc World Input Act String

open Proc

def lock : HostProc State := read .lock fun _ w _ => w.mem

def save (st : State) : HostProc Unit :=
  perform (.save st) fun _ _ i => match i.fail with
    | some e => .error e
    | none => .ok ()

/-- A change of the guarded state. -/
def setState (st : State) : HostProc Unit := run (.setState st)

/-! ## The file -/

def loadPolicy (st : State) : Except String Policy :=
  if 0 < st.revision then
    match normalizePolicy st.policy with
    | .error e => throw ("persisted host firewall policy is invalid: " ++ e)
    | .ok policy =>
      if policy.revision ≠ st.revision then
        throw "persisted host firewall policy revision mismatch"
      else pure policy
  else pure st.policy

def ManagedRule.invalid (r : ManagedRule) : Bool :=
  r.key.isEmpty || decide (r.id < 1) || r.fingerprint.isEmpty

/-- `host-firewall.json` as it is read at the start. -/
def loadState : Option State → Except String State
  | none => pure {}
  | some st => do
    let policy ← loadPolicy st
    if st.managedRules.any (·.invalid) then
      throw "persisted managed RFW rule ownership is invalid"
    else pure { st with policy := policy }

/-! ## Requests to RFW -/

def shortBody (body : String) : String := String.ofList (body.toList.take 300)

/-- `as i32`. -/
def asI32 (n : Int) : Int := n.bmod (2 ^ 32)

theorem asI32_of_lt {n : Int} (h : 1 ≤ n) (hlt : n < 2 ^ 31) : asI32 n = n := by
  rw [asI32, Int.bmod_def]
  omega

def SUPPORTED_V010 : List String :=
  ["all", "tcp", "udp", "http", "tls", "socks", "ssh", "fet", "wireguard", "openvpn", "quic"]

structure Capabilities where
  apiVersion : String := ""
  protocols : List String := []
  known : Bool := false

def capabilitiesOf (status : Status) : Capabilities :=
  let version := trimStr status.apiVersion
  if version.isEmpty || decide (64 < version.utf8ByteSize) then { apiVersion := version }
  else
    match status.supportedProtocols with
    | some protocols =>
      let parsed := sortedSet (protocols.map toAsciiLowercase)
      { apiVersion := version
        protocols := parsed
        known := !(parsed.isEmpty || decide (32 < parsed.length)) }
    | none =>
      if version = "0.1.0" then
        { apiVersion := version, protocols := SUPPORTED_V010, known := true }
      else { apiVersion := version }

def capabilities : HostProc Capabilities := do
  let (code, status) ← perform .getStatus fun _ _ i => i.reply.map (·, i.status)
  if code ≠ 200 then pure {} else pure (capabilitiesOf status)

def supports (caps : Capabilities) (rule : Rule) : Bool :=
  if caps.known then caps.protocols.contains rule.protocol else rule.protocol != "mtproto"

def listRules : HostProc (List RawRule) := do
  let (code, body, rows) ← perform .getRules fun _ w i => (w.listing i).map (·, i.body, w.rules)
  if code ≠ 200 then
    fail ("RFW list returned HTTP " ++ toString code ++ ": " ++ shortBody body)
  else if 256 < rows.length then
    fail "RFW rule list exceeds the 256-rule readback limit"
  else if (rows.any fun row => row.id < 1) || !decide (rows.map (·.id)).Nodup then
    fail "RFW rule list contains an invalid or duplicate ID"
  else pure rows

def createRule (desired : Rule) : HostProc Int := do
  let (code, body, id) ←
    perform (.post (rfwPayload desired)) fun _ _ i => i.reply.map (·, i.body, i.id)
  if !success code then
    fail ("create RFW rule " ++ debugStr desired.key ++ " returned HTTP " ++ toString code ++
      ": " ++ shortBody body)
  else if asI32 id < 1 then
    fail "RFW create response did not include a valid rule ID"
  else pure (asI32 id)

def Deleter.text (id : Int) : Deleter → String
  | .reconcileRfw => "remove obsolete managed RFW rule " ++ toString id
  | .deleteManualRule _ => "RFW delete"

def deleteRule (by_ : Deleter) (id : Int) : HostProc Unit := do
  let (code, body) ← perform (.delete by_ id) fun _ _ i => i.reply.map (·, i.body)
  if code ≠ 200 ∧ code ≠ 204 ∧ code ≠ 404 then
    fail (by_.text id ++ " returned HTTP " ++ toString code ++ ": " ++ shortBody body)
  else pure ()

/-! ## Reconciliation with RFW -/

/-- The row that `reconcile_rfw` adds to its copy of the list for a rule it has created. -/
def rowOf (desired : Rule) (id : Int) : RawRule where
  id := id
  priority := desired.priority
  direction := desired.direction
  protocol := desired.protocol
  action := desired.action
  enabled := desired.enabled
  portStart := desired.portStart
  portEnd := desired.portEnd.getD 0
  ipType := desired.ipType
  ip := desired.ip
  countries := desired.countries

/-- The variables of the first loop. -/
structure Selection where
  st : State
  actual : List RawRule
  selected : List Int := []

/-- A managed rule that serves `desired`. -/
def Selection.keeps (a : Selection) (desired : Rule) (owned : ManagedRule) : Bool :=
  !a.selected.contains owned.id && owned.key == desired.key &&
    owned.fingerprint == fingerprint desired &&
    a.actual.any fun row => row.id == owned.id && rawMatches row desired

def Selection.keep (a : Selection) (owned : ManagedRule) : Selection :=
  { a with selected := owned.id :: a.selected }

def State.push (st : State) (desired : Rule) (id : Int) : State :=
  { st with managedRules := st.managedRules ++ [⟨desired.key, id, fingerprint desired⟩] }

def Selection.push (a : Selection) (desired : Rule) (id : Int) : Selection where
  st := a.st.push desired id
  actual := a.actual ++ [rowOf desired id]
  selected := id :: a.selected

/-- One round of the first loop: the desired rule is found among the managed ones or
created. -/
def selectRule (a : Selection) (desired : Rule) : HostProc Selection :=
  match a.st.managedRules.find? (a.keeps desired) with
  | some owned => pure (a.keep owned)
  | none => do
    let id ← createRule desired
    setState (a.st.push desired id)
    save (a.st.push desired id)
    pure (a.push desired id)

def State.withManaged (st : State) (managed : List ManagedRule) : State :=
  { st with managedRules := managed }

def deleteListed (actual : List RawRule) (id : Int) : HostProc Unit :=
  if actual.any fun row => row.id == id then deleteRule .reconcileRfw id else pure ()

/-- The second loop: managed rules that are not selected are deleted. `kept` are the rules
before the one at hand. -/
def removeUnselected (a : Selection) (kept : List ManagedRule) :
    List ManagedRule → HostProc State
  | [] => pure (a.st.withManaged kept)
  | owned :: rest =>
    if a.selected.contains owned.id then removeUnselected a (kept ++ [owned]) rest
    else do
      deleteListed a.actual owned.id
      setState (a.st.withManaged (kept ++ rest))
      save (a.st.withManaged (kept ++ rest))
      removeUnselected a kept rest

def reconcileRfw (st : State) : HostProc State := do
  if st.policy.rules.isEmpty && st.managedRules.isEmpty then pure st
  else
    let caps ← capabilities.attempt
    match st.policy.rules.find? fun rule => !supports (caps.toOption.getD {}) rule with
    | some rule => fail ("RFW does not support protocol " ++ debugStr rule.protocol)
    | none =>
      let actual ← listRules
      let a ← fold selectRule { st := st, actual := actual } st.policy.rules
      removeUnselected a [] a.st.managedRules

/-! ## The abuse chain -/

def ABUSE_CHAIN : String := "RUNMAN_RS_RFW_ABUSE"

def ABUSE_MARKER : String := "runman-agent-rs-v2-abuse"

def markerRule : Iptables.Rule := ["-m", "comment", "--comment", ABUSE_MARKER, "-j", "RETURN"]

def verifyBridges (policy : AbusePolicy) : HostProc Unit :=
  if !policy.enabled then pure ()
  else
    forEach (fun iface => perform (.bridge iface) fun _ _ i =>
      if i.flag then .ok ()
      else .error (debugStr iface ++
        " is not an existing Linux bridge; no host firewall changes were made"))
      policy.interfaces

def fwArgs (tool : Tool) (cmd : Cmd) : String :=
  tool.name ++ " " ++ String.intercalate " " (["-w", "5", "-t", "filter"] ++ cmd.args ABUSE_CHAIN)

def fwCommand (tool : Tool) (cmd : Cmd) : HostProc Unit :=
  perform (.fw tool cmd) fun _ w i =>
    if succeeds i.fail.isSome cmd (w.fw tool) then .ok ()
    else .error (fwArgs tool cmd ++ " failed: " ++ i.fail.getD "")

/-- `iptables -S`: the chain as it is listed. -/
def fwOutput (tool : Tool) : HostProc Chain :=
  perform (.fw tool .list) fun _ w i =>
    match i.fail, w.fw tool with
    | none, some chain => .ok chain
    | _, _ => .error (fwArgs tool .list ++ " failed")

/-- The rules for one bridge, in the order in which they are inserted at the top. -/
def abuseRules (policy : AbusePolicy) (iface : String) : List Iptables.Rule :=
  let rules :=
    (if policy.speedtest then
      [["-p", "tcp", "--dport", "5201", "-j", "REJECT", "--reject-with", "tcp-reset"],
        ["-p", "udp", "--dport", "5201", "-j", "DROP"]]
    else []) ++
    (if policy.mining then
      [["-p", "tcp", "-m", "multiport", "--dports",
        "3333,4444,5555,6666,7777,8888,9999,14433,14444", "-j", "REJECT", "--reject-with",
        "tcp-reset"]]
    else []) ++
    (if policy.bt then
      ["tcp", "udp"].flatMap fun protocol =>
        ["6881:6889", "6969", "51413", "4662,4672"].map fun ports =>
          if ports.contains ',' then
            ["-p", protocol, "-m", "multiport", "--dports", ports, "-j", "DROP"]
          else ["-p", protocol, "--dport", ports, "-j", "DROP"]
    else [])
  rules.map (["-i", iface] ++ ·)

def insertAbuse (tool : Tool) (policy : AbusePolicy) : HostProc Unit :=
  forEach (fun rule => fwCommand tool (.insert rule))
    (policy.interfaces.flatMap (abuseRules policy))

/-- `apply_abuse_family`; the loop over the jumps has as many rounds as there are jumps in
the listing. -/
def applyAbuseFamily (tool : Tool) (policy : AbusePolicy) : HostProc Unit := do
  let existing ← (fwOutput tool).attempt
  match existing with
  | .ok chain =>
    if !chain.mentions ABUSE_MARKER then
      fail "refusing to modify an existing unowned firewall chain"
    else if !policy.enabled then
      whileOk (fwCommand tool .checkJump) (fwCommand tool .deleteJump) chain.jumps
      fwCommand tool .flush
      fwCommand tool .deleteChain
    else
      fwCommand tool .flush
      enable
  | .error _ =>
    if !policy.enabled then pure ()
    else
      fwCommand tool .newChain
      enable
where
  enable : HostProc Unit := do
    fwCommand tool (.append markerRule)
    insertAbuse tool policy
    match ← (fwCommand tool .checkJump).attempt with
    | .ok _ => pure ()
    | .error _ => fwCommand tool .insertJump

def applyAbuse (policy : AbusePolicy) : HostProc Unit := do
  applyAbuseFamily .iptables policy
  if ← read .ipv6 fun _ _ i => i.flag then applyAbuseFamily .ip6tables policy else pure ()

/-! ## Calls -/

def summary (st : State) : String :=
  let enabled :=
    (if st.policy.abuse.speedtest then ["speedtest"] else []) ++
      (if st.policy.abuse.mining then ["mining"] else []) ++
      (if st.policy.abuse.bt then ["bt"] else [])
  "policy_revision=" ++ toString st.revision ++ "; managed_rfw_rules=" ++
    toString st.policy.rules.length ++ "; abuse_ports=" ++
    if enabled.isEmpty then "none" else String.intercalate "," enabled

/-- What `apply` does to the stored policy before the reconciliation. -/
def advance (policy : Policy) (st : State) : HostProc State :=
  if policy.revision < st.revision then
    fail ("stale firewall policy revision " ++ toString policy.revision ++
      "; current revision is " ++ toString st.revision)
  else if policy.revision = st.revision then
    if policy ≠ st.policy then fail "firewall policy changed without advancing its revision"
    else pure st
  else do
    let st := { st with revision := policy.revision, policy := policy }
    setState st
    save st
    pure st

def apply (requested : Policy) : HostProc String :=
  match normalizePolicy requested with
  | .error e => fail e
  | .ok policy => do
    verifyBridges policy.abuse
    let st ← lock
    let st ← advance policy st
    let st ← reconcileRfw st
    applyAbuse st.policy.abuse
    pure (summary st)

def reconcile : HostProc Unit := do
  let st ← lock
  if st.revision = 0 then pure ()
  else
    match ← (verifyBridges st.policy.abuse).attempt with
    | .error e =>
      match ← (applyAbuse {}).attempt with
      | .error cleanup => fail ("remove stale abuse rules: " ++ cleanup ++ ": " ++ e)
      | .ok _ => fail e
    | .ok _ =>
      let st ← reconcileRfw st
      applyAbuse st.policy.abuse

def deleteManualRule (expected : RuleReadback) : HostProc Unit := do
  if expected.id < 1 ∨ expected.origin ≠ "manual" ∨ expected.syncState ≠ "manual" ∨
      !expected.managedKey.isEmpty then
    fail "only a confirmed manual RFW rule can be deleted directly"
  else
    let st ← lock
    if st.managedRules.any fun r => r.id == expected.id then
      fail "platform-managed RFW rules must be removed from the desired policy"
    else
      let rows ← listRules
      match rows.find? fun r => r.id == expected.id with
      | none => pure ()
      | some current =>
        if !sameReadback current expected then
          fail "manual RFW rule changed since readback; refresh before deleting"
        else deleteRule (.deleteManualRule expected) expected.id

inductive Call where
  | apply (requested : Policy)
  | reconcile
  | deleteManualRule (expected : RuleReadback)

def serve : Call → Prog World Input Act Unit
  | .apply requested => Prog.bind (apply requested) fun r =>
    match r with
    | .ok _ => Prog.run (.answer requested)
    | .error _ => Prog.ret ()
  | .reconcile => Prog.bind reconcile fun _ => Prog.ret ()
  | .deleteManualRule expected => Prog.bind (deleteManualRule expected) fun _ => Prog.ret ()

/-- `Manager::new` after a crash. -/
def World.restart (w : World) : Option World :=
  (loadState w.disk).toOption.map fun st => { w with mem := st }

theorem restart_eq_some {w w' : World} (h : w.restart = some w') :
    ∃ st, loadState w.disk = .ok st ∧ w' = { w with mem := st } := by
  unfold World.restart at h
  cases hload : loadState w.disk with
  | error e => rw [hload] at h; cases h
  | ok st =>
    rw [hload] at h
    exact ⟨st, rfl, (Option.some.inj h).symm⟩

def manager : Server host Call where
  code := serve
  restart := World.restart
  others e := match e with
    | .change _ => True
    | _ => False

instance : DecidablePred manager.others
  | .change _ => .isTrue trivial
  | .lock | .setState _ | .save _ | .bridge _ | .ipv6 | .getStatus | .getRules | .post _
  | .delete _ _ | .fw _ _ | .answer _ => .isFalse id

/-! ## Footprints -/

/-- The actions that change nothing but the filter tables. -/
def Act.Aside : Act → Prop
  | .lock | .bridge _ | .ipv6 | .getStatus | .fw _ _ => True
  | _ => False

theorem apply_aside {w : World} {i : Input} {e : Act} (he : e.Aside) :
    ∃ fw, w.apply i e = { w with fw := fw } := by
  cases e with
  | lock | bridge | ipv6 | getStatus => exact ⟨w.fw, rfl⟩
  | fw tool cmd => exact ⟨_, rfl⟩
  | _ => exact he.elim

theorem verifyBridges_uses (policy : AbusePolicy) : (verifyBridges policy).Uses Act.Aside := by
  unfold verifyBridges
  split
  · trivial
  · exact uses_forEach fun iface => .perform trivial

theorem fwCommand_uses (tool : Tool) (cmd : Cmd) : (fwCommand tool cmd).Uses Act.Aside :=
  .perform trivial

theorem applyAbuseFamily_uses (tool : Tool) (policy : AbusePolicy) :
    (applyAbuseFamily tool policy).Uses Act.Aside := by
  have henable : (applyAbuseFamily.enable tool policy).Uses Act.Aside := by
    refine uses_bind (fwCommand_uses _ _) fun _ => uses_bind ?_ fun _ => ?_
    · exact uses_forEach fun rule => fwCommand_uses _ _
    · refine uses_bind (uses_attempt (fwCommand_uses _ _)) fun r => ?_
      cases r with
      | ok _ => trivial
      | error _ => exact fwCommand_uses _ _
  refine uses_bind (uses_attempt (.perform trivial)) fun r => ?_
  cases r with
  | ok chain =>
    dsimp only
    split
    · trivial
    · split
      · refine uses_bind (uses_whileOk (fwCommand_uses _ _) (fwCommand_uses _ _)) fun _ => ?_
        exact uses_bind (fwCommand_uses _ _) fun _ => fwCommand_uses _ _
      · exact uses_bind (fwCommand_uses _ _) fun _ => henable
  | error _ =>
    dsimp only
    split
    · trivial
    · exact uses_bind (fwCommand_uses _ _) fun _ => henable

theorem applyAbuse_uses (policy : AbusePolicy) : (applyAbuse policy).Uses Act.Aside := by
  refine uses_bind (applyAbuseFamily_uses _ _) fun _ =>
    uses_bind (.perform trivial) fun b => ?_
  split
  · exact applyAbuseFamily_uses _ _
  · trivial

theorem capabilities_uses : capabilities.Uses Act.Aside := by
  refine uses_bind (.perform trivial) fun r => ?_
  dsimp only
  split <;> trivial

theorem listRules_uses : listRules.Uses (· = .getRules) := by
  refine uses_bind (.perform rfl) fun r => ?_
  dsimp only
  split_ifs <;> trivial

theorem deleteRule_uses (by_ : Deleter) (id : Int) :
    (deleteRule by_ id).Uses (· = .delete by_ id) := by
  refine uses_bind (.perform rfl) fun r => ?_
  dsimp only
  split_ifs <;> trivial

theorem deleteListed_uses (actual : List RawRule) (id : Int) :
    (deleteListed actual id).Uses (· = .delete .reconcileRfw id) := by
  unfold deleteListed
  split
  · exact deleteRule_uses _ _
  · trivial

end RunmanAgent.HostPolicy
