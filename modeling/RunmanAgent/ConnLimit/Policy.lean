import RunmanAgent.Addr
import RunmanAgent.Data.Iptables
import RunmanAgent.Data.SortedSet

/-!
# Connection-limit policies and their rules (`src/connlimit.rs`)

A policy caps the TCP connections of one generation of an instance until its lease expires.
For every address of the instance it has two rules, one for each direction, in the chain of
the address family. The comment of a rule carries the id of its policy, so different
policies have different rules (`rules_disjoint`).
-/

namespace RunmanAgent.ConnLimit

open Iptables

def CHAIN : String := "RUNMAN_RS_CLIMIT"

def CHAIN_MARKER : String := "runman-agent-rs-v2"

def markerRule : Rule := ["-m", "comment", "--comment", CHAIN_MARKER, "-j", "RETURN"]

/-- What the manager is started with. -/
structure Config where
  bridge : String
  /-- `uuid::Uuid::parse_str`, without its value. -/
  uuid : String → Except String Unit

/-- What is known about an instance. -/
structure Target where
  managed : Bool
  running : Bool
  instanceId : String
  ips : List String
  deriving DecidableEq

structure Policy where
  id : String
  vmId : String
  instanceId : String
  maxConnections : Nat
  /-- Seconds since the epoch. -/
  expiresAt : Int
  ips : List String := []
  removeOnly : Bool := false
  deriving DecidableEq

/-! ## Validation -/

def validBridge (bridge : String) : Bool :=
  !bridge.isEmpty && decide (bridge.utf8ByteSize ≤ 15) &&
    bridge.toList.all fun c => c.isAlphanum || c == '_' || c == '-' || c == '.'

def validPolicyId (id : String) : Bool :=
  decide (id.utf8ByteSize = 32) && id.toList.all fun c => c.isDigit || decide ('a' ≤ c ∧ c ≤ 'f')

/-- `char::is_control`. -/
def isControl (c : Char) : Bool :=
  decide (c.toNat ≤ 0x1f) || decide (0x7f ≤ c.toNat ∧ c.toNat ≤ 0x9f)

/-- `VmId::parse`, without its value. -/
def parseVmId (cfg : Config) (raw : String) : Except String Unit :=
  match cfg.uuid raw with
  | .ok _ => pure ()
  | .error _ => throw ("invalid vm_id " ++ debugStr raw ++ ": expected a UUID")

/-- `Context::context`. -/
def withContext {α : Type} (text : String) : Except String α → Except String α
  | .ok a => .ok a
  | .error e => .error (text ++ ": " ++ e)

/-- `validate_policy` without the lease. -/
def checkPolicy (cfg : Config) (policy : Policy) : Except String Unit := do
  if !validPolicyId policy.id || policy.vmId.isEmpty || decide (200 < policy.vmId.utf8ByteSize) ||
      policy.vmId.toList.any isControl then
    throw "invalid connection-limit policy target"
  withContext "invalid Runman VM UUID" (parseVmId cfg policy.vmId)
  withContext "invalid instance generation identity" (cfg.uuid policy.instanceId)
  if policy.maxConnections < 100 ∨ 10000 < policy.maxConnections then
    throw "max_connections must be between 100 and 10000"

theorem checkPolicy_id {cfg : Config} {policy : Policy} (h : checkPolicy cfg policy = .ok ()) :
    validPolicyId policy.id = true := by
  unfold checkPolicy at h
  cases hid : validPolicyId policy.id with
  | true => rfl
  | false =>
    simp only [hid, Bool.not_false, Bool.true_or, if_true] at h
    cases h

def checkLease (policy : Policy) (now : Int) : Except String Unit :=
  -- a subtraction that saturates is outside of the range as well
  if policy.expiresAt - now < 60 ∨ 3600 < policy.expiresAt - now then
    throw "connection-limit lease must be between 60 and 3600 seconds"
  else pure ()

/-- A unicast address that is not unspecified, loopback or link-local. -/
def usable : IpAddr → Bool
  | .v4 a => !(a == 0 || a / 2 ^ 24 == 127 || a / 2 ^ 28 == 0xe || a / 2 ^ 16 == 0xa9fe)
  | .v6 a => !(a == 0 || a == 1 || a / 2 ^ 120 == 0xff || a / 2 ^ 118 == 0x3fa)

def validateIps (raw : List String) : Except String (List String) :=
  match raw.mapM IpAddr.parse with
  | none => throw "invalid IP address syntax"
  | some ips =>
    if ips.any fun ip => !usable ip then throw "instance address is not a usable unicast address"
    else pure ((sortedSet ips).map IpAddr.toText)

/-! ## Rules -/

/-- `is_ipv6` decides which tool an address belongs to. -/
def toolOf : IpAddr → Tool
  | .v4 _ => .iptables
  | .v6 _ => .ip6tables

def comment (id : String) (incoming : Bool) : String :=
  "runman-rs-climit:" ++ id ++ ":" ++ if incoming then "in" else "out"

def ruleArgs (cfg : Config) (policy : Policy) (ip : IpAddr) (incoming : Bool) : Rule :=
  [if incoming then "-o" else "-i", cfg.bridge, if incoming then "-d" else "-s", ip.toText,
    "-p", "tcp", "--syn", "-m", "connlimit", "--connlimit-above", toString policy.maxConnections,
    "--connlimit-mask", if toolOf ip = .ip6tables then "128" else "32",
    if incoming then "--connlimit-daddr" else "--connlimit-saddr",
    "-m", "comment", "--comment", comment policy.id incoming,
    "-j", "REJECT", "--reject-with", "tcp-reset"]

/-- The rules of a policy for one of its addresses. -/
def rulesAt (cfg : Config) (policy : Policy) (tool : Tool) (raw : String) : List Rule :=
  match IpAddr.parse raw with
  | some ip => if toolOf ip = tool then [ruleArgs cfg policy ip false, ruleArgs cfg policy ip true]
    else []
  | none => []

/-- The rules of a policy in the chain of `tool`. -/
def Policy.rules (cfg : Config) (policy : Policy) (tool : Tool) : List Rule :=
  policy.ips.flatMap (rulesAt cfg policy tool)

variable {cfg : Config} {tool : Tool}

theorem mem_rulesAt {policy : Policy} {raw : String} {rule : Rule} :
    rule ∈ rulesAt cfg policy tool raw ↔
      ∃ ip, IpAddr.parse raw = some ip ∧ toolOf ip = tool ∧
        ∃ incoming, rule = ruleArgs cfg policy ip incoming := by
  unfold rulesAt
  cases IpAddr.parse raw with
  | none => simp
  | some ip =>
    by_cases ht : toolOf ip = tool
    · simp [ht, or_comm]
    · simp [ht]

theorem mem_rules {policy : Policy} {rule : Rule} :
    rule ∈ policy.rules cfg tool ↔ ∃ raw ∈ policy.ips, rule ∈ rulesAt cfg policy tool raw :=
  List.mem_flatMap

theorem comment_inj {id id' : String} {incoming : Bool}
    (h : comment id incoming = comment id' incoming) : id = id' := by
  unfold comment at h
  have hlabel := (String.append_left_inj _).mp ((String.append_left_inj _).mp h)
  exact (String.append_right_inj _).mp hlabel

theorem ruleArgs_inj {p q : Policy} {a b : IpAddr} {i j : Bool}
    (h : ruleArgs cfg p a i = ruleArgs cfg q b j) :
    i = j ∧ a.toText = b.toText ∧ p.id = q.id := by
  have hdir : (if i then "-o" else "-i") = if j then "-o" else "-i" :=
    congrArg (fun rule : Rule => rule.getD 0 "") h
  have haddr : a.toText = b.toText := congrArg (fun rule : Rule => rule.getD 3 "") h
  have hcomment : comment p.id i = comment q.id j :=
    congrArg (fun rule : Rule => rule.getD 17 "") h
  have hij : i = j := by
    cases i <;> cases j <;> first | rfl | exact absurd hdir (by decide)
  subst hij
  exact ⟨rfl, haddr, comment_inj hcomment⟩

theorem ruleArgs_ne_marker {p : Policy} {a : IpAddr} {i : Bool} :
    ruleArgs cfg p a i ≠ markerRule := by
  intro h
  have := congrArg List.length h
  simp [ruleArgs, markerRule] at this

theorem rules_congr {p q : Policy} (hid : p.id = q.id) (hmax : p.maxConnections = q.maxConnections)
    (hips : p.ips = q.ips) : p.rules cfg tool = q.rules cfg tool := by
  have hargs : ruleArgs cfg p = ruleArgs cfg q := by
    funext ip incoming
    rw [ruleArgs, ruleArgs, hid, hmax]
  rw [Policy.rules, Policy.rules, hips]
  unfold rulesAt
  rw [hargs]

/-! ## Calls of `apply` -/

/-- A call of `apply` that has not been answered yet. -/
structure Pending where
  id : String
  /-- The policy was stored before the call. -/
  known : Bool
  deriving DecidableEq

variable {applying : Option Pending} {rejected : List String}

/-- The rejected ids after the answer to the call that is at work, if there is one. -/
def rejectedAfter (applying : Option Pending) (rejected : List String) (ok : Bool) : List String :=
  match applying with
  | none => rejected
  | some a =>
    if ok then rejected.filter (· != a.id)
    else if a.known then rejected
    else a.id :: rejected

theorem mem_rejectedAfter {ok : Bool} {id : String} (h : id ∈ rejectedAfter applying rejected ok) :
    (id ∈ rejected ∧ applying ≠ some ⟨id, false⟩) ∨ (ok = false ∧ applying = some ⟨id, false⟩) := by
  cases applying with
  | none => exact .inl ⟨h, nofun⟩
  | some a =>
    unfold rejectedAfter at h
    dsimp only at h
    split at h
    · obtain ⟨hr, hne⟩ := List.mem_filter.mp h
      refine .inl ⟨hr, fun heq => ?_⟩
      cases heq
      simp at hne
    · rename_i hok
      split at h
      · rename_i hknown
        refine .inl ⟨h, fun heq => ?_⟩
        cases heq
        cases hknown
      · rename_i hknown
        by_cases hid : a = ⟨id, false⟩
        · exact .inr ⟨by simpa using hok, by rw [hid]⟩
        · refine .inl ⟨?_, fun heq => hid (Option.some.inj heq)⟩
          rcases h with _ | ⟨_, h⟩
          · refine absurd ?_ hid
            obtain ⟨id, known⟩ := a
            simpa using hknown
          · exact h

end RunmanAgent.ConnLimit
