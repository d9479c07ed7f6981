import RunmanAgent.Runtime.NetConfig

/-!
# The text of the ruleset (`Net::ruleset` of `src/runtime/net.rs`)

The bridge table guards the instances' ports against forged source addresses, the inet table
has the address translation, the port forwards and the protection of the host. Both are
replaced in one transaction.
-/

namespace RunmanAgent

open Text

/-- `writeln!` of each line. -/
def unlines (ls : List String) : String := String.join (ls.map (· ++ "\n"))

/-- No line break is inside. -/
def OneLine (s : String) : Prop := ∀ c ∈ s.toList, c ≠ '\n' ∧ c ≠ '\r'

theorem OneLine.append {s t : String} (hs : OneLine s) (ht : OneLine t) : OneLine (s ++ t) := by
  intro c hc
  rw [String.toList_append, List.mem_append] at hc
  exact hc.elim (hs c) (ht c)

-- a literal is `String.ofList` of its characters; to compute `toList` of it is much slower
theorem OneLine.of_all {s : List Char} (h : s.all (fun c => c != '\n' && c != '\r') = true) :
    OneLine (String.ofList s) := by
  intro c hc
  rw [String.toList_ofList] at hc
  simpa using List.all_eq_true.mp h c hc

theorem OneLine.of_blank {s : String} (h : ∀ c ∈ s.toList, isWhitespace c = false) : OneLine s := by
  intro c hc
  have hw := h c hc
  constructor <;> intro hcr <;> rw [hcr] at hw <;> cases hw

theorem lines_unlines {ls : List String} (h : ∀ l ∈ ls, OneLine l) (s : List Char) :
    lines ((unlines ls).toList ++ s) = ls.map String.toList ++ lines s := by
  induction ls with
  | nil => rfl
  | cons l ls ih =>
    have hlist : (unlines (l :: ls)).toList ++ s = l.toList ++
      '\n' :: ((unlines ls).toList ++ s) := by
      simp [unlines]
    rw [hlist, lines_append (h l (.head _)), ih fun l' hl' => h l' (.tail _ hl')]
    rfl

def elements (items : List String) : String :=
  if items = [] then ""
  else " elements = \x7b " ++ String.intercalate ", " items ++ " \x7d;"

/-- Own and dedicated IPv4 addresses of a port. -/
def Port.addrs4 (p : Port) : List Nat :=
  p.addrs.ipv4 :: p.extra.filterMap fun
    | .v4 a => some a
    | .v6 _ => none

/-- Own and dedicated IPv6 addresses of a port. -/
def Port.addrs6 (p : Port) : List Nat :=
  p.addrs.ipv6.toList ++ p.extra.filterMap fun
    | .v6 a => some a
    | .v4 _ => none

namespace Net

variable (n : Net)

/-- The interface of a port with one of its addresses. -/
def element (ifc : String) (a : IpAddr) : String := "\"" ++ ifc ++ "\" . " ++ a.toText

def src4 (instances : List Port) : List String :=
  instances.flatMap fun p => p.addrs4.map fun a => element (n.hostIf p.idx) (.v4 a)

def src6 (instances : List Port) : List String :=
  instances.flatMap fun p => p.addrs6.map fun a => element (n.hostIf p.idx) (.v6 a)

/-- `add` and `delete`: this works whether or not the tables exist. -/
def dropTables : List String :=
  ["bridge", "inet"].flatMap fun family =>
    ["add table " ++ family ++ " " ++ n.table, "delete table " ++ family ++ " " ++ n.table]

/-- Anti-spoofing and RA guard on instance ports. -/
def bridgeTable (instances : List Port) : List String :=
  ["table bridge " ++ n.table ++ " \x7b",
    "  set src4 \x7b type ifname . ipv4_addr;" ++ elements (n.src4 instances) ++ " \x7d",
    "  set src6 \x7b type ifname . ipv6_addr;" ++ elements (n.src6 instances) ++ " \x7d",
    "  chain guard \x7b",
    "    type filter hook prerouting priority -200; policy accept;",
    "    iifname != \"" ++ n.vethPrefix ++ "*\" accept",
    "    ether type ip iifname . ip saddr != @src4 drop",
    "    ether type arp iifname . arp saddr ip != @src4 drop",
    "    ether type ip6 icmpv6 type \x7b nd-router-advert, nd-redirect \x7d drop",
    "    ether type ip6 ip6 saddr fe80::/10 accept",
    "    ether type ip6 ip6 saddr :: accept",
    "    ether type ip6 iifname . ip6 saddr != @src6 drop",
    "  \x7d",
    "\x7d"]

/-- The map of the forwards of one protocol. -/
def forwardMap (forwards : List Forward) (proto : L4Proto) : String :=
  "  map fwd_" ++ proto.asStr ++ " \x7b type inet_service : ipv4_addr . inet_service;" ++
    elements ((forwards.filter (·.proto = proto)).map fun f =>
      toString f.hostPort ++ " : " ++ (IpAddr.v4 f.target).toText ++ " . " ++
        toString f.guestPort) ++ " \x7d"

def dnatRules : List String :=
  ["    fib daddr type local dnat ip to tcp dport map @fwd_tcp",
    "    fib daddr type local dnat ip to udp dport map @fwd_udp",
    "  \x7d"]

def snat6Rules : List String :=
  let sub6 := (IpAddr.v6 n.snat6Prefix).toText ++ "/64"
  if n.v6 = .snat then ["    ip6 saddr " ++ sub6 ++ " ip6 daddr != " ++ sub6 ++ " masquerade"]
  else []

/-- NAT, port forwards, host protection. -/
def inetTable (forwards : List Forward) : List String :=
  let br := "\"" ++ n.bridge ++ "\""
  let wg := "\"" ++ n.wgPrefix ++ "*\""
  let sub4 := n.subnet4
  ["table inet " ++ n.table ++ " \x7b",
    forwardMap forwards .tcp,
    forwardMap forwards .udp,
    "  chain dstnat \x7b",
    "    type nat hook prerouting priority dstnat; policy accept;"] ++
  dnatRules ++
  -- connections made by the host itself to its own public address
  ["  chain outnat \x7b", "    type nat hook output priority -100; policy accept;"] ++
  dnatRules ++
  ["  chain srcnat \x7b",
    "    type nat hook postrouting priority srcnat; policy accept;",
    "    ip saddr " ++ sub4 ++ " ip daddr != " ++ sub4 ++ " masquerade",
    -- an instance reaching a forward via the host's public address
    "    ip saddr " ++ sub4 ++ " ip daddr " ++ sub4 ++ " ct status dnat masquerade"] ++
  n.snat6Rules ++
  ["  \x7d",
    "  chain input \x7b",
    "    type filter hook input priority filter; policy accept;",
    "    iifname " ++ br ++ " ct state established,related accept",
    "    iifname " ++ br ++ " meta l4proto \x7b icmp, ipv6-icmp \x7d accept",
    "    iifname " ++ br ++ " drop",
    "  \x7d",
    "  chain forward \x7b",
    "    type filter hook forward priority filter; policy accept;",
    "    iifname " ++ wg ++ " tcp flags syn tcp option maxseg size set rt mtu",
    "    oifname " ++ wg ++ " tcp flags syn tcp option maxseg size set rt mtu",
    -- instances talk to each other only through published forwards
    "    iifname " ++ br ++ " oifname " ++ br ++ " ct status dnat accept",
    "    iifname " ++ br ++ " oifname " ++ br ++ " drop",
    "  \x7d",
    "\x7d"]

def ruleset (instances : List Port) (forwards : List Forward) : String :=
  unlines (n.dropTables ++ n.bridgeTable instances ++ n.inetTable forwards)

end Net

end RunmanAgent
