import RunmanAgent.Addr
import RunmanAgent.Data.Result

/-!
# Network configuration (`Net::from_config` of `src/runtime/net.rs`)

A configuration that is accepted has names without blanks, quotes and line breaks
(`fromConfig_accepted`), and in subnet mode the prefix has at most 96 bits.
-/

namespace RunmanAgent

open Text

structure NetworkConfig where
  bridge : String := "rmbr0"
  ipv4Subnet : String := "10.91.0.0/20"
  ipv6Mode : String := "none"
  ipv6Prefix : String := ""
  ipv6NdpUplink : String := ""
  ipv6SnatPrefix : String := "fd91:cafe:cafe:10::/64"
  dns : List String := ["1.1.1.1", "8.8.8.8"]
  vethPrefix : String := "rv"
  wgPrefix : String := "rw"
  nftTable : String := "runman"
  deriving DecidableEq

namespace Net

def DEFAULT_SNAT6_PREFIX : Nat := 0xfd91cafecafe00100000000000000000

/-- `bail!` unless `ok`. -/
def ensure (ok : Bool) (text : String) : Except Err Unit :=
  if ok then .ok () else .error (.io text)

def orElse {α : Type} (text : String) : Option α → Except Err α
  | some a => .ok a
  | none => .error (.io text)

def parseIpv4 (s : List Char) : Except Err Nat :=
  match readV4 s with
  | some (a, []) => .ok a
  | _ => .error (.io "invalid IPv4 address syntax")

def parseIpv6 (s : List Char) : Option Nat :=
  match readV6 s with
  | some (a, []) => some a
  | _ => none

def splitCidr (s : String) : Except Err (List Char × List Char) :=
  orElse (debugStr s ++ " is not a CIDR") (splitOnce '/' s.toList)

def prefixLen (max : Nat) (l : List Char) : Except Err Nat :=
  orElse "bad prefix length" ((parseUnsigned 256 l).filter (· ≤ max))

def parseCidr4 (s : String) : Except Err (Nat × Nat) := do
  let (a, l) ← splitCidr s
  let addr ← parseIpv4 a
  let len ← prefixLen 32 l
  .ok (addr, len)

/-- The address without the bits after the prefix. -/
def masked (width addr len : Nat) : Nat := addr / 2 ^ (width - len) * 2 ^ (width - len)

def parseCidr6 (s : String) : Except Err (Nat × Nat) := do
  let (a, l) ← splitCidr s
  let len ← prefixLen 128 l
  let addr ← orElse "invalid IPv6 address syntax" (parseIpv6 a)
  .ok (masked 128 addr len, len)

def validIfname (s : String) : Bool :=
  !s.isEmpty && decide (s.utf8ByteSize ≤ 15) &&
    s.toList.all fun c => c.isAlphanum || c == '-' || c == '_' || c == '.'

def context {α : Type} (text : String) : Except Err α → Except Err α
  | .ok a => .ok a
  | .error e => .error (.context text e)

def snat6PrefixOf (c : NetworkConfig) : Except Err Nat :=
  if c.ipv6Mode = "snat" then do
    let (pfx, len) ← context "ipv6_snat_prefix" (parseCidr6 c.ipv6SnatPrefix)
    ensure (len == 64 && pfx / 2 ^ 112 &&& 0xfe00 == 0xfc00)
      "ipv6_snat_prefix must be a unique-local /64"
    .ok pfx
  else .ok DEFAULT_SNAT6_PREFIX

def v6ModeOf (c : NetworkConfig) : Except Err V6Mode :=
  match c.ipv6Mode with
  | "none" | "" => .ok .none
  | "snat" => .ok .snat
  | "subnet" => do
    let (pfx, len) ← context "ipv6_prefix" (parseCidr6 c.ipv6Prefix)
    ensure (len ≤ 96) "ipv6_prefix must be /96 or larger"
    let ndpUplink := if c.ipv6NdpUplink.isEmpty then Option.none else some c.ipv6NdpUplink
    ensure (ndpUplink.all validIfname) "invalid ipv6_ndp_uplink"
    .ok (.subnet pfx len ndpUplink)
  | other => .error (.io ("unknown ipv6_mode " ++ debugStr other))

def checkDns : List String → Except Err Unit
  | [] => .ok ()
  | d :: ds => do
    let _ ← context ("invalid dns server " ++ debugStr d)
      (orElse "invalid IP address syntax" (IpAddr.parse d))
    checkDns ds

def short (p : String) : Bool :=
  decide (1 ≤ p.utf8ByteSize) && decide (p.utf8ByteSize ≤ 4) && p.toList.all Char.isLower

def validTable (s : String) : Bool :=
  !s.isEmpty && s.toList.all fun c => c.isLower || c.isDigit || c == '_'

def fromConfig (c : NetworkConfig) : Except Err Net := do
  let (v4, v4Len) ← parseCidr4 c.ipv4Subnet
  ensure (8 ≤ v4Len && v4Len ≤ 24) "ipv4_subnet must be between /8 and /24"
  ensure (validIfname c.bridge) ("invalid bridge name " ++ debugStr c.bridge)
  let snat6Prefix ← snat6PrefixOf c
  let v6 ← v6ModeOf c
  checkDns c.dns
  ensure (short c.vethPrefix && short c.wgPrefix && c.vethPrefix != c.wgPrefix)
    "veth_prefix/wg_prefix must be distinct 1-4 lowercase letters"
  ensure (validTable c.nftTable) "invalid nft_table"
  .ok ⟨c.bridge, c.vethPrefix, c.wgPrefix, c.nftTable, masked 32 v4 v4Len, v4Len, snat6Prefix, v6,
    c.dns⟩

/-! ## Accepted configurations -/

structure Accepted (n : Net) : Prop where
  bridge : validIfname n.bridge = true
  vethPrefix : short n.vethPrefix = true
  wgPrefix : short n.wgPrefix = true
  table : validTable n.table = true

theorem ensure_eq_ok {ok : Bool} {text : String} {u : Unit} (h : ensure ok text = .ok u) :
    ok = true := by
  cases ok with
  | true => rfl
  | false => cases h

/-- What a configuration that is accepted was read as. -/
structure ReadFrom (c : NetworkConfig) (n : Net) : Prop where
  accepted : Accepted n
  bridge : n.bridge = c.bridge
  vethPrefix : n.vethPrefix = c.vethPrefix
  wgPrefix : n.wgPrefix = c.wgPrefix
  distinct : n.vethPrefix ≠ n.wgPrefix
  base : ∃ v4, parseCidr4 c.ipv4Subnet = .ok (v4, n.v4Len) ∧ n.v4Base = masked 32 v4 n.v4Len
  len : 8 ≤ n.v4Len ∧ n.v4Len ≤ 24
  snat6Prefix : snat6PrefixOf c = .ok n.snat6Prefix
  v6 : v6ModeOf c = .ok n.v6

theorem fromConfig_spec {c : NetworkConfig} {n : Net} (h : fromConfig c = .ok n) :
    ReadFrom c n := by
  obtain ⟨⟨v4, v4Len⟩, hsubnet, h⟩ := bind_eq_ok.mp h
  obtain ⟨_, hlen, h⟩ := bind_eq_ok.mp h
  obtain ⟨_, hbridge, h⟩ := bind_eq_ok.mp h
  obtain ⟨snat, hsnat, h⟩ := bind_eq_ok.mp h
  obtain ⟨v6, hv6, h⟩ := bind_eq_ok.mp h
  obtain ⟨-, -, h⟩ := bind_eq_ok.mp h
  obtain ⟨_, hnames, h⟩ := bind_eq_ok.mp h
  obtain ⟨_, htable, h⟩ := bind_eq_ok.mp h
  cases h
  have hlen := ensure_eq_ok hlen
  have hnames := ensure_eq_ok hnames
  simp only [Bool.and_eq_true, decide_eq_true_eq, bne_iff_ne] at hlen hnames
  exact ⟨⟨ensure_eq_ok hbridge, hnames.1.1, hnames.1.2, ensure_eq_ok htable⟩, rfl, rfl, rfl,
    hnames.2, ⟨v4, hsubnet, rfl⟩, hlen, hsnat, hv6⟩

theorem fromConfig_accepted {c : NetworkConfig} {n : Net} (h : fromConfig c = .ok n) :
    Accepted n :=
  (fromConfig_spec h).accepted

/-! ## Prefixes -/

theorem masked_add_le {width addr len : Nat} (h : addr < 2 ^ width) (hlen : len ≤ width) :
    masked width addr len + 2 ^ (width - len) ≤ 2 ^ width := by
  have hpow : 2 ^ width = 2 ^ len * 2 ^ (width - len) := by
    rw [← Nat.pow_add, Nat.add_sub_cancel' hlen]
  have hquot : addr / 2 ^ (width - len) < 2 ^ len :=
    Nat.div_lt_of_lt_mul (by rwa [Nat.mul_comm, ← hpow])
  unfold masked
  rw [hpow, ← Nat.succ_mul]
  exact Nat.mul_le_mul_right _ hquot

theorem masked_of_lt {width addr len k : Nat} (h : k < 2 ^ (width - len)) :
    masked width (masked width addr len + k) len = masked width addr len := by
  unfold masked
  rw [Nat.add_comm, Nat.add_mul_div_right _ _ (Nat.two_pow_pos _), Nat.div_eq_of_lt h, Nat.zero_add]

theorem masked_or {width addr len k : Nat} (h : k < 2 ^ (width - len)) :
    masked width addr len ||| k = masked width addr len + k := by
  unfold masked
  rw [Nat.mul_comm, Nat.two_pow_add_eq_or_of_lt h]

end Net

end RunmanAgent
