import RunmanAgent.Data.IpText
import RunmanAgent.Model

/-!
# Addresses and rules of the instance network (`src/runtime/net.rs`)

An instance's index determines its addresses, its MAC address and the name of its host
interface. `Ruleset` is what `Net::ruleset` renders: the bridge ports with the source
addresses they may use, and the port forwards resolved to their target address.
-/

namespace RunmanAgent

inductive IpAddr where
  | v4 (addr : Nat)
  | v6 (addr : Nat)
  deriving DecidableEq

inductive V6Mode where
  | none
  /-- ULA addresses masqueraded behind the host's IPv6. -/
  | snat
  /-- Public addresses from `pfx`; with an uplink, the host answers NDP for them. -/
  | subnet (pfx len : Nat) (ndpUplink : Option String)
  deriving DecidableEq

structure Net where
  bridge : String
  vethPrefix : String
  wgPrefix : String
  table : String
  v4Base : Nat
  v4Len : Nat
  snat6Prefix : Nat
  v6 : V6Mode
  dns : List String
  deriving DecidableEq

/-- Addresses assigned to one instance. -/
structure Addrs where
  ipv4 : Nat
  ipv6 : Option Nat
  deriving DecidableEq

/-- An instance's bridge port and the source addresses it may use. -/
structure Port where
  idx : Nat
  addrs : Addrs
  /-- Dedicated (WireGuard) addresses. -/
  extra : List IpAddr
  deriving DecidableEq

/-- Port-forward rule resolved to its target address. -/
structure Forward where
  proto : L4Proto
  hostPort : Nat
  target : Nat
  guestPort : Nat
  deriving DecidableEq

/-- The generated nftables ruleset. -/
structure Ruleset where
  instances : List Port
  forwards : List Forward
  deriving DecidableEq

/-- Instance IPv6 addresses start this far into the prefix. -/
def V6_HOST_OFFSET : Nat := 0x10000

namespace Net

def GATEWAY6_LL : Nat := 0xfe800000000000000000000000000001

def subnet4 (n : Net) : String :=
  String.ofList (Text.showV4 n.v4Base) ++ "/" ++ toString n.v4Len

def gateway4 (n : Net) : Nat := n.v4Base + 1

def gateway6 (_ : Net) : Nat := GATEWAY6_LL

/-- Largest index that still has an IPv4 address (.0 network, .1 gateway, last =
broadcast). -/
def maxIdx (n : Net) : Nat := 2 ^ (32 - n.v4Len) - 4

def addrsFor (n : Net) (idx : Nat) : Except Err Addrs :=
  if n.maxIdx < idx then .error (.noFreeAddress n.subnet4)
  else
    let ipv4 := n.v4Base + 2 + idx
    match n.v6 with
    | .none => .ok ⟨ipv4, none⟩
    | .snat => .ok ⟨ipv4, some (n.snat6Prefix + 2 + idx)⟩
    | .subnet pfx len _ =>
      let host := V6_HOST_OFFSET + idx
      -- a `u128` is shifted by the amount modulo 128, so a prefix of length 0 is not shifted
      if len < 128 ∧ host >>> ((128 - len) % 128) ≠ 0 then .error .ipv6PrefixTooSmall
      else .ok ⟨ipv4, some (pfx ||| host)⟩

/-- Host end of an instance's veth pair. -/
def hostIf (n : Net) (idx : Nat) : String := n.vethPrefix ++ toString idx

theorem hostIf_injective (n : Net) : Function.Injective n.hostIf := by
  intro a b h
  have hrepr : Nat.repr a = Nat.repr b := (String.append_right_inj _).mp h
  exact Text.repr_injective hrepr

end Net

/-- Locally administered, stable per index. -/
def mac (idx : Nat) : String :=
  "02:72:6d:" ++ String.ofList (hexDigits 2 (idx / 2 ^ 16 % 256)) ++ ":" ++
    String.ofList (hexDigits 2 (idx / 2 ^ 8 % 256)) ++ ":" ++
    String.ofList (hexDigits 2 (idx % 256))

theorem mac_inj {i j : Nat} (hi : i < 2 ^ 24) (hj : j < 2 ^ 24) (h : mac i = mac j) : i = j := by
  have hbyte : ∀ a b, hexDigits 2 (a % 256) = hexDigits 2 (b % 256) → a % 256 = b % 256 :=
    fun a b => hexDigits_inj (by omega) (by omega)
  have hlen : ∀ a b, (hexDigits 2 a).length = (hexDigits 2 b).length := fun a b => by
    rw [hexDigits_length, hexDigits_length]
  have h := congrArg String.toList h
  simp only [mac, String.toList_append, String.toList_ofList, List.append_assoc] at h
  obtain ⟨hhigh, h⟩ := List.append_inj (List.append_cancel_left h) (hlen _ _)
  obtain ⟨hmid, h⟩ := List.append_inj (List.append_cancel_left h) (hlen _ _)
  have hhigh := hbyte _ _ hhigh
  have hmid := hbyte _ _ hmid
  have hlow := hbyte _ _ (List.append_cancel_left h)
  omega

end RunmanAgent
