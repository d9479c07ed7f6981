import RunmanAgent.ConnLimit.Policy
import RunmanAgent.Data.Result

/-!
# Connection-limit policies of the Go agent (`firewall/connlimit/connlimit_linux.go`)

The addresses of a policy are texts. Rules are installed for the addresses that `validateIPs`
makes of them: blanks around a text do not count, and an IPv4 address written as an IPv6 one is
unmapped. Rules are removed for the addresses that the texts denote as they stand. For a policy
with `Plain` texts the two are the same (`mem_rules_of_validateIPs`).
-/

namespace RunmanAgent.GoAgent.Limits

open Iptables Text

export Iptables (Rule)

/-! ## `netip.Addr` -/

structure NetAddr where
  ip : IpAddr
  /-- Only IPv6 addresses have one. -/
  zone : List Char := []
deriving DecidableEq

namespace NetAddr

def is6 : NetAddr → Bool
  | ⟨.v4 _, _⟩ => false
  | ⟨.v6 _, _⟩ => true

def toChars (a : NetAddr) : List Char :=
  a.ip.toText.toList ++ if a.zone = [] then [] else '%' :: a.zone

/-- `Addr.String`. -/
def text (a : NetAddr) : String := String.ofList a.toChars

/-- `netip.ParseAddr`. -/
def parse (s : List Char) : Option NetAddr :=
  match splitOnce '%' s with
  | none => (IpAddr.parse (String.ofList s)).map fun ip => ⟨ip, []⟩
  | some (addr, zone) =>
    if zone = [] then none
    else
      match readV6 addr with
      | some (n, []) => some ⟨.v6 n, zone⟩
      | _ => none

/-- An IPv4 address written as an IPv6 one becomes an IPv4 address, without its zone. -/
def unmap : NetAddr → NetAddr
  | ⟨.v6 n, zone⟩ => if n / 2 ^ 32 = 0xffff then ⟨.v4 (n % 2 ^ 32), []⟩ else ⟨.v6 n, zone⟩
  | a => a

/-- `IsGlobalUnicast`, and neither link-local, multicast nor unspecified. -/
def global (a : NetAddr) : Bool :=
  match a.unmap.ip with
  | .v4 n => !(n == 0 || n == 0xffffffff || n / 2 ^ 24 == 127 || n / 2 ^ 28 == 0xe ||
      n / 2 ^ 16 == 0xa9fe)
  | .v6 n => !(n == 0 || n == 1 || n / 2 ^ 120 == 0xff || n / 2 ^ 118 == 0x3fa)

structure Valid (a : NetAddr) : Prop where
  ip : a.ip.Valid
  zone : a.zone ≠ [] → a.is6 = true

end NetAddr

/-- The text that an address is listed as. -/
def canonicalIP (value : String) : Except String String :=
  match NetAddr.parse (trim value.toList) with
  | some addr =>
    if addr.global then .ok addr.unmap.text
    else .error ("invalid global container address " ++ value.quote)
  | none => .error ("invalid global container address " ++ value.quote)

/-- The result is sorted and has no duplicates. -/
def validateIPs (raw : List String) : Except String (List String) :=
  (raw.mapM canonicalIP).map fun ips => ips.dedup.insertionSort fun a b => a ≤ b

def sameIPs (a b : List String) : Bool :=
  match validateIPs a, validateIPs b with
  | .ok aa, .ok bb => decide (aa = bb)
  | _, _ => false

/-! ## Policies and rules -/

def chainName : String := "NARWHAL_CLIMIT"

structure Policy where
  id : String
  vmId : String
  instanceId : String
  max : Int
  expiresAt : Int
  ips : List String
  removeOnly : Bool := false
deriving DecidableEq

def toolOf (a : NetAddr) : Tool := if a.is6 then .ip6tables else .iptables

def comment (id : String) (incoming : Bool) : String :=
  "narwhal-climit:" ++ id ++ ":" ++ if incoming then "in" else "out"

def ruleArgs (p : Policy) (addr : NetAddr) (incoming : Bool) : Rule :=
  [if incoming then "-d" else "-s", addr.text, "-p", "tcp", "--syn",
    "-m", "connlimit", "--connlimit-above", toString p.max,
    "--connlimit-mask", if addr.is6 then "128" else "32",
    if incoming then "--connlimit-daddr" else "--connlimit-saddr",
    "-m", "comment", "--comment", comment p.id incoming,
    "-j", "REJECT", "--reject-with", "tcp-reset"]

/-- The directions in the order of the loops. -/
def directions : List Bool := [true, false]

/-- What is removed for one text, in the order of the loop. -/
def rulesAt (p : Policy) (value : String) : List (Tool × Rule) :=
  match NetAddr.parse value.toList with
  | some addr => directions.map fun incoming => (toolOf addr, ruleArgs p addr incoming)
  | none => []

/-- The rules of a policy, as they are removed. -/
def Policy.rules (p : Policy) : List (Tool × Rule) := p.ips.flatMap (rulesAt p)

/-- Every address that rules are installed for is denoted by one of the texts as it stands. -/
def Policy.Plain (p : Policy) : Prop :=
  ∀ value ∈ p.ips, ∀ addr, NetAddr.parse (trim value.toList) = some addr →
    ∃ value' ∈ p.ips, NetAddr.parse value'.toList = some addr.unmap

instance (p : Policy) : Decidable p.Plain :=
  inferInstanceAs (Decidable (∀ value ∈ p.ips, ∀ addr ∈ NetAddr.parse (trim value.toList),
    ∃ value' ∈ p.ips, NetAddr.parse value'.toList = some addr.unmap))

/-! ## Texts are read back -/

namespace NetAddr

theorem percent_notMem_toText (ip : IpAddr) : '%' ∉ ip.toText.toList := by
  intro h
  have hchar := IpAddr.toText_chars h
  revert hchar
  unfold ipChar
  decide

variable {a : NetAddr} {s : List Char}

theorem parse_toChars (h : a.Valid) : parse a.toChars = some a := by
  obtain ⟨ip, zone⟩ := a
  unfold parse toChars
  by_cases hzone : zone = []
  · subst hzone
    rw [if_pos rfl, List.append_nil, splitOnce_eq_none (percent_notMem_toText ip)]
    dsimp only
    rw [String.ofList_toList, IpAddr.parse_toText h.ip]
    rfl
  · cases ip with
    | v4 n => cases h.zone hzone
    | v6 n =>
      rw [if_neg hzone, splitOnce_append (percent_notMem_toText _)]
      dsimp only
      have hread : readV6 (IpAddr.v6 n).toText.toList = some (n, []) := by
        rw [IpAddr.toText, String.toList_ofList]
        exact readV6_show h.ip
      rw [if_neg hzone, hread]

theorem parse_text (h : a.Valid) : parse a.text.toList = some a := by
  rw [text, String.toList_ofList, parse_toChars h]

theorem parse_valid (h : parse s = some a) : a.Valid := by
  unfold parse at h
  split at h
  · obtain ⟨ip, hip, rfl⟩ := Option.map_eq_some_iff.mp h
    exact ⟨IpAddr.parse_valid hip, fun hne => absurd rfl hne⟩
  · split at h
    · cases h
    · split at h
      · rename_i hread
        cases h
        exact ⟨readV6_lt hread, fun _ => rfl⟩
      · cases h

theorem unmap_v6 (n : Nat) (zone : List Char) :
    unmap ⟨.v6 n, zone⟩ =
      if n / 2 ^ 32 = 0xffff then ⟨.v4 (n % 2 ^ 32), []⟩ else ⟨.v6 n, zone⟩ := rfl

theorem unmap_valid (h : a.Valid) : a.unmap.Valid := by
  obtain ⟨ip, zone⟩ := a
  cases ip with
  | v4 n => exact h
  | v6 n =>
    rw [unmap_v6]
    split
    · exact ⟨Nat.mod_lt n (by decide), fun hne => absurd rfl hne⟩
    · exact h

@[simp] theorem unmap_unmap (a : NetAddr) : a.unmap.unmap = a.unmap := by
  obtain ⟨ip, zone⟩ := a
  cases ip with
  | v4 n => rfl
  | v6 n =>
    rw [unmap_v6]
    split
    · rfl
    · rename_i hne
      rw [unmap_v6, if_neg hne]

theorem zone_getLast? (h : parse s = some a) (hzone : a.zone ≠ []) :
    a.zone.getLast? = s.getLast? := by
  unfold parse at h
  split at h
  · obtain ⟨ip, -, rfl⟩ := Option.map_eq_some_iff.mp h
    exact absurd rfl hzone
  · rename_i addr zone hsplit
    split at h
    · cases h
    · split at h
      · cases h
        rw [splitOnce_eq_some hsplit, List.getLast?_append_of_ne_nil _ (by simp)]
        exact (List.getLast?_cons_of_ne_nil hzone).symm
      · cases h

theorem toText_ne_nil {ip : IpAddr} (h : ip.Valid) : ip.toText.toList ≠ [] := by
  intro hnil
  have hparse := IpAddr.parse_toText h
  rw [String.toList_eq_nil_iff.mp hnil] at hparse
  cases hparse

theorem trim_toChars (h : parse (trim s) = some a) : trim a.unmap.toChars = a.unmap.toChars := by
  have hvalid := unmap_valid (parse_valid h)
  have hchars : ∀ c ∈ a.unmap.ip.toText.toList, isWhitespace c = false :=
    fun c hc => ipChar_not_whitespace (IpAddr.toText_chars hc)
  have hne := toText_ne_nil hvalid.ip
  by_cases hzone : a.unmap.zone = []
  · refine trim_of_forall fun c hc => hchars c ?_
    rwa [toChars, if_pos hzone, List.append_nil] at hc
  · -- the zone of an address that keeps one
    have hsame : a.unmap.zone = a.zone := by
      obtain ⟨ip, zone⟩ := a
      cases ip with
      | v4 n => rfl
      | v6 n =>
        rw [unmap_v6] at hzone ⊢
        split
        · rename_i hmapped
          rw [if_pos hmapped] at hzone
          exact absurd rfl hzone
        · rfl
    have hlast : a.unmap.toChars.getLast? = (trim s).getLast? := by
      rw [toChars, if_neg hzone, List.getLast?_append_of_ne_nil _ (by simp),
        List.getLast?_cons_of_ne_nil hzone, hsame, zone_getLast? h (hsame ▸ hzone)]
    refine trim_of_ends (fun c hc => ?_) (hlast ▸ getLast?_trim)
    rw [toChars, List.head?_append_of_ne_nil _ hne] at hc
    exact hchars c (List.mem_of_mem_head? hc)

end NetAddr

/-! ## Validated addresses -/

variable {value : String} {p : Policy} {rule : Rule}

theorem canonicalIP_eq_ok {text : String} (h : canonicalIP value = .ok text) :
    ∃ addr, NetAddr.parse (trim value.toList) = some addr ∧ text = addr.unmap.text := by
  unfold canonicalIP at h
  split at h
  · rename_i addr hparse
    split at h
    · exact ⟨addr, hparse, (Except.ok.inj h).symm⟩
    · cases h
  · cases h

theorem mem_validateIPs {raw ips : List String} (h : validateIPs raw = .ok ips) (hv : value ∈ ips) :
    ∃ src ∈ raw, ∃ addr, NetAddr.parse (trim src.toList) = some addr ∧ value = addr.unmap.text := by
  unfold validateIPs at h
  cases hmap : raw.mapM canonicalIP with
  | error e =>
    rw [hmap] at h
    cases h
  | ok texts =>
    rw [hmap] at h
    cases h
    have hmem : value ∈ texts := List.mem_dedup.mp ((List.mem_insertionSort _).mp hv)
    obtain ⟨src, hsrc, hok⟩ := mem_of_mapM_ok hmap hmem
    exact ⟨src, hsrc, canonicalIP_eq_ok hok⟩

theorem plain_of_validateIPs {raw : List String} (h : validateIPs raw = .ok p.ips) : p.Plain := by
  intro value hv addr hparse
  obtain ⟨src, -, a, ha, rfl⟩ := mem_validateIPs h hv
  have hread := NetAddr.parse_text (NetAddr.unmap_valid (NetAddr.parse_valid ha))
  rw [NetAddr.text, String.toList_ofList, NetAddr.trim_toChars ha] at hparse
  rw [NetAddr.text, String.toList_ofList] at hread
  cases hread.symm.trans hparse
  refine ⟨_, hv, ?_⟩
  rw [NetAddr.unmap_unmap, NetAddr.text, String.toList_ofList, hread]

theorem mem_rulesAt {tool : Tool} :
    (tool, rule) ∈ rulesAt p value ↔ ∃ addr, NetAddr.parse value.toList = some addr ∧
      toolOf addr = tool ∧ ∃ incoming, rule = ruleArgs p addr incoming := by
  unfold rulesAt
  cases NetAddr.parse value.toList with
  | none => simp
  | some addr => simp [directions, eq_comm, or_comm]; tauto

theorem mem_rules_of_validateIPs (hp : p.Plain) {ips : List String}
    (h : validateIPs p.ips = .ok ips) (hv : value ∈ ips) {addr : NetAddr}
    (hparse : NetAddr.parse value.toList = some addr) (incoming : Bool) :
    (toolOf addr, ruleArgs p addr incoming) ∈ p.rules := by
  obtain ⟨src, hsrc, a, ha, rfl⟩ := mem_validateIPs h hv
  rw [NetAddr.parse_text (NetAddr.unmap_valid (NetAddr.parse_valid ha))] at hparse
  cases hparse
  obtain ⟨value', hv', hplain⟩ := hp src hsrc a ha
  exact List.mem_flatMap.mpr ⟨value', hv', mem_rulesAt.mpr ⟨_, hplain, rfl, incoming, rfl⟩⟩

theorem comment_inj {id id' : String} {incoming : Bool}
    (h : comment id incoming = comment id' incoming) : id = id' := by
  unfold comment at h
  have hlabel := (String.append_left_inj _).mp ((String.append_left_inj _).mp h)
  exact (String.append_right_inj _).mp hlabel

theorem ruleArgs_id {q : Policy} {a b : NetAddr} {i j : Bool}
    (h : ruleArgs p a i = ruleArgs q b j) :
    p.id = q.id := by
  have hdir : (if i then "-d" else "-s") = if j then "-d" else "-s" :=
    congrArg (fun rule : Rule => rule.getD 0 "") h
  have hcomment : comment p.id i = comment q.id j :=
    congrArg (fun rule : Rule => rule.getD 15 "") h
  have hij : i = j := by
    cases i <;> cases j <;> first | rfl | exact absurd hdir (by decide)
  subst hij
  exact comment_inj hcomment

/-- A rule that carries the id of a policy. -/
def RuleOf (id : String) (rule : Rule) : Prop :=
  ∃ p addr incoming, p.id = id ∧ rule = ruleArgs p addr incoming

theorem ruleOf_of_mem {tool : Tool} (h : (tool, rule) ∈ p.rules) : RuleOf p.id rule := by
  obtain ⟨value, -, hat⟩ := List.mem_flatMap.mp h
  obtain ⟨addr, -, -, incoming, rfl⟩ := mem_rulesAt.mp hat
  exact ⟨p, addr, incoming, rfl, rfl⟩

theorem RuleOf.unique {id id' : String} (h : RuleOf id rule) (h' : RuleOf id' rule) : id = id' := by
  obtain ⟨p, a, i, rfl, rfl⟩ := h
  obtain ⟨q, b, j, rfl, heq⟩ := h'
  exact ruleArgs_id heq

theorem rules_congr {q : Policy} (hid : p.id = q.id) (hmax : p.max = q.max) (hips : p.ips = q.ips) :
    p.rules = q.rules := by
  have hargs : ruleArgs p = ruleArgs q := by
    funext addr incoming
    rw [ruleArgs, ruleArgs, hid, hmax]
  rw [Policy.rules, Policy.rules, hips]
  unfold rulesAt
  rw [hargs]

end RunmanAgent.GoAgent.Limits
