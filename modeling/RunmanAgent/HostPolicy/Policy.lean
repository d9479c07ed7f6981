import RunmanAgent.Addr
import RunmanAgent.Data.Json
import RunmanAgent.Data.Result
import RunmanAgent.Data.SortedSet

/-!
# Host firewall policies (`src/hostpolicy.rs`)

The desired RFW rules and abuse rules, their validation and normalisation, and the
comparison of a desired rule with a rule that RFW lists. Texts are compared as the source
compares them: RFW's answers up to ASCII case and surrounding white space.

* `normalizePolicy`: what `apply` makes of a request.
* `normalizePolicy_idem`: a normalised policy is its own normal form, so a stored policy
  is accepted unchanged when it is loaded.
* `rawMatches_stored`: RFW's listing of a posted rule matches the rule.
-/

namespace RunmanAgent.HostPolicy

open Text

def MAX_RULES : Nat := 64

structure Rule where
  key : String
  priority : Int
  direction : String
  protocol : String
  action : String
  enabled : Bool
  portStart : Nat
  portEnd : Option Nat := none
  ipType : String
  ip : String := ""
  countries : List String := []
  deriving DecidableEq

structure AbusePolicy where
  speedtest : Bool := false
  mining : Bool := false
  bt : Bool := false
  interfaces : List String := []
  deriving DecidableEq

def AbusePolicy.enabled (p : AbusePolicy) : Bool := p.speedtest || p.mining || p.bt

structure Policy where
  revision : Int := 0
  rules : List Rule := []
  abuse : AbusePolicy := {}
  deriving DecidableEq

/-- A rule as RFW lists it. -/
structure RawRule where
  id : Int
  priority : Int
  direction : String
  protocol : String
  action : String
  enabled : Bool
  portStart : Nat
  portEnd : Nat := 0
  ipType : String
  ip : String := ""
  countries : List String := []
  deriving DecidableEq

/-- A rule in RFW that the manager created. -/
structure ManagedRule where
  key : String
  id : Int
  fingerprint : String
  deriving DecidableEq

/-- What is kept in memory and in `host-firewall.json`. -/
structure State where
  revision : Int := 0
  policy : Policy := {}
  managedRules : List ManagedRule := []
  deriving DecidableEq

/-! ## Text -/

def toAsciiLowercase (s : String) : String := String.ofList (s.toList.map Char.toLower)

def toAsciiUppercase (s : String) : String := String.ofList (s.toList.map Char.toUpper)

def eqIgnoreAsciiCase (a b : String) : Bool := toAsciiLowercase a == toAsciiLowercase b

def trimStr (s : String) : String := String.ofList (trim s.toList)

/-- `c.trim().to_ascii_uppercase()`. -/
def countryCode (c : String) : String := toAsciiUppercase (trimStr c)

/-- A character in a string of `serde_json`. -/
def serdeEscape (c : Char) : List Char :=
  if c = '"' then ['\\', '"']
  else if c = '\\' then ['\\', '\\']
  else if c = '\n' then ['\\', 'n']
  else if c = '\r' then ['\\', 'r']
  else if c = '\t' then ['\\', 't']
  else if c.toNat = 8 then ['\\', 'b']
  else if c.toNat = 12 then ['\\', 'f']
  else if c.toNat < 32 then ['\\', 'u'] ++ hexDigits 4 c.toNat
  else [c]

/-! ## Normalisation -/

def protocols : List String :=
  ["all", "tcp", "udp", "http", "tls", "socks", "ssh", "fet", "wireguard", "openvpn", "quic",
    "mtproto"]

/-- The protocols that can be matched in the outgoing direction. -/
def outProtocols : List String := ["all", "tcp", "udp", "socks", "fet", "wireguard", "mtproto"]

def validKey (key : String) : Bool :=
  !key.isEmpty && decide (key.utf8ByteSize ≤ 80) &&
    key.toList.all fun c => c.isAlphanum || c == '_' || c == '-'

/-- The address with the bits after the prefix cleared. -/
def networkOf (a : IpAddr) (len : Nat) : Option IpAddr :=
  match a with
  | .v4 a => if len ≤ 32 then some (.v4 (a &&& (2 ^ 32 - 2 ^ (32 - len)))) else none
  | .v6 a => if len ≤ 128 then some (.v6 (a &&& (2 ^ 128 - 2 ^ (128 - len)))) else none

def cidrText (a : IpAddr) (len : Nat) : String :=
  String.ofList (a.toText.toList ++ '/' :: Nat.toDigits 10 len)

def normalizeCidr (value : String) : Except String String := do
  let some (address, len) := splitOnce '/' (trim value.toList)
    | throw "RFW CIDR rule requires a valid CIDR"
  let some len := parseUnsigned 256 len
    | throw "invalid CIDR prefix length"
  let some ip := IpAddr.parse (String.ofList address)
    | throw "invalid CIDR address"
  match networkOf ip len with
  | some ip => pure (cidrText ip len)
  | none => throw "CIDR prefix length is out of range"

def validCountry (c : String) : Bool :=
  decide (c.utf8ByteSize = 2) && c.toList.all fun c => c.isUpper

def normalizeCountries (key : String) (countries : List String) :
    Except String (List String) :=
  if countries = [] ∨ 30 < countries.length then
    throw "RFW geoip rule requires 1 to 30 country codes"
  else if (countries.map countryCode).all validCountry then
    pure (sortedSet (countries.map countryCode))
  else throw ("RFW rule " ++ debugStr key ++ " has an invalid country code")

/-- Address and countries of a rule, for its `ip_type` in lower case. -/
def normalizeTarget (key ipType ip : String) (countries : List String) :
    Except String (String × List String) :=
  if ipType = "any" then pure ("", [])
  else if ipType = "cidr" then do
    let ip ← normalizeCidr ip
    pure (ip, [])
  else if ipType = "geoip" then do
    let countries ← normalizeCountries key countries
    pure ("", countries)
  else throw ("RFW rule " ++ debugStr key ++ " has an unsupported IP type")

/-- The checks of one rule, on its protocol in lower case. -/
def validRule (rule : Rule) (protocol : String) : Bool :=
  decide (0 ≤ rule.priority ∧ rule.priority ≤ 100000) && ["in", "out"].contains rule.direction &&
    ["block", "pass"].contains rule.action && protocols.contains protocol &&
    !(rule.direction == "out" && !outProtocols.contains protocol) &&
    !(rule.portEnd.any fun e => e < rule.portStart)

def normalizeRule (rule : Rule) : Except String Rule := do
  let protocol := toAsciiLowercase rule.protocol
  let ipType := toAsciiLowercase rule.ipType
  if !validRule rule protocol then
    throw ("RFW rule " ++ debugStr rule.key ++
      " has invalid direction, protocol, action, priority, or port range")
  else
    let (ip, countries) ← normalizeTarget rule.key ipType rule.ip rule.countries
    pure { rule with
      protocol := protocol
      ipType := ipType
      portEnd := if rule.portEnd = some rule.portStart then none else rule.portEnd
      ip := ip
      countries := countries }

/-- The rules in order; `keys` are the keys of those before. -/
def normalizeRules : (keys : List String) → List Rule → Except String (List Rule)
  | _, [] => pure []
  | keys, rule :: rest => do
    if !validKey rule.key || keys.contains rule.key then
      throw "RFW rule has a missing, invalid, or duplicate key"
    else
      let rule ← normalizeRule rule
      let rest ← normalizeRules (rule.key :: keys) rest
      pure (rule :: rest)

def validInterface (iface : String) : Bool :=
  !iface.isEmpty && decide (iface.utf8ByteSize ≤ 15) &&
    iface.toList.all fun c => c.isAlphanum || c == '_' || c == '-' || c == '.'

def normalizeAbuse (p : AbusePolicy) : Except String AbusePolicy :=
  if 16 < p.interfaces.length then throw "at most 16 container bridge interfaces are allowed"
  else
    match p.interfaces.find? fun iface => !validInterface iface with
    | some iface => throw ("invalid container bridge interface " ++ debugStr iface)
    | none =>
      if p.enabled && (sortedSet p.interfaces).isEmpty then
        throw "container abuse rules require an explicit bridge interface"
      else pure { p with interfaces := sortedSet p.interfaces }

def normalizePolicy (policy : Policy) : Except String Policy :=
  if policy.revision < 1 ∨ MAX_RULES < policy.rules.length then
    throw ("policy revision must be positive and at most " ++ toString MAX_RULES ++
      " RFW rules are allowed")
  else do
    let rules ← normalizeRules [] policy.rules
    let abuse ← normalizeAbuse policy.abuse
    pure { policy with rules := rules, abuse := abuse }

/-! ## Rules in RFW -/

/-- The body of a request that creates a rule. -/
structure Payload where
  priority : Int
  direction : String
  protocol : String
  action : String
  enabled : Bool
  portStart : Nat
  portEnd : Option Nat
  ipType : String
  ip : Option String
  countries : Option (List String)
  deriving DecidableEq

def rfwPayload (rule : Rule) : Payload where
  priority := rule.priority
  direction := rule.direction
  protocol := rule.protocol
  action := rule.action
  enabled := rule.enabled
  portStart := rule.portStart
  portEnd := rule.portEnd
  ipType := rule.ipType
  ip := if rule.ipType = "cidr" then some rule.ip else none
  countries := if rule.ipType = "geoip" then some rule.countries else none

/-- The members of the JSON object, in the order of their names. -/
def Payload.members (p : Payload) : List (String × Json.Value) :=
  [("action", .str p.action)] ++
    (p.countries.map fun cs => ("countries", Json.Value.strs cs)).toList ++
    [("direction", .str p.direction), ("enabled", .bool p.enabled)] ++
    (p.ip.map fun ip => ("ip", Json.Value.str ip)).toList ++ [("ip_type", .str p.ipType)] ++
    (p.portEnd.map fun e => ("port_end", Json.Value.num e)).toList ++
    [("port_start", .num p.portStart), ("priority", .num p.priority), ("protocol", .str p.protocol)]

def Payload.toJson (p : Payload) : String := Json.object serdeEscape p.members

def fingerprint (rule : Rule) : String := (rfwPayload rule).toJson

def rawMatches (raw : RawRule) (want : Rule) : Bool :=
  raw.priority == want.priority && eqIgnoreAsciiCase raw.direction want.direction &&
    eqIgnoreAsciiCase raw.protocol want.protocol && eqIgnoreAsciiCase raw.action want.action &&
    raw.enabled == want.enabled && raw.portStart == want.portStart &&
    (if raw.portEnd = raw.portStart then
      want.portEnd.isNone || want.portEnd == some want.portStart
    else want.portEnd == some raw.portEnd) &&
    eqIgnoreAsciiCase raw.ipType want.ipType &&
    (want.ipType != "cidr" || trimStr raw.ip == want.ip) &&
    (want.ipType != "geoip" ||
      sortedSet (raw.countries.map countryCode) == sortedSet (want.countries.map countryCode))

structure RuleReadback where
  id : Int
  priority : Int
  direction : String
  protocol : String
  action : String
  enabled : Bool
  portStart : Nat
  portEnd : Nat
  ipType : String
  ip : String := ""
  countries : List String := []
  origin : String
  managedKey : String := ""
  syncState : String
  deriving DecidableEq

def readbackRule (raw : RawRule) : RuleReadback where
  id := raw.id
  priority := raw.priority
  direction := toAsciiLowercase raw.direction
  protocol := toAsciiLowercase raw.protocol
  action := toAsciiLowercase raw.action
  enabled := raw.enabled
  portStart := raw.portStart
  portEnd := raw.portEnd
  ipType := toAsciiLowercase raw.ipType
  ip := raw.ip
  countries := raw.countries
  origin := "manual"
  syncState := "manual"

def sameReadback (raw : RawRule) (expected : RuleReadback) : Bool :=
  let current := readbackRule raw
  current.id == expected.id && current.priority == expected.priority &&
    current.direction == expected.direction && current.protocol == expected.protocol &&
    current.action == expected.action && current.enabled == expected.enabled &&
    current.portStart == expected.portStart && current.portEnd == expected.portEnd &&
    current.ipType == expected.ipType && current.ip == expected.ip &&
    current.countries == expected.countries

/-- The rule as RFW stores and lists it: an omitted `port_end` is the first port. -/
def Payload.stored (p : Payload) (id : Int) : RawRule where
  id := id
  priority := p.priority
  direction := p.direction
  protocol := p.protocol
  action := p.action
  enabled := p.enabled
  portStart := p.portStart
  portEnd := p.portEnd.getD p.portStart
  ipType := p.ipType
  ip := p.ip.getD ""
  countries := p.countries.getD []

/-! ## Normal forms -/

theorem toLower_toLower (c : Char) : c.toLower.toLower = c.toLower := by
  have hascii : ∀ n < 128, (Char.ofNat n).toLower.toLower = (Char.ofNat n).toLower := by decide
  by_cases hc : c.toNat < 128
  · rw [← Char.ofNat_toNat c]
    exact hascii _ hc
  · have hfix : c.toLower = c := by
      refine dif_neg fun h => hc ?_
      have hle : c.toNat ≤ 90 := UInt32.le_iff_toNat_le.mp h.2
      omega
    rw [hfix, hfix]

theorem toAsciiLowercase_idem (s : String) :
    toAsciiLowercase (toAsciiLowercase s) = toAsciiLowercase s := by
  rw [toAsciiLowercase, toAsciiLowercase, String.toList_ofList, List.map_map]
  congr 2
  funext c
  exact toLower_toLower c

theorem trimStr_of_forall {s : String} (h : ∀ c ∈ s.toList, isWhitespace c = false) :
    trimStr s = s := by
  rw [trimStr, trim_of_forall h, String.ofList_toList]

theorem countryCode_of_valid {c : String} (h : validCountry c = true) : countryCode c = c := by
  have hupper : ∀ d ∈ c.toList, d.isUpper = true :=
    List.all_eq_true.mp (Bool.and_eq_true_iff.mp h).2
  -- an upper-case letter is no white space and its own upper case
  have hletter : ∀ n < 91, (Char.ofNat n).isUpper = true →
      isWhitespace (Char.ofNat n) = false ∧ (Char.ofNat n).toUpper = Char.ofNat n := by decide
  have hchar : ∀ d ∈ c.toList, isWhitespace d = false ∧ d.toUpper = d := by
    intro d hd
    have hd := hupper d hd
    have hle : d.toNat ≤ 90 := by
      simp only [Char.isUpper, decide_eq_true_eq] at hd
      exact UInt32.le_iff_toNat_le.mp hd.2
    rw [← Char.ofNat_toNat d] at hd ⊢
    exact hletter _ (by omega) hd
  rw [countryCode, trimStr_of_forall fun d hd => (hchar d hd).1, toAsciiUppercase]
  rw [(List.map_congr_left fun d hd => (hchar d hd).2).trans (List.map_id _), String.ofList_toList]

variable {len : Nat} {key ip ipType ip' : String} {rule rule' : Rule} {cs cs' keys : List String}
  {rules rules' : List Rule}

theorem networkOf_spec {a b : IpAddr} (ha : a.Valid) (h : networkOf a len = some b) :
    b.Valid ∧ networkOf b len = some b := by
  cases a with
  | v4 a | v6 a =>
    obtain ⟨hlen, h⟩ := Option.ite_none_right_eq_some.mp h
    cases h
    refine ⟨lt_of_le_of_lt Nat.and_le_left ha, ?_⟩
    simp only [networkOf, if_pos hlen, Nat.and_assoc, Nat.and_self]

theorem cidrText_chars {a : IpAddr} {c : Char} (h : c ∈ (cidrText a len).toList) :
    isWhitespace c = false := by
  rw [cidrText, String.toList_ofList] at h
  rcases List.mem_append.mp h with h | h
  · exact ipChar_not_whitespace (IpAddr.toText_chars h)
  · rcases h with _ | ⟨_, h⟩
    · decide
    · exact ipChar_not_whitespace (.inl (decChars h))

theorem normalizeCidr_spec {value text : String} (h : normalizeCidr value = .ok text) :
    ∃ ip len, text = cidrText ip len ∧ ip.Valid ∧ len < 256 ∧ networkOf ip len = some ip := by
  unfold normalizeCidr at h
  split at h
  · rename_i address len _
    split at h
    · rename_i len hlen
      split at h
      · rename_i ip hip
        split at h
        · rename_i net hnet
          cases h
          obtain ⟨hvalid, hself⟩ := networkOf_spec (IpAddr.parse_valid hip) hnet
          exact ⟨net, len, rfl, hvalid, parseUnsigned_lt hlen, hself⟩
        · cases h
      · cases h
    · cases h
  · cases h

theorem normalizeCidr_idem {value text : String} (h : normalizeCidr value = .ok text) :
    normalizeCidr text = .ok text := by
  obtain ⟨ip, len, rfl, hip, hlen, hnet⟩ := normalizeCidr_spec h
  have htrim : trim (cidrText ip len).toList = (cidrText ip len).toList :=
    trim_of_forall fun c => cidrText_chars
  have hslash : '/' ∉ ip.toText.toList := fun h => ipChar_ne_slash (IpAddr.toText_chars h) rfl
  rw [normalizeCidr, htrim, cidrText, String.toList_ofList, splitOnce_append hslash]
  simp [parseUnsigned_toDigits hlen, String.ofList_toList, IpAddr.parse_toText hip, hnet, cidrText]
  rfl

theorem normalizeCountries_eq_ok : normalizeCountries key cs = .ok cs' ↔
    ¬ (cs = [] ∨ 30 < cs.length) ∧ (cs.map countryCode).all validCountry = true ∧
      sortedSet (cs.map countryCode) = cs' := by
  rw [normalizeCountries, ite_throw_eq_ok]
  refine and_congr_right fun _ => ?_
  by_cases hvalid : (cs.map countryCode).all validCountry = true
  · rw [if_pos hvalid]
    exact ⟨fun h => ⟨hvalid, Except.ok.inj h⟩, fun h => congrArg _ h.2⟩
  · rw [if_neg hvalid]
    exact ⟨nofun, fun h => absurd h.1 hvalid⟩

theorem normalizeCountries_spec (h : normalizeCountries key cs = .ok cs') :
    cs' ≠ [] ∧ cs'.Pairwise (· < ·) ∧ ∀ c ∈ cs', validCountry c = true := by
  obtain ⟨hcount, hvalid, rfl⟩ := normalizeCountries_eq_ok.mp h
  refine ⟨?_, pairwise_sortedSet _, fun c hc => ?_⟩
  · rw [ne_eq, sortedSet_eq_nil, List.map_eq_nil_iff]
    exact fun hnil => hcount (.inl hnil)
  · exact List.all_eq_true.mp hvalid c (mem_sortedSet.mp hc)

theorem normalizeCountries_idem (h : normalizeCountries key cs = .ok cs') :
    normalizeCountries key cs' = .ok cs' := by
  obtain ⟨hne, -, hcodes⟩ := normalizeCountries_spec h
  obtain ⟨hcount, -, rfl⟩ := normalizeCountries_eq_ok.mp h
  have hmap : (sortedSet (cs.map countryCode)).map countryCode = sortedSet (cs.map countryCode) :=
    (List.map_congr_left fun c hc => countryCode_of_valid (hcodes c hc)).trans (List.map_id _)
  have hlen := length_sortedSet_le (cs.map countryCode)
  rw [List.length_map] at hlen
  rw [normalizeCountries_eq_ok, hmap]
  refine ⟨?_, List.all_eq_true.mpr hcodes, sortedSet_sortedSet _⟩
  rintro (hnil | hmany)
  · exact hne hnil
  · exact hcount (.inr (hmany.trans_le hlen))

theorem normalizeTarget_eq_ok : normalizeTarget key ipType ip cs = .ok (ip', cs') ↔
    (ipType = "any" ∧ ip' = "" ∧ cs' = []) ∨
      (ipType = "cidr" ∧ normalizeCidr ip = .ok ip' ∧ cs' = []) ∨
      (ipType = "geoip" ∧ ip' = "" ∧ normalizeCountries key cs = .ok cs') := by
  rw [normalizeTarget]
  by_cases hany : ipType = "any"
  · subst hany
    rw [if_pos rfl]
    simp [pure, Except.pure, eq_comm]
  by_cases hcidr : ipType = "cidr"
  · subst hcidr
    rw [if_neg hany, if_pos rfl, bind_eq_ok]
    simp [pure, Except.pure, eq_comm]
  by_cases hgeo : ipType = "geoip"
  · subst hgeo
    rw [if_neg hany, if_neg hcidr, if_pos rfl, bind_eq_ok]
    simp [pure, Except.pure, eq_comm, and_comm]
  · simp [hany, hcidr, hgeo, throw, throwThe, MonadExceptOf.throw]

theorem normalizeTarget_idem (h : normalizeTarget key ipType ip cs = .ok (ip', cs')) :
    normalizeTarget key ipType ip' cs' = .ok (ip', cs') := by
  rw [normalizeTarget_eq_ok] at h ⊢
  rcases h with h | ⟨htype, hip, hcs⟩ | ⟨htype, hip, hcs⟩
  · exact .inl h
  · exact .inr (.inl ⟨htype, normalizeCidr_idem hip, hcs⟩)
  · exact .inr (.inr ⟨htype, hip, normalizeCountries_idem hcs⟩)

theorem validRule_congr {protocol : String} (h : validRule rule protocol = true) (rule' : Rule)
    (hp : rule'.priority = rule.priority) (hd : rule'.direction = rule.direction)
    (ha : rule'.action = rule.action) (hs : rule'.portStart = rule.portStart)
    (he : rule'.portEnd = none ∨ rule'.portEnd = rule.portEnd) :
    validRule rule' protocol = true := by
  unfold validRule at h ⊢
  rw [hp, hd, ha, hs]
  rcases he with he | he
  · rw [he]
    simp only [Bool.and_eq_true] at h ⊢
    exact ⟨h.1, rfl⟩
  · rwa [he]

theorem normalizeRule_eq_ok : normalizeRule rule = .ok rule' ↔
    validRule rule (toAsciiLowercase rule.protocol) = true ∧
      ∃ ip cs, normalizeTarget rule.key (toAsciiLowercase rule.ipType) rule.ip rule.countries =
        .ok (ip, cs) ∧ rule' = { rule with
          protocol := toAsciiLowercase rule.protocol
          ipType := toAsciiLowercase rule.ipType
          portEnd := if rule.portEnd = some rule.portStart then none else rule.portEnd
          ip := ip
          countries := cs } := by
  rw [normalizeRule, ite_throw_eq_ok, Bool.not_eq_true, Bool.not_eq_false']
  refine and_congr_right fun _ => bind_eq_ok.trans ?_
  rw [Prod.exists]
  refine exists_congr fun ip => exists_congr fun cs => and_congr_right fun _ => ?_
  exact ⟨fun h => (Except.ok.inj h).symm, fun h => congrArg _ h.symm⟩

theorem normalizeRule_idem (h : normalizeRule rule = .ok rule') :
    rule'.key = rule.key ∧ normalizeRule rule' = .ok rule' := by
  obtain ⟨hvalid, ip, cs, htarget, rfl⟩ := normalizeRule_eq_ok.mp h
  refine ⟨rfl, normalizeRule_eq_ok.mpr ⟨?_, ip, cs, ?_, ?_⟩⟩
  · rw [toAsciiLowercase_idem]
    refine validRule_congr hvalid _ rfl rfl rfl rfl ?_
    exact ite_eq_or_eq _ _ _
  · rw [toAsciiLowercase_idem]
    exact normalizeTarget_idem htarget
  · simp only [toAsciiLowercase_idem]
    by_cases he : rule.portEnd = some rule.portStart <;> simp [he]

theorem normalizeRules_cons {rest : List Rule} :
    normalizeRules keys (rule :: rest) = .ok rules' ↔
      (validKey rule.key = true ∧ rule.key ∉ keys) ∧ ∃ rule' rest', normalizeRule rule = .ok rule' ∧
        normalizeRules (rule'.key :: keys) rest = .ok rest' ∧ rules' = rule' :: rest' := by
  have hkey : ¬ (!validKey rule.key || keys.contains rule.key) = true ↔
      validKey rule.key = true ∧ rule.key ∉ keys := by simp
  rw [normalizeRules, ite_throw_eq_ok, hkey]
  refine and_congr_right fun _ => bind_eq_ok.trans (exists_congr fun rule' => ?_)
  rw [bind_eq_ok, ← exists_and_left]
  refine exists_congr fun rest' => and_congr_right fun _ => and_congr_right fun _ => ?_
  exact ⟨fun h => (Except.ok.inj h).symm, fun h => congrArg _ h.symm⟩

theorem normalizeRules_idem (h : normalizeRules keys rules = .ok rules') :
    normalizeRules keys rules' = .ok rules' ∧ rules'.length = rules.length := by
  induction rules generalizing keys rules' with
  | nil =>
    cases h
    exact ⟨rfl, rfl⟩
  | cons rule rest ih =>
    obtain ⟨hkey, rule', rest', hrule, hrest, rfl⟩ := normalizeRules_cons.mp h
    obtain ⟨hk, hself⟩ := normalizeRule_idem hrule
    obtain ⟨hrest', hlen⟩ := ih hrest
    rw [← hk] at hkey
    exact ⟨normalizeRules_cons.mpr ⟨hkey, _, _, hself, hrest', rfl⟩, by simp [hlen]⟩

theorem normalizeAbuse_idem {p p' : AbusePolicy} (h : normalizeAbuse p = .ok p') :
    normalizeAbuse p' = .ok p' := by
  unfold normalizeAbuse at h
  obtain ⟨hlen, h⟩ := ite_throw_eq_ok.mp h
  split at h
  · cases h
  · rename_i hfind
    obtain ⟨hempty, h⟩ := ite_throw_eq_ok.mp h
    cases h
    have hlen' : ¬ 16 < (sortedSet p.interfaces).length := fun hl =>
      hlen (hl.trans_le (length_sortedSet_le _))
    have hfind' : (sortedSet p.interfaces).find? (fun iface => !validInterface iface) = none := by
      rw [List.find?_eq_none] at hfind ⊢
      exact fun x hx => hfind x (mem_sortedSet.mp hx)
    simp only [normalizeAbuse, if_neg hlen', hfind', sortedSet_sortedSet]
    rw [if_neg]
    · rfl
    · exact hempty

theorem normalizePolicy_eq_ok {p q : Policy} : normalizePolicy p = .ok q ↔
    ¬ (p.revision < 1 ∨ MAX_RULES < p.rules.length) ∧
      ∃ rules abuse, normalizeRules [] p.rules = .ok rules ∧ normalizeAbuse p.abuse = .ok abuse ∧
        q = { p with rules := rules, abuse := abuse } := by
  rw [normalizePolicy, ite_throw_eq_ok]
  refine and_congr_right fun _ => bind_eq_ok.trans (exists_congr fun rules => ?_)
  rw [bind_eq_ok, ← exists_and_left]
  refine exists_congr fun abuse => and_congr_right fun _ => and_congr_right fun _ => ?_
  exact ⟨fun h => (Except.ok.inj h).symm, fun h => congrArg _ h.symm⟩

theorem normalizePolicy_idem {p q : Policy} (h : normalizePolicy p = .ok q) :
    normalizePolicy q = .ok q ∧ q.revision = p.revision := by
  obtain ⟨hhead, rules, abuse, hrules, habuse, rfl⟩ := normalizePolicy_eq_ok.mp h
  obtain ⟨hrules', hlen⟩ := normalizeRules_idem hrules
  refine ⟨normalizePolicy_eq_ok.mpr
    ⟨?_, rules, abuse, hrules', normalizeAbuse_idem habuse, rfl⟩, rfl⟩
  rwa [hlen]

/-! ## What normalised rules are like -/

/-- What a normalised rule can hold. -/
structure Words (rule : Rule) : Prop where
  direction : rule.direction ∈ ["in", "out"]
  protocol : rule.protocol ∈ protocols
  action : rule.action ∈ ["block", "pass"]
  ipType : rule.ipType ∈ ["any", "cidr", "geoip"]
  ip : rule.ipType = "cidr" → ∃ a len, rule.ip = cidrText a len
  countries : rule.ipType = "geoip" → rule.countries ≠ [] ∧
    rule.countries.Pairwise (· < ·) ∧ ∀ c ∈ rule.countries, validCountry c = true

theorem normalizeRule_words (h : normalizeRule rule = .ok rule') : Words rule' := by
  obtain ⟨hvalid, ip, cs, htarget, rfl⟩ := normalizeRule_eq_ok.mp h
  rw [validRule] at hvalid
  simp only [Bool.and_eq_true, List.contains_iff_mem] at hvalid
  obtain ⟨⟨⟨⟨⟨-, hdir⟩, hact⟩, hproto⟩, -⟩, -⟩ := hvalid
  refine ⟨hdir, hproto, hact, ?_, fun hcidr => ?_, fun hgeo => ?_⟩ <;>
    rcases normalizeTarget_eq_ok.mp htarget with ⟨htype, -⟩ | ⟨htype, hip, -⟩ | ⟨htype, -, hcs⟩
  · simp [htype]
  · simp [htype]
  · simp [htype]
  · exact absurd (htype.symm.trans hcidr) (by decide)
  · obtain ⟨a, len, rfl, -⟩ := normalizeCidr_spec hip
    exact ⟨a, len, rfl⟩
  · exact absurd (htype.symm.trans hcidr) (by decide)
  · exact absurd (htype.symm.trans hgeo) (by decide)
  · exact absurd (htype.symm.trans hgeo) (by decide)
  · exact normalizeCountries_spec hcs

theorem normalizeRule_trimmed (h : normalizeRule rule = .ok rule') :
    trimStr rule'.ip = rule'.ip := by
  obtain ⟨-, ip, cs, htarget, rfl⟩ := normalizeRule_eq_ok.mp h
  rcases normalizeTarget_eq_ok.mp htarget with ⟨-, rfl, -⟩ | ⟨-, hip, -⟩ | ⟨-, rfl, -⟩
  · rfl
  · obtain ⟨a, len, rfl, -⟩ := normalizeCidr_spec hip
    exact trimStr_of_forall fun c => cidrText_chars
  · rfl

theorem normalizeRules_each (h : normalizeRules keys rules = .ok rules') :
    List.Forall₂ (fun rule rule' => normalizeRule rule = .ok rule') rules rules' := by
  induction rules generalizing keys rules' with
  | nil =>
    cases h
    exact .nil
  | cons rule rest ih =>
    obtain ⟨-, rule', rest', hrule, hrest, rfl⟩ := normalizeRules_cons.mp h
    exact .cons hrule (ih hrest)

theorem normalizeRules_keys (h : normalizeRules keys rules = .ok rules') :
    (rules'.map (·.key)).Nodup ∧
      ∀ rule ∈ rules', validKey rule.key = true ∧ rule.key ∉ keys ∧ trimStr rule.ip = rule.ip := by
  induction rules generalizing keys rules' with
  | nil =>
    cases h
    exact ⟨List.nodup_nil, nofun⟩
  | cons rule rest ih =>
    obtain ⟨hkey, rule', rest', hrule, hrest, rfl⟩ := normalizeRules_cons.mp h
    obtain ⟨hnodup, hall⟩ := ih hrest
    rw [← (normalizeRule_idem hrule).1] at hkey
    refine ⟨List.nodup_cons.mpr ⟨fun hmem => ?_, hnodup⟩, fun r hr => ?_⟩
    · obtain ⟨r, hr, hrk⟩ := List.mem_map.mp hmem
      exact (hall r hr).2.1 (by simp [hrk])
    · rcases hr with _ | ⟨_, hr⟩
      · exact ⟨hkey.1, hkey.2, normalizeRule_trimmed hrule⟩
      · obtain ⟨hvalid, hnew, htrim⟩ := hall r hr
        exact ⟨hvalid, fun hmem => hnew (.tail _ hmem), htrim⟩

theorem normalizePolicy_keys {p q : Policy} (h : normalizePolicy p = .ok q) :
    (q.rules.map (·.key)).Nodup ∧
      ∀ rule ∈ q.rules, validKey rule.key = true ∧ trimStr rule.ip = rule.ip := by
  obtain ⟨-, rules, abuse, hrules, -, rfl⟩ := normalizePolicy_eq_ok.mp h
  obtain ⟨hnodup, hall⟩ := normalizeRules_keys hrules
  exact ⟨hnodup, fun rule hr => ⟨(hall rule hr).1, (hall rule hr).2.2⟩⟩

/-! ## Rules that RFW lists -/

theorem rawMatches_stored (id : Int) (hip : trimStr rule.ip = rule.ip) :
    rawMatches ((rfwPayload rule).stored id) rule = true := by
  have hport : (if rule.portEnd.getD rule.portStart = rule.portStart then
      rule.portEnd.isNone || rule.portEnd == some rule.portStart
      else rule.portEnd == some (rule.portEnd.getD rule.portStart)) = true := by
    cases rule.portEnd with
    | none => simp
    | some e => by_cases he : e = rule.portStart <;> simp [he]
  simp only [rawMatches, Payload.stored, rfwPayload, eqIgnoreAsciiCase, beq_self_eq_true,
    Bool.and_true, Bool.true_and, Bool.and_eq_true, Bool.or_eq_true, bne_iff_ne, ne_eq,
    beq_iff_eq]
  refine ⟨⟨hport, ?_⟩, ?_⟩
  · by_cases hc : rule.ipType = "cidr"
    · exact .inr (by simpa [hc] using hip)
    · exact .inl hc
  · by_cases hg : rule.ipType = "geoip"
    · exact .inr (by simp [hg])
    · exact .inl hg

theorem sameReadback_iff {raw : RawRule} {expected : RuleReadback}
    (ho : expected.origin = "manual") (hk : expected.managedKey = "")
    (hs : expected.syncState = "manual") :
    sameReadback raw expected = true ↔ readbackRule raw = expected := by
  obtain ⟨⟩ := expected
  cases ho
  cases hk
  cases hs
  simp [sameReadback, readbackRule, and_assoc]

end RunmanAgent.HostPolicy
