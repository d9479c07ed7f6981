import RunmanAgent.HostPolicy.Readback

/-!
# The readback of the Go agent (`firewall/hostpolicy/policy.go`)

`Readback` compares JSON texts where the Rust agent compares fields: the fingerprint of a
listed rule with the fingerprint of the desired rule. State file and RFW's answers have the
same shape for both agents.

* `rfwRuleFingerprint_eq_iff`: equal fingerprints are equal fields.
* `ruleFingerprint_eq`: both agents store the same fingerprint of a normalised rule.
* `report_eq_iff`: the two readbacks say the same exactly if no managed rule has drifted.
-/

namespace RunmanAgent.HostPolicy.GoAgent

open Text

/-- The case mappings of the package `unicode`. -/
structure Unicode where
  toLower : Char → Char
  toUpper : Char → Char
  toLower_ascii : ∀ c, c.toNat < 128 → toLower c = c.toLower
  toUpper_ascii : ∀ c, c.toNat < 128 → toUpper c = c.toUpper

/-- A character in a string of `json.Marshal`. -/
def escape (c : Char) : List Char :=
  if c = '<' ∨ c = '>' ∨ c = '&' ∨ c.toNat = 0x2028 ∨ c.toNat = 0x2029 then
    ['\\', 'u'] ++ hexDigits 4 c.toNat
  else serdeEscape c

/-- The members of the map, as `json.Marshal` orders them. -/
def rfwPayload (rule : Rule) : List (String × Json.Value) :=
  [("action", .str rule.action)] ++
    (if rule.ipType = "geoip" then
      [("countries", if rule.countries = [] then .null else .strs rule.countries)] else []) ++
    [("direction", .str rule.direction), ("enabled", .bool rule.enabled)] ++
    (if rule.ipType = "cidr" then [("ip", .str rule.ip)] else []) ++
    [("ip_type", .str rule.ipType)] ++
    (rule.portEnd.map fun e => ("port_end", Json.Value.num e)).toList ++
    [("port_start", .num rule.portStart), ("priority", .num rule.priority),
      ("protocol", .str rule.protocol)]

def ruleFingerprint (rule : Rule) : String := Json.object escape (rfwPayload rule)

def toLower (u : Unicode) (s : String) : String := String.ofList (s.toList.map u.toLower)

def toUpper (u : Unicode) (s : String) : String := String.ofList (s.toList.map u.toUpper)

def liveRule (u : Unicode) (row : RawRule) : Rule where
  key := "live-readback"
  priority := row.priority
  direction := toLower u row.direction
  protocol := toLower u row.protocol
  action := toLower u row.action
  enabled := row.enabled
  portStart := row.portStart
  portEnd := if row.portEnd ≠ row.portStart then some row.portEnd else none
  ipType := toLower u row.ipType
  ip := trimStr row.ip
  countries := (row.countries.map fun c => toUpper u (trimStr c)).insertionSort (· ≤ ·)

def rfwRuleFingerprint (u : Unicode) (row : RawRule) : String := ruleFingerprint (liveRule u row)

def canonical (rule : Rule) : Rule :=
  { rule with portEnd := if rule.portEnd = some rule.portStart then none else rule.portEnd }

def desiredRfwFingerprint (rule : Rule) : String := ruleFingerprint (canonical rule)

def readbackItem (u : Unicode) (row : RawRule) : RuleReadback where
  id := row.id
  priority := row.priority
  direction := toLower u row.direction
  protocol := toLower u row.protocol
  action := toLower u row.action
  enabled := row.enabled
  portStart := row.portStart
  portEnd := row.portEnd
  ipType := toLower u row.ipType
  ip := row.ip
  countries := row.countries
  origin := "manual"
  syncState := "manual"

def readbackRow (u : Unicode) (st : State) (result : Readback) (row : RawRule) : Readback :=
  let item := readbackItem u row
  match collected (·.id) st.managedRules row.id with
  | none => { result with rules := result.rules ++ [item] }
  | some managed =>
    let item := { item with origin := "platform", managedKey := managed.key }
    let result := { result with managedRuleCount := result.managedRuleCount + 1 }
    match collected (·.key) st.policy.rules managed.key with
    | none => { result with
      driftCount := result.driftCount + 1
      status := "drifted"
      rules := result.rules ++ [{ item with syncState := "orphaned" }] }
    | some desired =>
      if managed.fingerprint ≠ ruleFingerprint desired ∨
          rfwRuleFingerprint u row ≠ desiredRfwFingerprint desired then
        { result with
          status := "drifted"
          rules := result.rules ++ [{ item with syncState := "drifted" }] }
      else { result with rules := result.rules ++ [{ item with syncState := "in_sync" }] }

def readbackDesired (u : Unicode) (st : State) (rows : List RawRule) (result : Readback)
    (desired : Rule) : Readback :=
  match st.managedRules.find? fun managed => managed.key == desired.key with
  | none => result.expect desired.key 0 "missing"
  | some managed =>
    match collected (·.id) rows managed.id with
    | none => result.expect desired.key managed.id "missing"
    | some row =>
      if managed.fingerprint = ruleFingerprint desired ∧
          rfwRuleFingerprint u row = desiredRfwFingerprint desired then
        result.expect desired.key managed.id "in_sync"
      else result.expect desired.key managed.id "drifted"

def readback (u : Unicode) (st : State) (rows : List RawRule) (caps : Capabilities)
    (now : Int) : Readback :=
  st.policy.rules.foldl (readbackDesired u st rows) (rows.foldl (readbackRow u st) {
    status := "in_sync"
    observedAt := now
    rfwApiVersion := caps.apiVersion
    capabilitiesKnown := caps.known
    supportedProtocols := sortedSet caps.protocols
    policyRevision := st.revision
    ruleCount := rows.length })

/-! ## The report -/

def inSync (u : Unicode) (managed : ManagedRule) (row : RawRule) (desired : Rule) : Bool :=
  managed.fingerprint == ruleFingerprint desired &&
    rfwRuleFingerprint u row == desiredRfwFingerprint desired

variable {row : RawRule} {rule : Rule} {c : Char} {want : Rule}

theorem inSync_iff {u : Unicode} {managed : ManagedRule} {desired : Rule} :
    inSync u managed row desired = true ↔ managed.fingerprint = ruleFingerprint desired ∧
      rfwRuleFingerprint u row = desiredRfwFingerprint desired := by
  rw [inSync, Bool.and_eq_true, beq_iff_eq, beq_iff_eq]

theorem report_readbackRow (u : Unicode) (st : State) (r : Readback) (row : RawRule) :
    (readbackRow u st r row).report =
      r.report.observe ["orphaned"] (rowState (inSync u) st row) := by
  unfold readbackRow rowState
  cases collected (·.id) st.managedRules row.id with
  | none => simp [Readback.report, Report.observe, readbackItem]
  | some managed =>
    dsimp only
    cases collected (·.key) st.policy.rules managed.key with
    | none => simp [Readback.report, Report.observe]
    | some desired =>
      dsimp only
      by_cases hs : inSync u managed row desired = true
      · rw [if_pos hs]
        obtain ⟨hstored, hlive⟩ := inSync_iff.mp hs
        simp [hstored, hlive, Readback.report, Report.observe]
      · rw [if_neg hs, if_pos]
        · simp [Readback.report, Report.observe]
        · rwa [inSync_iff, not_and_or] at hs

theorem report_readbackDesired (u : Unicode) (st : State) (rows : List RawRule) (r : Readback)
    (desired : Rule) : (readbackDesired u st rows r desired).report =
      r.report.expect (wantState (inSync u) st rows desired) := by
  unfold readbackDesired wantState
  cases st.managedRules.find? fun managed => managed.key == desired.key with
  | none => exact Readback.report_expect r _ _ _
  | some managed =>
    dsimp only
    cases collected (·.id) rows managed.id with
    | none => exact Readback.report_expect r _ _ _
    | some row =>
      dsimp only
      rw [← apply_ite (fun s => r.expect desired.key managed.id s), Readback.report_expect]
      congr 1
      exact if_congr inSync_iff.symm rfl rfl

theorem report_readback (u : Unicode) (st : State) (rows : List RawRule) (caps : Capabilities)
    (now : Int) : (readback u st rows caps now).report =
      Report.total ["orphaned"] (rows.map (rowState (inSync u) st))
        (st.policy.rules.map (wantState (inSync u) st rows)) := by
  rw [readback, report_foldl (report_readbackDesired u st rows),
    report_foldl (report_readbackRow u st)]
  rfl

/-! ## Fingerprints -/

/-- The characters with an escape sequence of their own, after the letter of that sequence. -/
def shortEscapes : List (Char × Char) :=
  [('"', '"'), ('\\', '\\'), ('n', '\n'), ('r', '\r'), ('t', '\t'), ('b', Char.ofNat 8),
    ('f', Char.ofNat 12)]

theorem escape_cases (c : Char) :
    (escape c = [c] ∧ c ≠ '\\' ∧ c ≠ '"') ∨
      (∃ x, escape c = ['\\', x] ∧ (x, c) ∈ shortEscapes) ∨
      (escape c = '\\' :: 'u' :: hexDigits 4 c.toNat ∧ c.toNat < 16 ^ 4) := by
  by_cases hquote : c = '"'
  · exact .inr (.inl ⟨'"', by rw [hquote]; decide, by rw [hquote]; decide⟩)
  by_cases hslash : c = '\\'
  · exact .inr (.inl ⟨'\\', by rw [hslash]; decide, by rw [hslash]; decide⟩)
  by_cases hn : c = '\n'
  · exact .inr (.inl ⟨'n', by rw [hn]; decide, by rw [hn]; decide⟩)
  by_cases hr : c = '\r'
  · exact .inr (.inl ⟨'r', by rw [hr]; decide, by rw [hr]; decide⟩)
  by_cases ht : c = '\t'
  · exact .inr (.inl ⟨'t', by rw [ht]; decide, by rw [ht]; decide⟩)
  by_cases hb : c.toNat = 8
  · have hc : c = Char.ofNat 8 := by rw [← hb, Char.ofNat_toNat]
    exact .inr (.inl ⟨'b', by rw [hc]; decide, by rw [hc]; decide⟩)
  by_cases hf : c.toNat = 12
  · have hc : c = Char.ofNat 12 := by rw [← hf, Char.ofNat_toNat]
    exact .inr (.inl ⟨'f', by rw [hc]; decide, by rw [hc]; decide⟩)
  unfold escape
  split
  · rename_i hlong
    refine .inr (.inr ⟨rfl, ?_⟩)
    rcases hlong with rfl | rfl | rfl | h | h <;> first | omega | decide
  rw [serdeEscape, if_neg hquote, if_neg hslash, if_neg hn, if_neg hr, if_neg ht, if_neg hb,
    if_neg hf]
  split
  · exact .inr (.inr ⟨rfl, by omega⟩)
  · exact .inl ⟨rfl, hslash, hquote⟩

theorem escaping_escape : Json.Escaping escape where
  eq_of_starts := by
    have hshort : ∀ p ∈ shortEscapes, ∀ q ∈ shortEscapes, p.1 = q.1 → p.2 = q.2 := by decide
    have hletter : ∀ p ∈ shortEscapes, p.1 ≠ 'u' := by decide
    intro c d h
    rcases escape_cases c with ⟨hc, hcs, -⟩ | ⟨x, hc, hx⟩ | ⟨hc, hcl⟩ <;>
      rcases escape_cases d with ⟨hd, hds, -⟩ | ⟨y, hd, hy⟩ | ⟨hd, hdl⟩ <;>
      rw [hc, hd] at h
    · exact (List.cons_prefix_cons.mp h).1
    · exact absurd (List.cons_prefix_cons.mp h).1 hcs
    · exact absurd (List.cons_prefix_cons.mp h).1 hcs
    · exact absurd (List.cons_prefix_cons.mp h).1.symm hds
    · exact hshort _ hx _ hy (List.cons_prefix_cons.mp (List.cons_prefix_cons.mp h).2).1
    · exact absurd (List.cons_prefix_cons.mp (List.cons_prefix_cons.mp h).2).1 (hletter _ hx)
    · exact absurd (List.cons_prefix_cons.mp h).1.symm hds
    · exact absurd (List.cons_prefix_cons.mp (List.cons_prefix_cons.mp h).2).1.symm (hletter _ hy)
    · have hdigits := (List.cons_prefix_cons.mp (List.cons_prefix_cons.mp h).2).2
      have heq := hdigits.eq_of_length (by simp [hexDigits])
      rw [← Char.ofNat_toNat c, hexDigits_inj hcl hdl heq, Char.ofNat_toNat]
  head := by
    intro c
    rcases escape_cases c with ⟨hc, -, hquote⟩ | ⟨x, hc, -⟩ | ⟨hc, -⟩
    · exact ⟨c, [], hc, hquote⟩
    · exact ⟨'\\', [x], hc, by decide⟩
    · exact ⟨'\\', 'u' :: hexDigits 4 c.toNat, hc, by decide⟩

/-- Two rules that RFW is sent in the same words. -/
structure SamePayload (a b : Rule) : Prop where
  priority : a.priority = b.priority
  direction : a.direction = b.direction
  protocol : a.protocol = b.protocol
  action : a.action = b.action
  enabled : a.enabled = b.enabled
  portStart : a.portStart = b.portStart
  portEnd : a.portEnd = b.portEnd
  ipType : a.ipType = b.ipType
  ip : b.ipType = "cidr" → a.ip = b.ip
  countries : b.ipType = "geoip" → a.countries = b.countries

theorem lookup_rfwPayload (rule : Rule) :
    (rfwPayload rule).lookup "action" = some (.str rule.action) ∧
    (rfwPayload rule).lookup "direction" = some (.str rule.direction) ∧
    (rfwPayload rule).lookup "enabled" = some (.bool rule.enabled) ∧
    (rfwPayload rule).lookup "ip_type" = some (.str rule.ipType) ∧
    (rfwPayload rule).lookup "port_end" = rule.portEnd.map (fun e => .num e) ∧
    (rfwPayload rule).lookup "port_start" = some (.num rule.portStart) ∧
    (rfwPayload rule).lookup "priority" = some (.num rule.priority) ∧
    (rfwPayload rule).lookup "protocol" = some (.str rule.protocol) ∧
    (rule.ipType = "cidr" → (rfwPayload rule).lookup "ip" = some (.str rule.ip)) ∧
    (rule.ipType = "geoip" → (rfwPayload rule).lookup "countries" =
      some (if rule.countries = [] then .null else .strs rule.countries)) := by
  unfold rfwPayload
  by_cases hg : rule.ipType = "geoip"
  · cases rule.portEnd <;> simp [hg, List.lookup]
  · by_cases hc : rule.ipType = "cidr"
    · cases rule.portEnd <;> simp [hc, List.lookup]
    · cases rule.portEnd <;> simp [hg, hc, List.lookup]

theorem rfwPayload_eq_iff {a b : Rule} : rfwPayload a = rfwPayload b ↔ SamePayload a b := by
  constructor
  · intro h
    obtain ⟨ha, hd, he, ht, hpe, hps, hpr, hpt, hip, hcs⟩ := lookup_rfwPayload a
    obtain ⟨ha', hd', he', ht', hpe', hps', hpr', hpt', hip', hcs'⟩ := lookup_rfwPayload b
    rw [h] at ha hd he ht hpe hps hpr hpt hip hcs
    have hnum : Function.Injective fun e : Nat => Json.Value.num e := fun x y hxy =>
      Int.natCast_inj.mp (Json.Value.num.inj hxy)
    have htype : a.ipType = b.ipType := by simpa using ht.symm.trans ht'
    refine ⟨by simpa using hpr.symm.trans hpr', by simpa using hd.symm.trans hd',
      by simpa using hpt.symm.trans hpt', by simpa using ha.symm.trans ha',
      by simpa using he.symm.trans he', hnum (Option.some.inj (hps.symm.trans hps')),
      Option.map_injective hnum (hpe.symm.trans hpe'), htype, ?_, ?_⟩
    · intro hc
      simpa using (hip (htype.trans hc)).symm.trans (hip' hc)
    · intro hg
      have hlist := Option.some.inj ((hcs (htype.trans hg)).symm.trans (hcs' hg))
      split at hlist <;> split at hlist
      · rename_i hna hnb
        rw [hna, hnb]
      · cases hlist
      · cases hlist
      · exact Json.Value.strs.inj hlist
  · rintro ⟨hpr, hd, hpt, ha, he, hps, hpe, ht, hip, hcs⟩
    unfold rfwPayload
    rw [hpr, hd, hpt, ha, he, hps, hpe, ht]
    by_cases hg : b.ipType = "geoip"
    · simp [hg, hcs hg]
    · by_cases hc : b.ipType = "cidr"
      · simp [hc, hip hc]
      · simp [hg, hc]

theorem ruleFingerprint_eq_iff {a b : Rule} :
    ruleFingerprint a = ruleFingerprint b ↔ SamePayload a b := by
  rw [← rfwPayload_eq_iff]
  exact escaping_escape.object_injective.eq_iff

/-! ## Normalised rules -/

/-- Rules that normalisation keeps: at most a range of one port is spelled differently. -/
def Normalised (rules : List Rule) : Prop := normalizeRules [] rules = .ok (rules.map canonical)

theorem Normalised.words {rules : List Rule} (h : Normalised rules) :
    ∀ rule ∈ rules, Words rule := by
  have heach := normalizeRules_each h
  rw [List.forall₂_map_right_iff, List.forall₂_same] at heach
  intro rule hrule
  have hwords := normalizeRule_words (heach rule hrule)
  exact ⟨hwords.direction, hwords.protocol, hwords.action, hwords.ipType, hwords.ip,
    hwords.countries⟩

theorem Normalised.keys {rules : List Rule} (h : Normalised rules) :
    (rules.map (·.key)).Nodup := by
  have hkeys := (normalizeRules_keys h).1
  rwa [List.map_map] at hkeys

theorem fingerprint_eq_object (h : Words rule) :
    fingerprint rule = Json.object serdeEscape (rfwPayload rule) := by
  have hmembers : (HostPolicy.rfwPayload rule).members = rfwPayload rule := by
    unfold HostPolicy.Payload.members HostPolicy.rfwPayload rfwPayload
    by_cases hg : rule.ipType = "geoip"
    · simp [hg, (h.countries hg).1]
    · by_cases hc : rule.ipType = "cidr" <;> simp [hg, hc]
  rw [fingerprint, Payload.toJson, hmembers]

theorem escape_of_plain (h : c ∉ ['<', '>', '&']) (hlt : c.toNat < 0x2028) :
    escape c = serdeEscape c := by
  simp only [List.mem_cons, List.not_mem_nil, or_false, not_or] at h
  refine if_neg ?_
  rintro (h' | h' | h' | h' | h')
  · exact h.1 h'
  · exact h.2.1 h'
  · exact h.2.2 h'
  · omega
  · omega

theorem plain_of_ipChar (h : ipChar c) : escape c = serdeEscape c := by
  apply escape_of_plain
  · intro hmem
    revert h
    unfold ipChar
    simp only [List.mem_cons, List.not_mem_nil, or_false] at hmem
    rcases hmem with rfl | rfl | rfl <;> decide
  · rcases h with h | rfl | rfl
    · have hle := (digit_range h).2
      omega
    · decide
    · decide

theorem plain_of_upper (h : c.isUpper = true) : escape c = serdeEscape c := by
  apply escape_of_plain
  · intro hmem
    simp only [List.mem_cons, List.not_mem_nil, or_false] at hmem
    rcases hmem with rfl | rfl | rfl <;> exact absurd h (by decide)
  · simp only [Char.isUpper, decide_eq_true_eq] at h
    have hle : c.toNat ≤ 90 := UInt32.le_iff_toNat_le.mp h.2
    omega

/-- Both serializers write the word alike. -/
def Plain (w : String) : Prop := ∀ c ∈ w.toList, escape c = serdeEscape c

instance (w : String) : Decidable (Plain w) := List.decidableBAll _ _

theorem plain_rfwPayload (h : Words rule) :
    ∀ m ∈ rfwPayload rule, ∀ c ∈ m.1.toList ++ m.2.chars, escape c = serdeEscape c := by
  have hmember : ∀ name ∈ ["action", "countries", "direction", "enabled", "ip", "ip_type",
      "port_end", "port_start", "priority", "protocol"], ∀ {v : Json.Value},
      (∀ c ∈ v.chars, escape c = serdeEscape c) →
      ∀ c ∈ name.toList ++ v.chars, escape c = serdeEscape c := by
    have hnames : ∀ name ∈ ["action", "countries", "direction", "enabled", "ip", "ip_type",
        "port_end", "port_start", "priority", "protocol"], Plain name := by decide
    intro name hname v hv
    exact List.forall_mem_append.mpr ⟨hnames name hname, hv⟩
  have hdirection : ∀ w ∈ ["in", "out"], Plain w := by decide
  have haction : ∀ w ∈ ["block", "pass"], Plain w := by decide
  have htype : ∀ w ∈ ["any", "cidr", "geoip"], Plain w := by decide
  have hprotocol : ∀ w ∈ protocols, Plain w := by decide
  have hempty : ∀ c ∈ ([] : List Char), escape c = serdeEscape c := by simp
  intro m hm
  simp only [rfwPayload, List.mem_append, List.mem_cons, List.not_mem_nil, or_false, or_assoc] at hm
  rcases hm with rfl | hm | rfl | rfl | hm | rfl | hm | rfl | rfl | rfl
  · exact hmember "action" (by decide) (haction _ h.action)
  · split at hm
    · rename_i hg
      obtain ⟨hne, -, hvalid⟩ := h.countries hg
      rw [if_neg hne] at hm
      cases List.mem_singleton.mp hm
      refine hmember "countries" (by decide) fun c hc => ?_
      obtain ⟨w, hw, hc⟩ := List.mem_flatMap.mp hc
      exact plain_of_upper (List.all_eq_true.mp (Bool.and_eq_true_iff.mp (hvalid w hw)).2 c hc)
    · cases hm
  · exact hmember "direction" (by decide) (hdirection _ h.direction)
  · exact hmember "enabled" (by decide) hempty
  · split at hm
    · rename_i hcidr
      obtain ⟨a, len, hip⟩ := h.ip hcidr
      cases List.mem_singleton.mp hm
      refine hmember "ip" (by decide) fun c hc => ?_
      rw [Json.Value.chars, hip, cidrText, String.toList_ofList] at hc
      rcases List.mem_append.mp hc with hc | hc
      · exact plain_of_ipChar (IpAddr.toText_chars hc)
      · rcases hc with _ | ⟨_, hc⟩
        · decide
        · exact plain_of_ipChar (.inl (decChars hc))
    · cases hm
  · exact hmember "ip_type" (by decide) (htype _ h.ipType)
  · obtain ⟨e, -, rfl⟩ := Option.map_eq_some_iff.mp (Option.mem_toList.mp hm)
    exact hmember "port_end" (by decide) hempty
  · exact hmember "port_start" (by decide) hempty
  · exact hmember "priority" (by decide) hempty
  · exact hmember "protocol" (by decide) (hprotocol _ h.protocol)

theorem ruleFingerprint_eq (h : Words rule) : ruleFingerprint rule = fingerprint rule := by
  rw [fingerprint_eq_object h]
  exact Json.object_congr (plain_rfwPayload h)

/-- The listed rule is the desired one, up to the case of its words, the white space around
its texts and the order of its countries. -/
structure Unchanged (row : RawRule) (want : Rule) : Prop where
  priority : row.priority = want.priority
  direction : toAsciiLowercase row.direction = want.direction
  protocol : toAsciiLowercase row.protocol = want.protocol
  action : toAsciiLowercase row.action = want.action
  enabled : row.enabled = want.enabled
  portStart : row.portStart = want.portStart
  portEnd : row.portEnd = want.portEnd.getD want.portStart
  ipType : toAsciiLowercase row.ipType = want.ipType
  ip : want.ipType = "cidr" → trimStr row.ip = want.ip
  countries : want.ipType = "geoip" → (row.countries.map countryCode).Perm want.countries

def Ascii (s : String) : Prop := ∀ c ∈ s.toList, c.toNat < 128

/-- A listed rule whose words and country codes are spelled in ASCII. -/
structure Canonical (row : RawRule) : Prop where
  direction : Ascii row.direction
  protocol : Ascii row.protocol
  action : Ascii row.action
  ipType : Ascii row.ipType
  countries : ∀ c ∈ row.countries, Ascii c

theorem toLower_of_ascii (u : Unicode) {s : String} (h : Ascii s) :
    toLower u s = toAsciiLowercase s := by
  rw [toLower, toAsciiLowercase, List.map_congr_left fun c hc => u.toLower_ascii c (h c hc)]

theorem toUpper_of_ascii (u : Unicode) {s : String} (h : Ascii s) :
    toUpper u (trimStr s) = countryCode s := by
  have hmem : ∀ c ∈ (trimStr s).toList, c ∈ s.toList := by
    intro c hc
    rw [trimStr, String.toList_ofList] at hc
    exact mem_of_mem_trim hc
  rw [toUpper, countryCode, toAsciiUppercase,
    List.map_congr_left fun c hc => u.toUpper_ascii c (h c (hmem c hc))]

theorem ports_iff {first last : Nat} {e : Option Nat} :
    (if last ≠ first then some last else none) = (if e = some first then none else e) ↔
      last = e.getD first := by
  cases e with
  | none => simp
  | some e =>
    by_cases hone : e = first
    · simp [hone]
    · rw [if_neg fun heq => hone (Option.some.inj heq), Option.getD_some]
      constructor
      · intro h
        split at h
        · exact Option.some.inj h
        · cases h
      · intro h
        rw [if_pos (h ▸ hone), h]

theorem rfwRuleFingerprint_eq_iff (u : Unicode) (hrow : Canonical row) (hwant : Words want) :
    rfwRuleFingerprint u row = desiredRfwFingerprint want ↔ Unchanged row want := by
  have hcodes : row.countries.map (fun c => toUpper u (trimStr c)) =
      row.countries.map countryCode :=
    List.map_congr_left fun c hc => toUpper_of_ascii u (hrow.countries c hc)
  rw [rfwRuleFingerprint, desiredRfwFingerprint, ruleFingerprint_eq_iff]
  constructor
  · rintro ⟨hpriority, hdirection, hprotocol, haction, henabled, hstart, hports, htype, hip, hcs⟩
    refine ⟨hpriority, ?_, ?_, ?_, henabled, hstart, ?_, ?_, hip, ?_⟩
    · exact (toLower_of_ascii u hrow.direction).symm.trans hdirection
    · exact (toLower_of_ascii u hrow.protocol).symm.trans hprotocol
    · exact (toLower_of_ascii u hrow.action).symm.trans haction
    · simp only [liveRule, canonical] at hports hstart
      rwa [← hstart, ports_iff, hstart] at hports
    · exact (toLower_of_ascii u hrow.ipType).symm.trans htype
    · intro hg
      have hsorted : (row.countries.map fun c => toUpper u (trimStr c)).insertionSort (· ≤ ·) =
          want.countries := hcs hg
      rw [← hcodes, ← hsorted]
      exact (List.perm_insertionSort _ _).symm
  · intro h
    refine ⟨h.priority, ?_, ?_, ?_, h.enabled, h.portStart, ?_, ?_, h.ip, ?_⟩
    · exact (toLower_of_ascii u hrow.direction).trans h.direction
    · exact (toLower_of_ascii u hrow.protocol).trans h.protocol
    · exact (toLower_of_ascii u hrow.action).trans h.action
    · simp only [liveRule, canonical]
      rw [h.portStart, ports_iff]
      exact h.portEnd
    · exact (toLower_of_ascii u hrow.ipType).trans h.ipType
    · intro hg
      have hsorted : want.countries.Pairwise (· ≤ ·) :=
        (hwant.countries hg).2.1.imp fun hlt => hlt.le
      simp only [liveRule, canonical, hcodes]
      exact ((List.perm_insertionSort _ _).trans (h.countries hg)).eq_of_pairwise'
        (List.pairwise_insertionSort _ _) hsorted

theorem rawMatches_of_unchanged (hwant : Words want) (h : Unchanged row want) :
    rawMatches row want = true := by
  have hword : ∀ {a b : String}, toAsciiLowercase a = b → eqIgnoreAsciiCase a b = true := by
    rintro a _ rfl
    rw [eqIgnoreAsciiCase, toAsciiLowercase_idem, beq_self_eq_true]
  have hport : (if row.portEnd = row.portStart then
      want.portEnd.isNone || want.portEnd == some want.portStart
      else want.portEnd == some row.portEnd) = true := by
    rw [h.portEnd, h.portStart]
    cases want.portEnd with
    | none => simp
    | some e => by_cases he : e = want.portStart <;> simp [he]
  simp only [rawMatches, h.priority, h.enabled, h.portStart, hword h.direction, hword h.protocol,
    hword h.action, hword h.ipType, beq_self_eq_true, Bool.true_and, Bool.and_eq_true,
    Bool.or_eq_true, bne_iff_ne, ne_eq, beq_iff_eq]
  rw [h.portStart] at hport
  refine ⟨⟨⟨hport, trivial⟩, ?_⟩, ?_⟩
  · by_cases hc : want.ipType = "cidr"
    · exact .inr (h.ip hc)
    · exact .inl hc
  · by_cases hg : want.ipType = "geoip"
    · right
      have hvalid := (hwant.countries hg).2.2
      rw [(List.map_congr_left fun c hc => countryCode_of_valid (hvalid c hc)).trans
        (List.map_id want.countries)]
      exact sortedSet_congr fun c => (h.countries hg).mem_iff
    · exact .inl hg

/-! ## The two readbacks -/

/-- No rule that RFW lists for a desired rule has drifted: the policy has not changed since the
rule was created, and neither has the rule. -/
def Settled (st : State) (rows : List RawRule) : Prop :=
  ∀ row ∈ rows, ∀ owner ∈ st.managedRules, owner.id = row.id →
    ∀ want ∈ st.policy.rules, want.key = owner.key →
      owner.fingerprint = fingerprint want ∧ Unchanged row want

theorem inSync_iff_settled (u : Unicode) {owner : ManagedRule} (hrow : Canonical row)
    (hwant : Words want) :
    inSync u owner row want = true ↔ owner.fingerprint = fingerprint want ∧ Unchanged row want := by
  rw [inSync_iff, ruleFingerprint_eq hwant, rfwRuleFingerprint_eq_iff u hrow hwant]

/-- For a normalised policy and canonical rows, both agents report the same counts and states
exactly if no managed rule has drifted. -/
theorem report_eq_iff (u : Unicode) (st : State) (rows : List RawRule) (caps : Capabilities)
    (now : Int) (hpolicy : Normalised st.policy.rules)
    (hids : (st.managedRules.map (·.id)).Nodup) (hrows : ∀ row ∈ rows, Canonical row) :
    (HostPolicy.readback st rows caps now).report = (readback u st rows caps now).report ↔
      Settled st rows := by
  rw [HostPolicy.report_readback, report_readback, Report.total_eq_iff]
  constructor
  · rintro ⟨hstates, -, hdrift⟩ row hrow owner howner hid want hwant hkey
    have hstate : rowState (inSync u) st row =
        if inSync u owner row want then "in_sync" else "drifted" := by
      rw [rowState, ← hid, collected_of_mem hids howner]
      dsimp only
      rw [← hkey, collected_of_mem hpolicy.keys hwant]
    rw [← inSync_iff_settled u (hrows row hrow) (hpolicy.words want hwant)]
    by_contra hout
    rw [if_neg hout] at hstate
    rw [hstates] at hdrift
    exact hdrift (hstate ▸ List.mem_map_of_mem hrow)
  · intro hsettled
    -- wherever the two agents compare a row with a desired rule, both find them equal
    have hsame : ∀ row ∈ rows, ∀ owner ∈ st.managedRules, owner.id = row.id →
        ∀ want ∈ st.policy.rules, want.key = owner.key →
        HostPolicy.inSync owner row want = true ∧ inSync u owner row want = true := by
      intro row hrow owner howner hid want hwant hkey
      have hwords := hpolicy.words want hwant
      obtain ⟨hprint, hunchanged⟩ := hsettled row hrow owner howner hid want hwant hkey
      refine ⟨?_, (inSync_iff_settled u (hrows row hrow) hwords).mpr ⟨hprint, hunchanged⟩⟩
      rw [HostPolicy.inSync, hprint, rawMatches_of_unchanged hwords hunchanged, beq_self_eq_true,
        Bool.and_self]
    have hrow : ∀ row ∈ rows, rowState HostPolicy.inSync st row = rowState (inSync u) st row ∧
        rowState HostPolicy.inSync st row ≠ "drifted" := by
      intro row hrow
      unfold rowState
      cases howner : collected (·.id) st.managedRules row.id with
      | none =>
        dsimp only
        exact ⟨rfl, by decide⟩
      | some owner =>
        obtain ⟨hmem, hid⟩ := mem_of_collected howner
        dsimp only
        cases hwant : collected (·.key) st.policy.rules owner.key with
        | none =>
          dsimp only
          exact ⟨rfl, by decide⟩
        | some want =>
          obtain ⟨hwmem, hkey⟩ := mem_of_collected hwant
          obtain ⟨hrust, hgo⟩ := hsame row hrow owner hmem hid want hwmem hkey
          dsimp only
          rw [if_pos hrust, if_pos hgo]
          exact ⟨rfl, by decide⟩
    refine ⟨List.map_congr_left fun row h => (hrow row h).1, List.map_congr_left fun want hw => ?_,
      fun hmem => ?_⟩
    · unfold wantState
      cases howner : st.managedRules.find? fun r => r.key == want.key with
      | none => rfl
      | some owner =>
        have hkey : owner.key = want.key := by simpa using List.find?_some howner
        dsimp only
        cases hactual : collected (·.id) rows owner.id with
        | none => rfl
        | some actual =>
          obtain ⟨hamem, hid⟩ := mem_of_collected hactual
          obtain ⟨hrust, hgo⟩ := hsame actual hamem owner (List.mem_of_find?_eq_some howner)
            hid.symm want hw hkey.symm
          dsimp only
          rw [if_pos hrust, if_pos hgo]
    · obtain ⟨row, hmem, hdrift⟩ := List.mem_map.mp hmem
      exact (hrow row hmem).2 hdrift

/-! ### The policy of `TestReadbackDistinguishesManualManagedDriftAndMissingRules` -/

def asciiCase : Unicode where
  toLower := Char.toLower
  toUpper := Char.toUpper
  toLower_ascii _ _ := rfl
  toUpper_ascii _ _ := rfl

def cnWgOut : Rule where
  key := "cn-wg-out"
  priority := 100
  direction := "out"
  protocol := "wireguard"
  action := "block"
  enabled := true
  portStart := 0
  ipType := "geoip"
  countries := ["CN"]

def oneManaged : State where
  revision := 4
  policy := { revision := 4, rules := [cnWgOut] }
  managedRules := [⟨"cn-wg-out", 2, fingerprint cnWgOut⟩]

def manualRow : RawRule where
  id := 1
  priority := 10
  direction := "in"
  protocol := "tcp"
  action := "block"
  enabled := true
  portStart := 22
  portEnd := 22
  ipType := "any"

/-- The managed rule as RFW lists it, with the given action. -/
def managedRow (action : String) : RawRule where
  id := 2
  priority := 100
  direction := "out"
  protocol := "wireguard"
  action := action
  enabled := true
  portStart := 0
  portEnd := 0
  ipType := "geoip"
  countries := ["CN"]

instance (s : String) : Decidable (Ascii s) := List.decidableBAll _ _

theorem canonical_rows {action : String} (h : Ascii action) :
    ∀ row ∈ [manualRow, managedRow action], Canonical row := by
  simp only [List.forall_mem_cons, List.not_mem_nil, false_implies, implies_true, and_true]
  exact ⟨⟨by decide, by decide, by decide, by decide, by decide⟩,
    ⟨(by decide : Ascii "out"), (by decide : Ascii "wireguard"), h, (by decide : Ascii "geoip"),
      (by decide : ∀ c ∈ ["CN"], Ascii c)⟩⟩

theorem normalised_oneManaged : Normalised oneManaged.policy.rules := by
  unfold Normalised
  decide +kernel

theorem report_eq_iff_block :
    (HostPolicy.readback oneManaged [manualRow, managedRow "block"] {} 0).report =
      (readback asciiCase oneManaged [manualRow, managedRow "block"] {} 0).report := by
  refine (report_eq_iff asciiCase oneManaged [manualRow, managedRow "block"] {} 0
    normalised_oneManaged (by decide) (canonical_rows (by decide))).mpr ?_
  intro row hrow owner howner hid want hwant _
  cases List.mem_singleton.mp howner
  cases List.mem_singleton.mp hwant
  rcases List.mem_pair.mp hrow with rfl | rfl
  · exact absurd hid (by decide)
  · exact ⟨rfl, rfl, by decide, by decide, by decide, rfl, rfl, rfl, by decide,
      fun h => absurd h (by decide), fun _ => by decide⟩

/-- The rule is changed in RFW: the test of the Go agent expects a drift count of one. -/
theorem report_ne_pass :
    Normalised oneManaged.policy.rules ∧ (oneManaged.managedRules.map (·.id)).Nodup ∧
      (∀ row ∈ [manualRow, managedRow "pass"], Canonical row) ∧
      (readback asciiCase oneManaged [manualRow, managedRow "pass"] {} 0).driftCount = 1 ∧
      (HostPolicy.readback oneManaged [manualRow, managedRow "pass"] {} 0).driftCount = 2 :=
  ⟨normalised_oneManaged, by decide, canonical_rows (by decide), by decide +kernel,
    by decide +kernel⟩

end RunmanAgent.HostPolicy.GoAgent
