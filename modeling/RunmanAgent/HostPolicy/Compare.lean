import RunmanAgent.GoAgent.Readback

/-!
# A rule in RFW against a desired rule

`raw_matches` decides whether a listed rule still is the desired one, and `fingerprint` whether
two desired rules are.
-/

namespace RunmanAgent.HostPolicy

open HostPolicy.GoAgent (Unchanged SamePayload rawMatches_of_unchanged ruleFingerprint_eq
  ruleFingerprint_eq_iff)

variable {rule rule' v w : Rule} {row : RawRule}

theorem Words.lower (h : Words w) : toAsciiLowercase w.direction = w.direction ∧
    toAsciiLowercase w.protocol = w.protocol ∧ toAsciiLowercase w.action = w.action ∧
    toAsciiLowercase w.ipType = w.ipType := by
  have hlower : ∀ s ∈ ["in", "out"] ++ protocols ++ ["block", "pass"] ++ ["any", "cidr", "geoip"],
      toAsciiLowercase s = s := by decide
  simp only [List.forall_mem_append] at hlower
  obtain ⟨⟨⟨hdirection, hprotocol⟩, haction⟩, htype⟩ := hlower
  exact ⟨hdirection _ h.direction, hprotocol _ h.protocol, haction _ h.action, htype _ h.ipType⟩

theorem normalizeRule_portEnd (h : normalizeRule rule = .ok v) : v.portEnd ≠ some v.portStart := by
  obtain ⟨-, ip, cs, -, rfl⟩ := normalizeRule_eq_ok.mp h
  dsimp only
  split
  · exact fun h => nomatch h
  · assumption

theorem samePayload_of_rawMatches (hv : normalizeRule rule = .ok v)
    (hw : normalizeRule rule' = .ok w) (hrow : Unchanged row v) (h : rawMatches row w = true) :
    SamePayload v w := by
  obtain ⟨hdir, hproto, hact, htype⟩ := (normalizeRule_words hw).lower
  simp only [rawMatches, eqIgnoreAsciiCase, hdir, hproto, hact, htype, hrow.direction,
    hrow.protocol, hrow.action, hrow.ipType, hrow.priority, hrow.enabled, hrow.portStart,
    Bool.and_eq_true, Bool.or_eq_true, beq_iff_eq, bne_iff_ne, ne_eq] at h
  obtain ⟨⟨⟨⟨⟨⟨⟨⟨⟨hpriority, hdir⟩, hproto⟩, hact⟩, henabled⟩, hstart⟩, hports⟩, htype⟩, hip⟩,
    hcountries⟩ := h
  refine ⟨hpriority, hdir, hproto, hact, henabled, hstart, ?_, htype, fun hc => ?_, fun hg => ?_⟩
  · have hv := normalizeRule_portEnd hv
    have hw := normalizeRule_portEnd hw
    rw [hrow.portEnd] at hports
    cases hend : v.portEnd with
    | none =>
      simp only [hend, Option.getD_none, if_true, Bool.or_eq_true, beq_iff_eq, hw, or_false,
        Option.isNone_iff_eq_none] at hports
      exact hports.symm
    | some e =>
      have hne : e ≠ v.portStart := fun heq => hv (hend.trans (congrArg some heq))
      rw [hend, Option.getD_some, if_neg hne, beq_iff_eq] at hports
      exact hports.symm
  · rw [← hrow.ip (htype.trans hc)]
    exact hip.resolve_left (not_not.mpr hc)
  · have hcodes := hcountries.resolve_left (not_not.mpr hg)
    obtain ⟨-, hvsorted, -⟩ := (normalizeRule_words hv).countries (htype.trans hg)
    obtain ⟨-, hwsorted, hvalid⟩ := (normalizeRule_words hw).countries hg
    rw [(List.map_congr_left fun c hc => countryCode_of_valid (hvalid c hc)).trans
      (List.map_id w.countries)] at hcodes
    have hmem : ∀ c, c ∈ v.countries ↔ c ∈ w.countries := by
      intro c
      rw [← (hrow.countries (htype.trans hg)).mem_iff, ← mem_sortedSet, hcodes, mem_sortedSet]
    exact ((List.perm_ext_iff_of_nodup hvsorted.nodup hwsorted.nodup).mpr hmem).eq_of_pairwise'
      hvsorted hwsorted

/-- A rule that RFW lists with the fields posted for `v` matches `w` exactly when the two have
the same fingerprint. -/
theorem rawMatches_iff_fingerprint (hv : normalizeRule rule = .ok v)
    (hw : normalizeRule rule' = .ok w) (hrow : Unchanged row v) :
    rawMatches row w = true ↔ fingerprint v = fingerprint w := by
  have hwords := normalizeRule_words hw
  rw [← ruleFingerprint_eq (normalizeRule_words hv), ← ruleFingerprint_eq hwords,
    ruleFingerprint_eq_iff]
  refine ⟨samePayload_of_rawMatches hv hw hrow, fun h => rawMatches_of_unchanged hwords ?_⟩
  exact ⟨hrow.priority.trans h.priority, hrow.direction.trans h.direction,
    hrow.protocol.trans h.protocol, hrow.action.trans h.action, hrow.enabled.trans h.enabled,
    hrow.portStart.trans h.portStart, by rw [hrow.portEnd, h.portEnd, h.portStart],
    hrow.ipType.trans h.ipType,
    fun hc => (hrow.ip (h.ipType.trans hc)).trans (h.ip hc),
    fun hg => (h.countries hg) ▸ hrow.countries (h.ipType.trans hg)⟩

/-- RFW lists two countries in another order and in lower case. -/
theorem rawMatches_two_countries :
    rawMatches { GoAgent.managedRow "block" with countries := ["us", "cn"] }
      { GoAgent.cnWgOut with countries := ["CN", "US"] } = true := by
  have hrule : normalizeRule { GoAgent.cnWgOut with countries := ["us", "CN", "US"] } =
      .ok { GoAgent.cnWgOut with countries := ["CN", "US"] } := by decide +kernel
  refine (rawMatches_iff_fingerprint hrule hrule ⟨rfl, by decide, by decide, by decide, rfl, rfl,
    rfl, by decide, ?_, ?_⟩).mpr rfl
  · exact fun h => absurd h (by decide)
  · exact fun _ => List.Perm.swap "CN" "US" []

end RunmanAgent.HostPolicy
