import RunmanAgent.ConnLimit.Steps

/-!
# Connection-limit rules are in the file before they are installed

A policy and its addresses are changed in memory before the list is saved, and stay changed
when the save fails; later passes install what is in memory. So a rule can be installed that
the file does not know (`rule_unsaved`). `rules_written_ahead` says which saves must not fail.
-/

namespace RunmanAgent.ConnLimit

open Concurrency Server Iptables

/-! ## What may fail -/

/-- Checks tell the truth. -/
def TruthfulChecks (_ : Pid) (e : Act) (w : World) (i : Input) : Prop :=
  i.fail.isSome = true → ∀ x ∈ e.checks, copies (w.fw x.1) x.2 = 0

instance (p : Pid) (e : Act) (w : World) (i : Input) : Decidable (TruthfulChecks p e w i) :=
  inferInstanceAs (Decidable (_ → _))

variable (cfg : Config)

/-- The policies in the file. -/
def World.filed (w : World) : List Policy := w.disk.getD []

/-- Every rule of the first policies is one of the second. -/
def RulesIn (policies policies' : List Policy) : Prop :=
  ∀ tool, ∀ p ∈ policies, ∀ rule ∈ p.rules cfg tool, ∃ q ∈ policies', rule ∈ q.rules cfg tool

instance (policies policies' : List Policy) : Decidable (RulesIn cfg policies policies') :=
  inferInstanceAs (Decidable (∀ tool, ∀ p ∈ policies, ∀ rule ∈ p.rules cfg tool,
    ∃ q ∈ policies', rule ∈ q.rules cfg tool))

/-- Checks tell the truth, and a save fails only if the file knows the rules of all policies
that are saved. -/
def SavesNewRules (p : Pid) (e : Act) (w : World) (i : Input) : Prop :=
  TruthfulChecks p e w i ∧ (i.fail.isSome = true → ∀ policies ∈ e.saves,
    RulesIn cfg policies w.filed)

instance (p : Pid) (e : Act) (w : World) (i : Input) : Decidable (SavesNewRules cfg p e w i) :=
  inferInstanceAs (Decidable (_ ∧ (_ → _)))

/-- Checks can be trusted. -/
def trusted : Assumed where
  truthful := True
  recorded := False
  clean := False

instance meets_trusted : Meets trusted (SavesNewRules cfg) where
  may hok hf := ⟨fun _ => hok.1 hf, False.elim, False.elim⟩

/-! ## Installed rules -/

/-- The installed rules are the marker and rules of `policies`. -/
def Covered (policies : List Policy) (w : World) : Prop :=
  ∀ tool rule, 0 < copies (w.fw tool) rule → rule = markerRule ∨
    ∃ p ∈ policies, rule ∈ p.rules cfg tool

variable {cfg} {w : World} {policies : List Policy}

variable {i : Input} {tool : Tool} {cmd : Cmd}

theorem copies_apply_le {tool' : Tool} {rule : Rule}
    (h : tool' = tool → cmd ≠ .insert rule ∧ cmd ≠ .append rule) :
    copies ((w.apply i (.fw tool cmd)).fw tool') rule ≤ copies (w.fw tool') rule :=
  copies_update_le h

theorem copies_apply {tool' : Tool} {rule : Rule}
    (h : 0 < copies ((w.apply i (.fw tool cmd)).fw tool') rule) :
    0 < copies (w.fw tool') rule ∨ (tool' = tool ∧ (cmd = .insert rule ∨ cmd = .append rule)) := by
  by_cases hadds : tool' = tool ∧ (cmd = .insert rule ∨ cmd = .append rule)
  · exact .inr hadds
  · refine .inl (h.trans_le (copies_apply_le fun ht => ⟨fun hc => ?_, fun hc => ?_⟩))
    · exact hadds ⟨ht, .inl hc⟩
    · exact hadds ⟨ht, .inr hc⟩

theorem Covered.command (hw : Covered cfg policies w)
    (hduty : CmdDuty cfg w.mem w.applying w.tried tool cmd)
    (hin : w.tried = true → RulesIn cfg w.mem policies) :
    Covered cfg policies (w.apply i (.fw tool cmd)) := by
  intro tool' rule hpos
  rcases copies_apply hpos with hpos | ⟨rfl, rfl | rfl⟩
  · exact hw tool' rule hpos
  · obtain ⟨htried, p, hp, hrule, -⟩ := hduty
    exact .inr (hin htried tool' p hp rule hrule)
  · exact .inl hduty

theorem RulesIn.refl : RulesIn cfg policies policies :=
  fun _ p hp _ hrule => ⟨p, hp, hrule⟩

theorem Covered.move (hw : Covered cfg w.mem w) (h : Move cfg True w policies) :
    Covered cfg policies w := by
  intro tool rule hpos
  refine (hw tool rule hpos).imp_right fun ⟨q, hq, hrule⟩ => ?_
  cases h with
  | enter p => exact ⟨q, by simp [hq], hrule⟩
  | @replace before after p p' hmem hsame hips =>
    by_cases hqp : q = p
    · subst hqp
      refine ⟨p', by simp, ?_⟩
      rcases hips with hips | hgone
      · rwa [rules_congr hsame.id hsame.maxConnections hips]
      · rw [hgone trivial tool rule hrule] at hpos
        cases hpos
    · rw [hmem] at hq
      refine ⟨q, ?_, hrule⟩
      simp only [List.mem_append, List.mem_cons] at hq ⊢
      tauto
  | @drop before after p hmem hgone =>
    by_cases hqp : q = p
    · subst hqp
      rw [hgone trivial tool rule hrule] at hpos
      cases hpos
    · rw [hmem] at hq
      refine ⟨q, ?_, hrule⟩
      simp only [List.mem_append, List.mem_cons] at hq ⊢
      tauto

theorem Covered.apply {A : Assumed} {e : Act} (hA : A.truthful = True) (hw : Covered cfg w.mem w)
    (h : Duty cfg A e w) : Covered cfg (w.apply i e).mem (w.apply i e) := by
  cases e with
  | setState policies =>
    have h : Move cfg A.truthful w policies := h
    rw [hA] at h
    exact hw.move h
  | fw tool cmd => exact hw.command h fun _ => RulesIn.refl
  | _ => exact hw

/-! ## Histories -/

variable (cfg) in
/-- The installed rules are known in memory and in the file; what is in memory is known in the
file, once a save has been tried. -/
structure WrittenAhead (w : World) : Prop where
  mem : Covered cfg w.mem w
  file : Covered cfg w.filed w
  tried : w.tried = true → RulesIn cfg w.mem w.filed

theorem WrittenAhead.apply {e : Act} (hw : WrittenAhead cfg w) (h : Duty cfg trusted e w)
    (hok : SavesNewRules cfg self e w i) : WrittenAhead cfg (w.apply i e) := by
  have hmem := hw.mem.apply (i := i) rfl h
  cases e with
  | setState policies => exact ⟨hmem, hw.file, nofun⟩
  | save policies =>
    cases h
    cases hf : i.fail with
    | none =>
      have hfiled : (w.apply i (.save w.mem)).filed = w.mem := by
        simp [World.filed, World.apply, hf]
      refine ⟨hmem, ?_, fun _ => ?_⟩
      · rw [hfiled]
        exact hw.mem
      · rw [hfiled]
        exact RulesIn.refl
    | some e =>
      have hfiled : (w.apply i (.save w.mem)).filed = w.filed := by
        simp [World.filed, World.apply, hf]
      refine ⟨hmem, ?_, fun _ => ?_⟩
      · rw [hfiled]
        exact hw.file
      · rw [hfiled]
        exact hok.2 (by rw [hf]; rfl) w.mem rfl
  | fw tool cmd => exact ⟨hmem, hw.file.command h hw.tried, hw.tried⟩
  | _ => exact ⟨hmem, hw.file, hw.tried⟩

/-- In every history, with crashes, in which a save fails only if the file already knows the
rules of all policies in memory, every rule in the chains other than the marker is a rule for an
address of a policy in the file. -/
theorem rules_written_ahead {w : World} {c : Conf World Input Act} (hw : w.Fresh)
    (hfw : ∀ tool, w.fw tool = none)
    (h : Run (manager cfg) (fun _ _ => True) (SavesNewRules cfg) ⟨w, none⟩ c) {tool : Tool}
    {chain : Chain} {rule : Rule} (hchain : c.mem.fw tool = some chain)
    (hrule : rule ∈ chain.rules) :
    rule = markerRule ∨ ∃ policies, c.mem.disk = some policies ∧ ∃ p ∈ policies, ∃ raw ∈ p.ips,
      ∃ ip incoming, IpAddr.parse raw = some ip ∧ toolOf ip = tool ∧
        rule = ruleArgs cfg p ip incoming := by
  have hahead : WrittenAhead cfg c.mem := by
    refine orderly_invariant (manager_orderly trivial)
      (fun w e i _ hw hduty hok => hw.apply hduty hok) (fun w w' hahead hr => ?_) hw ?_ h
    · cases restart_eq_some hr
      exact ⟨hahead.file, hahead.file, fun _ => RulesIn.refl⟩
    · have hnone : ∀ policies, Covered cfg policies w := fun policies tool rule hpos => by
        rw [hfw] at hpos
        cases hpos
      exact ⟨hnone _, hnone _, fun _ tool p hp => by rw [hw.1] at hp; cases hp⟩
  have hpos : 0 < copies (c.mem.fw tool) rule := by
    rw [hchain]
    exact copies_pos.mpr hrule
  refine (hahead.file tool rule hpos).imp_right fun ⟨p, hp, hrule⟩ => ?_
  unfold World.filed at hp
  cases hdisk : c.mem.disk with
  | none => rw [hdisk] at hp; cases hp
  | some policies =>
    rw [hdisk] at hp
    obtain ⟨raw, hraw, hat⟩ := mem_rules.mp hrule
    obtain ⟨ip, hparse, htool, incoming, hargs⟩ := mem_rulesAt.mp hat
    exact ⟨policies, rfl, p, hp, raw, hraw, ip, incoming, hparse, htool, hargs⟩

/-- The rule of `cap` for connections from the instance. -/
def capRule : Rule := ruleArgs bridged cap (.v4 0x0a000002) false

theorem rules_written_ahead_cap : ∃ c,
    Run (manager bridged) (fun _ _ => True) (SavesNewRules bridged) ⟨{}, none⟩ c ∧
    c.mem.fw .iptables = some ⟨[capRule, markerRule], 1⟩ ∧
    (capRule = markerRule ∨ ∃ policies, c.mem.disk = some policies ∧ ∃ p ∈ policies,
      ∃ raw ∈ p.ips, ∃ ip incoming, IpAddr.parse raw = some ip ∧ toolOf ip = .iptables ∧
        capRule = ruleArgs bridged p ip incoming) :=
  exists_run_imp (p := fun c => c.mem.fw .iptables = some ⟨[capRule, markerRule], 1⟩)
    ([.call (Call.apply cap instanceUp), .act {}, .act { now := 1000 }] ++
      List.replicate 15 (.act {})) (by decide +kernel) fun _ hrun hfw =>
    ⟨hfw, rules_written_ahead ⟨rfl, rfl, rfl, rfl⟩ (fun _ => rfl) hrun hfw (by simp)⟩

/-- The policy cannot be saved and `apply` fails, but the next pass installs its rules: they are
in no file. -/
theorem rule_unsaved : ∃ c,
    Run (manager bridged) (fun _ _ => True) TruthfulChecks ⟨{}, none⟩ c ∧
    c.mem.fw .iptables = some ⟨[capRule, markerRule], 1⟩ ∧ capRule ≠ markerRule ∧
    c.mem.disk = none :=
  exists_run ([.call (Call.apply cap instanceUp), .act {}, .act { now := 1000 }, .act {}, .act {},
    .act { fail := some "No space left on device" }, .act {}, .done, .call .reconcile,
    .act {}, .act { now := 1001 }, .act { target := .ok instanceUp }] ++
    List.replicate 12 (.act {})) (by decide +kernel)

end RunmanAgent.ConnLimit
