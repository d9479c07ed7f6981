import RunmanAgent.ConnLimit.WriteAhead

/-!
# Refused connection limits

When `apply` refuses a new policy after some of its rules have been installed, the policy is
marked for removal, and the passes of `reconcile` remove its rules. A deletion that fails, or
a check that fails although the rule is there, leaves a rule installed (`refused_installed`).

`refused_stays_out` says what holds if checks tell the truth. A refusal because the new policy
cannot be saved is left out: memory then keeps the policy without the mark. So is a restart,
which loads a policy whose mark could not be saved unmarked.
-/

namespace RunmanAgent.ConnLimit

open Concurrency Server Iptables

variable (cfg : Config)

/-- A rule that carries the id of a policy. -/
def RuleOf (id : String) (rule : Rule) : Prop :=
  ∃ p ip incoming, p.id = id ∧ rule = ruleArgs cfg p ip incoming

instance (a : Option Pending) (policies : List Policy) : Decidable (Marks a policies) :=
  inferInstanceAs (Decidable (∀ x ∈ a, x.known = false → ∀ p ∈ policies, p.id = x.id →
    p.removeOnly = true))

/-- Checks tell the truth, and the save with which `apply` records a new policy does not
fail. -/
def RecordsNew (p : Pid) (e : Act) (w : World) (i : Input) : Prop :=
  TruthfulChecks p e w i ∧ (i.fail.isSome = true → ∀ policies ∈ e.saves, Marks w.applying policies)

instance (p : Pid) (e : Act) (w : World) (i : Input) : Decidable (RecordsNew p e w i) :=
  inferInstanceAs (Decidable (_ ∧ (_ → _)))

/-- Besides, no save and no deletion of a rule fails. -/
def CleanPass (p : Pid) (e : Act) (w : World) (i : Input) : Prop :=
  RecordsNew p e w i ∧ (i.fail.isSome = true → e.saves = none ∧ e.deletes = false)

instance (p : Pid) (e : Act) (w : World) (i : Input) : Decidable (CleanPass p e w i) :=
  inferInstanceAs (Decidable (_ ∧ (_ → _)))

/-- The assumptions for histories, and for a pass of `reconcile`. -/
def recording (clean applies : Prop) : Assumed where
  truthful := True
  recorded := True
  clean := clean
  applies := applies

instance meets_recording {applies : Prop} : Meets (recording False applies) RecordsNew where
  may hok hf := ⟨fun _ => hok.1 hf, fun _ => hok.2 hf, False.elim⟩

instance meets_clean {applies : Prop} : Meets (recording True applies) CleanPass where
  may hok hf := ⟨fun _ => hok.1.1 hf, fun _ => hok.1.2 hf, fun _ => hok.2 hf⟩

/-- The policies of refused ids are marked, unless `apply` is at work on one that is new. -/
structure Refused (w : World) : Prop where
  covered : Covered cfg w.mem w
  marked : ∀ id ∈ w.rejected, w.applying ≠ some ⟨id, false⟩ → ∀ p ∈ w.mem, p.id = id →
    p.removeOnly = true

variable {cfg} {w : World} {clean applies : Prop}

theorem Refused.apply {e : Act} {i : Input} (hw : Refused cfg w)
    (h : Duty cfg (recording clean applies) e w) : Refused cfg (w.apply i e) := by
  refine ⟨hw.covered.apply rfl h, ?_⟩
  cases e with
  | setState policies =>
    intro id hid hne p' hp' hpid
    rcases Move.origin h hp' with ⟨p, hp, hsame⟩ | ⟨-, happlying, -⟩
    · exact hsame.removeOnly (hw.marked id hid hne p hp (hsame.id.symm.trans hpid))
    · exact absurd (hpid ▸ happlying) hne
  | start id' =>
    intro id hid _
    exact hw.marked id hid (by rw [h.2]; exact nofun)
  | answer ok =>
    intro id hid _ p hp hpid
    rcases mem_rejectedAfter hid with ⟨hr, hne⟩ | ⟨hok, ha⟩
    · exact hw.marked id hr hne p hp hpid
    · -- the call has been refused: its policy is marked
      exact h hok trivial _ ha rfl p hp hpid
  | _ => exact hw.marked

theorem Refused.pass {e : Act} {i : Input} {id : String} {rule : Rule} (hw : Refused cfg w)
    (tool : Tool) (happ : w.applying = none) (hid : id ∈ w.rejected)
    (hrule : RuleOf cfg id rule) (h : Duty cfg (recording clean False) e w) :
    (w.apply i e).applying = none ∧ id ∈ (w.apply i e).rejected ∧
      copies ((w.apply i e).fw tool) rule ≤ copies (w.fw tool) rule := by
  cases e with
  | start => exact h.1.elim
  | answer ok =>
    refine ⟨rfl, ?_, le_refl _⟩
    show id ∈ rejectedAfter w.applying w.rejected ok
    rwa [happ]
  | fw tool' cmd =>
    refine ⟨happ, hid, copies_apply_le fun _ => ⟨?_, ?_⟩⟩
    · rintro rfl
      obtain ⟨-, p, hp, hmem, hactive⟩ := h
      obtain ⟨q, ip, incoming, rfl, rfl⟩ := hrule
      obtain ⟨_, -, hat⟩ := mem_rules.mp hmem
      obtain ⟨_, -, -, _, heq⟩ := mem_rulesAt.mp hat
      have hmarked := hw.marked q.id hid (by rw [happ]; exact nofun) p hp
        (ruleArgs_inj heq).2.2.symm
      rcases hactive with hactive | ⟨known, hactive⟩
      · rw [hmarked] at hactive
        cases hactive
      · rw [happ] at hactive
        cases hactive
    · rintro rfl
      obtain ⟨q, ip, incoming, -, rfl⟩ := hrule
      exact ruleArgs_ne_marker h
  | _ => exact ⟨happ, hid, le_refl _⟩

theorem Refused.runs {ok : Pid → Act → World → Input → Prop} {id : String} {rule : Rule}
    {r : Except String Unit} {w' : World} (hw : Refused cfg w) (tool : Tool)
    (_hok : Meets (recording clean False) ok) (hids : DistinctIds w) (hidle : Idle w)
    (hid : id ∈ w.rejected)
    (hrule : RuleOf cfg id rule) (hrun : Prog.Runs host ok self (reconcile cfg) w r w') :
    (∃ m, Passed (recording clean False) m w') ∧ Refused cfg w' ∧ id ∈ w'.rejected ∧
      copies (w'.fw tool) rule ≤ copies (w.fw tool) rule := by
  have hsafe : Safe (orderly cfg (recording clean False) ok)
      (orderly cfg (recording clean False) ok).may self
      (fun _ w' => ∃ m, Passed (recording clean False) m w') (reconcile cfg) w :=
    keeps_reconcile w ⟨rfl, hidle.1, hidle.2⟩
  have hstep : ∀ e s i, (orderly cfg (recording clean False) ok).may self e s →
      Refused cfg s ∧ s.applying = none ∧ id ∈ s.rejected →
      (Refused cfg (s.apply i e) ∧ (s.apply i e).applying = none ∧ id ∈ (s.apply i e).rejected) ∧
        copies ((s.apply i e).fw tool) rule ≤ copies (s.fw tool) rule := by
    intro e s i hmay hs
    have hduty := may_self.mp hmay
    obtain ⟨happ, hid', hle⟩ := hs.1.pass (i := i) tool hs.2.1 hs.2.2 hrule hduty
    exact ⟨⟨hs.1.apply hduty, happ, hid'⟩, hle⟩
  obtain ⟨hpassed, -, hrel⟩ := hsafe.runs (T := fun w w' =>
    Refused cfg w ∧ w.applying = none ∧ id ∈ w.rejected →
      (Refused cfg w' ∧ w'.applying = none ∧ id ∈ w'.rejected) ∧
        copies (w'.fw tool) rule ≤ copies (w.fw tool) rule)
    (fun _ h => ⟨h, le_refl _⟩)
    (fun s t u hst htu hs => ⟨(htu (hst hs).1).1, (htu (hst hs).1).2.trans (hst hs).2⟩)
    (fun e s i _ hmay _ => hstep e s i hmay) hids hrun
  obtain ⟨⟨hw', -, hid'⟩, hle⟩ := hrel ⟨hw, hidle.1, hid⟩
  exact ⟨hpassed, hw', hid', hle⟩

/-- In every history without a restart of the agent in which checks tell the truth and new
policies can be saved: if `apply` has refused an id that was not stored and has not accepted it
since, then a pass of `reconcile` adds no copy of any rule of the id, and a pass in which no save
and no deletion fails leaves none. -/
theorem refused_stays_out {w : World} {c : Conf World Input Act} (hw : w.Fresh)
    (hfw : ∀ tool, w.fw tool = none) (hnone : w.rejected = [])
    (h : Run (steady cfg) (fun _ _ => True) RecordsNew ⟨w, none⟩ c) (hidle : c.run = none)
    {id : String} (hid : id ∈ c.mem.rejected) {rule : Rule} (hrule : RuleOf cfg id rule)
    (tool : Tool) :
    (∀ r w', Prog.Runs host RecordsNew self (reconcile cfg) c.mem r w' →
      copies (w'.fw tool) rule ≤ copies (c.mem.fw tool) rule) ∧
    ∀ r w', Prog.Runs host CleanPass self (reconcile cfg) c.mem r w' →
      copies (w'.fw tool) rule = 0 := by
  have hsound : Sound (steady cfg) (fun _ _ => True) (orderly cfg (recording False True) RecordsNew)
      Idle := steady_orderly trivial
  have hsafe := hsound.run_safe hw.safe h
  have hrefused : Refused cfg c.mem := by
    refine orderly_invariant hsound (fun w e i _ hw hduty _ => hw.apply hduty)
      nofun hw ⟨fun tool rule hpos => ?_, ?_⟩ h
    · rw [hfw] at hpos
      cases hpos
    · rw [hnone]
      exact nofun
  have hfree := hsafe.idle hidle
  constructor
  · intro r w' hrun
    exact (hrefused.runs tool meets_recording hsafe.inv hfree hid hrule hrun).2.2.2
  · intro r w' hrun
    obtain ⟨⟨m, hat, hactive⟩, hrefused', hid', -⟩ :=
      hrefused.runs tool meets_clean hsafe.inv hfree hid hrule hrun
    -- no policy of the id is left, and the installed rules are rules of the policies left
    by_contra hpos
    obtain ⟨q, ip, incoming, rfl, rfl⟩ := hrule
    rcases hrefused'.covered tool _ (Nat.pos_of_ne_zero hpos) with hmarker | ⟨p, hp, hmem⟩
    · exact ruleArgs_ne_marker hmarker
    · obtain ⟨_, -, hat'⟩ := mem_rules.mp hmem
      obtain ⟨_, -, -, _, heq⟩ := mem_rulesAt.mp hat'
      have hmarked := hrefused'.marked q.id hid' (by rw [hat.applying]; exact nofun)
        p hp (ruleArgs_inj heq).2.2.symm
      rw [hactive trivial trivial p (hat.mem ▸ hp)] at hmarked
      cases hmarked

/-- The second rule of `cap` cannot be inserted. -/
def halfInstalled : List (Server.Move Input Act Call) :=
  [.call (.apply cap instanceUp), .act {}, .act { now := 1000 }] ++
    List.replicate 16 (.act {}) ++ [.act { fail := some "lock" }, .act {}, .act {}, .act {}, .done]

theorem refused_stays_out_half : ∃ c,
    Run (steady bridged) (fun _ _ => True) RecordsNew ⟨{}, none⟩ c ∧ c.run = none ∧
    cap.id ∈ c.mem.rejected ∧ copies (c.mem.fw .iptables) capRule = 1 ∧
    ∃ r w', Prog.Runs host CleanPass self (reconcile bridged) c.mem r w' ∧
      copies (w'.fw .iptables) capRule = 0 := by
  refine exists_run_imp (p := fun c => c.run = none ∧ cap.id ∈ c.mem.rejected ∧
    copies (c.mem.fw .iptables) capRule = 1 ∧ (Prog.alone host CleanPass self (reconcile bridged)
      c.mem (List.replicate 21 {})).isSome) halfInstalled (by decide +kernel)
    fun c hrun ⟨hidle, hid, hcopies, halone⟩ => ?_
  obtain ⟨⟨r, w'⟩, halone⟩ := Option.isSome_iff_exists.mp halone
  have hpass := Prog.runs_of_alone _ halone
  exact ⟨hidle, hid, hcopies, r, w', hpass,
    (refused_stays_out ⟨rfl, rfl, rfl, rfl⟩ (fun _ => rfl) rfl hrun hidle hid
      ⟨cap, .v4 0x0a000002, false, rfl, rfl⟩ .iptables).2 r w' hpass⟩

/-- After such a refusal, a pass in which the deletion of the installed rule fails leaves it; so
does a pass in which the check for it fails, and that pass forgets the policy. -/
theorem refused_installed : ∃ c,
    Run (steady bridged) (fun _ _ => True) TruthfulChecks ⟨{}, none⟩ c ∧ c.run = none ∧
    cap.id ∈ c.mem.rejected ∧
    (∃ r w', Prog.Runs host TruthfulChecks self (reconcile bridged) c.mem r w' ∧
      copies (w'.fw .iptables) capRule = 1) ∧
    ∃ w', Prog.Runs host anyStep self (reconcile bridged) c.mem (.ok ()) w' ∧
      copies (w'.fw .iptables) capRule = 1 ∧ w'.mem = [] := by
  refine exists_run_imp (p := fun c => c.run = none ∧ cap.id ∈ c.mem.rejected ∧
    ((Prog.alone host TruthfulChecks self (reconcile bridged) c.mem
      [{}, {}, {}, { fail := some "lock" }]).any fun x => copies (x.2.fw .iptables) capRule = 1) ∧
    (Prog.alone host anyStep self
      (reconcile bridged) c.mem [{}, {}, { fail := some "lock" }, {}, {},
      {}, {}, { fail := some "lock" }, { fail := some "lock" }]).any fun x =>
        x.1.isOk ∧ copies (x.2.fw .iptables) capRule = 1 ∧ x.2.mem = [])
    halfInstalled (by decide +kernel) fun c hrun ⟨hidle, hid, hdelete, hcheck⟩ => ?_
  obtain ⟨r, w', hpass, hcopies⟩ := Prog.runs_of_any hdelete
  obtain ⟨r', w'', hpass', hends⟩ := Prog.runs_of_any hcheck
  obtain ⟨hok, hends⟩ := of_decide_eq_true hends
  refine ⟨hidle, hid, ⟨r, w', hpass, of_decide_eq_true hcopies⟩, w'', ?_, hends⟩
  cases r' with
  | ok _ => exact hpass'
  | error e => cases hok

end RunmanAgent.ConnLimit
