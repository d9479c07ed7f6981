import RunmanAgent.Concurrency.Total
import RunmanAgent.HostPolicy.Manager

/-!
# The abuse chain

The chain belongs to the agent if its listing mentions the marker. `apply_abuse_family`
creates or flushes the chain before it adds the marker rule, so when the next command fails
the chain is left without the marker, and every later call refuses to touch it
(`abuse_stuck`). If commands only fail when the chain is absent or mentions the marker, and a
`FORWARD` jump is not overlooked, every call leaves an absent or marked chain
(`abuse_recovers`).
-/

namespace RunmanAgent.HostPolicy

open Concurrency Server Iptables

variable {tool : Tool} {policy : AbusePolicy}

/-- Calls of `apply_abuse_family` for one tool. -/
def abuseServer (tool : Tool) : Server host AbusePolicy where
  code policy := Prog.bind (applyAbuseFamily tool policy) fun _ => .ret ()

/-- The chain is absent or mentions the marker. -/
def Marked (t : Option Chain) : Prop := t.all (·.mentions ABUSE_MARKER) = true

instance (t : Option Chain) : Decidable (Marked t) := inferInstanceAs (Decidable (_ = _))

/-- Commands fail only when the chain is absent or mentions the marker, and the check for a
jump only when there is none. -/
def OnlyMarkedFails (_ : Pid) (e : Act) (w : World) (i : Input) : Prop :=
  match e with
  | .fw tool cmd => i.fail.isSome = true →
      Marked (w.fw tool) ∧ (cmd = .checkJump → ∀ c, w.fw tool = some c → c.jumps = 0)
  | _ => True

def abuse (tool : Tool) : Discipline host :=
  (abuseServer tool).discipline (fun _ => True) (fun _ _ => True) OnlyMarkedFails
    (fun _ _ _ => trivial) (fun he _ _ => he.elim)

instance abuse_stable {P : World → Prop} : Stable (abuse tool) self P :=
  stable_of_others fun he _ _ _ => he.elim

/-! ## Commands -/

@[simp] theorem fw_apply (w : World) (i : Input) (tool : Tool) (cmd : Cmd) :
    (w.apply i (.fw tool cmd)).fw tool = after i.fail.isSome cmd (w.fw tool) :=
  Function.update_self ..

theorem fw_list (w : World) (i : Input) (tool : Tool) :
    (w.apply i (.fw tool .list)).fw tool = w.fw tool := by
  rw [fw_apply]
  cases i.fail.isSome with
  | true => rfl
  | false => cases w.fw tool <;> simp [after, Iptables.exec]

variable {n : Nat} {t : Option Chain} {P : Option Chain → Prop}

theorem abuse_command {Q E : Option Chain → Prop} (cmd : Cmd)
    (hQ : ∀ t t', P t → Iptables.exec cmd t = some t' → Q t')
    (hE : ∀ t, P t → Iptables.exec cmd t = none → E t)
    (hfail : ∀ t, P t → Marked t → (cmd = .checkJump → ∀ c, t = some c → c.jumps = 0) → E t) :
    Serves (abuse tool) (fun w => P (w.fw tool)) (fwCommand tool cmd)
      (ends (fun _ w => Q (w.fw tool)) (fun _ w => E (w.fw tool))) := by
  refine .perform fun w i _ hw _ hok => ⟨may_self.mpr trivial, ?_⟩
  show ends _ _ _ (w.apply i (.fw tool cmd))
  cases hs : succeeds i.fail.isSome cmd (w.fw tool) with
  | true =>
    show Q ((w.apply i (.fw tool cmd)).fw tool)
    rw [fw_apply]
    exact hQ _ _ hw (exec_of_succeeds hs)
  | false =>
    show E ((w.apply i (.fw tool cmd)).fw tool)
    rw [fw_apply, after_of_not_succeeds hs]
    cases hf : i.fail.isSome with
    | true =>
      obtain ⟨hm, hj⟩ := hok hf
      exact hfail _ hw hm hj
    | false =>
      rw [hf] at hs
      exact hE _ hw (by simpa [Iptables.succeeds] using hs)

theorem mentions_markerRule {c : Chain} (h : markerRule ∈ c.rules) :
    c.mentions ABUSE_MARKER = true :=
  mentions_of_mem h (by simp [markerRule])

theorem mentions_insert {c : Chain} {rule : Iptables.Rule} {text : String}
    (h : c.mentions text = true) :
    Chain.mentions { c with rules := rule :: c.rules } text = true := by
  rw [Chain.mentions, List.any_cons, Bool.or_eq_true]
  exact .inr h

/-- The chain is there and mentions the marker. -/
def IsMarked (t : Option Chain) : Prop := ∃ c, t = some c ∧ c.mentions ABUSE_MARKER = true

theorem IsMarked.marked (h : IsMarked t) : Marked t := by
  obtain ⟨c, rfl, hc⟩ := h
  exact hc

/-! ## Every call leaves an absent or marked chain -/

theorem abuse_insertAbuse :
    Serves (abuse tool) (fun w => IsMarked (w.fw tool))
      (insertAbuse tool policy)
      (ends (fun _ w => IsMarked (w.fw tool)) (fun _ w => IsMarked (w.fw tool))) := by
  refine .forEach fun rule _ => ?_
  refine abuse_command (.insert rule) ?_ (fun t h _ => h) fun t h _ _ => h
  rintro _ _ ⟨c, rfl, hc⟩ ⟨⟩
  exact ⟨_, rfl, mentions_insert hc⟩

theorem abuse_enable :
    Serves (abuse tool) (fun w => ∃ c, w.fw tool = some c)
      (applyAbuseFamily.enable tool policy)
      (ends (fun _ w => Marked (w.fw tool)) (fun _ w => Marked (w.fw tool))) := by
  refine .chain (abuse_command (P := fun t => ∃ c, t = some c) (Q := IsMarked)
    (E := Marked) (.append markerRule) ?_ ?_ fun _ _ hm _ => hm) (fun _ _ _ h => h) fun _ => ?_
  · rintro _ _ ⟨c, rfl⟩ ⟨⟩
    exact ⟨_, rfl, mentions_markerRule (by simp)⟩
  · rintro _ ⟨c, rfl⟩ ⟨⟩
  refine .chain abuse_insertAbuse (fun _ _ _ h => h.marked) fun _ => ?_
  refine .attemptBind (abuse_command (P := IsMarked) (Q := IsMarked) (E := IsMarked)
    .checkJump ?_ (fun _ h _ => h) fun _ h _ _ => h) fun r => ?_
  · rintro _ _ ⟨c, rfl, hc⟩ he
    simp only [Iptables.exec] at he
    split at he
    · cases he
      exact ⟨c, rfl, hc⟩
    · cases he
  · cases r with
    | ok _ => exact .ret fun _ _ h => h.marked
    | error _ =>
      refine .pre (abuse_command (P := IsMarked) .insertJump ?_
        (fun _ h _ => h.marked) fun _ h _ _ => h.marked) fun _ h => h
      rintro _ _ ⟨c, rfl, hc⟩ ⟨⟩
      exact hc

/-- The chain is marked and has `n` jumps. -/
def HasJumps (n : Nat) (t : Option Chain) : Prop :=
  ∃ c, t = some c ∧ c.mentions ABUSE_MARKER = true ∧ c.jumps = n

theorem HasJumps.marked (h : HasJumps n t) : Marked t := by
  obtain ⟨c, rfl, hc, -⟩ := h
  exact hc

theorem abuse_removeJumps :
    Serves (abuse tool) (fun w => HasJumps n (w.fw tool))
      (Proc.whileOk (fwCommand tool .checkJump) (fwCommand tool .deleteJump) n)
      (ends (fun _ w => HasJumps 0 (w.fw tool)) (fun _ w => Marked (w.fw tool))) := by
  refine .whileOk (P := fun n (w : World) => HasJumps n (w.fw tool))
    (B := fun n w => HasJumps n (w.fw tool) ∧ 0 < n) (fun n => ?_) (fun n => ?_) fun _ _ h =>
      absurd h.2 (lt_irrefl 0)
  · refine abuse_command (P := HasJumps n) (Q := fun t => HasJumps n t ∧ 0 < n) .checkJump ?_ ?_ ?_
    · rintro _ _ ⟨c, rfl, hc, rfl⟩ he
      simp only [Iptables.exec] at he
      split at he
      · rename_i hpos
        cases he
        exact ⟨⟨c, rfl, hc, rfl⟩, hpos⟩
      · cases he
    · rintro _ ⟨c, rfl, hc, rfl⟩ he
      simp only [Iptables.exec] at he
      split at he
      · cases he
      · exact ⟨c, rfl, hc, by omega⟩
    · rintro _ ⟨c, rfl, hc, rfl⟩ - hj
      exact ⟨c, rfl, hc, hj rfl c rfl⟩
  · refine abuse_command (P := fun t => HasJumps (n + 1) t ∧ 0 < n + 1) .deleteJump ?_
      (fun _ h _ => h.1.marked) fun _ h _ _ => h.1.marked
    rintro _ _ ⟨⟨c, rfl, hc, hj⟩, -⟩ he
    simp only [Iptables.exec] at he
    split at he
    · cases he
      exact ⟨_, rfl, hc, by simp [hj]⟩
    · cases he

theorem abuse_applyAbuseFamily :
    Serves (abuse tool) (fun w => Marked (w.fw tool))
      (applyAbuseFamily tool policy)
      (ends (fun _ w => Marked (w.fw tool)) (fun _ w => Marked (w.fw tool))) := by
  have hlist : Serves (abuse tool) (fun w => Marked (w.fw tool))
      (fwOutput tool) (ends (fun chain w => w.fw tool = some chain ∧ Marked (some chain))
        (fun _ w => Marked (w.fw tool))) := by
    refine .perform fun w i _ hw _ _ => ⟨may_self.mpr trivial, ?_⟩
    show ends _ _ _ (w.apply i (.fw tool .list))
    have hsame : (w.apply i (.fw tool .list)).fw tool = w.fw tool := fw_list w i tool
    cases i.fail with
    | some e => simpa [hsame] using hw
    | none =>
      cases ht : w.fw tool with
      | none => simpa [hsame, ht] using hw
      | some c => exact ⟨hsame.trans ht, ht ▸ hw⟩
  refine .attemptBind hlist fun r => ?_
  cases r with
  | ok chain =>
    dsimp only
    split
    · exact .ret fun w _ hw => (congrArg Marked hw.1).mpr hw.2
    · split
      · refine .chain ((abuse_removeJumps (n := chain.jumps)).pre fun w hw =>
          ⟨chain, hw.1, hw.2, rfl⟩) (fun _ _ _ h => h) fun _ => ?_
        refine .chain (abuse_command (P := HasJumps 0) (Q := fun t => t = some {})
          (E := Marked) .flush ?_ (fun _ h _ => h.marked) fun _ _ hm _ => hm)
          (fun _ _ _ h => h) fun _ => ?_
        · rintro _ _ ⟨c, rfl, -, hj⟩ ⟨⟩
          rw [hj]
        · refine abuse_command (P := fun t => t = some {}) .deleteChain ?_ ?_ fun _ _ hm _ => hm
          · rintro _ _ rfl ⟨⟩
            rfl
          · rintro _ rfl ⟨⟩
      · refine .chain (abuse_command (P := fun t => t = some chain ∧ Marked (some chain))
          (Q := fun t => ∃ c, t = some c) (E := Marked) .flush ?_ ?_ fun _ _ hm _ => hm)
          (fun _ _ _ h => h) fun _ => abuse_enable
        · rintro _ _ ⟨rfl, -⟩ ⟨⟩
          exact ⟨_, rfl⟩
        · rintro _ ⟨rfl, hm⟩ -
          exact hm
  | error e =>
    dsimp only
    split
    · exact .ret fun _ _ hw => hw
    · refine .chain (abuse_command (P := Marked) (Q := fun t => ∃ c, t = some c)
        (E := Marked) .newChain ?_ (fun _ h _ => h) fun _ _ hm _ => hm)
        (fun _ _ _ h => h) fun _ => abuse_enable
      rintro (_ | c) _ - he
      · cases he
        exact ⟨_, rfl⟩
      · cases he

/-! ## A call without a failure -/

/-- No command fails. -/
def NoFailure (_ : Pid) (_ : Act) (_ : World) (i : Input) : Prop := i.fail = none

variable {go : Prop}

instance (p : Pid) (e : Act) (w : World) (i : Input) : Decidable (NoFailure p e w i) :=
  decidable_of_iff (i.fail.isNone = true) Option.isNone_iff_eq_none

theorem total_fwCommand {Q : Option Chain → Prop} (cmd : Cmd)
    (h : ∀ t, P t → ∃ t', Iptables.exec cmd t = some t' ∧ Q t') :
    Total host NoFailure self go (fun w => P (w.fw tool)) (fwCommand tool cmd)
      (succeedsWith fun _ w => Q (w.fw tool)) := by
  refine .perform (fun _ _ _ => ⟨rfl, {}, rfl⟩) fun w i hw hok => ?_
  obtain ⟨t', hexec, hQ⟩ := h _ hw
  have hf : i.fail.isSome = false := by rw [show i.fail = none from hok]; rfl
  have hs : Iptables.succeeds i.fail.isSome cmd (w.fw tool) = true := by
    simp [Iptables.succeeds, hf, hexec]
  have hafter := exec_of_succeeds hs
  rw [if_pos hs]
  show Q ((w.apply i (.fw tool cmd)).fw tool)
  rwa [fw_apply, ← Option.some.inj (hexec.symm.trans hafter)]

theorem total_fwCommand_fails (cmd : Cmd) (h : ∀ t, P t → Iptables.exec cmd t = none) :
    Total host NoFailure self go (fun w => P (w.fw tool)) (fwCommand tool cmd)
      (ends (fun _ _ => False) (fun _ w => P (w.fw tool))) := by
  refine .perform (fun _ _ _ => ⟨rfl, {}, rfl⟩) fun w i hw hok => ?_
  have hs : Iptables.succeeds i.fail.isSome cmd (w.fw tool) = false := by
    simp [Iptables.succeeds, h _ hw]
  rw [if_neg (by simp [hs])]
  show P ((w.apply i (.fw tool cmd)).fw tool)
  rwa [fw_apply, after_of_not_succeeds hs]

/-- The rules of a policy, as they stand in the chain. -/
def abuseChain (policy : AbusePolicy) : List Iptables.Rule :=
  (policy.interfaces.flatMap (abuseRules policy)).reverse ++ [markerRule]

theorem total_insertAbuse :
    Total host NoFailure self go (fun w => ∃ j, w.fw tool = some ⟨[markerRule], j⟩)
      (insertAbuse tool policy)
      (succeedsWith fun _ w => ∃ j, w.fw tool = some ⟨abuseChain policy, j⟩) := by
  -- the rules inserted so far stand in reverse order above the marker
  refine .pre (Total.post (Total.forEach (P := fun rest (w : World) => ∃ before j,
    policy.interfaces.flatMap (abuseRules policy) = before ++ rest ∧
      w.fw tool = some ⟨before.reverse ++ [markerRule], j⟩) fun rule rest => ?_) ?_) ?_
  · refine .post (total_fwCommand (P := fun t => ∃ before j,
      policy.interfaces.flatMap (abuseRules policy) = before ++ rule :: rest ∧
        t = some ⟨before.reverse ++ [markerRule], j⟩) (Q := fun t => ∃ before j,
      policy.interfaces.flatMap (abuseRules policy) = before ++ rest ∧
        t = some ⟨before.reverse ++ [markerRule], j⟩) (.insert rule) ?_) fun _ _ h => h
    rintro _ ⟨before, j, hsplit, rfl⟩
    exact ⟨_, rfl, before ++ [rule], j, by simp [hsplit], by simp⟩
  · rintro (e | _) w h
    · exact h.elim
    · obtain ⟨before, j, hsplit, ht⟩ := h
      refine ⟨j, ?_⟩
      rw [ht, abuseChain, hsplit, List.append_nil]
  · rintro w ⟨j, ht⟩
    exact ⟨[], j, rfl, ht⟩

theorem total_enable : Total host NoFailure self go (fun w => ∃ j, w.fw tool = some ⟨[], j⟩)
      (applyAbuseFamily.enable tool policy)
      (succeedsWith fun _ w => ∃ j, 1 ≤ j ∧ w.fw tool = some ⟨abuseChain policy, j⟩) := by
  refine .step (total_fwCommand (P := fun t => ∃ j, t = some ⟨[], j⟩)
    (Q := fun t => ∃ j, t = some ⟨[markerRule], j⟩) (.append markerRule) ?_) fun _ => ?_
  · rintro _ ⟨j, rfl⟩
    exact ⟨_, rfl, j, rfl⟩
  refine .step total_insertAbuse fun _ => ?_
  rintro w ⟨j, ht⟩
  by_cases hj : 0 < j
  · refine Total.attemptBind (total_fwCommand (P := fun t => t = some ⟨abuseChain policy, j⟩)
      (Q := fun t => t = some ⟨abuseChain policy, j⟩) .checkJump ?_) (fun r => ?_) w ht
    · rintro _ rfl
      exact ⟨_, if_pos hj, rfl⟩
    · cases r with
      | ok _ => exact .ret fun w h => ⟨j, hj, h⟩
      | error _ => exact fun _ h => h.elim
  · refine Total.attemptBind (total_fwCommand_fails
      (P := fun t => t = some ⟨abuseChain policy, j⟩) .checkJump ?_) (fun r => ?_) w ht
    · rintro _ rfl
      exact if_neg hj
    · cases r with
      | ok _ => exact fun _ h => h.elim
      | error _ =>
        refine total_fwCommand (P := fun t => t = some ⟨abuseChain policy, j⟩)
          (Q := fun t => ∃ j, 1 ≤ j ∧ t = some ⟨abuseChain policy, j⟩) .insertJump ?_
        rintro _ rfl
        exact ⟨_, rfl, j + 1, by omega, rfl⟩

/-- What a call leaves. -/
def Applied (policy : AbusePolicy) (t : Option Chain) : Prop :=
  if policy.enabled then ∃ j, 1 ≤ j ∧ t = some ⟨abuseChain policy, j⟩ else t = none

theorem total_removeJumps {rules : List Iptables.Rule} :
    Total host NoFailure self go (fun w => w.fw tool = some ⟨rules, n⟩)
      (Proc.whileOk (fwCommand tool .checkJump) (fwCommand tool .deleteJump) n)
      (succeedsWith fun _ w => w.fw tool = some ⟨rules, 0⟩) := by
  refine .whileOk (P := fun n (w : World) => w.fw tool = some ⟨rules, n⟩)
    (B := fun n (w : World) => w.fw tool = some ⟨rules, n + 1⟩) ?_ (fun n => ?_) fun n => ?_
  · refine total_fwCommand_fails (P := fun t => t = some ⟨rules, 0⟩) .checkJump ?_
    rintro _ rfl
    rfl
  · refine total_fwCommand (P := fun t => t = some ⟨rules, n + 1⟩)
      (Q := fun t => t = some ⟨rules, n + 1⟩) .checkJump ?_
    rintro _ rfl
    exact ⟨_, rfl, rfl⟩
  · refine total_fwCommand (P := fun t => t = some ⟨rules, n + 1⟩)
      (Q := fun t => t = some ⟨rules, n⟩) .deleteJump ?_
    rintro _ rfl
    exact ⟨_, rfl, rfl⟩

theorem total_fwOutput : Total host NoFailure self go (fun w => w.fw tool = t) (fwOutput tool)
      (ends (fun chain w => w.fw tool = t ∧ t = some chain)
        (fun _ w => w.fw tool = t ∧ t = none)) := by
  refine .perform (fun _ _ _ => ⟨rfl, {}, rfl⟩) fun w i hw hok => ?_
  have hsame : (w.apply i (.fw tool .list)).fw tool = t := (fw_list w i tool).trans hw
  rw [show i.fail = none from hok, hw]
  cases t with
  | none => exact ⟨hsame, rfl⟩
  | some chain => exact ⟨hsame, rfl⟩

theorem total_applyAbuseFamily :
    Total host NoFailure self go (fun w => Marked (w.fw tool)) (applyAbuseFamily tool policy)
      (succeedsWith fun _ w => Applied policy (w.fw tool)) := by
  intro w hw
  refine Total.attemptBind (total_fwOutput (t := w.fw tool)) (fun r => ?_) w rfl
  cases r with
  | error e =>
    refine .given fun hnone => ?_
    rw [hnone]
    dsimp only
    split
    · rename_i hdis
      have hdis : policy.enabled = false := by simpa using hdis
      refine .ret fun w' hw' => ?_
      show Applied policy (w'.fw tool)
      simpa [Applied, hdis] using hw'
    · rename_i hen
      have hen : policy.enabled = true := by simpa using hen
      refine .step (total_fwCommand (P := fun t => t = none)
        (Q := fun t => ∃ j, t = some ⟨[], j⟩) .newChain ?_) fun _ => ?_
      · rintro _ rfl
        exact ⟨_, rfl, 0, rfl⟩
      · simpa only [Applied, hen, if_true] using total_enable
  | ok chain =>
    refine .given fun hsome => ?_
    rw [hsome] at hw ⊢
    dsimp only
    split
    · rename_i hunmarked
      have hmarked : chain.mentions ABUSE_MARKER = true := hw
      simp [hmarked] at hunmarked
    split
    · rename_i hdis
      have hdis : policy.enabled = false := by simpa using hdis
      refine .step total_removeJumps fun _ => ?_
      refine .step (total_fwCommand (P := fun t => t = some ⟨chain.rules, 0⟩)
        (Q := fun t => t = some ⟨[], 0⟩) .flush ?_) fun _ => ?_
      · rintro _ rfl
        exact ⟨_, rfl, rfl⟩
      · refine total_fwCommand (P := fun t => t = some ⟨[], 0⟩) (Q := Applied policy)
          .deleteChain ?_
        rintro _ rfl
        exact ⟨_, rfl, by simp [Applied, hdis]⟩
    · rename_i hen
      have hen : policy.enabled = true := by simpa using hen
      refine .step (total_fwCommand (P := fun t => t = some chain)
        (Q := fun t => ∃ j, t = some ⟨[], j⟩) .flush ?_) fun _ => ?_
      · rintro _ rfl
        exact ⟨_, rfl, chain.jumps, rfl⟩
      · simpa only [Applied, hen, if_true] using total_enable

/-- After any calls in which commands fail only as described in `OnlyMarkedFails`, from a host
without the chain, a call without a failure returns `Ok` and leaves exactly the rules of its
policy with a jump from `FORWARD`, or neither chain nor jump if the policy is disabled. -/
theorem abuse_recovers {w : World} {c : Conf World Input Act} (hstart : w.fw tool = none)
    (h : Run (abuseServer tool) (fun _ _ => True) OnlyMarkedFails ⟨w, none⟩ c)
    (hidle : c.run = none) (policy : AbusePolicy) :
    (∃ r w', Prog.Runs host NoFailure self (applyAbuseFamily tool policy) c.mem r w') ∧
    ∀ r w', Prog.Runs host NoFailure self (applyAbuseFamily tool policy) c.mem r w' →
      r = .ok () ∧ Applied policy (w'.fw tool) := by
  have hsound : Sound (abuseServer tool) (fun _ _ => True) (abuse tool)
      (fun w => Marked (w.fw tool)) := by
    refine ⟨fun policy => ?_, fun _ _ _ h => (by cases h), fun _ _ _ _ he => he.elim⟩
    refine .bind (abuse_applyAbuseFamily.pre fun w hw => hw.1) fun r => ?_
    cases r <;> exact .ret fun _ _ h => h
  have hmarked : Marked (w.fw tool) := by rw [hstart]; rfl
  have hsafe := hsound.run_safe (Conf.Safe.start trivial hmarked) h
  have htotal : Total host NoFailure self True (fun w => Marked (w.fw tool))
      (applyAbuseFamily tool policy) (succeedsWith fun _ w => Applied policy (w.fw tool)) :=
    total_applyAbuseFamily
  obtain ⟨hexists, hpost⟩ := htotal.runs (hsafe.idle hidle)
  refine ⟨hexists trivial, fun r w' hrun => ?_⟩
  have hr := hpost r w' hrun
  cases r with
  | ok _ => exact ⟨rfl, hr⟩
  | error e => exact hr.elim

instance (p : Pid) (w : World) (i : Input) : ∀ e, Decidable (OnlyMarkedFails p e w i)
  | .fw tool cmd =>
    decidable_of_iff (i.fail.isSome = true → Marked (w.fw tool) ∧
      (cmd = .checkJump → (w.fw tool).all (fun c => c.jumps = 0) = true)) (by
        cases h : w.fw tool <;> simp [OnlyMarkedFails, h])
  | .lock | .setState _ | .save _ | .bridge _ | .ipv6 | .getStatus | .getRules | .post _
  | .delete _ _ | .answer _ | .change _ => .isTrue trivial

instance (tool : Tool) : DecidablePred (abuseServer tool).others := fun _ => .isFalse id

def blockMining : AbusePolicy := { mining := true, interfaces := ["br0"] }

/-- The rule cannot be inserted, and the next call puts everything in place. -/
theorem abuse_recovers_insert : ∃ c,
    Run (abuseServer .iptables) (fun _ _ => True) OnlyMarkedFails ⟨{}, none⟩ c ∧
    c.run = none ∧ (∃ chain, c.mem.fw .iptables = some chain) ∧
    ∃ w', Prog.Runs host NoFailure self (applyAbuseFamily .iptables blockMining) c.mem (.ok ()) w' ∧
      Applied blockMining (w'.fw .iptables) := by
  refine exists_run_imp (p := fun c => c.run = none ∧ c.mem.fw .iptables = some ⟨[markerRule], 0⟩)
    [.call blockMining, .act {}, .act {}, .act {}, .act { fail := some "lock" }, .done]
    (by decide +kernel) fun c hrun ⟨hidle, hchain⟩ => ?_
  obtain ⟨⟨r, w', hr⟩, hpost⟩ := abuse_recovers rfl hrun hidle blockMining
  obtain ⟨rfl, happlied⟩ := hpost r w' hr
  exact ⟨hidle, ⟨_, hchain⟩, w', hr, happlied⟩

/-- The chain is created and the command that would mark it fails: the next call refuses the
chain, although no command of it fails. -/
theorem abuse_stuck : ∃ c,
    Run (abuseServer .iptables) (fun _ _ => True) anyStep ⟨{}, none⟩ c ∧ c.run = none ∧
    ∃ w', Prog.Runs host NoFailure self (applyAbuseFamily .iptables blockMining) c.mem
      (.error "refusing to modify an existing unowned firewall chain") w' := by
  refine exists_run_imp (p := fun c => c.run = none ∧
    (Prog.alone host NoFailure self
      (applyAbuseFamily .iptables blockMining) c.mem [{}]).map Prod.fst =
      some (.error "refusing to modify an existing unowned firewall chain"))
    [.call blockMining, .act {}, .act {}, .act { fail := some "lock" }, .done] (by decide +kernel)
    fun c _ ⟨hidle, halone⟩ => ⟨hidle, ?_⟩
  obtain ⟨⟨r, w'⟩, hrun', rfl⟩ := Option.map_eq_some_iff.mp halone
  exact ⟨w', Prog.runs_of_alone [{}] hrun'⟩

end RunmanAgent.HostPolicy
