import RunmanAgent.ConnLimit.Manager

/-!
# What the connection-limit manager does, step by step

`Duty` says under which circumstances the manager takes an action: how it changes the list
of policies (`Move`), that it saves the list in memory, which commands it runs
(`CmdDuty`), and when it refuses a policy. `manager_orderly` shows that all calls keep to
it. What holds of every history is derived from that, action by action.

Some of it depends on what may fail. `Assumed` names the assumptions, and `orderly` is the
discipline for the runs that meet them.
-/

namespace RunmanAgent.ConnLimit

open Concurrency Proc Server Iptables

theorem fw_check (w : World) (i : Input) (tool : Tool) (rule : Rule) :
    (w.apply i (.fw tool (.check rule))).fw = w.fw :=
  Function.update_eq_self_iff.mpr after_check

theorem copies_delete_le (w : World) (i : Input) (tool tool' : Tool) (rule r : Rule) :
    copies ((w.apply i (.fw tool (.delete rule))).fw tool') r ≤ copies (w.fw tool') r :=
  copies_update_le fun _ => ⟨nofun, nofun⟩

/-! ## Duties -/

/-- What may be assumed about a run. -/
structure Assumed where
  /-- The check for a rule fails only if the rule is not installed. -/
  truthful : Prop
  /-- The save with which `apply` records a new policy does not fail. -/
  recorded : Prop
  /-- No save and no deletion of a rule fails. -/
  clean : Prop
  /-- `apply` is called. -/
  applies : Prop := True

/-- The policy of a call for an id that was not stored is marked for removal. -/
def Marks (a : Option Pending) (policies : List Policy) : Prop :=
  ∀ x, a = some x → x.known = false → ∀ p ∈ policies, p.id = x.id → p.removeOnly = true

/-- The rule that an action checks for. -/
def Act.checks : Act → Option (Tool × Rule)
  | .fw tool (.check rule) => some (tool, rule)
  | _ => none

/-- The list that an action saves. -/
def Act.saves : Act → Option (List Policy)
  | .save policies => some policies
  | _ => none

/-- The action deletes a rule. -/
def Act.deletes : Act → Bool
  | .fw _ (.delete _) => true
  | _ => false

/-- When an action may fail. -/
structure Assumed.MayFail (A : Assumed) (w : World) (e : Act) : Prop where
  truthful : A.truthful → ∀ x ∈ e.checks, copies (w.fw x.1) x.2 = 0
  recorded : A.recorded → ∀ policies ∈ e.saves, Marks w.applying policies
  clean : A.clean → e.saves = none ∧ e.deletes = false

variable (cfg : Config)

/-- No rule of the policy is installed. -/
def Gone (policy : Policy) (w : World) : Prop :=
  ∀ tool, ∀ rule ∈ policy.rules cfg tool, copies (w.fw tool) rule = 0

/-- A policy as it is kept: what it limits, how and for how long does not change, and a mark
for removal stays. -/
structure Policy.Same (p p' : Policy) : Prop where
  id : p'.id = p.id
  vmId : p'.vmId = p.vmId
  instanceId : p'.instanceId = p.instanceId
  maxConnections : p'.maxConnections = p.maxConnections
  expiresAt : p'.expiresAt = p.expiresAt
  removeOnly : p.removeOnly = true → p'.removeOnly = true

/-- How the list of policies changes. -/
inductive Move (truthful : Prop) (w : World) : List Policy → Prop where
  | enter (p : Policy) (hid : ∀ q ∈ w.mem, q.id ≠ p.id)
      (hsingle : ∀ q ∈ w.mem, q.vmId = p.vmId → q.instanceId = p.instanceId → q.expiresAt ≤ w.clock)
      (happlying : w.applying = some ⟨p.id, false⟩) (hvalid : validPolicyId p.id = true) :
      Move truthful w (w.mem ++ [p])
  | replace {before after : List Policy} {p : Policy} (p' : Policy)
      (hmem : w.mem = before ++ p :: after) (hsame : p.Same p')
      (hrules : p'.ips = p.ips ∨ (truthful → Gone cfg p w)) :
      Move truthful w (before ++ p' :: after)
  | drop {before after : List Policy} {p : Policy} (hmem : w.mem = before ++ p :: after)
      (hrules : truthful → Gone cfg p w) : Move truthful w (before ++ after)

/-- The commands that are run when memory holds `mem`; `applying` is the call of `apply`. -/
def CmdDuty (mem : List Policy) (applying : Option Pending) (tried : Bool) (tool : Tool) :
    Cmd → Prop
  | .insert rule => tried = true ∧ ∃ p ∈ mem, rule ∈ p.rules cfg tool ∧
      (p.removeOnly = false ∨ ∃ known, applying = some ⟨p.id, known⟩)
  | .append rule => rule = markerRule
  | .delete rule => rule ≠ markerRule
  | .flush | .deleteJump | .deleteChain => mem = []
  | _ => True

/-- When an action is taken. -/
def Duty (A : Assumed) : Act → World → Prop
  | .setState policies, w => Move cfg A.truthful w policies
  | .save policies, w => policies = w.mem
  | .fw tool cmd, w => CmdDuty cfg w.mem w.applying w.tried tool cmd
  | .start _, w => A.applies ∧ w.applying = none
  | .answer ok, w => ok = false → A.recorded → Marks w.applying w.mem
  | _, _ => True

/-- The ids of the stored policies are distinct, in memory and in the file. -/
structure DistinctIds (w : World) : Prop where
  mem : (w.mem.map (·.id)).Nodup
  disk : ∀ policies, w.disk = some policies → (policies.map (·.id)).Nodup

variable {cfg} {A : Assumed}

variable {w : World}

theorem Move.nodup {truthful : Prop} {policies : List Policy} (h : Move cfg truthful w policies)
    (hw : (w.mem.map (·.id)).Nodup) : (policies.map (·.id)).Nodup := by
  cases h with
  | enter p hid =>
    rw [List.map_append, List.map_singleton]
    refine List.nodup_append.mpr ⟨hw, List.nodup_singleton _, ?_⟩
    rintro a ha b hb
    obtain ⟨q, hq, rfl⟩ := List.mem_map.mp ha
    rw [List.mem_singleton.mp hb]
    exact hid q hq
  | replace p' hmem hsame =>
    rw [hmem] at hw
    simpa [hsame.id] using hw
  | drop hmem =>
    rw [hmem] at hw
    refine hw.sublist (List.Sublist.map _ ?_)
    exact List.Sublist.append_left (List.sublist_cons_self _ _) _

theorem Move.origin {truthful : Prop} {policies : List Policy} (h : Move cfg truthful w policies)
    {p' : Policy} (hp' : p' ∈ policies) :
    (∃ p ∈ w.mem, p.Same p') ∨
      ((∀ q ∈ w.mem, q.id ≠ p'.id) ∧ w.applying = some ⟨p'.id, false⟩ ∧
        validPolicyId p'.id = true) := by
  have hold : p' ∈ w.mem → ∃ p ∈ w.mem, p.Same p' := fun h => ⟨p', h, rfl, rfl, rfl, rfl, rfl, id⟩
  cases h with
  | enter p hid _ happlying hvalid =>
    rcases List.mem_append.mp hp' with hp' | hp'
    · exact .inl (hold hp')
    · cases List.mem_singleton.mp hp'
      exact .inr ⟨hid, happlying, hvalid⟩
  | @replace before after p q hmem hsame =>
    refine .inl ?_
    rcases List.mem_append.mp hp' with hp' | hp'
    · exact hold (hmem ▸ by simp [hp'])
    · rcases List.mem_cons.mp hp' with rfl | hp'
      · exact ⟨p, hmem ▸ by simp, hsame⟩
      · exact hold (hmem ▸ by simp [hp'])
  | @drop before after p hmem =>
    refine .inl (hold (hmem ▸ ?_))
    rcases List.mem_append.mp hp' with hp' | hp' <;> simp [hp']

theorem DistinctIds.apply {e : Act} {i : Input} (hw : DistinctIds w) (h : Duty cfg A e w) :
    DistinctIds (w.apply i e) := by
  cases e with
  | setState policies => exact ⟨h.nodup hw.mem, hw.disk⟩
  | save policies =>
    cases h
    refine ⟨hw.mem, fun policies hdisk => ?_⟩
    simp only [World.apply] at hdisk
    split at hdisk
    · exact hw.disk policies hdisk
    · cases hdisk
      exact hw.mem
  | _ => exact ⟨hw.mem, hw.disk⟩

/-- The runs that are considered meet the assumptions. -/
class Meets (A : Assumed) (ok : Pid → Act → World → Input → Prop) : Prop where
  may {p e w i} : ok p e w i → i.fail.isSome = true → A.MayFail w e

variable (cfg A) in
/-- The discipline of the manager, for the steps that satisfy `ok`. -/
def orderly (ok : Pid → Act → World → Input → Prop) : Discipline host :=
  (manager cfg).discipline DistinctIds (Duty cfg A) ok (fun hw hd _ => hw.apply hd)
    (fun he _ _ => he.elim)

/-! ## Commands -/

section Calls

variable {ok : Pid → Act → World → Input → Prop} {mem : List Policy} {a : Option Pending}
  {tried : Bool}

instance orderly_stable {P : World → Prop} : Stable (orderly cfg A ok) self P :=
  stable_of_others fun he _ _ _ => he.elim

variable (cfg A ok) in
/-- Hoare triples of the manager. -/
abbrev Keeps {α : Type} (P : World → Prop) (p : Prog World Input Act α) (Q : α → World → Prop) :
    Prop :=
  Serves (orderly cfg A ok) P p Q

/-- What the manager knows while it runs commands. -/
structure At (mem : List Policy) (a : Option Pending) (tried : Bool) (w : World) : Prop where
  mem : w.mem = mem
  applying : w.applying = a
  tried : w.tried = tried

variable (cfg) in
/-- Readings and the commands for `mem`, and nothing else. -/
def Quiet (mem : List Policy) (a : Option Pending) (tried : Bool) : Act → Prop
  | .peek | .now _ | .resolve _ => True
  | .fw tool cmd => CmdDuty cfg mem a tried tool cmd
  | _ => False

variable {w : World} {tool : Tool} {policy : Policy} {id : String}

theorem Quiet.at {i : Input} {e : Act} (he : Quiet cfg mem a tried e) (hw : At mem a tried w) :
    Duty cfg A e w ∧ At mem a tried (w.apply i e) := by
  obtain ⟨hmem, happ, htried⟩ := hw
  cases e with
  | peek | now | resolve => exact ⟨trivial, hmem, happ, htried⟩
  | fw tool cmd =>
    refine ⟨?_, hmem, happ, htried⟩
    show CmdDuty cfg w.mem w.applying w.tried tool cmd
    rwa [hmem, happ, htried]
  | _ => exact he.elim

theorem keeps_quiet {α : Type} {p : Prog World Input Act α}
    (hp : p.Uses (Quiet cfg mem a tried)) :
    Keeps cfg A ok (At mem a tried) p (fun _ => At mem a tried) := by
  refine .of_uses (hp.mono fun e he w i _ hw _ _ => ?_)
  obtain ⟨hduty, hat⟩ := he.at hw
  exact ⟨may_self.mpr hduty, hat⟩

theorem command_quiet {cmd : Cmd} (h : CmdDuty cfg mem a tried tool cmd) :
    (command tool cmd).Uses (Quiet cfg mem a tried) :=
  .perform h

theorem ensureChain_quiet : ensureChain.Uses (Quiet cfg mem a tried) := by
  refine uses_forEach fun tool => uses_bind ?_ fun _ => ?_
  · refine uses_bind (uses_attempt (.perform trivial)) fun r => ?_
    cases r with
    | error _ =>
      refine uses_bind (uses_mapErr (command_quiet trivial)) fun _ => ?_
      exact command_quiet rfl
    | ok chain =>
      dsimp only
      split <;> trivial
  · refine uses_bind (uses_attempt (command_quiet trivial)) fun r => ?_
    cases r with
    | error _ => exact command_quiet trivial
    | ok _ => trivial

theorem installRules_quiet (hmem : policy ∈ mem) (htried : tried = true)
    (hactive : policy.removeOnly = false ∨ ∃ known, a = some ⟨policy.id, known⟩) :
    (installRules cfg policy).Uses (Quiet cfg mem a tried) := by
  -- the loop is over the addresses of the policy, so its rules are rules of the policy
  have hloop : ∀ raws, (∀ raw ∈ raws, raw ∈ policy.ips) →
      (Proc.forEach (installAt cfg policy) raws).Uses (Quiet cfg mem a tried) := by
    intro raws hraws
    induction raws with
    | nil => trivial
    | cons raw raws ih =>
      refine uses_bind ?_ fun _ => ih fun r hr => hraws r (.tail _ hr)
      unfold installAt
      cases hparse : IpAddr.parse raw with
      | none => trivial
      | some ip =>
        refine uses_forEach fun incoming => ?_
        refine uses_bind (uses_attempt (command_quiet trivial)) fun r => ?_
        cases r with
        | ok _ => trivial
        | error _ =>
          refine command_quiet ⟨htried, policy, hmem, mem_rules.mpr ⟨raw, ?_, ?_⟩, hactive⟩
          · exact hraws raw (.head _)
          · exact mem_rulesAt.mpr ⟨ip, hparse, rfl, incoming, rfl⟩
  exact uses_bind ensureChain_quiet fun _ => hloop _ fun _ h => h

theorem cleanup_quiet : (cleanupChainIfEmpty mem).Uses (Quiet cfg mem a tried) := by
  unfold cleanupChainIfEmpty
  split
  · trivial
  · rename_i hempty
    have hempty : mem = [] := by simpa using hempty
    refine uses_forEach fun tool => ?_
    refine uses_bind (uses_attempt (.perform trivial)) fun r => ?_
    cases r with
    | error _ => trivial
    | ok chain =>
      dsimp only
      split
      · trivial
      · refine uses_bind (uses_whileOk (command_quiet trivial) (command_quiet hempty))
          fun _ => uses_bind (command_quiet hempty) fun _ => command_quiet hempty

theorem removeRule_quiet {rule : Rule} (h : rule ≠ markerRule) :
    (removeRule tool rule).Uses (Quiet cfg mem a tried) :=
  uses_bind (.perform trivial) fun _ =>
    uses_whileOk (command_quiet trivial) (command_quiet h)

/-- None of the rules in `S` is installed. -/
def Clear (S : Tool → Rule → Prop) (w : World) : Prop :=
  ∀ tool rule, S tool rule → copies (w.fw tool) rule = 0

theorem Clear.mono {S : Tool → Rule → Prop} {w' : World} (h : Clear S w)
    (hle : ∀ tool rule, copies (w'.fw tool) rule ≤ copies (w.fw tool) rule) : Clear S w' :=
  fun tool rule hs => Nat.le_zero.mp ((hle tool rule).trans (h tool rule hs).le)

variable [Meets A ok]

theorem may_fail {e : Act} {w : World} {i : Input} (hi : (orderly cfg A ok).ok self e w i)
    (hf : i.fail.isSome = true) : A.MayFail w e :=
  Meets.may (show ok self e w i from hi) hf

/-- The loop that deletes the copies of a rule ends when none is left, if checks can be
trusted; `S` is what has been removed before. -/
theorem keeps_removeRule (ht : A.truthful) {S : Tool → Rule → Prop} {rule : Rule}
    (hrule : rule ≠ markerRule) :
    Keeps cfg A ok (fun w => At mem a tried w ∧ Clear S w) (removeRule tool rule)
      (ends (fun _ w => At mem a tried w ∧ Clear (fun t r => S t r ∨ (t = tool ∧ r = rule)) w)
        (fun _ w => At mem a tried w ∧ ¬A.clean)) := by
  refine .step (R := fun n w => (At mem a tried w ∧ Clear S w) ∧
    copies (w.fw tool) rule = n) ?_ fun n => ?_
  · exact .perform fun w i _ hw _ _ => ⟨may_self.mpr trivial, hw, rfl⟩
  refine .post (Triple.whileOk (P := fun n (w : World) => (At mem a tried w ∧ Clear S w) ∧
      copies (w.fw tool) rule = n) (B := fun n w => ((At mem a tried w ∧ Clear S w) ∧
      copies (w.fw tool) rule = n) ∧ 0 < n) (Q := fun w => (At mem a tried w ∧ Clear S w) ∧
      copies (w.fw tool) rule = 0) (E := fun _ w => At mem a tried w ∧ ¬A.clean) (fun n => ?_)
    (fun n => ?_) fun w _ h => absurd h.2 (lt_irrefl 0)) ?_
  · refine .perform fun w i _ hw _ hi => ?_
    obtain ⟨⟨hat, hclear⟩, hn⟩ := hw
    have hkept : (At mem a tried (w.apply i (.fw tool (.check rule))) ∧
        Clear S (w.apply i (.fw tool (.check rule)))) ∧
        copies ((w.apply i (.fw tool (.check rule))).fw tool) rule = n := by
      rw [Clear, fw_check]
      exact ⟨⟨⟨hat.mem, hat.applying, hat.tried⟩, hclear⟩, hn⟩
    refine ⟨may_self.mpr trivial, ?_⟩
    show ends _ _ _ (w.apply i (.fw tool (.check rule)))
    cases hs : Iptables.succeeds i.fail.isSome (.check rule) (w.fw tool) with
    | true => exact ⟨hkept, hn ▸ (copies_of_check (exec_of_succeeds hs)).2⟩
    | false =>
      -- the check has failed, and it tells the truth
      have hzero : copies (w.fw tool) rule = 0 := by
        cases hf : i.fail.isSome with
        | true => exact (may_fail hi hf).truthful ht _ rfl
        | false =>
          rw [hf] at hs
          exact copies_of_check_none (by simpa [Iptables.succeeds] using hs)
      exact ⟨hkept.1, hkept.2.trans (hn.symm.trans hzero)⟩
  · refine .perform fun w i _ hw _ hi => ?_
    obtain ⟨⟨⟨hat, hclear⟩, hn⟩, -⟩ := hw
    have hat' : At mem a tried (w.apply i (.fw tool (.delete rule))) :=
      ⟨hat.mem, hat.applying, hat.tried⟩
    refine ⟨may_self.mpr hrule, ?_⟩
    show ends _ _ _ (w.apply i (.fw tool (.delete rule)))
    cases hs : Iptables.succeeds i.fail.isSome (.delete rule) (w.fw tool) with
    | true =>
      refine ⟨⟨hat', hclear.mono fun t r => copies_delete_le w i tool t rule r⟩, ?_⟩
      have hcopies := (copies_of_delete (exec_of_succeeds hs)).1
      show copies (Function.update w.fw tool _ tool) rule = n
      rw [Function.update_self]
      omega
    | false =>
      refine ⟨hat', ?_⟩
      cases hf : i.fail.isSome with
      | true => exact fun hc => Bool.noConfusion ((may_fail hi hf).clean hc).2
      | false =>
        -- the rule is installed, so its deletion cannot fail by itself
        exfalso
        rw [hf] at hs
        have hnone : Iptables.exec (.delete rule) (w.fw tool) = none := by
          simpa [Iptables.succeeds] using hs
        cases hc : w.fw tool with
        | none => rw [hc] at hn; cases hn
        | some c =>
          have hmem : rule ∈ c.rules := copies_pos.mp (by rw [← hc, hn]; omega)
          rw [hc] at hnone
          simp [Iptables.exec, hmem] at hnone
  · rintro (e | _) w - h
    · exact h
    · obtain ⟨⟨hat, hclear⟩, hzero⟩ := h
      refine ⟨hat, fun t r hr => ?_⟩
      rcases hr with hr | ⟨rfl, rfl⟩
      · exact hclear t r hr
      · exact hzero

omit [Meets A ok] in
theorem keeps_removeEach {α : Type} {f : α → HostProc Unit} {R : α → Tool → Rule → Prop}
    (h : ∀ x S, Keeps cfg A ok (fun w => At mem a tried w ∧ Clear S w) (f x)
      (ends (fun _ w => At mem a tried w ∧ Clear (fun t r => S t r ∨ R x t r) w)
        (fun _ w => At mem a tried w ∧ ¬A.clean))) (xs : List α) (S : Tool → Rule → Prop) :
    Keeps cfg A ok (fun w => At mem a tried w ∧ Clear S w) (Proc.forEach f xs)
      (ends (fun _ w => At mem a tried w ∧ Clear (fun t r => S t r ∨ ∃ x ∈ xs, R x t r) w)
        (fun _ w => At mem a tried w ∧ ¬A.clean)) := by
  induction xs generalizing S with
  | nil =>
    refine .ret fun w _ hw => ⟨hw.1, fun t r hr => ?_⟩
    rcases hr with hr | ⟨x, hx, -⟩
    · exact hw.2 t r hr
    · cases hx
  | cons x xs ih =>
    refine .procBind (h x S) fun _ => ?_
    refine .post (ih fun t r => S t r ∨ R x t r) ?_
    rintro (e | _) w - hw
    · exact hw
    · refine ⟨hw.1, fun t r hr => hw.2 t r ?_⟩
      rcases hr with hr | ⟨y, hy, hr⟩
      · exact .inl (.inl hr)
      · rcases hy with _ | ⟨_, hy⟩
        · exact .inl (.inr hr)
        · exact .inr ⟨y, hy, hr⟩

theorem removeRules_quiet (policy : Policy) :
    (removeRules cfg policy).Uses (Quiet cfg mem a tried) := by
  refine uses_forEach fun raw => ?_
  unfold removeAt
  split
  · trivial
  · exact uses_forEach fun incoming => removeRule_quiet ruleArgs_ne_marker

theorem keeps_removeRules (policy : Policy) :
    Keeps cfg A ok (At mem a tried) (removeRules cfg policy)
      (ends (fun _ w => At mem a tried w ∧ (A.truthful → Gone cfg policy w))
        (fun _ w => At mem a tried w ∧ (A.truthful → ¬A.clean))) := by
  by_cases ht : A.truthful
  · have hat : ∀ raw S, Keeps cfg A ok (fun w => At mem a tried w ∧ Clear S w)
        (removeAt cfg policy raw)
        (ends (fun _ w => At mem a tried w ∧
          Clear (fun t r => S t r ∨ r ∈ rulesAt cfg policy t raw) w)
          (fun _ w => At mem a tried w ∧ ¬A.clean)) := by
      intro raw S
      unfold removeAt
      cases hparse : IpAddr.parse raw with
      | none => exact .ret fun w _ hw => by simpa [rulesAt, hparse] using hw
      | some ip =>
        refine .post (keeps_removeEach (R := fun incoming t r => t = toolOf ip ∧
          r = ruleArgs cfg policy ip incoming)
          (fun incoming S => keeps_removeRule ht ruleArgs_ne_marker) [false, true] S) ?_
        rintro (e | _) w - hw
        · exact hw
        · refine ⟨hw.1, fun t r hr => hw.2 t r (hr.imp_right fun hr => ?_)⟩
          obtain ⟨ip', hip', htool, incoming, hrule⟩ := mem_rulesAt.mp hr
          cases Option.some.inj (hparse.symm.trans hip')
          exact ⟨incoming, by cases incoming <;> simp, htool.symm, hrule⟩
    refine .pre (Triple.post (keeps_removeEach (R := fun raw t r =>
      r ∈ rulesAt cfg policy t raw) hat policy.ips fun _ _ => False) ?_) ?_
    · rintro (e | _) w - hw
      · exact ⟨hw.1, fun _ => hw.2⟩
      · exact ⟨hw.1, fun _ tool rule hrule => hw.2 tool rule (.inr (mem_rules.mp hrule))⟩
    · exact fun w hw => ⟨hw, fun _ _ h => h.elim⟩
  · refine .post (keeps_quiet (removeRules_quiet policy)) ?_
    rintro (e | _) w - hw
    · exact ⟨hw, fun h => absurd h ht⟩
    · exact ⟨hw, fun h => absurd h ht⟩

/-! ## The list of policies -/

omit [Meets A ok] in
theorem keeps_setState {P : World → Prop} {mem' : List Policy}
    (h : ∀ w, P w → Move cfg A.truthful w mem' ∧ w.applying = a) :
    Keeps cfg A ok P (setState mem') (ends (fun _ => At mem' a false) (fun _ _ => False)) :=
  .perform fun w _ _ hw _ _ => ⟨may_self.mpr (h w hw).1, rfl, (h w hw).2, rfl⟩

theorem keeps_save :
    Keeps cfg A ok (At mem a tried) (save mem)
      (ends (fun _ => At mem a true)
        (fun _ w => At mem a true w ∧ ¬A.clean ∧ (A.recorded → Marks a mem))) := by
  refine .perform fun w i _ hw _ hi => ?_
  have hat : At mem a true (w.apply i (.save mem)) := ⟨hw.mem, hw.applying, rfl⟩
  refine ⟨may_self.mpr hw.mem.symm, ?_⟩
  show ends _ _ _ (w.apply i (.save mem))
  cases hf : i.fail with
  | none => exact hat
  | some e =>
    have hmay := may_fail hi (by rw [hf]; rfl)
    refine ⟨hat, fun hc => ?_, fun hr => hw.applying ▸ hmay.recorded hr mem rfl⟩
    cases (hmay.clean hc).1

theorem updateFirst_eq {q : Policy} (f : Policy → Policy) (hq : q ∈ mem) (hid : q.id = id)
    (hnd : (mem.map (·.id)).Nodup) :
    ∃ before after, mem = before ++ q :: after ∧ updateFirst id f mem = before ++ f q :: after ∧
      ∀ p ∈ before ++ after, p.id ≠ id := by
  induction mem with
  | nil => cases hq
  | cons p ps ih =>
    rw [List.map_cons, List.nodup_cons] at hnd
    by_cases hp : p.id = id
    · -- the ids are distinct, so this is the policy
      have heq : q = p := by
        rcases List.mem_cons.mp hq with h | h
        · exact h
        · exact absurd (List.mem_map.mpr ⟨q, h, hid.trans hp.symm⟩) hnd.1
      subst heq
      refine ⟨[], ps, rfl, by simp [updateFirst, hp], fun r hr hrid => ?_⟩
      exact hnd.1 (List.mem_map.mpr ⟨r, hr, hrid.trans hp.symm⟩)
    · have hq' : q ∈ ps := by
        rcases hq with _ | ⟨_, h⟩
        · exact absurd hid hp
        · exact h
      obtain ⟨before, after, hps, hupd, hne⟩ := ih hq' hnd.2
      refine ⟨p :: before, after, by rw [hps]; rfl, by simp [updateFirst, hp, hupd], ?_⟩
      intro r hr
      rcases hr with _ | ⟨_, hr⟩
      · exact hp
      · exact hne r hr

omit [Meets A ok] in
theorem keeps_lock : Keeps cfg A ok (At mem a tried) lock
    (ends (fun policies w => At mem a tried w ∧ policies = mem ∧ (mem.map (·.id)).Nodup)
      (fun _ _ => False)) :=
  .perform fun _ _ hinv hw _ _ =>
    ⟨may_self.mpr trivial, ⟨hw.mem, hw.applying, hw.tried⟩, hw.mem, hw.mem ▸ hinv.mem⟩

omit [Meets A ok] in
theorem keeps_now {t : Int} (policy : Policy) :
    Keeps cfg A ok (fun w => At mem a tried w ∧ t ≤ w.clock) (now policy)
      (ends (fun r w => At mem a tried w ∧ t ≤ w.clock ∧ r ≤ w.clock) (fun _ _ => False)) :=
  .perform fun _ _ _ hw _ _ => ⟨may_self.mpr trivial, ⟨hw.1.mem, hw.1.applying, hw.1.tried⟩,
      hw.2.trans (le_max_left _ _), le_max_right _ _⟩

/-- How a call ends: a save has been tried, and a new policy that is refused is marked. -/
def Settled (A : Assumed) (a : Option Pending) : Except String Unit → World → Prop :=
  ends (fun _ w => ∃ m, At m a true w) (fun _ w => ∃ m, At m a true w ∧ (A.recorded → Marks a m))

theorem marks_known : Marks (some ⟨id, true⟩) mem := by
  rintro x hx hknown
  cases hx
  cases hknown

theorem marks_none : Marks none mem := by
  rintro x ⟨⟩

theorem marks_unstored {known : Bool} (h : known = false → ∀ p ∈ mem, p.id ≠ id) :
    Marks (some ⟨id, known⟩) mem := by
  rintro x hx hknown p hp hid
  cases hx
  exact absurd hid (h hknown p hp)

/-! ## `apply` -/

theorem keeps_installOrMark {text : String} {known : Bool} (hp : policy ∈ mem)
    (hnd : (mem.map (·.id)).Nodup) (ha : a = some ⟨policy.id, known⟩) :
    Keeps cfg A ok (At mem a true) (installOrMark cfg text mem policy) (Settled A a) := by
  refine .attemptBind (keeps_quiet (installRules_quiet hp rfl (.inr ⟨known, ha⟩))) fun r => ?_
  cases r with
  | ok _ => exact .ret fun w _ hw => ⟨mem, hw⟩
  | error e =>
    obtain ⟨before, after, hmem, hupd, hne⟩ := updateFirst_eq Policy.marked hp rfl hnd
    have hmarks : Marks a (updateFirst policy.id Policy.marked mem) := by
      intro x hx _ p hmem' hid
      cases ha.symm.trans hx
      rw [hupd] at hmem'
      rcases List.mem_append.mp hmem' with h | h
      · exact absurd hid (hne p (by simp [h]))
      · rcases List.mem_cons.mp h with rfl | h
        · rfl
        · exact absurd hid (hne p (by simp [h]))
    refine .step (keeps_setState (a := a) fun w hw => ⟨?_, hw.applying⟩) fun _ => ?_
    · rw [hupd]
      exact .replace _ (hw.mem.trans hmem) ⟨rfl, rfl, rfl, rfl, rfl, fun _ => rfl⟩ (.inl rfl)
    · refine .chain keeps_save (fun _ w _ hw => ⟨_, hw.1, fun _ => hmarks⟩) fun _ => ?_
      exact .ret fun w _ hw => ⟨_, hw, fun _ => hmarks⟩

theorem keeps_applyAgain {old : Policy} (hold : old ∈ mem)
    (hid : old.id = policy.id) (hnd : (mem.map (·.id)).Nodup) (ha : a = some ⟨policy.id, true⟩) :
    Keeps cfg A ok (At mem a true) (applyAgain cfg mem old policy) (Settled A a) := by
  have hmarks : ∀ m, Marks a m := fun m => ha ▸ marks_known
  have hfail : ∀ e : String, Keeps cfg A ok (At mem a true) (Proc.fail e : HostProc Unit)
      (Settled A a) := fun e =>
    .ret fun w _ hw => ⟨mem, hw, fun _ => hmarks mem⟩
  unfold applyAgain
  split
  · exact hfail _
  split
  · exact hfail _
  rename_i hactive
  have hactive : old.removeOnly = false := by simpa using hactive
  refine .seq (keeps_quiet (.perform trivial)) (fun _ w _ hw => ?_) fun t => ?_
  · exact ⟨mem, hw, fun _ => hmarks mem⟩
  split
  · exact hfail _
  split
  · obtain ⟨before, after, hmem, hupd, -⟩ :=
      updateFirst_eq (Policy.withIps policy.ips) hold hid hnd
    have hnd' : ((updateFirst policy.id (Policy.withIps policy.ips) mem).map (·.id)).Nodup := by
      rw [hmem] at hnd
      rw [hupd]
      simpa [Policy.withIps] using hnd
    refine .chain (keeps_removeRules old) (fun _ w _ hw => ⟨_, hw.1, fun _ => hmarks _⟩) fun _ => ?_
    refine .step (keeps_setState (a := a) fun w hw => ⟨?_, hw.1.applying⟩) fun _ => ?_
    · rw [hupd]
      exact .replace _ (hw.1.mem.trans hmem) ⟨rfl, rfl, rfl, rfl, rfl, id⟩ (.inr hw.2)
    refine .chain keeps_save (fun _ w _ hw => ⟨_, hw.1, fun _ => hmarks _⟩) fun _ => ?_
    have hcall : a = some ⟨(old.withIps policy.ips).id, true⟩ := by
      rw [ha, ← hid]
      rfl
    refine keeps_installOrMark ?_ hnd' hcall
    rw [hupd]
    simp
  · refine .post (keeps_quiet (installRules_quiet hold rfl (.inl hactive))) ?_
    rintro (e | _) w - hw
    · exact ⟨mem, hw, fun _ => hmarks mem⟩
    · exact ⟨mem, hw⟩

omit [Meets A ok] in
theorem keeps_anyUnexpired {t : Int} (policy : Policy) (rest : List Policy) :
    Keeps cfg A ok (fun w => At mem a tried w ∧ t ≤ w.clock) (anyUnexpired policy rest)
      (ends (fun found w => (At mem a tried w ∧ t ≤ w.clock) ∧ (found = false → ∀ q ∈ rest,
        q.vmId = policy.vmId → q.instanceId = policy.instanceId → q.expiresAt ≤ w.clock))
        (fun _ _ => False)) := by
  induction rest generalizing t with
  | nil => exact .ret fun w _ hw => ⟨hw, nofun⟩
  | cons old rest ih =>
    rw [anyUnexpired]
    split
    · refine .step (keeps_now old) fun r => ?_
      split
      · exact .ret fun w _ hw => ⟨⟨hw.1, hw.2.1⟩, nofun⟩
      · rename_i hr
        -- what is known of the clock so far, and that `old` has expired
        refine .pre (Triple.post (ih (t := max t old.expiresAt)) ?_) fun w hw =>
          ⟨hw.1, max_le hw.2.1 (by omega)⟩
        rintro (e | found) w - hw
        · exact hw
        · obtain ⟨⟨hat, hclock⟩, hrest⟩ := hw
          refine ⟨⟨hat, (le_max_left _ _).trans hclock⟩, fun hf q hq hvm hinst => ?_⟩
          rcases hq with _ | ⟨_, hq⟩
          · exact (le_max_right _ _).trans hclock
          · exact hrest hf q hq hvm hinst
    · rename_i hother
      refine .post ih ?_
      rintro (e | found) w - hw
      · exact hw
      · refine ⟨hw.1, fun hf q hq hvm hinst => ?_⟩
        rcases hq with _ | ⟨_, hq⟩
        · exact absurd ⟨hvm, hinst⟩ hother
        · exact hw.2 hf q hq hvm hinst

theorem keeps_applyNew (hvalid : validPolicyId policy.id = true)
    (hnew : ∀ q ∈ mem, q.id ≠ policy.id) (hnd : (mem.map (·.id)).Nodup)
    (ha : a = some ⟨policy.id, false⟩) :
    Keeps cfg A ok (At mem a true) (applyNew cfg mem policy) (Settled A a) := by
  intro w hw
  refine Triple.step (keeps_anyUnexpired (t := w.clock) policy mem) (fun found => ?_) w
    ⟨hw, le_refl _⟩
  cases found with
  | true =>
    refine .ret fun w _ hw => ⟨mem, hw.1.1, fun _ => ?_⟩
    exact ha ▸ marks_unstored fun _ => hnew
  | false =>
    have hnd' : ((mem ++ [policy]).map (·.id)).Nodup := by
      rw [List.map_append, List.map_singleton]
      refine List.nodup_append.mpr ⟨hnd, List.nodup_singleton _, ?_⟩
      rintro x hx y hy
      obtain ⟨q, hq, rfl⟩ := List.mem_map.mp hx
      rw [List.mem_singleton.mp hy]
      exact hnew q hq
    refine .step (keeps_setState (a := a) fun w hw => ⟨?_, hw.1.1.applying⟩) fun _ => ?_
    · obtain ⟨⟨⟨rfl, happ, -⟩, -⟩, hsingle⟩ := hw
      exact .enter policy hnew (hsingle rfl) (happ.trans ha) hvalid
    refine .chain keeps_save (fun _ w _ hw => ⟨_, hw.1, hw.2.2⟩) fun _ => ?_
    exact keeps_installOrMark (by simp) hnd' ha

theorem validatePolicy_returns (policy : Policy) :
    Proc.Returns (fun _ => validPolicyId policy.id = true) (validatePolicy cfg policy) := by
  unfold validatePolicy
  cases hcheck : checkPolicy cfg policy with
  | error e => exact nofun
  | ok _ =>
    refine returns_bind fun _ => returns_bind fun _ => ?_
    exact fun _ _ => checkPolicy_id hcheck

theorem keeps_apply (policy : Policy) (target : Target)
    (ha : a = some ⟨policy.id, mem.any fun p => p.id == policy.id⟩) :
    Keeps cfg A ok (At mem a true) (apply cfg policy target) (Settled A a) := by
  have hmarks : Marks a mem := by
    rw [ha]
    refine marks_unstored fun hknown p hp hid => ?_
    simpa [hid] using List.any_eq_false.mp hknown p hp
  have hfail : ∀ (e : String) w, At mem a true w → Settled A a (.error e) w :=
    fun _ w hw => ⟨mem, hw, fun _ => hmarks⟩
  have hret : ∀ e : String, Keeps cfg A ok (At mem a true) (Proc.fail e : HostProc Unit)
      (Settled A a) := fun e => .ret fun w _ hw => hfail e w hw
  have huses : (validatePolicy cfg policy).Uses (Quiet cfg mem a true) :=
    uses_bind trivial fun _ => uses_bind (.perform trivial) fun _ => trivial
  refine .seqReturns (keeps_quiet huses) (validatePolicy_returns policy)
    (fun e w _ hw => hfail e w hw) fun _ hvalid => ?_
  split
  · exact hret _
  split
  · exact hret _
  split
  · exact hret _
  rename_i ips _
  split
  · exact hret _
  refine .step keeps_lock fun policies => ?_
  refine .given fun ⟨hpolicies, hnd⟩ => ?_
  subst hpolicies
  cases hfind : policies.find? fun old => old.id == (policy.withIps ips).id with
  | some old =>
    have hold := List.mem_of_find?_eq_some hfind
    have hbeq := List.find?_some hfind
    have hid : old.id = policy.id := eq_of_beq hbeq
    have hknown : (policies.any fun p => p.id == policy.id) = true :=
      List.any_eq_true.mpr ⟨old, hold, by simpa using hid⟩
    exact keeps_applyAgain hold hid hnd (by rw [ha, hknown]; rfl)
  | none =>
    have hnew : ∀ q ∈ policies, q.id ≠ policy.id := fun q hq hid =>
      List.find?_eq_none.mp hfind q hq (beq_iff_eq.mpr hid)
    have hknown : (policies.any fun p => p.id == policy.id) = false :=
      List.any_eq_false.mpr fun q hq => by simpa using hnew q hq
    exact keeps_applyNew hvalid hnew hnd (by rw [ha, hknown]; rfl)

/-! ## `release` -/

theorem keeps_releaseStored (hp : policy ∈ mem) (hnd : (mem.map (·.id)).Nodup) :
    Keeps cfg A ok (At mem none true) (releaseStored cfg mem policy) (Settled A none) := by
  obtain ⟨before, after, hmem, hupd, hne⟩ := updateFirst_eq Policy.marked hp rfl hnd
  have hfilter : ((updateFirst policy.id Policy.marked mem).filter fun p => p.id != policy.id) =
      before ++ after := by
    rw [hupd, List.filter_append, List.filter_cons_of_neg (by simp [Policy.marked]),
      ← List.filter_append]
    exact List.filter_eq_self.mpr fun p h => by simpa using hne p h
  unfold releaseStored
  rw [hfilter]
  refine .step (keeps_setState (a := none) fun w hw => ⟨?_, hw.applying⟩) fun _ => ?_
  · rw [hupd]
    exact .replace _ (hw.mem.trans hmem) ⟨rfl, rfl, rfl, rfl, rfl, fun _ => rfl⟩ (.inl rfl)
  refine .chain keeps_save (fun _ w _ hw => ⟨_, hw.1, fun _ => marks_none⟩) fun _ => ?_
  refine .chain (keeps_removeRules _) (fun _ w _ hw => ⟨_, hw.1, fun _ => marks_none⟩) fun _ => ?_
  refine .step (keeps_setState (a := none) fun w hw => ⟨?_, hw.1.applying⟩) fun _ => ?_
  · exact .drop (hw.1.mem.trans hupd) hw.2
  refine .chain keeps_save (fun _ w _ hw => ⟨_, hw.1, fun _ => marks_none⟩) fun _ => ?_
  refine .post (keeps_quiet cleanup_quiet) ?_
  rintro (e | _) w - hw
  · exact ⟨_, hw, fun _ => marks_none⟩
  · exact ⟨_, hw⟩

theorem keeps_release (id vmId instanceId : String) :
    Keeps cfg A ok (At mem none true) (release cfg id vmId instanceId) (Settled A none) := by
  have hfail : ∀ (e : String) w, At mem none true w → Settled A none (.error e) w :=
    fun _ w hw => ⟨mem, hw, fun _ => marks_none⟩
  refine .seq (keeps_quiet (p := Proc.lift _) trivial) (fun e w _ hw => hfail e w hw) fun _ => ?_
  refine .step keeps_lock fun policies => ?_
  refine .given fun ⟨hpolicies, hnd⟩ => ?_
  subst hpolicies
  cases hfind : policies.find? fun p => p.id == id with
  | none => exact .ret fun w _ hw => ⟨policies, hw⟩
  | some policy =>
    dsimp only
    split
    · exact .ret fun w _ hw => hfail _ w hw
    · exact keeps_releaseStored (List.mem_of_find?_eq_some hfind) hnd

/-! ## `reconcile` -/

/-- What a round leaves between `before` and `after`. -/
def Rounded (A : Assumed) (before after : List Policy) : Except String Round → World → Prop :=
  ends (fun r w => At (before ++ r.kept.toList ++ after) none true w ∧
    (A.truthful → A.clean → r.skip = false ∧ ∀ p ∈ r.kept, p.removeOnly = false))
    (fun _ _ => False)

section Round

variable {before after : List Policy} {policy : Policy}

theorem rounded_kept {w : World} {p : Policy} {failure : Option String}
    (hw : At (before ++ p :: after) none true w)
    (h : A.truthful → A.clean → p.removeOnly = false) :
    Rounded A before after (.ok { kept := some p, failure := failure }) w := by
  refine ⟨by simpa using hw, fun ht hc => ⟨rfl, fun q hq => ?_⟩⟩
  cases Option.some.inj hq
  exact h ht hc

omit [Meets A ok] in
theorem keeps_kept {p : Policy} {failure : Option String} (hactive : p.removeOnly = false) :
    Keeps cfg A ok (At (before ++ p :: after) none true)
      (.ret (.ok { kept := some p, failure := failure })) (Rounded A before after) :=
  .ret fun _ _ hw => rounded_kept hw fun _ _ => hactive

theorem keeps_dropPolicy (removing saving : String) :
    Keeps cfg A ok (At (before ++ policy :: after) none true)
      (dropPolicy cfg removing saving before after policy) (Rounded A before after) := by
  refine .attemptBind (keeps_removeRules policy) fun r => ?_
  cases r with
  | error e =>
    exact .ret fun w _ hw => rounded_kept hw.1 fun ht hc => absurd hc (hw.2 ht)
  | ok _ =>
    refine .step (keeps_setState (a := none) fun w hw => ⟨?_, hw.1.applying⟩) fun _ => ?_
    · exact .drop hw.1.mem hw.2
    refine .attemptBind keeps_save fun r => ?_
    cases r with
    | error e =>
      refine .ret fun w _ hw => ⟨by simpa using hw.1, fun _ hc => ?_⟩
      exact absurd hc hw.2.1
    | ok _ =>
      refine .ret fun w _ hw => ⟨by simpa using hw, fun _ _ => ⟨rfl, ?_⟩⟩
      exact nofun

theorem keeps_suspendPolicy (hactive : policy.removeOnly = false) :
    Keeps cfg A ok (At (before ++ policy :: after) none true)
      (suspendPolicy cfg before after policy) (Rounded A before after) := by
  refine .attemptBind (keeps_removeRules policy) fun r => ?_
  cases r with
  | error e => exact .pre (keeps_kept hactive) fun _ hw => hw.1
  | ok _ =>
    dsimp only
    split
    · exact .pre (keeps_kept hactive) fun _ hw => hw.1
    refine .step (keeps_setState (a := none) fun w hw => ⟨?_, hw.1.applying⟩) fun _ => ?_
    · exact .replace _ hw.1.mem ⟨rfl, rfl, rfl, rfl, rfl, id⟩ (.inr hw.2)
    refine .attemptBind keeps_save fun r => ?_
    cases r with
    | error e => exact .pre (keeps_kept hactive) fun _ hw => hw.1
    | ok _ => exact keeps_kept hactive

omit [Meets A ok] in
theorem keeps_reinstall (hactive : policy.removeOnly = false) :
    Keeps cfg A ok (At (before ++ policy :: after) none true) (reinstall cfg policy)
      (Rounded A before after) := by
  have hmem : policy ∈ before ++ policy :: after := by simp
  refine .attemptBind (keeps_quiet (installRules_quiet hmem rfl (.inl hactive))) fun r => ?_
  cases r <;> exact keeps_kept hactive

theorem keeps_refreshPolicy (hactive : policy.removeOnly = false)
    (ips : List String) :
    Keeps cfg A ok (At (before ++ policy :: after) none true)
      (refreshPolicy cfg before after policy ips) (Rounded A before after) := by
  unfold refreshPolicy
  split
  · refine .attemptBind (keeps_removeRules policy) fun r => ?_
    cases r with
    | error e => exact .pre (keeps_kept hactive) fun _ hw => hw.1
    | ok _ =>
      refine .step (keeps_setState (a := none) fun w hw => ⟨?_, hw.1.applying⟩) fun _ => ?_
      · exact .replace _ hw.1.mem ⟨rfl, rfl, rfl, rfl, rfl, id⟩ (.inr hw.2)
      refine .attemptBind keeps_save fun r => ?_
      cases r with
      | error e => exact .pre (keeps_kept hactive) fun _ hw => hw.1
      | ok _ => exact keeps_reinstall hactive
  · exact keeps_reinstall hactive

theorem keeps_reconcilePolicy :
    Keeps cfg A ok (At (before ++ policy :: after) none true)
      (reconcilePolicy cfg before after policy) (Rounded A before after) := by
  have hover : Keeps cfg A ok (At (before ++ policy :: after) none true) (isOver policy)
      (ends (fun b w => At (before ++ policy :: after) none true w ∧
        (b = false → policy.removeOnly = false)) (fun _ _ => False)) := by
    unfold isOver
    split
    · exact .ret fun w _ hw => ⟨hw, nofun⟩
    · rename_i hactive
      have hactive : policy.removeOnly = false := by simpa using hactive
      intro w hw
      refine Triple.step (keeps_now (t := w.clock) policy) (fun t => ?_) w ⟨hw, le_refl _⟩
      exact Triple.ret fun w _ hw => ⟨hw.1, fun _ => hactive⟩
  refine .step hover fun b => ?_
  cases b with
  | true => exact .pre (keeps_dropPolicy _ _) fun w hw => hw.1
  | false =>
    refine .given fun hactive => ?_
    have hactive := hactive rfl
    refine .attemptBind (keeps_quiet (.perform trivial)) fun r => ?_
    cases r with
    | error e => exact keeps_kept hactive
    | ok target =>
      dsimp only
      split
      · exact keeps_dropPolicy _ _
      split
      · exact keeps_suspendPolicy hactive
      · exact keeps_refreshPolicy hactive _

end Round

/-- What the loop leaves; nothing marked for removal, if nothing has failed. -/
def Passed (A : Assumed) (m : List Policy) (w : World) : Prop :=
  At m none true w ∧ (A.truthful → A.clean → ∀ p ∈ m, p.removeOnly = false)

theorem keeps_reconcileLoop (skip : Bool) (kept : List Policy)
    (failures : List String) (rest : List Policy) :
    Keeps cfg A ok (fun w => At (kept ++ rest) none true w ∧
      (A.truthful → A.clean → skip = false ∧ ∀ p ∈ kept, p.removeOnly = false))
      (reconcileLoop cfg skip kept failures rest)
      (ends (fun r => Passed A r.1) (fun _ _ => False)) := by
  induction rest generalizing skip kept failures with
  | nil =>
    exact .ret fun w _ hw => ⟨by simpa using hw.1, fun ht hc => (hw.2 ht hc).2⟩
  | cons policy rest ih =>
    rw [reconcileLoop]
    split
    · rename_i hskip
      -- a save has failed after a removal
      refine .pre (ih _ _ _) fun w hw => ⟨by simpa using hw.1, fun ht hc => ?_⟩
      rw [(hw.2 ht hc).1] at hskip
      cases hskip
    · refine .given fun hkept => ?_
      refine .step keeps_reconcilePolicy fun r => ?_
      refine .pre (ih _ _ _) fun w hw => ⟨hw.1, fun ht hc => ⟨(hw.2 ht hc).1, ?_⟩⟩
      intro p hp
      rcases List.mem_append.mp hp with hp | hp
      · exact (hkept ht hc).2 p hp
      · exact (hw.2 ht hc).2 p (Option.mem_toList.mp hp)

theorem keeps_reconcile :
    Keeps cfg A ok (At mem none true) (reconcile cfg) (fun _ w => ∃ m, Passed A m w) := by
  refine .step keeps_lock fun policies => ?_
  refine .given fun ⟨hpolicies, _⟩ => ?_
  subst hpolicies
  refine .step (Triple.pre (keeps_reconcileLoop false [] [] policies) fun w hw =>
    ⟨hw, fun _ _ => ⟨rfl, nofun⟩⟩) fun r => ?_
  obtain ⟨m, failures⟩ := r
  refine .given fun hm => ?_
  refine .seq (keeps_quiet cleanup_quiet) (fun _ w _ hw => ⟨m, hw, hm⟩) fun _ => ?_
  split <;> exact .ret fun w _ hw => ⟨m, hw, hm⟩

/-! ## All calls -/

/-- Between calls. -/
def Idle (w : World) : Prop := w.applying = none ∧ w.tried = true

theorem keeps_serve (hA : A.applies) (k : Call) :
    Keeps cfg A ok Idle (serve cfg k) (fun _ => Idle) := by
  intro w hw
  have hat : At w.mem none true w := ⟨rfl, hw.1, hw.2⟩
  cases k with
  | apply policy target =>
    have hstart : Keeps cfg A ok (At w.mem none true) (Prog.run (.start policy.id))
        (fun _ => At w.mem (some ⟨policy.id, w.mem.any fun p => p.id == policy.id⟩) true) :=
      Triple.perform fun w' _ _ hw' _ _ =>
        ⟨may_self.mpr ⟨hA, hw'.applying⟩, hw'.mem, by rw [← hw'.mem]; rfl, hw'.tried⟩
    refine Triple.bind hstart (fun _ => Triple.bind (keeps_apply policy target rfl)
      fun r => ?_) w hat
    refine Triple.perform fun w' _ _ hw' _ _ => ?_
    cases r with
    | ok _ =>
      obtain ⟨m, hm⟩ := hw'
      exact ⟨may_self.mpr nofun, rfl, hm.tried⟩
    | error e =>
      obtain ⟨m, hm, hmarks⟩ := hw'
      refine ⟨may_self.mpr fun _ hr => ?_, rfl, hm.tried⟩
      rw [hm.applying, hm.mem]
      exact hmarks hr
  | release id vmId instanceId =>
    refine Triple.bind (keeps_release id vmId instanceId) (fun r => ?_) w hat
    cases r with
    | ok _ =>
      refine .ret ?_
      rintro w' - ⟨m, hm⟩
      exact ⟨hm.applying, hm.tried⟩
    | error e =>
      refine .ret ?_
      rintro w' - ⟨m, hm, -⟩
      exact ⟨hm.applying, hm.tried⟩
  | reconcile =>
    refine Triple.bind keeps_reconcile (fun r => Triple.ret ?_) w hat
    rintro w' - ⟨m, hm, -⟩
    exact ⟨hm.applying, hm.tried⟩

theorem manager_orderly (hA : A.applies) :
    Sound (manager cfg) (fun _ _ => True) (orderly cfg A ok) Idle where
  code k := (keeps_serve hA k).pre fun _ h => h.1
  restart w w' hw h := by
    cases restart_eq_some h
    refine ⟨⟨?_, hw.disk⟩, rfl, rfl⟩
    show ((w.disk.getD []).map (·.id)).Nodup
    cases hdisk : w.disk with
    | none => exact List.nodup_nil
    | some policies => exact hw.disk policies hdisk
  others _ _ _ _ he _ := he.elim

theorem steady_orderly (hA : A.applies) :
    Sound (steady cfg) (fun _ _ => True) (orderly cfg A ok) Idle where
  code k := (keeps_serve hA k).pre fun _ h => h.1
  restart _ _ _ h := by cases h
  others _ _ _ _ he _ := he.elim

/-- The state that the manager starts with. -/
def World.Fresh (w : World) : Prop := w.mem = [] ∧ w.disk = none ∧ Idle w

omit [Meets A ok] in
theorem World.Fresh.safe (hw : w.Fresh) : Conf.Safe (orderly cfg A ok) Idle ⟨w, none⟩ := by
  obtain ⟨hmem, hdisk, hidle⟩ := hw
  refine Conf.Safe.start ⟨by rw [hmem]; exact List.nodup_nil, fun policies h => ?_⟩ hidle
  rw [hdisk] at h
  cases h

omit [Meets A ok] in
theorem orderly_invariant {S : Server host Call} {I : World → Prop} {c : Conf World Input Act}
    (hS : Sound S (fun _ _ => True) (orderly cfg A ok) Idle)
    (hact : ∀ w e i, DistinctIds w → I w → Duty cfg A e w → ok self e w i → I (w.apply i e))
    (hrestart : ∀ w w', I w → S.restart w = some w' → I w') (hw : w.Fresh) (hI : I w)
    (h : Run S (fun _ _ => True) ok ⟨w, none⟩ c) : I c.mem := by
  refine hS.run_rel (T := fun w w' => I w → I w') (fun _ => id)
    (fun _ _ _ h h' hs => h' (h hs)) (fun w w' hinv hchange hIw => ?_) hw.safe h hI
  cases hchange with
  | refl => exact hIw
  | act p e i _ hmay hstep =>
    by_cases hp : p = self
    · subst hp
      exact hact w e i hinv hIw (may_self.mp hmay) hstep
    · exact (hmay.2 hp).elim
  | restart hr => exact hrestart w w' hIw hr

end Calls

end RunmanAgent.ConnLimit
