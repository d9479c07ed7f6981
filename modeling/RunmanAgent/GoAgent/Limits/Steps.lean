import RunmanAgent.GoAgent.Limits.Manager

/-!
# What the connection-limit manager does, step by step

`Duty` says under which circumstances the manager takes an action: which lists it saves and
which rules it appends. It keeps the invariant `Inv`: the installed rules are rules of the
policies in the file, each installed once, and the policies of rejected ids are marked there.
`manager_orderly` shows that all calls keep to it.

A call works on a list of its own that may be ahead of the file. `At` is what it knows about
the two.
-/

namespace RunmanAgent.GoAgent.Limits

open Concurrency Proc Server Iptables
open ConnLimit (Pending mem_rejectedAfter)

/-! ## Lists of policies -/

section Lists

variable {truthful : Prop} {st : List Policy} {p q : Policy} {w : World}

/-- No rule of the policy is installed. -/
def Gone (p : Policy) (w : World) : Prop := ∀ x ∈ p.rules, copies (w.fw x.1) x.2 = 0

/-- No rule that carries the id is installed. -/
def Cleared (id : String) (w : World) : Prop :=
  ∀ tool rule, RuleOf id rule → copies (w.fw tool) rule = 0

/-- A list that accounts for the installed rules, if it is known what they are. -/
structure Good (truthful : Prop) (st : List Policy) (w : World) : Prop where
  nodup : (st.map (·.id)).Nodup
  plain : truthful → ∀ p ∈ st, p.Plain
  owned : truthful → ∀ tool rule, 0 < copies (w.fw tool) rule → ∃ p ∈ st, (tool, rule) ∈ p.rules

theorem eq_of_id (h : (st.map (·.id)).Nodup) (hp : p ∈ st) (hq : q ∈ st) (hid : p.id = q.id) :
    p = q :=
  List.inj_on_of_nodup_map h hp hq hid

/-- `st'` has `p'` in place of the policy with its id. -/
structure Replaced (p' : Policy) (st st' : List Policy) : Prop where
  ids : st'.map (·.id) = st.map (·.id)
  mem : ∀ q, q ∈ st' ↔ q = p' ∨ (q ∈ st ∧ q.id ≠ p'.id)

theorem Replaced.self {p' : Policy} {st' : List Policy} (h : Replaced p' st st') : p' ∈ st' :=
  (h.mem p').mpr (.inl rfl)

theorem replacePolicy_spec (p' : Policy) (h : (st.map (·.id)).Nodup) (hp : p ∈ st)
    (hid : p'.id = p.id) : ∃ st', replacePolicy p' st = .ok st' ∧ Replaced p' st st' := by
  induction st with
  | nil => cases hp
  | cons r rs ih =>
    rw [List.map_cons, List.nodup_cons] at h
    by_cases hr : r.id = p'.id
    · refine ⟨p' :: rs, if_pos hr, by rw [List.map_cons, List.map_cons, hr], fun q => ?_⟩
      -- the ids of the rest are different
      have hrest : ∀ q ∈ rs, q.id ≠ p'.id := by
        intro q hq heq
        exact h.1 (List.mem_map.mpr ⟨q, hq, heq.trans hr.symm⟩)
      rw [List.mem_cons, List.mem_cons]
      constructor
      · intro hq
        exact hq.imp_right fun hq => ⟨.inr hq, hrest q hq⟩
      · rintro (rfl | ⟨rfl | hq, hne⟩)
        · exact .inl rfl
        · exact absurd hr hne
        · exact .inr hq
    · have hp' : p ∈ rs := by
        rcases hp with _ | ⟨_, hp⟩
        · exact absurd hid.symm hr
        · exact hp
      obtain ⟨st', hok, ⟨hids, hmem⟩⟩ := ih h.2 hp'
      refine ⟨r :: st', ?_, by rw [List.map_cons, hids, List.map_cons], fun q => ?_⟩
      · rw [replacePolicy, if_neg hr, hok]
        rfl
      · rw [List.mem_cons, hmem, List.mem_cons]
        constructor
        · rintro (rfl | rfl | hq)
          · exact .inr ⟨.inl rfl, hr⟩
          · exact .inl rfl
          · exact .inr ⟨.inr hq.1, hq.2⟩
        · rintro (rfl | ⟨rfl | hq, hne⟩)
          · exact .inr (.inl rfl)
          · exact .inl rfl
          · exact .inr (.inr ⟨hq, hne⟩)

theorem mem_removePolicy {id : String} : q ∈ removePolicy st id ↔ q ∈ st ∧ q.id ≠ id := by
  rw [removePolicy, List.mem_filter, bne_iff_ne]

theorem rules_marked (p : Policy) : p.marked.rules = p.rules := rules_congr rfl rfl rfl

theorem Good.cleared (h : Good truthful st w) (ht : truthful) (hp : p ∈ st) (hgone : Gone p w) :
    Cleared p.id w := by
  intro tool rule hrule
  by_contra hne
  obtain ⟨q, hq, hmem⟩ := h.owned ht tool rule (Nat.pos_of_ne_zero hne)
  cases eq_of_id h.nodup hq hp ((ruleOf_of_mem hmem).unique hrule)
  exact hne (hgone _ hmem)

theorem Good.cleared_of_notMem {id : String} (h : Good truthful st w) (ht : truthful)
    (hid : ∀ q ∈ st, q.id ≠ id) : Cleared id w := by
  intro tool rule hrule
  by_contra hne
  obtain ⟨q, hq, hmem⟩ := h.owned ht tool rule (Nat.pos_of_ne_zero hne)
  exact hid q hq ((ruleOf_of_mem hmem).unique hrule)

theorem Good.enter (h : Good truthful st w) (hid : ∀ q ∈ st, q.id ≠ p.id)
    (hp : truthful → p.Plain) : Good truthful (st ++ [p]) w := by
  refine ⟨?_, ?_, fun ht tool rule hpos => ?_⟩
  · rw [List.map_append, List.map_singleton]
    refine List.nodup_append.mpr ⟨h.nodup, List.nodup_singleton _, ?_⟩
    intro a ha b hb
    obtain ⟨q, hq, rfl⟩ := List.mem_map.mp ha
    rw [List.mem_singleton.mp hb]
    exact hid q hq
  · intro ht q hq
    rcases List.mem_append.mp hq with hq | hq
    · exact h.plain ht q hq
    · rw [List.mem_singleton.mp hq]
      exact hp ht
  · obtain ⟨q, hq, hmem⟩ := h.owned ht tool rule hpos
    exact ⟨q, List.mem_append_left _ hq, hmem⟩

theorem Good.replace {p' : Policy} {st' : List Policy} (h : Good truthful st w) (hp : p ∈ st)
    (hid : p'.id = p.id) (hr : Replaced p' st st') (hplain : truthful → p'.Plain)
    (hrules : p'.rules = p.rules ∨ (truthful → Gone p w)) : Good truthful st' w := by
  refine ⟨hr.ids ▸ h.nodup, ?_, fun ht tool rule hpos => ?_⟩
  · intro ht q hq
    rcases (hr.mem q).mp hq with rfl | hq
    · exact hplain ht
    · exact h.plain ht q hq.1
  · obtain ⟨q, hq, hrule⟩ := h.owned ht tool rule hpos
    by_cases hqid : q.id = p'.id
    · cases eq_of_id h.nodup hq hp (hqid.trans hid)
      rcases hrules with hrules | hgone
      · exact ⟨p', hr.self, hrules ▸ hrule⟩
      · rw [hgone ht _ hrule] at hpos
        cases hpos
    · exact ⟨q, (hr.mem q).mpr (.inr ⟨hq, hqid⟩), hrule⟩

theorem Good.remove (h : Good truthful st w) (hp : p ∈ st) (hgone : truthful → Gone p w) :
    Good truthful (removePolicy st p.id) w := by
  refine ⟨h.nodup.sublist (List.filter_sublist.map _),
    fun ht q hq => h.plain ht q (mem_removePolicy.mp hq).1, fun ht tool rule hpos => ?_⟩
  obtain ⟨q, hq, hrule⟩ := h.owned ht tool rule hpos
  refine ⟨q, mem_removePolicy.mpr ⟨hq, fun hid => ?_⟩, hrule⟩
  cases eq_of_id h.nodup hq hp hid
  rw [hgone ht _ hrule] at hpos
  cases hpos

end Lists

/-! ## Duties -/

/-- What may be assumed about a run. -/
structure Assumed where
  /-- The policies are plain, and the check for a rule fails only if the rule is not installed. -/
  truthful : Prop := True
  /-- While the file has the policy of a new id unmarked, no save of that `apply` fails. -/
  recorded : Prop
  /-- The file can be locked and loaded, and no deletion of a rule fails. -/
  clean : Prop
  /-- `apply` is called. -/
  applies : Prop := True

/-- The policy of a call for an id that was not stored is marked for removal. -/
def Marks (a : Option Pending) (policies : List Policy) : Prop :=
  ∀ x ∈ a, x.known = false → ∀ p ∈ policies, p.id = x.id → p.removeOnly = true

instance (a : Option Pending) (policies : List Policy) : Decidable (Marks a policies) :=
  inferInstanceAs (Decidable (∀ x ∈ a, _))

/-- The rule that an action checks for. -/
def Act.checks : Act → Option (Tool × Rule)
  | .fw tool (.check rule) => some (tool, rule)
  | _ => none

/-- The action saves a list. -/
def Act.saves : Act → Bool
  | .save _ => true
  | _ => false

/-- The action locks or loads the file, or deletes a rule. -/
def Act.cleans : Act → Bool
  | .lock | .load | .fw _ (.delete _) => true
  | _ => false

/-- When an action may fail. -/
structure Assumed.MayFail (A : Assumed) (w : World) (e : Act) : Prop where
  truthful : A.truthful → ∀ x ∈ e.checks, copies (w.fw x.1) x.2 = 0
  recorded : A.recorded → e.saves = true → Marks w.applying w.filed
  clean : A.clean → e.cleans = false

/-- The policies of rejected ids are marked, unless `apply` is at work on one that is new. -/
def Refused (w : World) (policies : List Policy) : Prop :=
  ∀ id ∈ w.rejected, w.applying ≠ some ⟨id, false⟩ → ∀ p ∈ policies, p.id = id → p.removeOnly = true

/-- The commands that are run. -/
def CmdDuty (truthful : Prop) (w : World) (tool : Tool) : Cmd → Prop
  | .append rule => (truthful → copies (w.fw tool) rule = 0) ∧ ∃ p ∈ w.filed,
      (truthful → (tool, rule) ∈ p.rules) ∧ RuleOf p.id rule ∧
        (p.removeOnly = false ∨ ∃ known, w.applying = some ⟨p.id, known⟩)
  | .insert _ => False
  | _ => True

/-- When an action is taken. -/
def Duty (A : Assumed) : Act → World → Prop
  | .save policies, w => Good A.truthful policies w ∧ (A.recorded → Refused w policies)
  | .fw tool cmd, w => CmdDuty A.truthful w tool cmd
  | .start _, w => A.applies ∧ w.applying = none
  | .answer ok, w => ok = false → A.recorded → Marks w.applying w.filed
  | _, _ => True

structure Inv (A : Assumed) (w : World) : Prop where
  filed : Good A.truthful w.filed w
  once : A.truthful → ∀ tool rule, copies (w.fw tool) rule ≤ 1
  refused : A.recorded → Refused w w.filed

variable {A : Assumed} {w : World}

theorem Good.congr {truthful : Prop} {st : List Policy} {w' : World} (h : Good truthful st w)
    (hfw : w'.fw = w.fw) : Good truthful st w' :=
  ⟨h.nodup, h.plain, by rw [hfw]; exact h.owned⟩

variable {i : Input}

theorem Good.command {truthful : Prop} {st : List Policy} {tool : Tool} {cmd : Cmd}
    (h : Good truthful st w) (hinsert : ∀ rule, cmd ≠ .insert rule)
    (happend : truthful → ∀ rule, cmd = .append rule → ∃ p ∈ st, (tool, rule) ∈ p.rules) :
    Good truthful st (w.apply i (.fw tool cmd)) := by
  refine ⟨h.nodup, h.plain, fun ht tool' rule hpos => ?_⟩
  by_cases hadds : tool' = tool ∧ cmd = .append rule
  · obtain ⟨rfl, hcmd⟩ := hadds
    exact happend ht rule hcmd
  · refine h.owned ht tool' rule (Nat.lt_of_lt_of_le hpos (copies_update_le fun ht => ?_))
    exact ⟨hinsert rule, fun hcmd => hadds ⟨ht, hcmd⟩⟩

theorem copies_append_le {t : Option Chain} {fails : Bool} {rule : Rule} (h : copies t rule = 0) :
    copies (after fails (.append rule) t) rule ≤ 1 := by
  cases hs : succeeds fails (.append rule) t with
  | false =>
    rw [after_of_not_succeeds hs, h]
    exact Nat.zero_le 1
  | true =>
    have hexec := exec_of_succeeds hs
    generalize after fails (.append rule) t = t' at hexec ⊢
    cases t with
    | none => cases hexec
    | some c =>
      cases hexec
      show (c.rules ++ [rule]).count rule ≤ 1
      have hnone : c.rules.count rule = 0 := h
      rw [List.count_append, hnone, List.count_singleton_self]

theorem Inv.once_command {tool : Tool} {cmd : Cmd} (h : Inv A w)
    (hduty : CmdDuty A.truthful w tool cmd) (ht : A.truthful) (tool' : Tool) (rule : Rule) :
    copies ((w.apply i (.fw tool cmd)).fw tool') rule ≤ 1 := by
  by_cases hadds : tool' = tool ∧ cmd = .append rule
  · obtain ⟨rfl, rfl⟩ := hadds
    show copies (Function.update w.fw tool' _ tool') rule ≤ 1
    rw [Function.update_self]
    exact copies_append_le (hduty.1 ht)
  · refine Nat.le_trans (copies_update_le fun ht => ⟨?_, fun hcmd => hadds ⟨ht, hcmd⟩⟩)
      (h.once ht tool' rule)
    rintro rfl
    exact hduty

theorem Inv.apply {e : Act} (h : Inv A w) (hduty : Duty A e w) : Inv A (w.apply i e) := by
  cases e with
  | save policies =>
    rw [World.apply]
    split
    · exact ⟨h.filed.congr rfl, h.once, h.refused⟩
    · exact ⟨hduty.1.congr rfl, h.once, hduty.2⟩
  | fw tool cmd =>
    refine ⟨h.filed.command ?_ ?_, h.once_command hduty, h.refused⟩
    · rintro rule rfl
      exact hduty
    · rintro ht rule rfl
      obtain ⟨-, p, hp, hmem, -⟩ := hduty
      exact ⟨p, hp, hmem ht⟩
  | start id' =>
    refine ⟨h.filed.congr rfl, h.once, fun hrec id hid _ => ?_⟩
    exact h.refused hrec id hid (by rw [hduty.2]; exact nofun)
  | answer ok =>
    refine ⟨h.filed.congr rfl, h.once, fun hrec id hid _ p hp hpid => ?_⟩
    rcases mem_rejectedAfter hid with ⟨hr, hne⟩ | ⟨hok, ha⟩
    · exact h.refused hrec id hr hne p hp hpid
    · -- the call has failed: its policy is marked
      exact hduty hok hrec _ ha rfl p hp hpid
  | lock | load | now | resolve | systemd => exact h

/-- The runs that are considered meet the assumptions. -/
class Meets (A : Assumed) (ok : Pid → Act → World → Input → Prop) : Prop where
  may {p e w i} : ok p e w i → i.fail = true → A.MayFail w e

variable (A) in
/-- The discipline of the manager, for the steps that satisfy `ok`. -/
def orderly (cfg : Config) (ok : Pid → Act → World → Input → Prop) : Discipline host :=
  (manager cfg).discipline (Inv A) (Duty A) ok (fun hw hd _ => hw.apply hd) (fun he _ _ => he.elim)

/-! ## What a call knows -/

section Calls

variable {cfg : Config} {ok : Pid → Act → World → Input → Prop} {a : Option Pending}
  {st keep : List Policy} {F : List Policy → Prop} {G : String → Prop} {p : Policy}

instance orderly_stable {P : World → Prop} : Stable (orderly A cfg ok) self P :=
  stable_of_others fun he _ _ _ => he.elim

variable (A cfg ok) in
/-- Hoare triples of the manager. -/
abbrev Keeps {α : Type} (P : World → Prop) (x : Prog World Input Act α) (Q : α → World → Prop) :
    Prop :=
  Serves (orderly A cfg ok) P x Q

variable (A) in
/-- The call works on `st`; the file satisfies `F`, and the policies `keep` of `st` are in it,
too. The ids of `G` have no rules. -/
structure At (a : Option Pending) (st keep : List Policy) (F : List Policy → Prop)
    (G : String → Prop) (w : World) : Prop where
  applying : w.applying = a
  good : Good A.truthful st w
  refused : A.recorded → Refused w st
  kept : ∀ q ∈ keep, q ∈ st ∧ q ∈ w.filed
  filed : F w.filed
  gone : A.truthful → ∀ id, G id → Cleared id w

theorem At.mono {keep' : List Policy} {F' : List Policy → Prop} {G' : String → Prop}
    (h : At A a st keep F G w) (hkeep : ∀ q ∈ keep', q ∈ keep) (hF : ∀ f, F f → F' f)
    (hG : ∀ id, G' id → G id) : At A a st keep' F' G' w :=
  ⟨h.applying, h.good, h.refused, fun q hq => h.kept q (hkeep q hq), hF _ h.filed,
    fun ht id hid => h.gone ht id (hG id hid)⟩

variable {id : String} {tool : Tool} {i : Input} {α : Type}

theorem Cleared.command {cmd : Cmd} (h : Cleared id w) (hinsert : ∀ rule, cmd ≠ .insert rule)
    (happend : ∀ rule, cmd = .append rule → ¬ RuleOf id rule) :
    Cleared id (w.apply i (.fw tool cmd)) := by
  intro tool' rule hrule
  have hle : copies ((w.apply i (.fw tool cmd)).fw tool') rule ≤ copies (w.fw tool') rule :=
    copies_update_le fun _ => ⟨hinsert rule, fun hcmd => happend rule hcmd hrule⟩
  rw [h tool' rule hrule] at hle
  exact Nat.le_zero.mp hle

theorem At.command {cmd : Cmd} (h : At A a st keep F G w) (hinsert : ∀ rule, cmd ≠ .insert rule)
    (happend : ∀ rule, cmd = .append rule → ∃ p ∈ st, (A.truthful → (tool, rule) ∈ p.rules) ∧
      RuleOf p.id rule ∧ ¬ G p.id) :
    At A a st keep F G (w.apply i (.fw tool cmd)) := by
  refine ⟨h.applying, h.good.command hinsert ?_, h.refused, h.kept, h.filed, fun ht id hid => ?_⟩
  · intro ht rule hcmd
    obtain ⟨p, hp, hmem, -⟩ := happend rule hcmd
    exact ⟨p, hp, hmem ht⟩
  · refine (h.gone ht id hid).command hinsert fun rule hcmd hrule => ?_
    obtain ⟨p, -, -, hof, hG⟩ := happend rule hcmd
    rw [hof.unique hrule] at hG
    exact hG hid

/-- Readings, timers, and commands that add no rule. -/
def Quiet : Act → Prop
  | .lock | .load | .now | .resolve _ | .systemd _ _ => True
  | .fw _ (.append _) | .fw _ (.insert _) => False
  | .fw _ _ => True
  | _ => False

theorem Quiet.at {e : Act} (he : Quiet e) (hw : At A a st keep F G w) :
    Duty A e w ∧ At A a st keep F G (w.apply i e) := by
  cases e with
  | lock | load | now | resolve | systemd => exact ⟨trivial, hw⟩
  | fw tool cmd =>
    refine ⟨?_, hw.command ?_ ?_⟩
    · cases cmd with
      | append | insert => exact he.elim
      | _ => trivial
    · rintro rule rfl
      exact he
    · rintro rule rfl
      exact he.elim
  | _ => exact he.elim

theorem keeps_quiet {x : Prog World Input Act α} (hx : x.Uses Quiet) :
    Keeps A cfg ok (At A a st keep F G) x (fun _ => At A a st keep F G) := by
  refine .of_uses (hx.mono fun e he w i _ hw _ _ => ?_)
  obtain ⟨hduty, hat⟩ := he.at hw
  exact ⟨may_self.mpr hduty, hat⟩

theorem ensureChain_quiet (tool : Tool) : (ensureChain tool).Uses Quiet := by
  refine uses_bind ?_ fun _ => ?_
  · refine uses_bind (uses_attempt (.perform trivial)) fun r => ?_
    cases r with
    | ok _ => trivial
    | error _ => exact uses_mapErr (.perform trivial)
  · refine uses_bind (uses_attempt (.perform trivial)) fun r => ?_
    cases r with
    | ok _ => trivial
    | error _ => exact .perform trivial

theorem scheduleExpiry_quiet (p : Policy) : (scheduleExpiry cfg p).Uses Quiet := by
  refine uses_bind (uses_attempt (.perform trivial)) fun r => ?_
  cases r with
  | ok _ => trivial
  | error _ => exact uses_bind (.perform trivial) fun _ => .perform trivial

theorem keeps_stopExpiry (id : String) :
    Keeps A cfg ok (At A a st keep F G) (stopExpiry id)
      (ends (fun _ => At A a st keep F G) (fun _ _ => False)) :=
  .attemptBind (keeps_quiet (.perform trivial)) fun _ =>
    .ret fun _ _ h => h

theorem validatePolicy_quiet (p : Policy) : (validatePolicy cfg p).Uses Quiet := by
  unfold validatePolicy
  split
  · trivial
  · split
    · trivial
    · split
      · trivial
      · refine uses_bind (.perform trivial) fun t => ?_
        split
        · trivial
        · split
          · trivial
          · split <;> trivial

/-! ## Rules -/

variable [Meets A ok]

theorem may_fail {e : Act} {w : World} {i : Input} (hi : (orderly A cfg ok).ok self e w i)
    (hf : i.fail = true) : A.MayFail w e :=
  Meets.may (show ok self e w i from hi) hf

theorem keeps_check {P : (Tool → Option Chain) → Prop} {rule : Rule} :
    Keeps A cfg ok (fun w => At A a st keep F G w ∧ P w.fw) (runTool tool (.check rule))
      (ends (fun _ w => (At A a st keep F G w ∧ P w.fw) ∧ 0 < copies (w.fw tool) rule)
        (fun _ w => (At A a st keep F G w ∧ P w.fw) ∧
          (A.truthful → copies (w.fw tool) rule = 0))) := by
  refine .perform fun w i _ hw _ hi => ?_
  obtain ⟨hduty, hat⟩ := Quiet.at (e := .fw tool (.check rule)) (i := i) trivial hw.1
  have hfw : (w.apply i (.fw tool (.check rule))).fw = w.fw :=
    Function.update_eq_self_iff.mpr after_check
  refine ⟨may_self.mpr hduty, ?_⟩
  split
  · rename_i hs
    refine ⟨⟨hat, hfw ▸ hw.2⟩, ?_⟩
    show 0 < copies ((w.apply i (.fw tool (.check rule))).fw tool) rule
    rw [hfw]
    exact (copies_of_check (exec_of_succeeds hs)).2
  · rename_i hs
    refine ⟨⟨hat, hfw ▸ hw.2⟩, fun ht => ?_⟩
    show copies ((w.apply i (.fw tool (.check rule))).fw tool) rule = 0
    rw [hfw]
    cases hf : i.fail with
    | true => exact (may_fail hi hf).truthful ht _ rfl
    | false =>
      refine copies_of_check_none ?_
      rw [hf] at hs
      simpa [Iptables.succeeds] using hs

theorem keeps_installRule (hp : p ∈ keep)
    (hactive : p.removeOnly = false ∨ ∃ known, a = some ⟨p.id, known⟩) (hG : ¬ G p.id) {rule : Rule}
    (hrule : A.truthful → (tool, rule) ∈ p.rules) (hof : RuleOf p.id rule) :
    Keeps A cfg ok (At A a st keep F G) (installRule tool rule) (fun _ => At A a st keep F G) := by
  refine .attemptBind ((keeps_check (P := fun _ => True)).pre fun w hw => ⟨hw, trivial⟩) fun r => ?_
  cases r with
  | ok _ => exact .ret fun _ _ h => h.1.1
  | error _ =>
    refine .perform fun w i _ hw _ _ => ?_
    obtain ⟨⟨hat, -⟩, hnone⟩ := hw
    refine ⟨may_self.mpr ⟨hnone, p, (hat.kept p hp).2, hrule, hof, ?_⟩, hat.command ?_ ?_⟩
    · exact hat.applying ▸ hactive
    · rintro rule' ⟨⟩
    · rintro rule' ⟨⟩
      exact ⟨p, (hat.kept p hp).1, hrule, hof, hG⟩

/-- Rules are installed for a policy of the file that is not marked for removal, or by
`apply`. -/
theorem keeps_installRules (hp : p ∈ keep)
    (hactive : p.removeOnly = false ∨ ∃ known, a = some ⟨p.id, known⟩) (hG : ¬ G p.id) :
    Keeps A cfg ok (At A a st keep F G) (installRules p) (fun _ => At A a st keep F G) := by
  intro w hw
  have hplain := fun ht => hw.good.plain ht p (hw.kept p hp).1
  suffices h : Keeps A cfg ok (At A a st keep F G) (installRules p)
      (ends (fun _ => At A a st keep F G) (fun _ => At A a st keep F G)) by
    refine (h.post fun r w _ h => ?_) w hw
    cases r <;> exact h
  cases hips : validateIPs p.ips with
  | error e =>
    unfold installRules
    rw [hips]
    exact .ret fun _ _ h => h
  | ok ips =>
    unfold installRules
    rw [hips]
    refine .forEach fun value hv => ?_
    unfold installAt
    cases hparse : NetAddr.parse value.toList with
    | none => exact .ret fun _ _ h => h
    | some addr =>
      refine .seq (keeps_quiet (ensureChain_quiet _)) (fun _ _ _ h => h) fun _ => ?_
      refine .forEach fun incoming _ => ?_
      refine (keeps_installRule hp hactive hG
        (fun ht => mem_rules_of_validateIPs (hplain ht) hips hv hparse incoming)
        ⟨p, addr, incoming, rfl, rfl⟩).post fun r w _ h => ?_
      cases r <;> exact h

/-- None of `D` is installed. -/
def NoneOf (D : Tool × Rule → Prop) (fw : Tool → Option Chain) : Prop :=
  ∀ x, D x → copies (fw x.1) x.2 = 0

theorem NoneOf.delete {D : Tool × Rule → Prop} {fw : Tool → Option Chain} {tool : Tool}
    {rule : Rule} {fails : Bool} (h : NoneOf D fw) :
    NoneOf D (Function.update fw tool (after fails (.delete rule) (fw tool))) := by
  intro x hx
  have hle : copies (Function.update fw tool (after fails (.delete rule) (fw tool)) x.1) x.2 ≤
      copies (fw x.1) x.2 := copies_update_le fun _ =>
        ⟨nofun, nofun⟩
  rw [h x hx] at hle
  exact Nat.le_zero.mp hle

theorem keeps_removeRule {D : Tool × Rule → Prop} (x : Tool × Rule) :
    Keeps A cfg ok (fun w => At A a st keep F G w ∧ NoneOf D w.fw) (removeRule x)
      (ends (fun failures w => (At A a st keep F G w ∧ NoneOf D w.fw) ∧
          (failures = [] → A.truthful → copies (w.fw x.1) x.2 = 0) ∧ (A.clean → failures = []))
        (fun _ _ => False)) := by
  refine .attemptBind keeps_check fun r => ?_
  cases r with
  | error _ => exact .ret fun w _ h => ⟨h.1, fun _ => h.2, fun _ => rfl⟩
  | ok _ =>
    refine .attemptBind (R := fun r w => (At A a st keep F G w ∧ NoneOf D w.fw) ∧
      (r.isOk = true → A.truthful → copies (w.fw x.1) x.2 = 0) ∧ (A.clean → r.isOk = true))
      ?_ fun r => ?_
    · refine .perform fun w i hinv hw _ hi => ?_
      obtain ⟨⟨hat, hD⟩, hpos⟩ := hw
      obtain ⟨hduty, hat'⟩ := Quiet.at (e := .fw x.1 (.delete x.2)) (i := i) trivial hat
      refine ⟨may_self.mpr hduty, ⟨hat', hD.delete⟩, ?_⟩
      split
      · rename_i hs
        refine ⟨fun _ ht => ?_, fun _ => rfl⟩
        show copies (Function.update w.fw x.1 _ x.1) x.2 = 0
        rw [Function.update_self]
        have hdeleted := (copies_of_delete (exec_of_succeeds hs)).1
        have honce := hinv.once ht x.1 x.2
        omega
      · rename_i hs
        refine ⟨fun h => (by cases h), fun hclean => ?_⟩
        -- the rule is there, so the command has failed by itself
        have hfail : i.fail = true := by
          by_contra hf
          refine hs ?_
          cases hchain : w.fw x.1 with
          | none =>
            rw [hchain] at hpos
            cases hpos
          | some c =>
            rw [hchain] at hpos
            simp [Iptables.succeeds, eq_false_of_ne_true hf, Iptables.exec, copies_pos.mp hpos]
        cases (may_fail hi hfail).clean hclean
    · cases r with
      | ok _ => exact .ret fun w _ h => ⟨h.1, fun _ => h.2.1 rfl, fun _ => rfl⟩
      | error e =>
        exact .ret fun w _ h => ⟨h.1, fun h => (by cases h), fun hclean => by cases h.2.2 hclean⟩

theorem keeps_removeRules (p : Policy) :
    Keeps A cfg ok (At A a st keep F G) (removeRules p)
      (ends (fun _ w => At A a st keep F G w ∧ (A.truthful → Gone p w))
        (fun _ w => At A a st keep F G w ∧ ¬ A.clean)) := by
  -- while no deletion has failed, the rules that are not to come are removed
  have hloop : Keeps A cfg ok (At A a st keep F G) (Proc.fold (fun failures x => do
        let more ← removeRule x
        pure (failures ++ more)) [] p.rules)
      (ends (fun failures w => (At A a st keep F G w ∧
          NoneOf (fun x => (failures = [] ∧ A.truthful) ∧ x ∈ p.rules ∧ x ∉ []) w.fw) ∧
          (A.clean → failures = [])) (fun _ _ => False)) := by
    refine (Triple.fold (J := fun failures rest w => (At A a st keep F G w ∧
        NoneOf (fun x => (failures = [] ∧ A.truthful) ∧ x ∈ p.rules ∧ x ∉ rest) w.fw) ∧
        (A.clean → failures = []))
      fun failures x rest => ?_).pre fun w hw =>
        ⟨⟨hw, fun x hx => absurd hx.2.1 hx.2.2⟩, fun _ => rfl⟩
    intro w hw
    refine (Triple.procBind (keeps_removeRule x) fun more => ?_) w hw.1
    refine Triple.ret fun w' _ h => ?_
    obtain ⟨⟨hat, hnone⟩, hgone, hclean⟩ := h
    refine ⟨⟨hat, fun y hy => ?_⟩, fun hc => ?_⟩
    · obtain ⟨⟨hnil, ht⟩, hmem, hrest⟩ := hy
      obtain ⟨hfailures, hmore⟩ := List.append_eq_nil_iff.mp hnil
      by_cases hyx : y = x
      · exact hyx ▸ hgone hmore ht
      · exact hnone y
          ⟨⟨hfailures, ht⟩, hmem, fun h => hrest ((List.mem_cons.mp h).resolve_left hyx)⟩
    · rw [hw.2 hc, hclean hc]
      rfl
  refine .step hloop fun failures => ?_
  unfold joinErrors
  split
  · rename_i hnil
    exact .ret fun w _ h =>
      ⟨h.1.1, fun ht x hx => h.1.2 x ⟨⟨hnil, ht⟩, hx, List.not_mem_nil⟩⟩
  · rename_i hnil
    exact .ret fun w _ h => ⟨h.1.1, fun hc => hnil (h.2 hc)⟩

/-! ## Lists -/

theorem At.enter (h : At A a st keep F G w) (hid : ∀ q ∈ st, q.id ≠ p.id)
    (hp : A.truthful → p.Plain) (ha : a = some ⟨p.id, false⟩) : At A a (st ++ [p]) [] F G w := by
  refine ⟨h.applying, h.good.enter hid hp, fun hrec id hrej hne q hq hqid => ?_,
    nofun, h.filed, h.gone⟩
  rcases List.mem_append.mp hq with hq | hq
  · exact h.refused hrec id hrej hne q hq hqid
  · rw [List.mem_singleton.mp hq] at hqid
    rw [h.applying, ha, hqid] at hne
    exact absurd rfl hne

theorem At.replace {p' : Policy} {st' : List Policy} (h : At A a st keep F G w)
    (hr : Replaced p' st st') (hp : p ∈ st) (hid : p'.id = p.id) (hplain : A.truthful → p'.Plain)
    (hrules : p'.rules = p.rules ∨ (A.truthful → Gone p w))
    (hmark : p.removeOnly = true → p'.removeOnly = true) (hkeep : ∀ q ∈ keep, q.id ≠ p.id) :
    At A a st' keep F G w := by
  refine ⟨h.applying, h.good.replace hp hid hr hplain hrules, fun hrec id hrej hne q hq hqid => ?_,
    fun q hq => ⟨?_, (h.kept q hq).2⟩, h.filed, h.gone⟩
  · rcases (hr.mem q).mp hq with rfl | hq
    · exact hmark (h.refused hrec id hrej hne p hp (hid.symm.trans hqid))
    · exact h.refused hrec id hrej hne q hq.1 hqid
  · exact (hr.mem q).mpr (.inr ⟨(h.kept q hq).1, hid ▸ hkeep q hq⟩)

theorem At.mark {st' : List Policy} (h : At A a st keep F G w) (hr : Replaced p.marked st st')
    (hp : p ∈ st) (hkeep : ∀ q ∈ keep, q.id ≠ p.id) : At A a st' keep F G w :=
  h.replace hr hp rfl (fun ht => h.good.plain ht p hp) (.inl (rules_marked p)) (fun _ => rfl) hkeep

theorem At.remove (h : At A a st keep F G w) (hp : p ∈ st) (hgone : A.truthful → Gone p w) :
    At A a (removePolicy st p.id) [] F G w :=
  ⟨h.applying, h.good.remove hp hgone, fun hrec id hrej hne q hq hqid =>
    h.refused hrec id hrej hne q (mem_removePolicy.mp hq).1 hqid, nofun,
    h.filed, h.gone⟩

theorem keeps_save {st' keep' : List Policy} :
    Keeps A cfg ok (fun w => At A a st keep F G w ∧ At A a st' keep' F G w) (save st')
      (ends (fun _ => At A a st' st' (· = st') G)
        (fun _ => At A a st keep (fun f => F f ∧ (A.recorded → Marks a f)) G)) := by
  refine .perform fun w i _ hw _ hi => ?_
  obtain ⟨h, h'⟩ := hw
  refine ⟨may_self.mpr ⟨h'.good, h'.refused⟩, ?_⟩
  cases hf : i.fail with
  | true =>
    have hmarks : A.recorded → Marks a w.filed := fun hrec =>
      h.applying ▸ (may_fail hi hf).recorded hrec rfl
    have hfiled : (host.apply (.save st') self w i).filed = w.filed := if_pos hf
    exact ⟨h.applying, h.good.congr rfl, h.refused, fun q hq => hfiled ▸ h.kept q hq,
      hfiled ▸ ⟨h.filed, hmarks⟩, h.gone⟩
  | false =>
    have hfiled : (host.apply (.save st') self w i).filed = st' := if_neg (by rw [hf]; decide)
    exact ⟨h'.applying, h'.good.congr rfl, h'.refused, fun q hq => ⟨hq, hfiled.symm ▸ hq⟩, hfiled,
      h'.gone⟩

/-- The failed call for a new id, if there is one, is that for `id`. -/
def For (a : Option Pending) (id : String) : Prop := ∀ x ∈ a, x.known = false → x.id = id

theorem For.marks {f : List Policy} (ha : For a id) (h : ∀ q ∈ f, q.id = id → q.removeOnly = true) :
    Marks a f := by
  intro x hx hknown q hq hqid
  exact h q hq (hqid.trans (ha x hx hknown))

theorem keeps_deletePolicy (hp : p ∈ st) (hkeep : ∀ q ∈ keep, q.id ≠ p.id)
    (ha : For a p.id) :
    Keeps A cfg ok (fun w => At A a st keep F G w ∧ (A.truthful → Gone p w)) (deletePolicy st p.id)
      (ends (fun st' => At A a st' keep (fun f => A.recorded → Marks a f) G)
        (fun _ => At A a st keep (fun f => A.recorded → Marks a f) G)) := by
  intro w hw
  have hsub : ∀ q ∈ keep, q ∈ removePolicy st p.id := fun q hq =>
    mem_removePolicy.mpr ⟨(hw.1.kept q hq).1, hkeep q hq⟩
  refine (Triple.chain (keeps_save.pre
      fun w (hw : At A a st keep F G w ∧ (A.truthful → Gone p w)) =>
        ⟨hw.1, hw.1.remove hp hw.2⟩)
    (fun e w _ h => h.mono (fun _ hq => hq) (fun _ hf => hf.2) (fun _ hid => hid)) fun _ => ?_) w hw
  refine Triple.ret fun w _ h => h.mono hsub (fun f hf _ => ?_) (fun _ hid => hid)
  subst hf
  exact ha.marks fun q hq hqid => absurd hqid (mem_removePolicy.mp hq).2

theorem keeps_retirePolicy (hp : p ∈ st) (hkeep : ∀ q ∈ keep, q.id ≠ p.id)
    (ha : For a p.id) (cause : String) :
    Keeps A cfg ok (At A a st keep F G) (retirePolicy st p cause)
      (ends (fun r => At A a r.1 keep (fun f => A.recorded → Marks a f) G) (fun _ _ => False)) := by
  intro w hw
  obtain ⟨st', hst', hr⟩ := replacePolicy_spec p.marked hw.good.nodup hp rfl
  have hsub : ∀ q ∈ keep, q ∈ st' := fun q hq => ((hw.mark hr hp hkeep).kept q hq).1
  have hmarks : ∀ f, f = st' → A.recorded → Marks a f := by
    rintro f rfl _
    refine ha.marks fun q hq hqid => ?_
    rcases (hr.mem q).mp hq with rfl | hq
    · rfl
    · exact absurd hqid hq.2
  unfold retirePolicy
  rw [hst']
  refine Triple.attemptBind (keeps_save.pre fun w h =>
    ⟨h.mark hr hp hkeep, h.mark hr hp hkeep⟩) (fun r => ?_) w hw
  cases r with
  | error e =>
    exact .ret fun w _ h => h.mono (fun _ hq => hq) (fun _ hf => hf.2) (fun _ hid => hid)
  | ok _ =>
    refine .attemptBind ((keeps_removeRules p.marked).pre fun w h =>
      h.mono hsub hmarks (fun _ hid => hid)) fun r => ?_
    cases r with
    | error e => exact .ret fun w _ h => h.1
    | ok _ =>
      refine .attemptBind (keeps_deletePolicy hr.self hkeep ha) fun r => ?_
      cases r with
      | error e => exact .ret fun w _ h => h
      | ok st'' =>
        refine .procBind (keeps_stopExpiry _) fun _ => ?_
        exact .ret fun w _ h => h

/-! ## Calls -/

theorem Inv.at (h : Inv A w) (ha : w.applying = a) (hst : w.filed = st) :
    At A a st st (· = st) (fun id => ∀ q ∈ st, q.id ≠ id) w := by
  subst hst
  exact ⟨ha, h.filed, h.refused, fun q hq => ⟨hq, hq⟩, rfl,
    fun ht id hid => h.filed.cleared_of_notMem ht hid⟩

theorem keeps_load {f : List Policy → HostProc α}
    {Q : Except String α → World → Prop} (hf : Keeps A cfg ok (At A a st st (· = st) G) (f st) Q)
    (hE : ∀ e w, At A a st st (· = st) G w → ¬ A.clean → Q (.error e) w) :
    Keeps A cfg ok (At A a st st (· = st) G)
      (withFileLock >>= fun _ => load >>= f : HostProc α) Q := by
  refine .chain (R := fun _ => At A a st st (· = st) G)
    (E := fun _ w => At A a st st (· = st) G w ∧ ¬ A.clean) ?_
    (fun e w _ h => hE e w h.1 h.2) fun _ => ?_
  · refine .perform fun w i _ hw _ hi => ?_
    refine ⟨may_self.mpr trivial, ?_⟩
    split
    · rename_i hfail
      exact ⟨hw, fun hclean => by cases (may_fail hi hfail).clean hclean⟩
    · exact hw
  · refine .chain (R := fun st' w => At A a st st (· = st) G w ∧ st' = st)
      (E := fun _ w => At A a st st (· = st) G w ∧ ¬ A.clean) ?_
      (fun e w _ h => hE e w h.1 h.2) fun st' => .given fun hst' => hst' ▸ hf
    refine .perform fun w i _ hw _ hi => ?_
    refine ⟨may_self.mpr trivial, ?_⟩
    split
    · rename_i hfail
      exact ⟨hw, fun hclean => by cases (may_fail hi hfail).clean hclean⟩
    · exact ⟨hw, hw.filed⟩

variable (A) in
/-- A call of `apply` that fails leaves the mark. -/
def Answered {α : Type} (a : Option Pending) (r : Except String α) (w : World) : Prop :=
  w.applying = a ∧ (r.isOk = false → A.recorded → Marks a w.filed)

theorem At.answered {r : Except String α} (h : At A a st keep F G w)
    (hF : ∀ f, F f → A.recorded → Marks a f) : Answered A a r w :=
  ⟨h.applying, fun _ => hF _ h.filed⟩

theorem At.answered_ok (h : At A a st keep F G w) (x : α) :
    Answered A a (.ok x : Except String α) w :=
  ⟨h.applying, nofun⟩

theorem keeps_retire (hp : p ∈ st) (ha : For a p.id) (cause : String) :
    Keeps A cfg ok (At A a st keep F G) (retire st p cause) (Answered A a) := by
  have hnone : ∀ q ∈ ([] : List Policy), q.id ≠ p.id := nofun
  refine .step ((keeps_retirePolicy hp hnone ha cause).pre fun w h =>
      h.mono nofun (fun _ hf => hf) (fun _ hid => hid)) fun r => ?_
  exact .ret fun w _ h => h.answered fun _ hf => hf

theorem keeps_applyAgain {old : Policy} (hold : old ∈ st)
    (ha : a = some ⟨old.id, true⟩) :
    Keeps A cfg ok (At A a st st F (fun _ => False)) (applyAgain cfg st old p) (Answered A a) := by
  have hmarks : ∀ f, F f → A.recorded → Marks a f := by
    intro f _ _ x hx hknown
    cases ha.symm.trans hx
    cases hknown
  have hfor : For a old.id := by
    intro x hx _
    cases ha.symm.trans hx
    rfl
  unfold applyAgain
  split
  · exact .ret fun w _ h => h.answered hmarks
  · split
    · exact .ret fun w _ h => h.answered hmarks
    · rename_i hactive
      refine .seq (keeps_installRules hold (.inl (eq_false_of_ne_true hactive)) id)
        (fun _ w _ h => h.answered hmarks) fun _ => ?_
      refine .attemptBind (keeps_quiet (scheduleExpiry_quiet old)) fun r => ?_
      cases r with
      | ok _ => exact .ret fun w _ h => h.answered_ok ()
      | error e => exact keeps_retire hold hfor e

theorem keeps_applyNew (hid : ∀ q ∈ st, q.id ≠ p.id) (hp : A.truthful → p.Plain)
    (ha : a = some ⟨p.id, false⟩) :
    Keeps A cfg ok (At A a st st (· = st) (fun _ => False)) (applyNew cfg st p) (Answered A a) := by
  have hfor : For a p.id := by
    intro x hx _
    cases ha.symm.trans hx
    rfl
  have hmem : p ∈ st ++ [p] := List.mem_append_right _ (.head _)
  refine .chain (keeps_save.pre
      fun w (h : At A a st st (· = st) (fun _ => False) w) => ⟨h, h.enter hid hp ha⟩)
    (fun _ w _ h => h.answered fun _ hf => hf.2) fun _ => ?_
  refine .attemptBind (keeps_installRules hmem (.inr ⟨false, ha⟩) id) fun r => ?_
  cases r with
  | error e => exact keeps_retire hmem hfor e
  | ok _ =>
    refine .attemptBind (keeps_quiet (scheduleExpiry_quiet p)) fun r => ?_
    cases r with
    | error e => exact keeps_retire hmem hfor _
    | ok _ => exact .ret fun w _ h => h.answered_ok ()

/-- The call for `p` when the file has `st`. -/
def pendingIn (st : List Policy) (p : Policy) : Pending := ⟨p.id, st.any fun q => q.id == p.id⟩

theorem marks_pendingIn : Marks (some (pendingIn st p)) st := by
  intro x hx hknown q hq hqid
  cases hx
  have hno := List.any_eq_false.mp hknown q hq
  exact absurd (beq_iff_eq.mpr hqid) hno

theorem keeps_applyScan (hp : A.truthful → p.Plain) {seen rest : List Policy}
    (hst : st = seen ++ rest) (hseen : ∀ q ∈ seen, q.id ≠ p.id) :
    Keeps A cfg ok (At A (some (pendingIn st p)) st st (· = st) (fun _ => False))
      (applyScan cfg st p rest) (Answered A (some (pendingIn st p))) := by
  induction rest generalizing seen with
  | nil =>
    rw [List.append_nil] at hst
    subst hst
    refine keeps_applyNew hseen hp ?_
    have hno : (st.any fun q => q.id == p.id) = false := by
      refine List.any_eq_false.mpr fun q hq h => hseen q hq (beq_iff_eq.mp h)
    rw [pendingIn, hno]
  | cons old rest ih =>
    have hold : old ∈ st := hst ▸ List.mem_append_right _ (.head _)
    have hnext : ¬ old.id = p.id → Keeps A cfg ok
        (At A (some (pendingIn st p)) st st (· = st) (fun _ => False))
        (applyScan cfg st p rest) (Answered A (some (pendingIn st p))) := by
      intro hne
      have hst' : st = (seen ++ [old]) ++ rest := by rw [hst, List.append_assoc]; rfl
      refine ih hst' fun q hq => ?_
      rcases List.mem_append.mp hq with hq | hq
      · exact hseen q hq
      · rwa [List.mem_singleton.mp hq]
    unfold applyScan
    split
    · rename_i heq
      refine keeps_applyAgain hold ?_
      have hyes : (st.any fun q => q.id == p.id) = true :=
        List.any_eq_true.mpr ⟨old, hold, beq_iff_eq.mpr heq⟩
      rw [pendingIn, hyes, heq]
    · rename_i hne
      split
      · refine .seq (keeps_quiet (.perform trivial)) ?_ fun t => ?_
        · exact fun _ w _ h => h.answered fun f hf _ => hf ▸ marks_pendingIn
        · split
          · exact .ret fun w _ h => h.answered fun f hf _ => hf ▸ marks_pendingIn
          · exact hnext hne
      · exact hnext hne

theorem keeps_apply (hp : A.truthful → p.Plain) :
    Keeps A cfg ok (At A (some (pendingIn st p)) st st (· = st) (fun _ => False))
      (apply cfg p) (Answered A (some (pendingIn st p))) := by
  refine .seq (keeps_quiet (validatePolicy_quiet p)) ?_ fun _ => ?_
  · exact fun _ w _ h => h.answered fun f hf _ => hf ▸ marks_pendingIn
  · have hst : st = [] ++ st := rfl
    refine keeps_load (keeps_applyScan hp hst nofun) ?_
    exact fun _ w h _ => h.answered fun f hf _ => hf ▸ marks_pendingIn

theorem For.none : For none id := nofun

theorem keeps_persistMark (hp : p ∈ st) :
    Keeps A cfg ok (At A none st keep F G) (persistMark st p)
      (ends (fun st' w => At A none st' [] (fun _ => True) G w ∧ p.marked ∈ st')
        (fun _ w => w.applying = none)) := by
  intro w hw
  obtain ⟨st', hst', hr⟩ := replacePolicy_spec p.marked hw.good.nodup hp rfl
  have hat : ∀ w, At A none st keep F G w → At A none st' [] F G w ∧ At A none st' [] F G w := by
    intro w h
    have hnone : At A none st [] F G w :=
      h.mono nofun (fun _ hf => hf) (fun _ hid => hid)
    have hmark := hnone.mark hr hp nofun
    exact ⟨hmark, hmark⟩
  unfold persistMark
  rw [hst']
  refine (Triple.mapErr ?_) w hw
  show Keeps A cfg ok _ (save st' >>= fun _ => pure st' : HostProc (List Policy)) _
  refine .chain (keeps_save.pre hat) (fun e w _ h => h.applying) fun _ => ?_
  exact .ret fun w _ h =>
    ⟨h.mono nofun (fun _ _ => trivial) (fun _ hid => hid), hr.self⟩

theorem keeps_cleanup (hp : p ∈ st) {f : List Policy → HostProc Unit}
    (hf : ∀ st', Keeps A cfg ok (fun w => w.applying = none) (f st')
      (fun _ w => w.applying = none)) :
    Keeps A cfg ok (At A none st keep F G)
      (persistMark st p >>= fun st => removeRules p.marked >>= fun _ =>
        deletePolicy st p.id >>= f : HostProc Unit) (fun _ w => w.applying = none) := by
  refine .chain (keeps_persistMark hp) (fun _ _ _ h => h) fun st' => .given fun hp' => ?_
  refine .chain (keeps_removeRules p.marked) (fun _ _ _ h => h.1.applying) fun _ => ?_
  refine .chain (keeps_deletePolicy hp' nofun For.none) (fun _ _ _ h => h.applying) fun st'' => ?_
  exact (hf st'').pre fun w h => h.applying

theorem find?_id (h : st.find? (fun q => q.id == id) = some p) : p ∈ st ∧ p.id = id :=
  ⟨List.mem_of_find?_eq_some h, by simpa using List.find?_some h⟩

theorem keeps_release (id vmId instanceId : String) :
    Keeps A cfg ok (At A none st st (· = st) G) (release cfg id vmId instanceId)
      (fun _ w => w.applying = none) := by
  unfold release
  split
  · exact .ret fun w _ h => h.applying
  · split
    · exact .ret fun w _ h => h.applying
    · refine keeps_load ?_ fun _ w h _ => h.applying
      cases hfind : st.find? fun q => q.id == id with
      | none => exact .ret fun w _ h => h.applying
      | some p =>
        obtain ⟨hp, rfl⟩ := find?_id hfind
        dsimp only
        split
        · exact .ret fun w _ h => h.applying
        · refine keeps_cleanup hp fun _ => .of_uses ?_
          refine uses_bind (uses_attempt (.perform ?_)) fun _ => trivial
          exact fun w i _ hw _ _ => ⟨may_self.mpr trivial, hw⟩

theorem keeps_expire (id : String) :
    Keeps A cfg ok (At A none st st (· = st) G) (expire id) (fun _ w => w.applying = none) := by
  unfold expire
  split
  · exact .ret fun w _ h => h.applying
  · refine keeps_load ?_ fun _ w h _ => h.applying
    cases hfind : st.find? fun q => q.id == id with
    | none => exact .ret fun w _ h => h.applying
    | some p =>
      obtain ⟨hp, rfl⟩ := find?_id hfind
      exact keeps_cleanup hp fun _ => .ret fun w _ h => h

end Calls

end RunmanAgent.GoAgent.Limits
