import RunmanAgent.Runtime.DeleteForwards

/-!
# The limit on port forwards

`LimitedForwards::add` lists the rules of the instance, checks the limit, and hands the rule to
the runtime, under a lock that serializes adds. The limiter and the runtime do not agree on what a
replay is: the limiter compares whole rules, with their descriptions, and the runtime leaves the
description out. At the limit, a rule that is sent again with another description is refused,
although the runtime has it. And removes do not take the lock of the adds: a replay that has
passed the check is inserted as a new rule if the rule is removed meanwhile, which exceeds a
limit that has been lowered (`limit_inexact`). Where neither happens the limit is exact
(`limit_exact`).
-/

namespace RunmanAgent

open Concurrency Proc

/-- The rule that a command adds. -/
def Op.added : Op → Option PortForward
  | .setPortFwd rule => some rule
  | _ => none

/-- The runtime takes the rule for `f`: with `f` in the table, `add` succeeds without a change. -/
def PortForward.Same (f rule : PortForward) : Prop :=
  f.vmId = rule.vmId ∧ f.proto = rule.proto ∧ f.hostPort = rule.hostPort ∧
    f.guestPort = rule.guestPort

instance (f rule : PortForward) : Decidable (f.Same rule) := inferInstanceAs (Decidable (_ ∧ _))

def rulesOf (id : VmId) (fs : List PortForward) : List PortForward :=
  fs.filter fun f => f.vmId = id

section Steps

variable (ops : Pid → Op) (limit : Pid → Nat) (resent : Pid → Bool)

/-- Names for what the adds read: `limit p` is the limit that `p` reads, and when `p` is one of
`resent` the table then has a rule that the runtime takes for the one of `p`. -/
def LimitReads (p : Pid) (e : Act) (w : World) (i : Oracle) : Prop :=
  match e with
  | .query .maxForwards => i.now = limit p ∧
      (resent p = true → ∀ rule ∈ (ops p).added, ∃ f ∈ w.forwards, f.Same rule)
  | _ => True

/-- When an add at the limit reads the table, its rule is there with its own description or not at
all; and while an add is under way, its rule is not removed from an instance that has more rules
than the limit. -/
def Undisturbed (p : Pid) (e : Act) (w : World) : Prop :=
  match e with
  | .query .forwards => ∀ rule ∈ (ops p).added, limit p ≠ 0 →
      limit p ≤ (rulesOf rule.vmId w.forwards).length →
      ∀ f ∈ w.forwards, f.Same rule → f = rule
  | .setForwards next => (ops p).added = none → ∀ q ∈ w.locks .adding, ∀ rule ∈ (ops q).added,
      limit q ≠ 0 → rule ∈ w.forwards → rule ∉ next →
      (rulesOf rule.vmId w.forwards).length ≤ limit q
  | _ => True

instance (p : Pid) (e : Act) (w : World) (i : Oracle) :
    Decidable (LimitReads ops limit resent p e w i) := by
  unfold LimitReads
  split <;> infer_instance

instance (p : Pid) (e : Act) (w : World) : Decidable (Undisturbed ops limit p e w) := by
  unfold Undisturbed
  split <;> infer_instance

def LimitSteps (p : Pid) (e : Act) (w : World) (i : Oracle) : Prop :=
  LimitReads ops limit resent p e w i ∧ Undisturbed ops limit p e w

instance (p : Pid) (e : Act) (w : World) (i : Oracle) :
    Decidable (LimitSteps ops limit resent p e w i) := inferInstanceAs (Decidable (_ ∧ _))

/-! ## Permissions -/

/-- The table is changed under its lock: an add appends its rule under the lock of the adds, below
the limit; everyone else only removes. An add of `resent` does not answer with the limit. -/
def LimitDuty (p : Pid) (e : Act) (w : World) : Prop :=
  match e with
  | .setForwards next => Holds p .forwards w ∧
      match (ops p).added with
      | none => next.Sublist w.forwards
      | some rule => Holds p .adding w ∧ next = w.forwards ++ [rule] ∧
          (limit p ≠ 0 → (rulesOf rule.vmId w.forwards).length < limit p)
  | .reply r => resent p = true → (ops p).added.isSome = true →
      ∀ id n m, r ≠ .error (.forwardLimit id n m)
  | _ => True

def limitDiscipline : Discipline agent where
  inv _ := True
  may := LimitDuty ops limit resent
  ok := LimitSteps ops limit resent
  keeps _ _ _ _ := trivial

end Steps

section Code

variable {ops : Pid → Op} {limit : Pid → Nat} {resent : Pid → Bool} {me : Pid} {α : Type}

abbrev Limits (ops : Pid → Op) (limit : Pid → Nat) (resent : Pid → Bool) (me : Pid)
    (P : World → Prop) (x : Prog World Oracle Act α) (Q : α → World → Prop) : Prop :=
  Triple (limitDiscipline ops limit resent) (LimitDuty ops limit resent) me P x Q

/-- What `me` knows that its own steps keep, unless they change the table or release the lock of
the adds. -/
class LimitFrame (ops : Pid → Op) (limit : Pid → Nat) (resent : Pid → Bool) (me : Pid)
    (X : World → Prop) : Prop extends Stable (limitDiscipline ops limit resent) me X where
  own : ∀ {e : Act} {w : World} {i : Oracle}, e ≠ .release .adding →
    (∀ next, e ≠ .setForwards next) → X w → X (e.apply me w i)

instance limitFrame_true : LimitFrame ops limit resent me (fun _ => True) where
  own _ _ _ := trivial

variable {e : Act} {w : World} {fs gs : List PortForward} {X : World → Prop}
  {existing : List PortForward}

theorem forwards_apply {i : Oracle} {p : Pid} (he : ∀ next, e ≠ .setForwards next) :
    (e.apply p w i).forwards = w.forwards := by
  rcases e.apply_forwards p w i with h | ⟨next, h, -⟩
  · exact h
  · exact absurd h (he next)

theorem stable_forwards (fs : List PortForward) :
    Stable (limitDiscipline ops limit resent) me
      (fun w => Holds me .forwards w ∧ w.forwards = fs) where
  keep := by
    rintro w _ ⟨hk, hf⟩ ⟨p, e, i, hne, -, hen, hd, -⟩
    refine ⟨Act.apply_locks_of_ne hne hen hk, Eq.trans ?_ hf⟩
    rcases e.apply_forwards p w i with h | ⟨next, rfl, -⟩
    · exact h
    · exact absurd (Option.some.inj (hd.1.symm.trans hk)) hne

/-- While `me` holds the lock of the adds, the others only remove rules, and not a rule that `me`
adds if that leaves the instance at the limit. -/
theorem removes_of_ne {p : Pid} {i : Oracle} (hne : p ≠ me) (hd : LimitDuty ops limit resent p e w)
    (hok : Undisturbed ops limit p e w) (hk : Holds me .adding w) :
    (e.apply p w i).forwards.Sublist w.forwards ∧
      ∀ rule ∈ (ops me).added, limit me ≠ 0 → rule ∈ w.forwards →
        rule ∉ (e.apply p w i).forwards → (rulesOf rule.vmId w.forwards).length ≤ limit me := by
  rcases e.apply_forwards p w i with h | ⟨next, rfl, h⟩
  · rw [h]
    exact ⟨List.Sublist.refl _, fun rule _ _ hin hout => absurd hin hout⟩
  · rw [h]
    obtain ⟨-, hchange⟩ := hd
    cases hadd : (ops p).added with
    | none =>
      rw [hadd] at hchange
      exact ⟨hchange, hok hadd me hk⟩
    | some rule =>
      rw [hadd] at hchange
      exact absurd (Option.some.inj (hchange.1.symm.trans hk)) hne

theorem rulesOf_sublist (id : VmId) (h : fs.Sublist gs) :
    (rulesOf id fs).Sublist (rulesOf id gs) := h.filter _

theorem length_rulesOf_lt {rule : PortForward} (h : fs.Sublist gs) (hin : rule ∈ gs)
    (hout : rule ∉ fs) : (rulesOf rule.vmId fs).length < (rulesOf rule.vmId gs).length := by
  refine lt_of_le_of_ne (rulesOf_sublist _ h).length_le fun hlen => hout ?_
  have heq := (rulesOf_sublist rule.vmId h).eq_of_length hlen
  have hmem : rule ∈ rulesOf rule.vmId gs := List.mem_filter.mpr ⟨hin, by simp⟩
  rw [← heq] at hmem
  exact List.mem_of_mem_filter hmem

/-- The rule is in the table, or there is room for it. -/
def Room (rule : PortForward) (max : Nat) (fs : List PortForward) : Prop :=
  rule ∈ fs ∨ (rulesOf rule.vmId fs).length < max

theorem Room.sublist {rule : PortForward} {max : Nat} (h : Room rule max gs) (hsub : fs.Sublist gs)
    (hlost : rule ∈ gs → rule ∉ fs → (rulesOf rule.vmId gs).length ≤ max) : Room rule max fs := by
  by_cases hin : rule ∈ fs
  · exact .inl hin
  · rcases h with h | h
    · exact .inr (lt_of_lt_of_le (length_rulesOf_lt hsub h hin) (hlost h hin))
    · exact .inr (lt_of_le_of_lt (rulesOf_sublist _ hsub).length_le h)

/-- The add `me` has listed the rules of the instance as `existing`; the table has no others, and
if the rule was among them there is room for it. -/
structure Listed (limit : Pid → Nat) (me : Pid) (rule : PortForward)
    (existing : List PortForward) (w : World) : Prop where
  holds : Holds me .adding w
  rules : (rulesOf rule.vmId w.forwards).Sublist existing
  room : limit me ≠ 0 → rule ∈ existing → Room rule (limit me) w.forwards

/-- The check has passed. -/
structure Allowed (limit : Pid → Nat) (me : Pid) (rule : PortForward) (w : World) : Prop where
  holds : Holds me .adding w
  room : limit me ≠ 0 → Room rule (limit me) w.forwards

variable {rule : PortForward}

instance limitFrame_holds : LimitFrame ops limit resent me (Holds me .adding) where
  own hrel _ h := holds_apply hrel h

theorem limitFrame_listed (hop : ops me = .setPortFwd rule) (existing : List PortForward) :
    LimitFrame ops limit resent me (Listed limit me rule existing) where
  keep := by
    rintro w _ h ⟨p, e, i, hne, -, hen, hd, hok⟩
    obtain ⟨hsub, hlost⟩ := removes_of_ne (i := i) hne hd hok.2 h.holds
    refine ⟨Act.apply_locks_of_ne hne hen h.holds, (rulesOf_sublist _ hsub).trans h.rules,
      fun hlimit hin => (h.room hlimit hin).sublist hsub (hlost rule ?_ hlimit)⟩
    rw [hop]
    rfl
  own hrel hset h := by
    refine ⟨holds_apply hrel h.holds, ?_, ?_⟩
    · rw [forwards_apply hset]
      exact h.rules
    · rw [forwards_apply hset]
      exact h.room

theorem limitFrame_allowed (hop : ops me = .setPortFwd rule) :
    LimitFrame ops limit resent me (Allowed limit me rule) where
  keep := by
    rintro w _ h ⟨p, e, i, hne, -, hen, hd, hok⟩
    obtain ⟨hsub, hlost⟩ := removes_of_ne (i := i) hne hd hok.2 h.holds
    refine ⟨Act.apply_locks_of_ne hne hen h.holds,
      fun hlimit => (h.room hlimit).sublist hsub (hlost rule ?_ hlimit)⟩
    rw [hop]
    rfl
  own hrel hset h := by
    refine ⟨holds_apply hrel h.holds, ?_⟩
    rw [forwards_apply hset]
    exact h.room

/-! ## Code under the forwards lock -/

/-- The table is `fs`, and `me` holds its lock. -/
structure Locked (me : Pid) (fs : List PortForward) (X : World → Prop) (w : World) : Prop where
  holds : Holds me .forwards w
  table : w.forwards = fs
  frame : X w

section Frame

variable [hX : LimitFrame ops limit resent me X]

instance stable_locked (fs : List PortForward) :
    Stable (limitDiscipline ops limit resent) me (Locked me fs X) where
  keep w w' h ho := by
    obtain ⟨hk, hf⟩ := (stable_forwards fs).keep w w' ⟨h.holds, h.table⟩ ho
    exact ⟨hk, hf, hX.keep w w' h.frame ho⟩

theorem fine_locked (hadd : e ≠ .release .adding)
    (hrel : e ≠ .release .forwards) (hset : ∀ next, e ≠ .setForwards next)
    (hd : ∀ w, LimitDuty ops limit resent me e w) :
    Fine (limitDiscipline ops limit resent) (LimitDuty ops limit resent) me (Locked me fs X) e :=
  fun w _ _ h _ _ => ⟨hd w, holds_apply hrel h.holds, (forwards_apply hset).trans h.table,
    hX.own hadd hset h.frame⟩

theorem rulesetActs_locked (fs : List PortForward) :
    RulesetActs (Fine (limitDiscipline ops limit resent) (LimitDuty ops limit resent) me
      (Locked me fs X)) where
  query _ := fine_locked (by simp) (by simp) (by simp) fun _ => trivial
  nft _ := fine_locked (by simp) (by simp) (by simp) fun _ => trivial

theorem limits_replaceForwards (rt : Runtime) {next : List PortForward}
    (hnext : ∀ w, Locked me fs X w → LimitDuty ops limit resent me (.setForwards next) w) :
    Limits ops limit resent me (Locked me fs X) (rt.replaceForwards next) (fun _ _ => True) := by
  refine .seq (Triple.of_uses (uses_applyNetwork (rulesetActs_locked fs) rt next))
    (fun _ _ _ _ => trivial) fun _ => ?_
  refine .seq (R := Locked me fs X) (Triple.of_uses (uses_act ?_))
    (fun _ _ _ _ => trivial) fun _ => ?_
  · exact fine_locked (by simp) (by simp) (by simp) fun _ => trivial
  · exact .perform fun w i _ h _ _ => ⟨hnext w h, trivial⟩

theorem limits_withForwards {S : List PortForward → Prop} {R : Except Err α → World → Prop}
    {f : List PortForward → Agent α} [∀ r, Stable (limitDiscipline ops limit resent) me (R r)]
    (hS : ∀ w, Undisturbed ops limit me (.query .forwards) w → S w.forwards)
    (hf : ∀ fs, S fs → Limits ops limit resent me (Locked me fs X) (f fs) R)
    (hrel : ∀ r w i, R r w → R r ((Act.release .forwards).apply me w i)) :
    Limits ops limit resent me X (Runtime.withForwards f) R := by
  refine .bracket (B := fun w => Holds me .forwards w ∧ X w) ?_ (R := R) ?_ (fun r => ?_)
  · refine .perform fun w i _ hw _ _ => ⟨trivial, ?_, ?_⟩
    · simp [Act.apply, Act.check, Act.perform, Holds]
    · exact hX.own (e := .acquire .forwards) (i := i) (by simp) (by simp) hw
  · refine .procBind (R := fun fs w => Locked me fs X w ∧ S fs) ?_ fun fs => .given (hf fs)
    exact .perform fun w i _ h _ hok => ⟨trivial, ⟨h.1, rfl, h.2⟩, hS w hok.2⟩
  · exact .perform fun w i _ h _ _ => ⟨trivial, hrel r w i h⟩

end Frame

/-! ## Removes -/

theorem limits_retain (hop : (ops me).added = none) (rt : Runtime) (keep : PortForward → Bool) :
    Limits ops limit resent me (fun _ => True) (Runtime.withForwards (rt.retainLocked keep))
      (fun _ _ => True) := by
  refine limits_withForwards (S := fun _ => True) (fun _ _ => trivial) (fun fs _ => ?_)
    fun _ _ _ _ => trivial
  unfold Runtime.retainLocked
  dsimp only
  split
  · exact .ret fun _ _ _ => trivial
  · refine limits_replaceForwards rt fun w h => ⟨h.holds, ?_⟩
    rw [hop, h.table]
    exact List.filter_sublist

theorem limits_free (hop : (ops me).added = none) : FreeDuty (LimitDuty ops limit resent) me := by
  intro e w he
  cases e with
  | query | acquire | release | nft => trivial
  | reply r =>
    intro _ hadded
    rw [hop] at hadded
    cases hadded
  | _ => exact he.elim

theorem limits_deleteVm (hop : (ops me).added = none) (rt : Runtime) (id : VmId) :
    Limits ops limit resent me (fun _ => True) (rt.deleteVm id) (fun _ _ => True) := by
  have hfine : ∀ e : Act, e ≠ .release (.vm id) →
      (∀ w, LimitDuty ops limit resent me e w) →
      Fine (limitDiscipline ops limit resent) (LimitDuty ops limit resent) me
        (Holds me (.vm id)) e := fun e he hd => fine_holds he fun w _ _ => hd w
  have hacts : RemovalActs (Fine (limitDiscipline ops limit resent)
      (LimitDuty ops limit resent) me (Holds me (.vm id))) id :=
    { netActs_holds (limits_free hop) with
      killCt := hfine _ (by simp) fun _ => trivial
      terminate := hfine _ (by simp) fun _ => trivial
      removePid := hfine _ (by simp) fun _ => trivial
      systemdRun := hfine _ (by simp) fun _ => trivial
      unlink := fun _ => hfine _ (by simp) fun _ => trivial
      rmdir := hfine _ (by simp) fun _ => trivial }
  refine triple_bracket (limits_free hop) ?_
  exact .seq (triple_delete (limits_free hop) hacts rt) fun _ => limits_retain hop rt _

/-! ## Adds -/

/-- What the list tells about a rule that is sent again. -/
def Resendable (limit : Pid → Nat) (me : Pid) (rule : PortForward)
    (existing : List PortForward) : Prop :=
  limit me ≠ 0 → limit me ≤ existing.length → ∀ f ∈ existing, f.Same rule → f = rule

/-- The list that an add has read. -/
structure Existing (limit : Pid → Nat) (me : Pid) (rule : PortForward)
    (existing : List PortForward) (w : World) : Prop extends Listed limit me rule existing w where
  own : rulesOf rule.vmId existing = existing
  resendable : Resendable limit me rule existing

theorem limitFrame_existing (hop : ops me = .setPortFwd rule) (existing : List PortForward) :
    LimitFrame ops limit resent me (Existing limit me rule existing) := by
  have hX : LimitFrame ops limit resent me (Listed limit me rule existing) :=
    limitFrame_listed hop existing
  exact
    { keep := fun w w' h ho => ⟨hX.keep w w' h.toListed ho, h.own, h.resendable⟩
      own := fun hrel hset h => ⟨hX.own hrel hset h.toListed, h.own, h.resendable⟩ }

theorem limits_listForwards (hop : ops me = .setPortFwd rule) :
    Limits ops limit resent me (Holds me .adding) (listForwards (some rule.vmId))
      (ends (Existing limit me rule) (fun _ _ => False)) := by
  have hX : ∀ existing, LimitFrame ops limit resent me (Existing limit me rule existing) :=
    limitFrame_existing hop
  refine limits_withForwards (S := fun fs => Resendable limit me rule (rulesOf rule.vmId fs))
    (fun w hread => ?_) (fun fs hresend => ?_) fun r w i h => ?_
  · intro hlimit hfull f hf
    exact hread rule (by rw [hop]; rfl) hlimit hfull f (List.mem_of_mem_filter hf)
  · refine .ret fun w _ h => ?_
    refine ⟨⟨h.frame, ?_, fun _ hin => .inl ?_⟩, List.filter_filter.trans (by simp), hresend⟩
    · rw [h.table]
      exact List.Sublist.refl _
    · rw [h.table]
      exact List.mem_of_mem_filter hin
  · cases r with
    | ok existing =>
      exact (hX existing).own (e := .release .forwards) (i := i) (by simp) (by simp) h
    | error e => exact h

theorem checkForwardLimit_eq_ok {max : Nat} :
    checkForwardLimit existing rule max = .ok () ↔
      max = 0 ∨ rule ∈ existing ∨ (rulesOf rule.vmId existing).length < max := by
  unfold checkForwardLimit rulesOf
  split
  · rename_i h
    rcases h with h | h
    · simp [h]
    · simp [h]
  · rename_i h
    obtain ⟨hmax, hout⟩ := not_or.mp h
    dsimp only
    split
    · rename_i hle
      simp [hmax, hout, hle]
    · rename_i hle
      simp [hmax, hout, not_le.mp hle]

theorem Existing.check_of_same {f : PortForward} (h : Existing limit me rule existing w)
    (hf : f ∈ existing) (hsame : f.Same rule) :
    checkForwardLimit existing rule (limit me) = .ok () := by
  refine checkForwardLimit_eq_ok.mpr (or_iff_not_imp_left.mpr fun hlimit => ?_)
  rw [h.own]
  refine or_iff_not_imp_right.mpr fun hfull => ?_
  rwa [← h.resendable hlimit (not_lt.mp hfull) f hf hsame]

theorem Existing.allowed (h : Existing limit me rule existing w)
    (hcheck : checkForwardLimit existing rule (limit me) = .ok ()) : Allowed limit me rule w := by
  refine ⟨h.holds, fun hlimit => ?_⟩
  rcases (checkForwardLimit_eq_ok.mp hcheck).resolve_left hlimit with hin | hlt
  · exact h.room hlimit hin
  · rw [h.own] at hlt
    exact .inr (lt_of_le_of_lt h.rules.length_le hlt)

theorem limits_addLocked (hop : ops me = .setPortFwd rule) (rt : Runtime)
    (fs : List PortForward) :
    Limits ops limit resent me (Locked me fs (Allowed limit me rule)) (rt.addLocked rule fs)
      (fun _ _ => True) := by
  have hX : LimitFrame ops limit resent me (Allowed limit me rule) := limitFrame_allowed hop
  unfold Runtime.addLocked
  split
  · split <;> exact .ret fun _ _ _ => trivial
  · rename_i hfind
    -- the rule is not in the table, so there is room for it
    have hnew : rule ∉ fs := fun hin => by
      have := List.find?_eq_none.mp hfind rule hin
      simp at this
    refine .seq (Triple.of_uses (.perform ?_)) (fun _ _ _ _ => trivial) fun listening => ?_
    · exact fine_locked (by simp) (by simp) (by simp) fun _ => trivial
    split
    · exact .ret fun _ _ _ => trivial
    · refine limits_replaceForwards rt fun w h => ⟨h.holds, ?_⟩
      rw [hop, h.table]
      refine ⟨h.frame.holds, rfl, fun hlimit => ?_⟩
      have hroom := h.frame.room hlimit
      rw [h.table] at hroom
      exact hroom.resolve_left hnew

theorem fails_add (rt : Runtime) :
    Proc.Fails (fun e => ∀ id n m, e ≠ .forwardLimit id n m) (rt.add rule) := by
  have hio : ∀ text, ∀ id n m, Err.io text ≠ .forwardLimit id n m := nofun
  refine fails_bind (fails_bind (fails_load hio _) fun r => ?_) fun _ => ?_
  · cases r with
    | some rec => exact fails_pure rec
    | none => exact fails_fail nofun
  · refine fails_bracket (fails_bind fails_read fun fs => ?_)
    unfold Runtime.addLocked
    split
    · split
      · exact fails_pure ()
      · exact fails_fail nofun
    · refine fails_bind fails_read fun listening => ?_
      split
      · exact fails_fail nofun
      · exact fails_replaceForwards hio rt _

theorem limits_add (hop : ops me = .setPortFwd rule) (rt : Runtime) :
    Limits ops limit resent me (Allowed limit me rule) (rt.add rule)
      (fun r _ => ∀ id n m, r ≠ .error (.forwardLimit id n m)) := by
  have hX : LimitFrame ops limit resent me (Allowed limit me rule) := limitFrame_allowed hop
  have hadd : Limits ops limit resent me (Allowed limit me rule) (rt.add rule)
      (fun _ _ => True) := by
    refine .seq (Triple.of_uses (uses_require (fun q => ?_) rule.vmId))
      (fun _ _ _ _ => trivial) fun _ => ?_
    · exact fun w i _ h _ _ => ⟨trivial, hX.own (e := .query q) (i := i) (by simp) (by simp) h⟩
    · exact limits_withForwards (S := fun _ => True) (fun _ _ => trivial)
        (fun fs _ => limits_addLocked hop rt fs) fun _ _ _ _ => trivial
  refine (hadd.yields (fails_add rt)).post fun r w _ h id n m heq => ?_
  exact h.2 _ heq id n m rfl

theorem limits_limitedAdd (hop : ops me = .setPortFwd rule) (rt : Runtime) :
    Limits ops limit resent me (fun _ => True) (limitedAdd rt rule)
      (fun r _ => resent me = true → ∀ id n m, r ≠ .error (.forwardLimit id n m)) := by
  refine .bracket (B := Holds me .adding) ?_
    (R := fun r _ => resent me = true → ∀ id n m, r ≠ .error (.forwardLimit id n m)) ?_
    (fun r => ?_)
  · refine .perform fun w i _ _ _ _ => ⟨trivial, ?_⟩
    simp [Act.apply, Act.check, Act.perform, Holds]
  · refine .step (limits_listForwards hop) fun existing => ?_
    have hX : LimitFrame ops limit resent me (Existing limit me rule existing) :=
      limitFrame_existing hop existing
    refine .step (R := fun max w => Existing limit me rule existing w ∧ max = limit me ∧
      (resent me = true → ∃ f ∈ existing, f.Same rule)) ?_ fun max => .given fun hmax => ?_
    · refine .perform fun w i _ h _ hok => ?_
      obtain ⟨hmax, hresent⟩ := hok.1
      refine ⟨trivial, h, hmax, fun hme => ?_⟩
      obtain ⟨f, hf, hsame⟩ := hresent hme rule (by rw [hop]; rfl)
      exact ⟨f, h.rules.subset (List.mem_filter.mpr ⟨hf, by simp [hsame.1]⟩), hsame⟩
    · obtain ⟨rfl, hresent⟩ := hmax
      cases hcheck : checkForwardLimit existing rule (limit me) with
      | error e =>
        refine .ret (a := Except.error e) fun w _ h hme => ?_
        obtain ⟨f, hf, hsame⟩ := hresent hme
        exact absurd (hcheck.symm.trans (h.check_of_same hf hsame)) (by simp)
      | ok _ =>
        have hadd : Limits ops limit resent me (Allowed limit me rule) (rt.add rule)
            (fun r _ => resent me = true → ∀ id n m, r ≠ .error (.forwardLimit id n m)) :=
          (limits_add hop rt).post fun r w _ h _ => h
        exact .pre hadd fun w h => h.allowed hcheck
  · exact .perform fun w i _ h _ _ => ⟨trivial, h⟩

theorem limits_op (rt : Runtime) (hop : (ops me).isForwardCommand = true) :
    Limits ops limit resent me (fun _ => True) ((ops me).prog rt) (fun _ _ => True) := by
  have hremove : ∀ {x : Agent Unit}, (ops me).added = none →
      Limits ops limit resent me (fun _ => True) x (fun _ _ => True) →
      Limits ops limit resent me (fun _ => True) (replying x) (fun _ _ => True) :=
    fun hnone hx => .bind hx fun r =>
      triple_of_uses_free (limits_free hnone) (.perform trivial)
  cases hme : ops me with
  | idle => exact .ret fun _ _ _ => trivial
  | deleteVm id =>
    have hnone : (ops me).added = none := by rw [hme]; rfl
    exact hremove hnone (limits_deleteVm hnone rt id)
  | delPortFwd id proto hostPort =>
    have hnone : (ops me).added = none := by rw [hme]; rfl
    exact hremove hnone (limits_retain hnone rt _)
  | setPortFwd rule =>
    refine .bind (limits_limitedAdd hme rt) fun r => ?_
    refine .perform fun w i _ h _ _ => ?_
    exact ⟨fun hresent _ => h hresent, trivial⟩
  | host es => exact triple_host (fun _ => trivial) es
  | _ => rw [hme] at hop; cases hop

end Code

/-! ## Every run -/

/-- In every interleaving of adds and removes with undisturbed adds, whatever limits the adds
read: no add makes its instance exceed the limit, and an add for which the table has the rule when
the limit is read is not refused because of the limit. -/
theorem limit_exact (rt : Runtime) (w : World) (ops : Pid → Op) (limit : Pid → Nat)
    (resent : Pid → Bool) (hops : ∀ p, (ops p).isForwardCommand = true)
    {P : Pool World Oracle Act}
    (hrun : Pool.Run agent (LimitSteps ops limit resent) (agentPool rt w ops) P) {p : Pid}
    {rule : PortForward} (hp : ops p = .setPortFwd rule) :
    (∀ next nx, P.procs p = .act (.setForwards next) nx → limit p ≠ 0 →
      (rulesOf rule.vmId next).length ≤ limit p) ∧
    (resent p = true → ∀ id n m nx,
      P.procs p ≠ .act (.reply (.error (.forwardLimit id n m))) nx) := by
  have hsafe : (agentPool rt w ops).Safe (limitDiscipline ops limit resent) (fun _ _ _ => True) :=
    ⟨trivial, fun q => limits_op rt (hops q) w trivial⟩
  have hsafe := (Pool.run_safe hsafe hrun).safe p
  constructor
  · intro next nx hact hlimit
    rw [hact] at hsafe
    have hok : LimitSteps ops limit resent p (.setForwards next) P.mem {} := by
      refine ⟨trivial, fun hnone => ?_⟩
      rw [hp] at hnone
      cases hnone
    obtain ⟨⟨-, hduty⟩, -⟩ := hsafe P.mem .refl trivial {} rfl hok
    rw [hp] at hduty
    obtain ⟨-, rfl, hroom⟩ := hduty
    calc (rulesOf rule.vmId (P.mem.forwards ++ [rule])).length
        ≤ (rulesOf rule.vmId P.mem.forwards).length + 1 := by
          rw [rulesOf, List.filter_append, List.length_append]
          exact Nat.add_le_add_left (List.length_filter_le _ _) _
      _ ≤ limit p := hroom hlimit
  · intro hresent id n m nx hact
    rw [hact] at hsafe
    obtain ⟨hduty, -⟩ := hsafe P.mem .refl trivial {} rfl ⟨trivial, trivial⟩
    exact hduty hresent (by rw [hp]; rfl) id n m rfl

namespace SmallNode

/-- The rule with another description. -/
def renamed : PortForward := { ssh with description := "shell" }

def web : PortForward where
  vmId := vmA
  proto := .tcp
  hostPort := 8080
  guestPort := 80
  description := "web"

def forwarding (fs : List PortForward) : World := { unforwarded with forwards := fs }

/-- An add up to its check against the limit 1. -/
def untilChecked : List (Pid × Oracle) := steps 0 4 ++ [(0, { now := 1 })]

/-- An add that finds room for its rule. -/
theorem limit_exact_ssh : ∃ P : Pool World Oracle Act,
    Pool.Run agent (LimitSteps (one (.setPortFwd ssh)) (fun _ => 1) fun _ => false)
      (agentPool rt unforwarded (one (.setPortFwd ssh))) P ∧
    (P.procs 0).next = some (.setForwards [ssh]) ∧ (rulesOf vmA [ssh]).length ≤ 1 := by
  obtain ⟨P, hrun, hnext⟩ : ∃ P : Pool World Oracle Act,
      Pool.Run agent (LimitSteps (one (.setPortFwd ssh)) (fun _ => 1) fun _ => false)
        (agentPool rt unforwarded (one (.setPortFwd ssh))) P ∧
      (P.procs 0).next = some (.setForwards [ssh]) :=
    Pool.exists_run_eq (untilChecked ++ steps 0 9) rfl
  have hops : ∀ p, (one (.setPortFwd ssh) p).isForwardCommand = true := by
    intro p
    match p with
    | 0 | _ + 1 => rfl
  obtain ⟨hexceeds, -⟩ := limit_exact rt unforwarded (one (.setPortFwd ssh)) (fun _ => 1)
    (fun _ => false) hops hrun (p := 0) rfl
  refine ⟨P, hrun, hnext, ?_⟩
  cases hact : P.procs 0 with
  | ret a =>
    rw [hact] at hnext
    cases hnext
  | act e nx =>
    rw [hact] at hnext
    cases hnext
    exact hexceeds _ nx hact (by decide)

/-- At the limit, a rule that is sent again with another description is refused. And a replay
that has passed the check is inserted after a remove: the instance, which then had one rule, has
two although the limit is 1. -/
theorem limit_inexact :
    (∃ P : Pool World Oracle Act,
      Pool.Run agent anyStep (agentPool rt (forwarding [ssh]) (one (.setPortFwd renamed))) P ∧
      P.mem.forwards = [ssh] ∧ ssh.Same renamed ∧
      (P.procs 0).next = some (.reply (.error (.forwardLimit vmA 1 1)))) ∧
    ∃ P : Pool World Oracle Act,
      Pool.Run agent anyStep (agentPool rt (forwarding [ssh, web])
        (two (.setPortFwd ssh) (.delPortFwd vmA .tcp 2222))) P ∧
      P.mem.forwards = [web] ∧ (P.procs 0).next = some (.setForwards [web, ssh]) := by
  refine ⟨?_, ?_⟩
  · obtain ⟨P, hrun, hP⟩ : ∃ P : Pool World Oracle Act,
        Pool.Run agent anyStep (agentPool rt (forwarding [ssh]) (one (.setPortFwd renamed))) P ∧
        (P.mem.forwards, (P.procs 0).next) =
          ([ssh], some (.reply (.error (.forwardLimit vmA 1 1)))) :=
      Pool.exists_run_eq (untilChecked ++ steps 0 1) rfl
    obtain ⟨hforwards, hnext⟩ := Prod.mk.inj hP
    exact ⟨P, hrun, hforwards, by decide, hnext⟩
  · obtain ⟨P, hrun, hP⟩ : ∃ P : Pool World Oracle Act,
        Pool.Run agent anyStep (agentPool rt (forwarding [ssh, web])
          (two (.setPortFwd ssh) (.delPortFwd vmA .tcp 2222))) P ∧
        (P.mem.forwards, (P.procs 0).next) = ([web], some (.setForwards [web, ssh])) :=
      Pool.exists_run_eq (untilChecked ++ steps 1 10 ++ steps 0 9) rfl
    obtain ⟨hforwards, hnext⟩ := Prod.mk.inj hP
    exact ⟨P, hrun, hforwards, hnext⟩

end SmallNode

end RunmanAgent
