import RunmanAgent.HostPolicy.Manager

/-!
# Make before break

`reconcile_rfw` first finds or creates a rule for every desired key, and only then deletes
what is not selected. So a key that had a rule in RFW has one at every point of a call.
-/

namespace RunmanAgent.HostPolicy

open Concurrency Server

/-- A managed rule, with an id as described by `φ`, is in RFW and serves `rule`. -/
def Serving (managed : List ManagedRule) (rules : List RawRule) (rule : Rule)
    (φ : Int → Prop) : Prop :=
  ∃ m ∈ managed, m.key = rule.key ∧ m.fingerprint = fingerprint rule ∧ φ m.id ∧
    ∃ row ∈ rules, row.id = m.id ∧ (trimStr rule.ip = rule.ip → rawMatches row rule = true)

variable {a : Selection} {st : State} {rules : List RawRule} {rest : List Rule}

theorem Serving.mono {managed managed' : List ManagedRule} {rules' : List RawRule} {rule : Rule}
    {φ ψ : Int → Prop} (h : Serving managed rules rule φ)
    (hm : ∀ m ∈ managed, φ m.id → m ∈ managed') (hr : ∀ row ∈ rules, φ row.id → row ∈ rules')
    (hφ : ∀ id, φ id → ψ id) : Serving managed' rules' rule ψ := by
  obtain ⟨m, hmem, hkey, hfp, hid, row, hrow, heq, hmatch⟩ := h
  exact ⟨m, hm m hmem hid, hkey, hfp, hφ _ hid, row, hr row hrow (heq ▸ hid), heq, hmatch⟩

/-- Every rule that was managed and in RFW at the start, for a desired key, is still there,
or a rule for the desired specification is. -/
def Covered (w₀ w : World) : Prop :=
  ∀ rule ∈ w₀.mem.policy.rules, ∀ m ∈ w₀.mem.managedRules, m.key = rule.key →
    ∀ row ∈ w₀.rules, row.id = m.id →
      (m ∈ w.mem.managedRules ∧ row ∈ w.rules) ∨
        Serving w.mem.managedRules w.rules rule (fun _ => True)

/-- All desired rules are served. -/
def AllServed (w₀ : World) (managed : List ManagedRule) (rules : List RawRule)
    (φ : Int → Prop) : Prop :=
  ∀ rule ∈ w₀.mem.policy.rules, Serving managed rules rule φ

/-- Managed rules are forgotten, and rules deleted, only when all desired rules are served
by others. -/
def MakeDuty (w₀ : World) : Act → World → Prop
  | .setState st, w => (∀ m ∈ w.mem.managedRules, m ∈ st.managedRules) ∨
      AllServed w₀ st.managedRules w.rules (fun _ => True)
  | .delete _ id, w => AllServed w₀ w.mem.managedRules w.rules (· ≠ id)
  | .change _, _ => False
  | _, _ => True

variable {w₀ w : World} {i : Input} {e : Act}

theorem Covered.grow {w' : World} (h : Covered w₀ w)
    (hm : ∀ m ∈ w.mem.managedRules, m ∈ w'.mem.managedRules)
    (hr : ∀ row ∈ w.rules, row ∈ w'.rules) : Covered w₀ w' := by
  intro rule hrule m hmem hkey row hrow hid
  rcases h rule hrule m hmem hkey row hrow hid with ⟨h1, h2⟩ | h
  · exact .inl ⟨hm m h1, hr row h2⟩
  · exact .inr (h.mono (fun m hm' _ => hm m hm') (fun row hr' _ => hr row hr') fun _ h => h)

theorem AllServed.covered (h : AllServed w₀ w.mem.managedRules w.rules (fun _ => True)) :
    Covered w₀ w :=
  fun rule hrule _ _ _ _ _ _ => .inr (h rule hrule)

theorem AllServed.delete {managed : List ManagedRule} {rules : List RawRule} {id : Int}
    {φ : Int → Prop} (h : AllServed w₀ managed rules φ) (hφ : ∀ a, φ a → a ≠ id) :
    AllServed w₀ managed (rules.filter fun row => row.id != id) φ :=
  fun rule hrule => (h rule hrule).mono (fun _ hm _ => hm)
    (fun row hr hid => List.mem_filter.mpr ⟨hr, by simpa using hφ _ hid⟩) fun _ h => h

theorem Covered.apply (hw : Covered w₀ w) (h : MakeDuty w₀ e w) : Covered w₀ (w.apply i e) := by
  cases e with
  | setState st =>
    rcases h with hgrow | hserved
    · exact hw.grow hgrow fun _ hr => hr
    · exact AllServed.covered (w := { w with mem := st }) hserved
  | delete by_ id =>
    simp only [World.apply]
    split
    · refine AllServed.covered fun rule hrule => ?_
      exact ((AllServed.delete h fun _ ha => ha) rule hrule).mono (fun _ hm _ => hm)
        (fun _ hr _ => hr) fun _ _ => trivial
    · exact hw
  | post body =>
    refine hw.grow (fun _ hm => hm) fun row hr => ?_
    simp only [World.apply]
    split
    · exact List.mem_append_left _ hr
    · exact hr
  | change rules => exact h.elim
  | save | getRules =>
    simp only [World.apply]
    split <;> exact hw
  | _ => exact hw

def makeFirst (w₀ : World) : Discipline host :=
  (solo host).discipline (Covered w₀) (MakeDuty w₀) Rfw (fun hw hd _ => hw.apply hd)
    (fun he _ _ => he.elim)

instance make_stable {P : World → Prop} : Stable (makeFirst w₀) self P :=
  stable_of_others fun he _ _ _ => he.elim

/-! ## The first loop -/

/-- What the rules of RFW have to satisfy in the first loop: the rules before `rest` are
served by selected ones, and what is in the copy of the list and not selected is in RFW. -/
structure ServedSoFar (w₀ : World) (a : Selection) (rest : List Rule) (rules : List RawRule) :
    Prop where
  listed : ∀ row ∈ a.actual, row.id ∈ a.selected ∨ row ∈ rules
  served : ∃ before, w₀.mem.policy.rules = before ++ rest ∧
    ∀ rule ∈ before, Serving a.st.managedRules rules rule (· ∈ a.selected)

theorem ServedSoFar.grow {rules' : List RawRule} (h : ServedSoFar w₀ a rest rules)
    (hsub : ∀ row ∈ rules, row ∈ rules') : ServedSoFar w₀ a rest rules' := by
  obtain ⟨before, heq, hserved⟩ := h.served
  refine ⟨fun row hr => (h.listed row hr).imp_right (hsub row), before, heq, fun rule hrule => ?_⟩
  exact (hserved rule hrule).mono (fun _ hm _ => hm) (fun row hr _ => hsub row hr) fun _ h => h

theorem ServedSoFar.next {a' : Selection} {desired : Rule}
    (h : ServedSoFar w₀ a (desired :: rest) rules)
    (hm : ∀ m ∈ a.st.managedRules, m ∈ a'.st.managedRules)
    (hs : ∀ id ∈ a.selected, id ∈ a'.selected)
    (hl : ∀ row ∈ a'.actual, row ∈ a.actual ∨ row.id ∈ a'.selected)
    (hserve : Serving a'.st.managedRules rules desired (· ∈ a'.selected)) :
    ServedSoFar w₀ a' rest rules := by
  obtain ⟨before, heq, hserved⟩ := h.served
  refine ⟨fun row hr => ?_, before ++ [desired], by simp [heq], fun rule hrule => ?_⟩
  · rcases hl row hr with hr | hr
    · exact (h.listed row hr).imp_left (hs _)
    · exact .inl hr
  · rcases List.mem_append.mp hrule with hrule | hrule
    · exact (hserved rule hrule).mono (fun m hmem _ => hm m hmem) (fun _ hr _ => hr) hs
    · rwa [List.mem_singleton.mp hrule]

theorem make_createRule {desired : Rule} :
    Serves (makeFirst w₀)
      (fun w => w.mem = a.st ∧ ServedSoFar w₀ a rest w.rules) (createRule desired)
      (ends (fun id w => (w.mem = a.st ∧ ServedSoFar w₀ a rest w.rules) ∧
        (rfwPayload desired).stored id ∈ w.rules) (fun _ _ => True)) := by
  refine .chain (R := fun r w => (w.mem = a.st ∧ ServedSoFar w₀ a rest w.rules) ∧
    (success r.1 = true → (rfwPayload desired).stored (asI32 r.2.2) ∈ w.rules))
    (E := fun _ _ => True) (Triple.perform ?_)
    (fun _ _ _ _ => trivial) ?_
  · rintro w i - ⟨hmem, hsel⟩ - ⟨hfresh, hdone⟩
    refine ⟨may_self.mpr trivial, ?_⟩
    cases hr : i.reply with
    | error e => trivial
    | ok code =>
      have hrules : (w.apply i (.post (rfwPayload desired))).rules =
          if i.carried then w.rules ++ [(rfwPayload desired).stored i.id] else w.rules := rfl
      refine ⟨⟨hmem, hsel.grow fun row hrow => ?_⟩, fun hs => ?_⟩
      · show row ∈ (w.apply i (.post (rfwPayload desired))).rules
        rw [hrules]
        split
        · exact List.mem_append_left _ hrow
        · exact hrow
      · have hc : i.carried = true := hdone (by rw [hr]; exact hs)
        obtain ⟨hpos, hlt, -⟩ := hfresh hc
        show _ ∈ (w.apply i (.post (rfwPayload desired))).rules
        rw [hrules, if_pos hc, show asI32 (code, i.body, i.id).2.2 = i.id from asI32_of_lt hpos hlt]
        simp
  · rintro ⟨code, body, id⟩
    dsimp only
    split
    · exact .ret fun _ _ _ => trivial
    · rename_i hs
      split
      · exact .ret fun _ _ _ => trivial
      · exact .ret fun w _ hw => ⟨hw.1, hw.2 (by simpa using hs)⟩

theorem make_record {α : Type} {f : HostProc α} {K : List RawRule → Prop} {P : State → Prop}
    {Q : α → World → Prop} (hduty : ∀ w, P w.mem → K w.rules → MakeDuty w₀ (.setState st) w)
    (hf : Serves (makeFirst w₀) (fun w => w.mem = st ∧ K w.rules) f (ends Q (fun _ _ => True))) :
    Serves (makeFirst w₀) (fun w => P w.mem ∧ K w.rules)
      (do setState st; save st; f : HostProc α) (ends Q (fun _ _ => True)) := by
  refine .seq (R := fun w => w.mem = st ∧ K w.rules) (Triple.perform fun w i _ hw _ _ => ?_)
    (fun _ _ _ _ => trivial) fun _ => ?_
  · exact ⟨may_self.mpr (hduty w hw.1 hw.2), rfl, hw.2⟩
  · refine .seq (Triple.perform fun w i _ hw _ _ =>
      ⟨may_self.mpr trivial, ?_⟩) (fun _ _ _ _ => trivial) fun _ => hf
    show (w.apply i (.save st)).mem = st ∧ K (w.apply i (.save st)).rules
    simp only [World.apply]
    split <;> exact hw

theorem make_selectRule (a : Selection) (desired : Rule) (rest : List Rule) :
    Serves (makeFirst w₀)
      (fun w => w.mem = a.st ∧ ServedSoFar w₀ a (desired :: rest) w.rules) (selectRule a desired)
      (ends (fun a' w => w.mem = a'.st ∧ ServedSoFar w₀ a' rest w.rules) (fun _ _ => True)) := by
  unfold selectRule
  split
  · rename_i owned hfind
    refine .ret fun w _ hw => ⟨hw.1, ?_⟩
    have hkeeps := List.find?_some hfind
    simp only [Selection.keeps, Bool.and_eq_true, List.any_eq_true, beq_iff_eq,
      Bool.not_eq_true', List.contains_eq_mem, decide_eq_false_iff_not] at hkeeps
    obtain ⟨⟨⟨hnew, hkey⟩, hfp⟩, row, hrow, hid, hmatch⟩ := hkeeps
    -- the row is not one of those added for a created rule
    have hlive : row ∈ w.rules := (hw.2.listed row hrow).resolve_left fun h => hnew (hid ▸ h)
    refine hw.2.next (fun _ hm => hm) (fun id hid => .tail _ hid) (fun row hr => .inl hr) ?_
    exact ⟨owned, List.mem_of_find?_eq_some hfind, hkey, hfp, .head _, row, hlive, hid,
      fun _ => hmatch⟩
  · refine .chain make_createRule (fun _ _ _ _ => trivial) fun id => ?_
    refine .pre (make_record (P := fun m => m = a.st) (K := fun rules =>
      ServedSoFar w₀ a (desired :: rest) rules ∧ (rfwPayload desired).stored id ∈ rules) ?_ ?_)
      fun w hw => ⟨hw.1.1, hw.1.2, hw.2⟩
    · rintro w hmem -
      exact .inl fun m hm => List.mem_append_left _ (hmem ▸ hm)
    · refine .ret fun w _ ⟨hmem, hsel, hrow⟩ => ⟨hmem, ?_⟩
      refine hsel.next (fun m hm => List.mem_append_left _ hm)
        (fun id hid => .tail _ hid) (fun row hr => ?_) ?_
      · rcases List.mem_append.mp hr with hr | hr
        · exact .inl hr
        · rw [List.mem_singleton.mp hr]
          exact .inr (.head _)
      · exact ⟨⟨desired.key, id, fingerprint desired⟩,
          by simp [Selection.push, State.push], rfl, rfl,
          (.head _), _, hrow, rfl, fun htrim => rawMatches_stored id htrim⟩

/-! ## The second loop -/

theorem make_deleteListed {managed : List ManagedRule} {id : Int} (hid : id ∉ a.selected) :
    Serves (makeFirst w₀)
      (fun w => w.mem.managedRules = managed ∧ AllServed w₀ managed w.rules (· ∈ a.selected))
      (deleteListed a.actual id) (fun _ w => w.mem.managedRules = managed ∧
        AllServed w₀ managed w.rules (· ∈ a.selected)) := by
  refine .of_uses ((deleteListed_uses _ _).mono fun e he w i _ hw _ _ => ?_)
  subst he
  have hne : ∀ b, b ∈ a.selected → b ≠ id := fun b hb h => hid (h ▸ hb)
  refine ⟨may_self.mpr fun rule hrule => ?_, ?_⟩
  · rw [hw.1]
    exact (hw.2 rule hrule).mono (fun _ hm _ => hm) (fun _ hr _ => hr) hne
  · show (w.apply i _).mem.managedRules = managed ∧ AllServed w₀ managed (w.apply i _).rules _
    simp only [World.apply]
    split
    · exact ⟨hw.1, hw.2.delete hne⟩
    · exact hw

theorem make_removeUnselected (a : Selection) (kept rest : List ManagedRule) :
    Serves (makeFirst w₀)
      (fun w => w.mem.managedRules = kept ++ rest ∧
        AllServed w₀ (kept ++ rest) w.rules (· ∈ a.selected)) (removeUnselected a kept rest)
      (ends (fun _ _ => True) (fun _ _ => True)) := by
  induction rest generalizing kept with
  | nil => exact .ret fun _ _ _ => trivial
  | cons owned rest ih =>
    rw [removeUnselected]
    split
    · exact (ih (kept ++ [owned])).pre fun w hw => by simpa using hw
    · rename_i hsel
      have hid : owned.id ∉ a.selected := by simpa using hsel
      refine .seq (make_deleteListed hid) (fun _ _ _ _ => trivial) fun _ => ?_
      have hrest : ∀ rules, AllServed w₀ (kept ++ owned :: rest) rules (· ∈ a.selected) →
          AllServed w₀ (kept ++ rest) rules (· ∈ a.selected) := by
        intro rules h rule hrule
        refine (h rule hrule).mono (fun m hm hms => ?_) (fun _ hr _ => hr) fun _ h => h
        simp only [List.mem_append, List.mem_cons] at hm ⊢
        rcases hm with hm | rfl | hm
        · exact .inl hm
        · exact absurd hms hid
        · exact .inr hm
      refine .pre (make_record (P := fun _ => True) (K := fun rules =>
        AllServed w₀ (kept ++ rest) rules (· ∈ a.selected))
          (fun w _ hK => .inr fun rule hrule => ?_)
        ((ih kept).pre fun w hw => ⟨congrArg State.managedRules hw.1, hw.2⟩))
        fun w hw => ⟨trivial, hrest _ hw.2⟩
      exact (hK rule hrule).mono (fun _ hm _ => hm) (fun _ hr _ => hr) fun _ _ => trivial

theorem make_listRules :
    Serves (makeFirst w₀) (fun w => w.mem = st) listRules
      (ends (fun rows w => w.mem = st ∧ w.rules = rows) (fun _ _ => True)) := by
  refine .chain (R := fun r w => w.mem = st ∧ w.rules = r.2.2) (E := fun _ _ => True)
    (Triple.perform fun w i _ hw _ _ => ?_)
    (fun _ _ _ _ => trivial) fun r => ?_
  · refine ⟨may_self.mpr trivial, ?_⟩
    cases w.listing i with
    | error e => trivial
    | ok code =>
      show (w.apply i .getRules).mem = st ∧ (w.apply i .getRules).rules = w.rules
      simp only [World.apply]
      split <;> exact ⟨hw, rfl⟩
  · dsimp only
    split_ifs
    · exact .ret fun _ _ _ => trivial
    · exact .ret fun _ _ _ => trivial
    · exact .ret fun _ _ _ => trivial
    · exact .ret fun _ _ hw => hw

theorem make_capabilities :
    Serves (makeFirst w₀) (fun w => w.mem = st) capabilities.attempt (fun _ w => w.mem = st) := by
  refine .of_uses ((Proc.uses_attempt capabilities_uses).mono
    fun e he w i _ hw _ _ => ⟨may_self.mpr ?_, ?_⟩)
  · cases e <;> first | exact trivial | exact he.elim
  · obtain ⟨fw, hfw⟩ := apply_aside (w := w) (i := i) he
    rwa [show host.apply e self w i = _ from hfw]

theorem make_reconcileRfw :
    Serves (makeFirst w₀) (fun w => w.mem = w₀.mem)
      (reconcileRfw w₀.mem) (ends (fun _ _ => True) (fun _ _ => True)) := by
  unfold reconcileRfw
  split
  · exact .ret fun _ _ _ => trivial
  · refine .seq make_capabilities (fun _ _ _ _ => trivial) fun caps => ?_
    split
    · exact .ret fun _ _ _ => trivial
    · refine .chain make_listRules (fun _ _ _ _ => trivial) fun actual => ?_
      refine .chain (Triple.pre (Triple.fold (J := fun a rest (w : World) =>
        w.mem = a.st ∧ ServedSoFar w₀ a rest w.rules) make_selectRule) fun w hw => ⟨hw.1, ?_⟩)
        (fun _ _ _ _ => trivial) fun a => ?_
      · exact ⟨fun row hr => .inr (hw.2 ▸ hr), [], rfl, nofun⟩
      · refine (make_removeUnselected a [] a.st.managedRules).pre fun w ⟨hmem, hsel⟩ => ?_
        obtain ⟨before, heq, hserved⟩ := hsel.served
        refine ⟨congrArg State.managedRules hmem, fun rule hrule => hserved rule ?_⟩
        rwa [heq, List.append_nil] at hrule

/-- At every point of a call of `reconcile_rfw`, with any answers of RFW and any save
failing: when a rule is about to be deleted, every desired rule is served by another one;
and of every rule that was there for a desired key, the manager still has it or has a rule
for the desired specification. -/
theorem make_before_break {w : World} {c : Conf World Input Act}
    (h : Run (solo host) (fun _ _ => False) Rfw
      ⟨w, some (Prog.bind (reconcileRfw w.mem) fun _ => .ret ())⟩ c) :
    (∀ id, c.Next (.delete .reconcileRfw id) → ∀ rule ∈ w.mem.policy.rules,
      Serving c.mem.mem.managedRules c.mem.rules rule (· ≠ id)) ∧
    ∀ rule ∈ w.mem.policy.rules, ∀ m ∈ w.mem.managedRules, m.key = rule.key →
      ∀ row ∈ w.rules, row.id = m.id →
        (m ∈ c.mem.mem.managedRules ∧ row ∈ c.mem.rules) ∨
          Serving c.mem.mem.managedRules c.mem.rules rule (fun _ => True) := by
  have hcode : Serves (makeFirst w) (fun w' => w'.mem = w.mem)
      (Prog.bind (reconcileRfw w.mem) fun _ => .ret ()) (fun _ _ => True) :=
    .bind make_reconcileRfw fun _ => .ret fun _ _ _ => trivial
  have hstart : Covered w w := fun _ _ m hm _ row hr _ => .inl ⟨hm, hr⟩
  have hsafe := solo_safe (D := makeFirst w) hstart (hcode w rfl) h
  refine ⟨fun id hnext => ?_, hsafe.inv⟩
  have hlost : Rfw self (.delete .reconcileRfw id) c.mem { reply := .error "" } :=
    ⟨nofun, nofun⟩
  exact (may_self.mp (hsafe.next hnext rfl hlost) : MakeDuty w (.delete .reconcileRfw id) c.mem)

def blockPort (port : Nat) : Rule where
  key := "web"
  priority := 5
  direction := "in"
  protocol := "tcp"
  action := "block"
  enabled := true
  portStart := port
  ipType := "any"

/-- The rule "web" is in RFW for port 80, and the policy now says port 443. -/
def movedPort : World where
  mem := { revision := 2, policy := { revision := 2, rules := [blockPort 443] }
           managedRules := [⟨"web", 3, fingerprint (blockPort 80)⟩] }
  rules := [(rfwPayload (blockPort 80)).stored 3]
  used := [3]
  posted := [3]

theorem make_before_break_moved : ∃ c,
    Run (solo host) (fun _ _ => False) Rfw
      ⟨movedPort, some (Prog.bind (reconcileRfw movedPort.mem) fun _ => .ret ())⟩ c ∧
    c.Next (.delete .reconcileRfw 3) ∧
    Serving c.mem.mem.managedRules c.mem.rules (blockPort 443) (· ≠ 3) :=
  exists_run_imp (p := fun c => c.Next (.delete .reconcileRfw 3))
    [.act {}, .act {}, .act { id := 4 }, .act {}, .act {}] (by decide +kernel) fun _ hrun hnext =>
    ⟨hnext, (make_before_break hrun).1 3 hnext _ (.head _)⟩

end RunmanAgent.HostPolicy
