import RunmanAgent.Concurrency.Total
import RunmanAgent.HostPolicy.MakeBeforeBreak
import RunmanAgent.HostPolicy.Ownership

/-!
# Reconciliation converges

If everything succeeds, then after `reconcile_rfw` the rules of RFW are the manual ones,
unchanged, and exactly one rule for each desired key (`Converged`), whatever the managed
rules were: rules that have vanished or drifted, several for one key. The invariant of the
first loop is `Selected`; what the second loop leaves is `remaining`.
-/

namespace RunmanAgent.HostPolicy

open Concurrency Server

/-- The rules that the manager does not own. -/
def World.manual (w : World) : List RawRule := w.rules.filter fun row => row.id ∉ w.mem.ids

/-- RFW has the manual rules and one matching rule for each desired key. -/
structure Converged (manual : List RawRule) (w : World) : Prop where
  manual : w.manual = manual
  keys : (w.mem.managedRules.map (·.key)).Perm (w.mem.policy.rules.map (·.key))
  distinct : w.mem.ids.Nodup
  live : ∀ m ∈ w.mem.managedRules, ∃ rule ∈ w.mem.policy.rules, rule.key = m.key ∧
    m.fingerprint = fingerprint rule ∧
    ∃ row, w.rules.filter (fun r => r.id = m.id) = [row] ∧ rawMatches row rule = true

/-! ## The first loop -/

/-- A managed rule that serves the desired rule of its key. -/
def Live (desired : List Rule) (rules : List RawRule) (m : ManagedRule) : Prop :=
  ∃ rule ∈ desired, rule.key = m.key ∧ m.fingerprint = fingerprint rule ∧
    ∃ row ∈ rules, row.id = m.id ∧ rawMatches row rule = true

/-- The selected ids are those of managed rules that serve the rules `before`, one for each. -/
def Picked (desired : List Rule) (a : Selection) (rules : List RawRule)
    (before : List Rule) : Prop :=
  ∃ picked : List ManagedRule, picked.map (·.id) = a.selected ∧
    picked.map (·.key) = before.reverse.map (·.key) ∧
    ∀ m ∈ picked, m ∈ a.st.managedRules ∧ Live desired rules m

/-- What holds when the rules `before` have been selected; the manual rules are those of the
start. -/
structure Selected (start : World) (a : Selection) (before : List Rule) (rules : List RawRule)
    (used : List Int) : Prop where
  st : a.st = start.mem.withManaged a.st.managedRules
  distinct : (rules.map (·.id)).Nodup
  given : rules.map (·.id) ⊆ used
  ids : a.st.ids.Nodup
  owned : a.st.ids ⊆ used
  manual : rules.filter (fun row => row.id ∉ a.st.ids) = start.manual
  listed : ∀ row ∈ a.actual, row.id ∈ a.selected ∨ row ∈ rules
  complete : rules.map (·.id) ⊆ a.actual.map (·.id)
  picked : Picked start.mem.policy.rules a rules before

variable {start : World} {a : Selection} {before policy : List Rule} {rules : List RawRule}
  {used : List Int} {desired : Rule} {id : Int} {owned m m' : ManagedRule} {w : World}

theorem eq_of_id {ms : List ManagedRule} (h : (ms.map (·.id)).Nodup) (hm : m ∈ ms) (hm' : m' ∈ ms)
    (hid : m.id = m'.id) : m = m' :=
  List.inj_on_of_nodup_map h hm hm' hid

theorem filter_id_eq_singleton (h : (rules.map (·.id)).Nodup) {row : RawRule} (hrow : row ∈ rules)
    (hid : row.id = id) : rules.filter (fun r => r.id = id) = [row] := by
  subst hid
  induction rules with
  | nil => cases hrow
  | cons r rest ih =>
    rw [List.map_cons, List.nodup_cons] at h
    rcases hrow with _ | ⟨_, hrow⟩
    · have hnone : rest.filter (fun r => r.id = row.id) = [] := by
        refine List.filter_eq_nil_iff.mpr fun r hr heq => h.1 ?_
        exact (of_decide_eq_true heq : r.id = row.id) ▸ List.mem_map_of_mem hr
      simp [hnone]
    · have hne : r.id ≠ row.id := fun heq => h.1 (heq ▸ List.mem_map_of_mem hrow)
      simp [hne, ih h.2 hrow]

theorem keeps_iff : a.keeps desired m = true ↔ m.id ∉ a.selected ∧ m.key = desired.key ∧
    m.fingerprint = fingerprint desired ∧
    ∃ row ∈ a.actual, row.id = m.id ∧ rawMatches row desired = true := by
  simp [Selection.keeps, and_assoc]

theorem Picked.keep (h : Picked policy a rules before) (hmine : desired ∈ policy)
    (hlisted : ∀ row ∈ a.actual, row.id ∈ a.selected ∨ row ∈ rules)
    (hfind : a.st.managedRules.find? (a.keeps desired) = some owned) :
    Picked policy (a.keep owned) rules (before ++ [desired]) := by
  obtain ⟨picked, hids, hkeys, hlive⟩ := h
  obtain ⟨hnew, hkey, hfp, row, hrow, hid, hmatch⟩ := keeps_iff.mp (List.find?_some hfind)
  have hrow := (hlisted row hrow).resolve_left fun hs => hnew (hid ▸ hs)
  refine ⟨owned :: picked, by simp [hids, Selection.keep], by simp [hkeys, hkey],
    List.forall_mem_cons.mpr ⟨⟨List.mem_of_find?_eq_some hfind, ?_⟩, hlive⟩⟩
  exact ⟨desired, hmine, hkey.symm, hfp, row, hrow, hid, hmatch⟩

theorem Selected.keep (h : Selected start a before rules used)
    (hfind : a.st.managedRules.find? (a.keeps desired) = some owned)
    (hmine : desired ∈ start.mem.policy.rules) :
    Selected start (a.keep owned) (before ++ [desired]) rules used :=
  { h with
    listed := fun row hr => (h.listed row hr).imp_left (List.mem_cons_of_mem _)
    picked := h.picked.keep hmine h.listed hfind }

theorem ids_push (st : State) (desired : Rule) (id : Int) :
    (st.push desired id).ids = st.ids ++ [id] := by
  simp [State.ids, State.push]

theorem Picked.push (h : Picked policy a rules before) (hmine : desired ∈ policy)
    (htrim : trimStr desired.ip = desired.ip) : Picked policy (a.push desired id)
      (rules ++ [(rfwPayload desired).stored id]) (before ++ [desired]) := by
  obtain ⟨picked, hids, hkeys, hlive⟩ := h
  refine ⟨⟨desired.key, id, fingerprint desired⟩ :: picked, by simp [hids, Selection.push],
    by simp [hkeys], List.forall_mem_cons.mpr ⟨⟨?_, ?_⟩, fun m hm => ?_⟩⟩
  · exact List.mem_append_right _ (.head _)
  · exact ⟨desired, hmine, rfl, rfl, _, List.mem_append_right _ (.head _), rfl,
      rawMatches_stored id htrim⟩
  · obtain ⟨hm, rule, hrule, hkey, hfp, row, hrow, hrest⟩ := hlive m hm
    exact ⟨List.mem_append_left _ hm, rule, hrule, hkey, hfp, row, List.mem_append_left _ hrow,
      hrest⟩

theorem Selected.push (h : Selected start a before rules used) (hid : id ∉ used)
    (hmine : desired ∈ start.mem.policy.rules) (htrim : trimStr desired.ip = desired.ip) :
    Selected start (a.push desired id) (before ++ [desired])
      (rules ++ [(rfwPayload desired).stored id]) (id :: used) := by
  have hids : id ∉ a.st.ids := fun hmem => hid (h.owned hmem)
  have hrules : id ∉ rules.map (·.id) := fun hmem => hid (h.given hmem)
  have hmap : (rules ++ [(rfwPayload desired).stored id]).map (·.id) =
      rules.map (·.id) ++ [id] := by
    simp [Payload.stored]
  exact {
    st := by
      have := h.st
      simp only [Selection.push, State.push, State.withManaged] at this ⊢
      rw [this]
    distinct := by
      rw [hmap]
      exact h.distinct.append (List.nodup_singleton _) (by simpa using hrules)
    given := by
      rw [hmap]
      exact List.append_subset.mpr ⟨List.subset_cons_of_subset _ h.given, by simp⟩
    ids := by
      rw [Selection.push, ids_push]
      exact h.ids.append (List.nodup_singleton _) (by simpa using hids)
    owned := by
      rw [Selection.push, ids_push]
      exact List.append_subset.mpr ⟨List.subset_cons_of_subset _ h.owned, by simp⟩
    manual := by
      rw [← h.manual, Selection.push, ids_push, List.filter_append]
      have hlast : [(rfwPayload desired).stored id].filter
          (fun row => row.id ∉ a.st.ids ++ [id]) = [] := by
        simp [Payload.stored]
      rw [hlast, List.append_nil]
      refine List.filter_congr fun row hrow => ?_
      have hne : row.id ≠ id := fun heq => hrules (heq ▸ List.mem_map_of_mem hrow)
      simp [hne]
    listed := by
      intro row hrow
      rcases List.mem_append.mp hrow with hrow | hrow
      · exact (h.listed row hrow).imp (List.mem_cons_of_mem _) (List.mem_append_left _)
      · rw [List.mem_singleton.mp hrow]
        exact .inl (.head _)
    complete := by
      rw [hmap, Selection.push, List.map_append]
      exact List.append_subset.mpr ⟨List.subset_append_of_subset_left _ h.complete, by simp [rowOf]⟩
    picked := h.picked.push hmine htrim }

/-! ## The second loop -/

/-- The rules of RFW when the managed rules `gone` that are not selected are deleted. -/
def remaining (selected : List Int) (gone : List ManagedRule) (rules : List RawRule) :
    List RawRule :=
  rules.filter fun row => row.id ∈ selected ∨ row.id ∉ gone.map (·.id)

theorem remaining_nil (selected : List Int) (rules : List RawRule) :
    remaining selected [] rules = rules :=
  List.filter_eq_self.mpr fun _ _ => by simp

theorem remaining_keep {selected : List Int} {gone : List ManagedRule} (h : owned.id ∈ selected) :
    remaining selected (gone ++ [owned]) rules = remaining selected gone rules := by
  refine List.filter_congr fun row _ => ?_
  by_cases hs : row.id ∈ selected
  · simp [hs]
  · have hne : row.id ≠ owned.id := fun heq => hs (heq ▸ h)
    simp [hs, hne]

theorem remaining_delete {selected : List Int} {gone : List ManagedRule} (h : owned.id ∉ selected) :
    (remaining selected gone rules).filter (fun row => row.id != owned.id) =
      remaining selected (gone ++ [owned]) rules := by
  rw [remaining, List.filter_filter]
  refine List.filter_congr fun row _ => ?_
  by_cases hid : row.id = owned.id
  · simp [hid, h]
  · simp [hid]

theorem Selected.converged (h : Selected start a start.mem.policy.rules rules used)
    (hkeys : (start.mem.policy.rules.map (·.key)).Nodup)
    (hmem : w.mem = a.st.withManaged (a.st.managedRules.filter fun m => m.id ∈ a.selected))
    (hrules : w.rules = remaining a.selected a.st.managedRules rules) :
    Converged start.manual w := by
  obtain ⟨picked, hids, hpkeys, hlive⟩ := h.picked
  have hpolicy : w.mem.policy = start.mem.policy := by
    rw [hmem]
    show a.st.policy = _
    rw [h.st]
    rfl
  have hsub : w.mem.managedRules.Sublist a.st.managedRules := by
    rw [hmem]
    exact List.filter_sublist
  have hperm : w.mem.managedRules.Perm picked := by
    have hnodup : (picked.map (·.key)).Nodup := by
      rw [hpkeys, List.map_reverse]
      exact List.nodup_reverse.mpr hkeys
    refine (List.perm_ext_iff_of_nodup ((h.ids.of_map _).sublist hsub) (hnodup.of_map _)).mpr ?_
    intro m
    rw [hmem, State.withManaged, List.mem_filter, decide_eq_true_eq, ← hids]
    constructor
    · rintro ⟨hm, hid⟩
      obtain ⟨m', hm', hid'⟩ := List.mem_map.mp hid
      rwa [← eq_of_id h.ids (hlive m' hm').1 hm hid']
    · exact fun hm => ⟨(hlive m hm).1, List.mem_map_of_mem hm⟩
  have hin : ∀ id, id ∈ w.mem.ids ↔ id ∈ a.selected := fun id => by
    rw [← hids]
    exact (hperm.map _).mem_iff
  refine ⟨?_, ?_, h.ids.sublist (hsub.map _), fun m hm => ?_⟩
  · -- the manual rules were not touched
    rw [World.manual, hrules, ← h.manual, remaining, List.filter_filter]
    refine List.filter_congr fun row _ => ?_
    have hin := hin row.id
    by_cases hs : row.id ∈ a.selected
    · have hmine : row.id ∈ a.st.ids := (hsub.map _).subset (hin.mpr hs)
      simp [hin.mpr hs, hmine]
    · have hnot : row.id ∉ w.mem.ids := fun hmem => hs (hin.mp hmem)
      simp only [hs, hnot, false_or, not_false_eq_true, decide_true, Bool.true_and]
      rfl
  · rw [hpolicy]
    refine (hperm.map _).trans ?_
    rw [hpkeys, List.map_reverse]
    exact List.reverse_perm _
  · obtain ⟨rule, hrule, hkey, hfp, row, hrow, hid, hmatch⟩ := (hlive m (hperm.subset hm)).2
    rw [hpolicy]
    refine ⟨rule, hrule, hkey, hfp, row, filter_id_eq_singleton ?_ ?_ hid, hmatch⟩
    · rw [hrules]
      exact h.distinct.sublist (List.filter_sublist.map _)
    · rw [hrules]
      refine List.mem_filter.mpr ⟨hrow, ?_⟩
      simp [hid, (hin m.id).mp (List.mem_map_of_mem hm)]

/-! ## A call in which everything succeeds -/

/-- Every request and every save succeeds, and RFW reports `status`. -/
def AllSucceed (status : Status) (p : Pid) (e : Act) (w : World) (i : Input) : Prop :=
  Rfw p e w i ∧ i.fail = none ∧
    match e with
    | .getStatus => i.reply = .ok 200 ∧ i.status = status
    | .getRules => w.listing i = .ok 200
    | .post _ => i.reply.toOption.any success = true
    | .delete _ _ => i.reply = .ok 200 ∨ i.reply = .ok 204 ∨ i.reply = .ok 404
    | .change _ => False
    | _ => True

variable {status : Status} {go : Prop}

theorem exists_fresh (used : List Int) (h : used.length < 2 ^ 31 - 1) :
    ∃ id : Int, 1 ≤ id ∧ id < 2 ^ 31 ∧ id ∉ used := by
  have hcard : used.toFinset.card < (Finset.Ico (1 : Int) (2 ^ 31)).card := by
    rw [Int.card_Ico]
    exact (List.toFinset_card_le used).trans_lt h
  obtain ⟨id, hid, hnot⟩ := Finset.exists_mem_notMem_of_card_lt_card hcard
  rw [Finset.mem_Ico] at hid
  exact ⟨id, hid.1, hid.2, by simpa using hnot⟩

theorem total_createRule {rest : List Rule} (hmine : desired ∈ start.mem.policy.rules)
    (htrim : trimStr desired.ip = desired.ip) : Total host (AllSucceed status) self go
      (fun w => w.mem = a.st ∧ Selected start a before w.rules w.used ∧
        (go → w.used.length + (desired :: rest).length < 2 ^ 31 - 1)) (createRule desired)
      (succeedsWith fun id w => Selected start (a.push desired id) (before ++ [desired]) w.rules
        w.used ∧ (go → w.used.length + rest.length < 2 ^ 31 - 1)) := by
  refine .step (R := fun r w => success r.1 = true ∧ 1 ≤ asI32 r.2.2 ∧
    Selected start (a.push desired (asI32 r.2.2)) (before ++ [desired]) w.rules w.used ∧
    (go → w.used.length + rest.length < 2 ^ 31 - 1))
    (Total.perform (fun w hw hgo => ⟨rfl, ?_⟩) fun w i hw hok => ?_) ?_
  · have hroom := hw.2.2 hgo
    rw [List.length_cons] at hroom
    obtain ⟨id, hpos, hlt, hnew⟩ := exists_fresh w.used (by omega)
    exact ⟨{ id := id }, ⟨fun _ => ⟨hpos, hlt, hnew⟩, fun _ => rfl⟩, rfl, rfl⟩
  · obtain ⟨-, hsel, hroom⟩ := hw
    obtain ⟨⟨hfresh, hdone⟩, -, hs⟩ := hok
    have hc := hdone hs
    obtain ⟨hpos, hlt, hnew⟩ := hfresh hc
    cases hr : i.reply with
    | error e => rw [hr] at hs; cases hs
    | ok code =>
      rw [hr] at hs
      show success code = true ∧ 1 ≤ asI32 i.id ∧ _
      have hrules : (w.apply i (.post (rfwPayload desired))).rules =
          w.rules ++ [(rfwPayload desired).stored i.id] := by simp [World.apply, hc]
      have hused : (w.apply i (.post (rfwPayload desired))).used = i.id :: w.used := by
        simp [World.apply, hc]
      rw [asI32_of_lt hpos hlt]
      refine ⟨hs, hpos, ?_⟩
      show Selected _ _ _ (w.apply i _).rules (w.apply i _).used ∧
        (go → (w.apply i _).used.length + _ < _)
      rw [hrules, hused]
      refine ⟨hsel.push hnew hmine htrim, fun hgo => ?_⟩
      have hroom := hroom hgo
      rw [List.length_cons] at hroom ⊢
      omega
  · rintro ⟨code, body, id⟩
    dsimp only
    rintro w ⟨hs, hpos, hw⟩
    rwa [if_neg (by simp [hs]), if_neg (by omega)]

/-- The first loop. -/
def SelectedBefore (go : Prop) (start : World) (a : Selection) (rest : List Rule)
    (w : World) : Prop :=
  ∃ before, start.mem.policy.rules = before ++ rest ∧ w.mem = a.st ∧
    Selected start a before w.rules w.used ∧ (go → w.used.length + rest.length < 2 ^ 31 - 1)

theorem total_record {K : World → Prop} {st : State} {α : Type} {f : HostProc α}
    {Q : Except String α → World → Prop} (hK : ∀ w m d, K w → K { w with mem := m, disk := d })
    (hf : Total host (AllSucceed status) self go (fun w => w.mem = st ∧ K w) f Q) :
    Total host (AllSucceed status) self go K (do setState st; save st; f : HostProc α) Q := by
  refine .step (R := fun _ w => w.mem = st ∧ K w)
    (Total.perform (fun w _ _ => ⟨rfl, {}, trivial, rfl, trivial⟩) fun w i hw _ => ?_)
    fun _ => .step (Total.perform (fun w _ _ => ⟨rfl, {}, trivial, rfl, trivial⟩)
      fun w i hw hok => ?_) fun _ => hf
  · exact ⟨rfl, hK w st w.disk hw⟩
  · obtain ⟨-, hfail, -⟩ := hok
    simp only [hfail]
    show (w.apply i (.save st)).mem = st ∧ K (w.apply i (.save st))
    simp only [World.apply, hfail]
    exact ⟨hw.1, hK w w.mem (some st) hw.2⟩

theorem total_selectRule (htrim : ∀ rule ∈ start.mem.policy.rules, trimStr rule.ip = rule.ip)
    (a : Selection)
    (desired : Rule) (rest : List Rule) :
    Total host (AllSucceed status) self go (SelectedBefore go start a (desired :: rest))
      (selectRule a desired) (succeedsWith fun a' => SelectedBefore go start a' rest) := by
  rintro w ⟨before, hsplit, hmem, hsel, hroom⟩
  have hmine : desired ∈ start.mem.policy.rules := by rw [hsplit]; simp
  have hsplit' : start.mem.policy.rules = (before ++ [desired]) ++ rest := by simp [hsplit]
  unfold selectRule
  split
  · rename_i owned hfind
    refine ⟨_, hsplit', hmem, hsel.keep hfind hmine, fun hgo => ?_⟩
    have hroom := hroom hgo
    rw [List.length_cons] at hroom
    omega
  · refine (.step (total_createRule hmine (htrim desired hmine)) fun id => ?_ :
      Total host (AllSucceed status) self go _ _ _) w ⟨hmem, hsel, hroom⟩
    refine total_record (fun w m d h => h) (Total.ret fun w ⟨hm, hs, hr⟩ => ?_)
    exact ⟨_, hsplit', hm, hs, hr⟩

theorem total_deleteListed {actual : List RawRule}
    (hlisted : (actual.any fun row => row.id == id) = false →
      rules.filter (fun row => row.id != id) = rules) :
    Total host (AllSucceed status) self go (fun w => w.rules = rules) (deleteListed actual id)
      (succeedsWith fun _ w => w.rules = rules.filter fun row => row.id != id) := by
  unfold deleteListed
  split
  · refine .step (R := fun r w => (r.1 = 200 ∨ r.1 = 204 ∨ r.1 = 404) ∧
      w.rules = rules.filter fun row => row.id != id)
      (Total.perform (fun w _ _ => ⟨rfl, {}, ⟨fun _ => rfl, fun h => ?_⟩, rfl, .inl rfl⟩)
        fun w i hw hok => ?_) fun r => ?_
    · simp [Except.toOption] at h
    · obtain ⟨⟨hdone, hnone⟩, -, hreply⟩ := hok
      have hfilter : (w.apply i (.delete .reconcileRfw id)).rules =
          rules.filter fun row => row.id != id := by
        simp only [World.apply]
        split
        · exact congrArg _ hw
        · rename_i hc
          rcases hreply with hr | hr | hr
          · exact absurd (hdone (by rw [hr]; rfl)) hc
          · exact absurd (hdone (by rw [hr]; rfl)) hc
          · -- RFW does not know the rule
            refine hw.trans (List.filter_eq_self.mpr fun row hrow => ?_).symm
            have hnot := hnone (by rw [hr]; rfl)
            have hne : row.id ≠ id := fun heq => hnot (heq ▸ List.mem_map_of_mem (hw ▸ hrow))
            simpa using hne
      rcases hreply with hr | hr | hr <;> simp only [hr]
      · exact ⟨.inl rfl, hfilter⟩
      · exact ⟨.inr (.inl rfl), hfilter⟩
      · exact ⟨.inr (.inr rfl), hfilter⟩
    · dsimp only
      split
      · rename_i hbad
        refine fun w hw => absurd hw.1 ?_
        rintro (h | h | h)
        · exact hbad.1 h
        · exact hbad.2.1 h
        · exact hbad.2.2 h
      · exact .ret fun w hw => hw.2
  · rename_i hnot
    exact .ret fun w hw => hw.trans (hlisted (by simpa using hnot)).symm

theorem total_removeUnselected (h : Selected start a before rules used)
    (gone kept rest : List ManagedRule) (hall : a.st.managedRules = gone ++ rest)
    (hkept : kept = gone.filter fun m => m.id ∈ a.selected) : Total host (AllSucceed status) self go
      (fun w => w.mem = a.st.withManaged (kept ++ rest) ∧ w.rules = remaining a.selected gone rules)
      (removeUnselected a kept rest)
      (succeedsWith fun st w => w.mem = st ∧
        w.mem = a.st.withManaged (a.st.managedRules.filter fun m => m.id ∈ a.selected) ∧
        w.rules = remaining a.selected a.st.managedRules rules) := by
  induction rest generalizing gone kept with
  | nil =>
    rw [List.append_nil] at hall
    refine .ret fun w hw => ?_
    obtain ⟨hmem, hr⟩ := hw
    rw [List.append_nil] at hmem
    refine ⟨hmem, ?_, ?_⟩
    · rw [hmem, hall, hkept]
    · rw [hr, hall]
  | cons owned rest ih =>
    have hall' : a.st.managedRules = (gone ++ [owned]) ++ rest := by simp [hall]
    rw [removeUnselected]
    split
    · rename_i hsel
      have hsel : owned.id ∈ a.selected := by simpa using hsel
      refine (ih (gone ++ [owned]) (kept ++ [owned]) hall' ?_).pre fun w hw => ⟨?_, ?_⟩
      · simp [hkept, hsel]
      · simpa using hw.1
      · rw [hw.2, remaining_keep hsel]
    · rename_i hsel
      have hsel : owned.id ∉ a.selected := by simpa using hsel
      have hlisted : (a.actual.any fun row => row.id == owned.id) = false →
          (remaining a.selected gone rules).filter (fun row => row.id != owned.id) =
            remaining a.selected gone rules := by
        refine fun hnot => List.filter_eq_self.mpr fun row hrow => ?_
        have hin := h.complete (List.mem_map_of_mem (List.mem_of_mem_filter hrow))
        obtain ⟨row', hrow', heq⟩ := List.mem_map.mp hin
        have hne := List.any_eq_false.mp hnot row' hrow'
        rw [heq] at hne
        simpa using hne
      refine .step ((total_deleteListed hlisted).pre fun w hw => hw.2) fun _ => ?_
      refine total_record (fun w m d h => h) ((ih (gone ++ [owned]) kept hall' ?_).pre
        fun w hw => ⟨hw.1, ?_⟩)
      · simp [hkept, hsel]
      · rw [hw.2, remaining_delete hsel]

/-- What a call has to find: the invariant of the manager, a list of rules that is read, a
normalised policy, and a firewall that supports it. -/
structure Ready (status : Status) (start : World) : Prop where
  owned : Owned start
  few : start.rules.length ≤ 256
  keys : (start.mem.policy.rules.map (·.key)).Nodup
  trimmed : ∀ rule ∈ start.mem.policy.rules, trimStr rule.ip = rule.ip
  supported : ∀ rule ∈ start.mem.policy.rules, supports (capabilitiesOf status) rule = true

theorem total_capabilities :
    Total host (AllSucceed status) self go (fun w => w = start) capabilities
      (succeedsWith fun caps w => w = start ∧ caps = capabilitiesOf status) := by
  refine .step (R := fun r w => w = start ∧ r = (200, status))
    (Total.perform (fun w _ _ => ⟨rfl, { status := status }, trivial, rfl, rfl, rfl⟩)
      fun w i hw hok => ?_) fun r => ?_
  · obtain ⟨-, -, hreply, hstatus⟩ := hok
    simp only [hreply, hstatus]
    exact ⟨hw, rfl⟩
  · rintro w ⟨hw, rfl⟩
    exact ⟨hw, rfl⟩

theorem total_listRules (h : Ready status start)
    (hfits : go → start.answerLen start.rules ≤ 64 * 1024) :
    Total host (AllSucceed status) self go (fun w => w = start) listRules
      (succeedsWith fun rows w => rows = start.rules ∧ w.mem = start.mem ∧
        w.rules = start.rules ∧ w.used = start.used) := by
  refine .step (R := fun r w => r.1 = 200 ∧ r.2.2 = start.rules ∧ w.mem = start.mem ∧
    w.rules = start.rules ∧ w.used = start.used)
    (Total.perform (fun w hw hgo => ⟨rfl, {}, trivial, rfl, if_neg (hw ▸ (hfits hgo).not_gt)⟩)
      fun w i hw hok => ?_) fun r => ?_
  · obtain ⟨-, -, hreply⟩ := hok
    subst hw
    simp only [hreply]
    refine ⟨rfl, rfl, ?_⟩
    show (w.apply i .getRules).mem = _ ∧ (w.apply i .getRules).rules = _ ∧
      (w.apply i .getRules).used = _
    simp only [World.apply]
    split <;> exact ⟨rfl, rfl, rfl⟩
  · have hvalid : ((start.rules.any fun row => row.id < 1) ||
        !decide (start.rules.map (·.id)).Nodup) = false := by
      have hpos : ∀ row ∈ start.rules, ¬ row.id < 1 := fun row hr => by
        have := (h.owned.given row hr).1
        omega
      simpa [h.owned.distinct] using hpos
    obtain ⟨code, body, rows⟩ := r
    rintro w ⟨rfl, rfl, hw⟩
    dsimp only
    rw [if_neg (by simp), if_neg (by have := h.few; omega), if_neg (by simp [hvalid])]
    exact ⟨rfl, hw⟩

theorem total_reconcileRfw (h : Ready status start)
    (hroom : go → start.used.length + start.mem.policy.rules.length < 2 ^ 31 - 1)
    (hfits : go → start.answerLen start.rules ≤ 64 * 1024) :
    Total host (AllSucceed status) self go (fun w => w = start) (reconcileRfw start.mem)
      (succeedsWith fun st w => w.mem = st ∧ st.policy = start.mem.policy ∧
        Converged start.manual w) := by
  unfold reconcileRfw
  split
  · rename_i hnothing
    obtain ⟨hrules, hmanaged⟩ : start.mem.policy.rules = [] ∧ start.mem.managedRules = [] := by
      simpa using hnothing
    refine .ret fun w hw => ?_
    subst hw
    refine ⟨rfl, rfl, rfl, by rw [hrules, hmanaged]; rfl, h.owned.mem.distinct, ?_⟩
    rw [hmanaged]
    exact nofun
  · refine .attemptBind total_capabilities fun r => ?_
    cases r with
    | error e => exact fun w hw => hw.elim
    | ok caps =>
      refine .given fun hcaps => ?_
      subst hcaps
      have hnone : start.mem.policy.rules.find?
          (fun rule => !supports (capabilitiesOf status) rule) = none :=
        List.find?_eq_none.mpr fun rule hrule => by simp [h.supported rule hrule]
      simp only [Except.toOption, Option.getD_some, hnone]
      refine .step (total_listRules h hfits) fun actual => ?_
      refine .step (Total.pre (Total.fold (J := SelectedBefore go start)
        (total_selectRule h.trimmed)) fun w hw => ?_) fun a => ?_
      · obtain ⟨rfl, hmem, hrules, hused⟩ := hw
        refine ⟨[], rfl, hmem, ?_, fun hgo => by rw [hused]; exact hroom hgo⟩
        rw [hrules, hused]
        exact {
          st := rfl
          distinct := h.owned.distinct
          given := fun id hid => by
            obtain ⟨row, hr, rfl⟩ := List.mem_map.mp hid
            exact (h.owned.given row hr).2
          ids := h.owned.mem.distinct
          owned := fun id hid => h.owned.posted id (h.owned.mem.posted id hid)
          manual := rfl
          listed := fun row hr => .inr hr
          complete := List.Subset.refl _
          picked := ⟨[], rfl, rfl, nofun⟩ }
      · rintro w ⟨before, hsplit, hmem, hsel, -⟩
        rw [List.append_nil] at hsplit
        subst hsplit
        refine ((total_removeUnselected hsel [] [] a.st.managedRules rfl rfl).post ?_) w ⟨hmem, ?_⟩
        · rintro (e | st) w' hw'
          · exact hw'.elim
          · obtain ⟨hst, hmem', hrules⟩ := hw'
            refine ⟨hst, ?_, hsel.converged h.keys hmem' hrules⟩
            rw [← hst, hmem']
            show a.st.policy = _
            rw [hsel.st]
            rfl
        · exact (remaining_nil _ _).symm

/-! ## The second call -/

theorem Converged.select {manual : List RawRule} (h : Converged manual w)
    (hkeys : (w.mem.policy.rules.map (·.key)).Nodup) (before rest : List Rule) (selected : List Int)
    (hsplit : w.mem.policy.rules = before ++ rest)
    (hpicked : Picked w.mem.policy.rules ⟨w.mem, w.rules, selected⟩ w.rules before) :
    ∃ selected', Proc.fold selectRule ⟨w.mem, w.rules, selected⟩ rest =
        (pure ⟨w.mem, w.rules, selected'⟩ : HostProc Selection) ∧
      Picked w.mem.policy.rules ⟨w.mem, w.rules, selected'⟩ w.rules w.mem.policy.rules := by
  induction rest generalizing before selected with
  | nil =>
    rw [List.append_nil] at hsplit
    exact ⟨selected, rfl, by rwa [← hsplit] at hpicked⟩
  | cons desired rest ih =>
    have hmine : desired ∈ w.mem.policy.rules := by rw [hsplit]; simp
    obtain ⟨m, hm, hmkey⟩ := List.mem_map.mp (h.keys.symm.subset (List.mem_map_of_mem hmine))
    have hfree : m.id ∉ selected := by
      obtain ⟨picked, hids, hpkeys, hlive⟩ := hpicked
      intro hs
      obtain ⟨m', hm', hid⟩ := List.mem_map.mp (hids.symm ▸ hs : m.id ∈ picked.map (·.id))
      have heq := eq_of_id h.distinct (hlive m' hm').1 hm hid
      have hbefore : desired.key ∈ before.map (·.key) := by
        have := List.mem_map_of_mem (f := (·.key)) hm'
        rw [hpkeys, heq] at this
        simpa [hmkey] using this
      rw [hsplit, List.map_append, List.map_cons, List.nodup_append] at hkeys
      exact hkeys.2.2 _ hbefore _ (.head _) rfl
    have hkeeps : Selection.keeps ⟨w.mem, w.rules, selected⟩ desired m = true := by
      obtain ⟨rule, hrule, hkey, hfp, row, hrow, hmatch⟩ := h.live m hm
      cases List.inj_on_of_nodup_map hkeys hrule hmine (hkey.trans hmkey)
      have hrow : row ∈ w.rules.filter (fun r => r.id = m.id) := by simp [hrow]
      have hin := List.mem_filter.mp hrow
      exact keeps_iff.mpr ⟨hfree, hmkey, hfp, row, hin.1, of_decide_eq_true hin.2, hmatch⟩
    obtain ⟨owned, hfind⟩ := Option.isSome_iff_exists.mp (List.find?_isSome.mpr ⟨m, hm, hkeeps⟩)
    have hpicked' := hpicked.keep hmine (fun _ hr => .inr hr) hfind
    obtain ⟨selected', heq, hall⟩ := ih _ _ (by simp [hsplit]) hpicked'
    refine ⟨selected', ?_, hall⟩
    rw [← heq, Proc.fold, selectRule]
    simp only [hfind]
    rfl

theorem removeUnselected_all (kept rest : List ManagedRule)
    (h : ∀ m ∈ rest, m.id ∈ a.selected) :
    removeUnselected a kept rest = (pure (a.st.withManaged (kept ++ rest)) : HostProc State) := by
  induction rest generalizing kept with
  | nil => rw [removeUnselected, List.append_nil]
  | cons owned rest ih =>
    rw [removeUnselected, if_pos (by simpa using h owned (by simp)),
      ih _ fun m hm => h m (by simp [hm]), List.append_assoc, List.singleton_append]

/-- Requests that change nothing in RFW. -/
def ReadOnly : Act → World → Prop
  | .post _, _ | .delete _ _, _ => False
  | _, _ => True

def readOnly : Discipline host :=
  (solo host).discipline (fun _ => True) ReadOnly Rfw (fun _ _ _ => trivial) (fun he _ _ => he.elim)

instance readOnly_stable {P : World → Prop} : Stable readOnly self P :=
  stable_of_others fun he _ _ _ => he.elim

theorem readOnly_reconcileRfw {manual : List RawRule} (h : Converged manual w)
    (hkeys : (w.mem.policy.rules.map (·.key)).Nodup) :
    Serves readOnly (fun w' => w'.rules = w.rules) (reconcileRfw w.mem)
      (ends (fun _ _ => True) (fun _ _ => True)) := by
  unfold reconcileRfw
  split
  · exact .ret fun _ _ _ => trivial
  · have hcaps : Serves readOnly (fun w' => w'.rules = w.rules)
        capabilities.attempt (fun _ w' => w'.rules = w.rules) := by
      refine .of_uses ((Proc.uses_attempt capabilities_uses).mono
        fun e he w' i _ hw' _ _ => ⟨may_self.mpr ?_, ?_⟩)
      · cases e <;> first | exact trivial | exact he.elim
      · obtain ⟨fw, hfw⟩ := apply_aside (w := w') (i := i) he
        rwa [show host.apply e self w' i = _ from hfw]
    refine .seq hcaps (fun _ _ _ _ => trivial) fun caps => ?_
    split
    · exact .ret fun _ _ _ => trivial
    · refine .chain (R := fun rows _ => rows = w.rules) (E := fun _ _ => True) ?_
        (fun _ _ _ _ => trivial) fun actual => ?_
      · refine .chain (R := fun r _ => r.2.2 = w.rules) (E := fun _ _ => True)
          (Triple.perform fun w' i _ hw' _ _ => ⟨may_self.mpr trivial, ?_⟩) (fun _ _ _ _ => trivial)
          fun r => ?_
        · cases w'.listing i with
          | error e => trivial
          | ok code => exact hw'
        · dsimp only
          split_ifs
          · exact .ret fun _ _ _ => trivial
          · exact .ret fun _ _ _ => trivial
          · exact .ret fun _ _ _ => trivial
          · exact .ret fun _ _ hr => hr
      · rintro w' rfl
        -- the two loops take no action
        obtain ⟨selected, hfold, picked, hids, hpkeys, hlive⟩ := h.select hkeys [] _ [] rfl
          ⟨[], rfl, rfl, nofun⟩
        have hsel : ∀ m ∈ w.mem.managedRules, m.id ∈ selected := by
          intro m hm
          have hkey : m.key ∈ picked.map (·.key) := by
            rw [hpkeys]
            simpa using h.keys.subset (List.mem_map_of_mem hm)
          obtain ⟨m', hm', hkey⟩ := List.mem_map.mp hkey
          have hnk : (w.mem.managedRules.map (·.key)).Nodup := h.keys.nodup_iff.mpr hkeys
          have hids : picked.map (·.id) = selected := hids
          rw [← List.inj_on_of_nodup_map hnk (hlive m' hm').1 hm hkey, ← hids]
          exact List.mem_map_of_mem hm'
        rw [hfold]
        show Safe readOnly readOnly.may self _
          (removeUnselected ⟨w.mem, w.rules, selected⟩ [] w.mem.managedRules) w'
        rw [removeUnselected_all [] _ hsel]
        exact fun _ _ _ => trivial

/-- The state with the policy that is to be applied. -/
def World.withPolicy (w : World) (q : Policy) : World :=
  { w with mem := { w.mem with revision := q.revision, policy := q } }

/-- From every reachable state and for every normalised policy that RFW supports, with at
most 256 rules in RFW: a call of `reconcile_rfw` in which everything succeeds returns `Ok`
and leaves the manual rules and exactly one matching rule for each key; a call after it
neither creates nor deletes a rule, whatever the answers. If RFW has enough ids left and its
list of rules has at most 64 KiB, there is such a call. -/
theorem reconcileRfw_converges {w : World} {c : Conf World Input Act} (hw : Untouched w)
    (h : Run manager (fun _ _ => True) Rfw ⟨w, none⟩ c) {q : Policy}
    (hq : normalizePolicy q = .ok q) {status : Status}
    (hsupported : ∀ rule ∈ q.rules, supports (capabilitiesOf status) rule = true)
    (hfew : c.mem.rules.length ≤ 256) : let start := c.mem.withPolicy q
    (c.mem.used.length + q.rules.length < 2 ^ 31 - 1 ∧ c.mem.answerLen c.mem.rules ≤ 64 * 1024 →
      ∃ r w', Prog.Runs host (AllSucceed status) self (reconcileRfw start.mem) start r w') ∧
    ∀ r w', Prog.Runs host (AllSucceed status) self (reconcileRfw start.mem) start r w' →
      r = .ok w'.mem ∧ w'.mem.policy = q ∧ Converged start.manual w' ∧
      ∀ c', Run (solo host) (fun _ _ => False) Rfw
          ⟨w', some (Prog.bind (reconcileRfw w'.mem) fun _ => .ret ())⟩ c' →
        (∀ body, ¬ c'.Next (.post body)) ∧ ∀ by_ id, ¬ c'.Next (.delete by_ id) := by
  intro start
  have howned := (owned_reachable hw h).inv.owned trivial
  obtain ⟨hkeys, hrules⟩ := normalizePolicy_keys hq
  have hready : Ready status start :=
    ⟨⟨howned.distinct, howned.given, howned.posted, ⟨howned.mem.distinct, howned.mem.posted⟩,
      howned.disk⟩, hfew, hkeys, fun rule hr => (hrules rule hr).2, hsupported⟩
  have htotal := (total_reconcileRfw hready And.left And.right).runs (s := start) rfl
  refine ⟨htotal.1, fun r w' hrun => ?_⟩
  have hpost := htotal.2 r w' hrun
  cases r with
  | error e => exact hpost.elim
  | ok st =>
    obtain ⟨rfl, hpolicy, hconv⟩ := hpost
    refine ⟨rfl, hpolicy, hconv, fun c' hrun' => ?_⟩
    have hcode := Triple.bind (readOnly_reconcileRfw hconv (by rw [hpolicy]; exact hkeys)) fun r =>
      (Triple.ret (Q := fun _ _ => True) fun _ _ _ => trivial : Serves readOnly _ (.ret ()) _)
    have hsafe := solo_safe (D := readOnly) trivial (hcode w' rfl) hrun'
    constructor
    · intro body hnext
      have hlost : Rfw self (.post body) c'.mem { reply := .error "", carried := false } :=
        ⟨nofun, nofun⟩
      exact (may_self.mp (hsafe.next hnext rfl hlost) : ReadOnly (.post body) c'.mem)
    · intro by_ id hnext
      have hlost : Rfw self (.delete by_ id) c'.mem { reply := .error "" } :=
        ⟨nofun, nofun⟩
      exact (may_self.mp (hsafe.next hnext rfl hlost) : ReadOnly (.delete by_ id) c'.mem)

def webPolicy : Policy := { revision := 1, rules := [blockPort 443] }

theorem reconcileRfw_converges_web : ∃ w',
    Prog.Runs host (AllSucceed {}) self
      (reconcileRfw (World.withPolicy { rules := [manualRule], used := [7] } webPolicy).mem)
      (World.withPolicy { rules := [manualRule], used := [7] } webPolicy) (.ok w'.mem) w' ∧
    Converged [manualRule] w' := by
  have hstart : Untouched { rules := [manualRule], used := [7] } :=
    ⟨rfl, rfl, rfl, by decide, by decide⟩
  have hsupported : ∀ rule ∈ webPolicy.rules, supports (capabilitiesOf {}) rule = true := by
    decide
  obtain ⟨hexists, hpost⟩ := reconcileRfw_converges hstart .refl rfl hsupported (by decide)
  obtain ⟨r, w', hrun⟩ := hexists (by decide)
  obtain ⟨rfl, -, hconv, -⟩ := hpost r w' hrun
  exact ⟨w', hrun, hconv⟩

/-- RFW with 257 manual rules. -/
def crowded : World where
  rules := (List.range 257).map fun n : Nat => { manualRule with id := n + 1 }
  used := (List.range 257).map fun n : Nat => (n + 1 : Int)

set_option maxRecDepth 4000 in
/-- With more than 256 rules in RFW the call fails although everything succeeds, and the
desired rule is not created. -/
theorem reconcileRfw_crowded : Untouched crowded ∧ normalizePolicy webPolicy = .ok webPolicy ∧
    ∃ w', Prog.Runs host (AllSucceed {}) self (reconcileRfw (crowded.withPolicy webPolicy).mem)
        (crowded.withPolicy webPolicy)
        (.error "RFW rule list exceeds the 256-rule readback limit") w' ∧
      w'.rules = crowded.rules := by
  have hinj : Function.Injective fun n : Nat => (n + 1 : Int) := fun a b h => by
    simpa using h
  refine ⟨⟨rfl, rfl, rfl, ?_, fun row hrow => ?_⟩, rfl, ?_⟩
  · have hmap : crowded.rules.map (·.id) = (List.range 257).map fun n : Nat => (n + 1 : Int) := by
      rw [crowded, List.map_map]
      rfl
    rw [hmap]
    exact List.Nodup.map hinj List.nodup_range
  · obtain ⟨n, hn, rfl⟩ := List.mem_map.mp hrow
    refine ⟨?_, List.mem_map_of_mem hn⟩
    show (1 : Int) ≤ n + 1
    omega
  · refine ⟨_, .act {} rfl ⟨trivial, rfl, rfl, rfl⟩
      (.act {} rfl ⟨trivial, rfl, rfl⟩ (.ret _ _)), rfl⟩

end RunmanAgent.HostPolicy
