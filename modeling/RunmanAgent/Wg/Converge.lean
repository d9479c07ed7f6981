import RunmanAgent.Wg.Pass

/-!
# Calls without failures converge

A call in which nothing fails sets up every binding and removes everything else, from every state
that is `Ready` for it, and from no other (`reconcile_installs_iff`). Slots are torn down and set up
one binding after the other, and a teardown deletes the route of its address on the bridge: when
an address moves to a binding that comes earlier in the list than the one that had it, the new route
is deleted again (`moved_address_lost`).
-/

namespace RunmanAgent.Wg

open Concurrency Server

variable (cfg : Config)

/-- Each binding has a slot and is set up, and there is nothing else. -/
structure Converged (desired : List Binding) (v : World) : Prop where
  wanted : ∀ b ∈ desired, ∃ s, v.slots.get b.resourceId = some s ∧ sameSlot b s = true
  only : ∀ r s, v.slots.get r = some s → ∃ b ∈ desired, b.resourceId = r
  installed : ∀ r s, v.slots.get r = some s → Installed cfg s v.host
  owned : Owned cfg v.slots v.host
  saved : v.filed = v.slots

/-- What a call without failures needs. -/
structure Ready (desired : List Binding) (w : World) : Prop where
  /-- Nothing is on the host that no slot knows, before or after the call. -/
  covered : ∀ o, w.host.Has o → ∃ r s, (w.slots.get r = some s ∨
    (plan w.slots (jobs w.slots desired)).get r = some s) ∧ Clears cfg s o
  /-- What is left alone is set up, and no other slot has its address. -/
  skipped : ∀ b ∈ desired, upToDate cfg w b = true → ∀ s, w.slots.get b.resourceId = some s →
    Installed cfg s w.host ∧ (∀ d ∈ w.host.defaults, Touches cfg s d →
      d = (familyOf s.address, table cfg s, iface cfg s)) ∧
    ∀ r' s', w.slots.get r' = some s' → s'.address = s.address → r' = b.resourceId
  /-- No binding that comes later in the list had the address. -/
  order : ∀ before b after, desired = before ++ b :: after → upToDate cfg w b = false →
    ∀ b' ∈ after, ∀ s', w.slots.get b'.resourceId = some s' → s'.address ≠ b.address
  /-- If there is nothing to do, the file is up to date. -/
  saved : stale w.slots desired = [] → (∀ b ∈ desired, upToDate cfg w b = true) → w.filed = w.slots

variable {cfg} {w v : World} {desired : List Binding} {s s' : Slot} {b : Binding} {j : Job}
  {o : Obj}
  {r : String} {h : Host}

theorem installed_iff : Installed cfg s h ↔ ∀ o, Owns cfg s o → h.Has o := by
  constructor
  · intro hi o ho
    cases o with
    | link dev => exact ho ▸ hi.link
    | rule x => exact ho ▸ hi.rule
    | route d => exact ho ▸ hi.route
    | bridge a => exact ho ▸ hi.bridge
  · intro hall
    exact ⟨hall (.link _) rfl, hall (.rule _) rfl, hall (.route _) rfl, hall (.bridge _) rfl⟩

theorem owned_iff {slots : Slots} :
    Owned cfg slots h ↔ ∀ o, h.Has o → ∃ r s, slots.get r = some s ∧ Owns cfg s o := by
  constructor
  · intro ho o hhas
    cases o with
    | link dev => exact ho.link dev hhas
    | rule x =>
      obtain ⟨r, s, hs, ha, ht⟩ := ho.rule x.1 x.2 hhas
      exact ⟨r, s, hs, Prod.ext ha ht⟩
    | route d => exact ho.route d hhas
    | bridge a => exact ho.bridge a hhas
  · intro hall
    refine ⟨fun dev => hall (.link dev), fun a t hm => ?_, fun d => hall (.route d),
      fun a => hall (.bridge a)⟩
    obtain ⟨r, s, hs, heq⟩ := hall (.rule (a, t)) hm
    exact ⟨r, s, hs, (Prod.mk.inj heq).1, (Prod.mk.inj heq).2⟩

/-! ## The slots at the end -/

theorem get_plan_of_mem {slots : Slots} {js : List Job} (hn : (js.map Job.resource).Nodup)
    (hj : j ∈ js) : ∃ m : Slots, m.get j.resource = slots.get j.resource ∧
      (plan slots js).get j.resource = (j.next m).get j.resource := by
  obtain ⟨l₁, l₂, rfl⟩ := List.append_of_mem hj
  rw [List.map_append, List.map_cons, List.nodup_append, List.nodup_cons] at hn
  refine ⟨plan slots l₁, get_plan_of_notMem fun hm => ?_, ?_⟩
  · exact hn.2.2 _ hm _ (.head _) rfl
  · have hsplit : plan slots (l₁ ++ j :: l₂) = plan (j.next (plan slots l₁)) l₂ := by
      simp [plan]
    rw [hsplit]
    exact get_plan_of_notMem hn.2.1.1

theorem mem_jobs_drop {slots : Slots} :
    Job.drop r ∈ jobs slots desired ↔ r ∈ stale slots desired := by
  simp [jobs]

theorem mem_jobs_bind {slots : Slots} : Job.bind b ∈ jobs slots desired ↔ b ∈ desired := by
  simp [jobs]

theorem planned_bind (hids : (desired.map (·.resourceId)).Nodup) (hb : b ∈ desired) :
    ∃ s, (plan w.slots (jobs w.slots desired)).get b.resourceId = some s ∧ sameSlot b s = true ∧
      ∀ s₀, w.slots.get b.resourceId = some s₀ → s.n = s₀.n ∧ (sameSlot b s₀ = true → s = s₀) := by
  obtain ⟨m, hm, hget⟩ := get_plan_of_mem (jobs_nodup hids) (mem_jobs_bind.mpr hb)
  have hm : m.get b.resourceId = w.slots.get b.resourceId := hm
  refine ⟨assign m b, hget.trans SortedMap.get_insert_self, by simp [sameSlot, assign],
    fun s₀ hs₀ => ⟨?_, fun hsame => assign_sameSlot (hm.trans hs₀) hsame⟩⟩
  simp [assign, hm, hs₀]

theorem planned_only (hids : (desired.map (·.resourceId)).Nodup)
    (hs : (plan w.slots (jobs w.slots desired)).get r = some s) :
    ∃ b ∈ desired, b.resourceId = r := by
  by_contra hnone
  have hne : ∀ b ∈ desired, b.resourceId ≠ r := fun b hb heq => hnone ⟨b, hb, heq⟩
  by_cases hstored : ∃ s, w.slots.get r = some s
  · have hj : Job.drop r ∈ jobs w.slots desired := mem_jobs_drop.mpr (mem_stale.mpr ⟨hstored, hne⟩)
    obtain ⟨m, -, hget⟩ := get_plan_of_mem (jobs_nodup hids) hj
    have hget : (plan w.slots (jobs w.slots desired)).get r = (m.erase r).get r := hget
    rw [hs, SortedMap.get_erase_self] at hget
    cases hget
  · have hnot : r ∉ (jobs w.slots desired).map Job.resource := by
      intro hm
      obtain ⟨j, hj, rfl⟩ := List.mem_map.mp hm
      cases j with
      | drop r => exact hstored (mem_stale.mp (mem_jobs_drop.mp hj)).1
      | bind b => exact hne b (mem_jobs_bind.mp hj) rfl
    rw [get_plan_of_notMem hnot] at hs
    exact hstored ⟨s, hs⟩

/-! ## Which jobs touch an object -/

theorem Paired.number (hp : Paired cfg h) {d : Family × Nat × String} (hd : d ∈ h.defaults)
    (hs : Touches cfg s d) (hs' : Touches cfg s' d) : s.n = s'.n := by
  obtain ⟨t, htable, hiface⟩ := hp d hd
  have hnumber : ∀ {s : Slot}, Touches cfg s d → s.n = t.n := by
    rintro s (heq | ⟨-, heq⟩)
    · exact iface_inj (heq.symm.trans hiface)
    · exact table_inj (heq.symm.trans htable)
  exact (hnumber hs).trans (hnumber hs').symm

theorem clears_clash (hp : Paired cfg h) (ho : h.Has o) (hs : Clears cfg s o)
    (hs' : Clears cfg s' o) : s.n = s'.n ∨ (o = .bridge s.address ∧ s'.address = s.address) := by
  cases o with
  | link dev => exact .inl (iface_inj (hs.symm.trans hs'))
  | rule x => exact .inl (table_inj (Prod.mk.inj (hs.symm.trans hs')).2)
  | route d => exact .inl (hp.number ho hs hs')
  | bridge a =>
    have hs : a = s.address := hs
    exact .inr ⟨hs ▸ rfl, hs'.symm.trans hs⟩

theorem owns_clash (hs : Owns cfg s o) (hs' : Clears cfg s' o) :
    s.n = s'.n ∨ (o = .bridge s.address ∧ s'.address = s.address) := by
  let h : Host := built cfg s {}
  have hpaired : Paired cfg h := by
    intro d hd
    have hd : d = (familyOf s.address, table cfg s, iface cfg s) := by simpa [h, built] using hd
    exact ⟨s, by rw [hd], by rw [hd]⟩
  exact clears_clash hpaired (has_built.mpr (.inl hs)) hs.clears hs'

theorem made_eq_some {final : Slots} (hs : j.made cfg w final = some s) :
    ∃ b, j = .bind b ∧ upToDate cfg w b = false ∧ final.get b.resourceId = some s := by
  cases j with
  | drop r => cases hs
  | bind b =>
    obtain ⟨hup, hs⟩ := Option.ite_none_left_eq_some.mp hs
    exact ⟨b, rfl, by simpa using hup, hs⟩

theorem old_eq_some (hs : j.old cfg w = some s) : w.slots.get j.resource = some s ∧
    ∀ b, j = .bind b → upToDate cfg w b = false ∧ sameSlot b s = false := by
  cases j with
  | drop r => exact ⟨hs, nofun⟩
  | bind b =>
    obtain ⟨hup, hs⟩ := Option.ite_none_left_eq_some.mp hs
    obtain ⟨hs, hsame⟩ := Option.filter_eq_some_iff.mp hs
    refine ⟨hs, fun b' hb' => ?_⟩
    cases hb'
    exact ⟨by simpa using hup, by simpa using hsame⟩

theorem job_of_resource (hids : (desired.map (·.resourceId)).Nodup) (hb : b ∈ desired)
    (hj : j ∈ jobs w.slots desired) (hr : j.resource = b.resourceId) : j = .bind b := by
  cases j with
  | drop r => exact absurd hr.symm ((mem_stale.mp (mem_jobs_drop.mp hj)).2 b hb)
  | bind b' => rw [List.inj_on_of_nodup_map hids (mem_jobs_bind.mp hj) hb hr]

theorem deletes_of_address (cfg : Config) (final : Slots) (haddr : (desired.map (·.address)).Nodup)
    (hb : b ∈ desired) (hs : w.slots.get r = some s) (hr : r ≠ b.resourceId)
    (heq : s.address = b.address) : ∃ j ∈ jobs w.slots desired, j.resource = r ∧
      j.Deletes cfg w final (.bridge b.address) := by
  by_cases hwanted : ∃ b' ∈ desired, b'.resourceId = r
  · obtain ⟨b', hb', rfl⟩ := hwanted
    have hsame : sameSlot b' s ≠ true := by
      intro hsame
      simp only [sameSlot, Bool.and_eq_true, beq_iff_eq] at hsame
      have haddress : b'.address = b.address := hsame.2.symm.trans heq
      exact hr (by rw [List.inj_on_of_nodup_map haddr hb' hb haddress])
    have hup : upToDate cfg w b' ≠ true := by
      intro hup
      obtain ⟨s', hs', hsame', -⟩ := upToDate_slot hup
      cases hs.symm.trans hs'
      exact hsame hsame'
    refine ⟨.bind b', mem_jobs_bind.mpr hb', rfl, s, .inl ?_, heq.symm⟩
    rw [old_bind hs, if_neg (by simp [hsame, hup])]
  · refine ⟨.drop r, mem_jobs_drop.mpr (mem_stale.mpr ⟨⟨s, hs⟩, fun b' hb' h => ?_⟩), rfl, s,
      .inl hs, heq.symm⟩
    exact hwanted ⟨b', hb', h⟩

theorem Passes.has_foreign (hp : Passes cfg desired w v) (ho : w.host.Has o)
    (hnone : ∀ r s, (w.slots.get r = some s ∨ v.slots.get r = some s) → ¬Clears cfg s o) :
    v.host.Has o := by
  rw [hp.host o]
  have hmade : ∀ (j : Job) s, j.made cfg w v.slots = some s → ¬Clears cfg s o := by
    intro j s hs
    obtain ⟨b, -, -, hs⟩ := made_eq_some hs
    exact hnone _ s (.inr hs)
  refine (survives_of_not_creates fun j _ ⟨s, hs, howns⟩ => hmade j s hs howns.clears).mpr
    ⟨ho, fun j _ => ?_⟩
  rintro ⟨s, hold | hnew, hclears⟩
  · exact hnone _ s (.inl (old_eq_some hold).1) hclears
  · exact hmade j s hnew hclears

theorem Clears.owns (ho : Clears cfg s o) (hroute : ∀ d, o = .route d →
    d = (familyOf s.address, table cfg s, iface cfg s)) : Owns cfg s o := by
  cases o with
  | route d => exact hroute d rfl
  | _ => exact ho

section Pass

variable (hp : Passes cfg desired w v) (hd : DistinctNumbers w.slots)
  (hids : (desired.map (·.resourceId)).Nodup) (haddr : (desired.map (·.address)).Nodup)

include hp hids

theorem Passes.bind (hb : b ∈ desired) : ∃ s, v.slots.get b.resourceId = some s ∧
    sameSlot b s = true ∧ ∀ s₀, w.slots.get b.resourceId = some s₀ →
      s.n = s₀.n ∧ (sameSlot b s₀ = true → s = s₀) := by
  rw [hp.slots]
  exact planned_bind hids hb

theorem Passes.only (hs : v.slots.get r = some s) : ∃ b ∈ desired, b.resourceId = r := by
  rw [hp.slots] at hs
  exact planned_only hids hs

theorem Passes.address (hb : b ∈ desired) (hs : v.slots.get b.resourceId = some s) :
    s.address = b.address := by
  obtain ⟨s', hs', hsame, -⟩ := hp.bind hids hb
  cases hs.symm.trans hs'
  simp only [sameSlot, Bool.and_eq_true, beq_iff_eq] at hsame
  exact hsame.2

theorem Passes.kept (hb : b ∈ desired) (hup : upToDate cfg w b = true)
    (hs : w.slots.get b.resourceId = some s) : v.slots.get b.resourceId = some s := by
  obtain ⟨s', hs', -, hold⟩ := hp.bind hids hb
  obtain ⟨s'', hs'', hsame, -⟩ := upToDate_slot hup
  cases hs.symm.trans hs''
  rw [hs', (hold s hs).2 hsame]

theorem Passes.owned_of_kept (hready : Ready cfg desired w) (ho : w.host.Has o)
    (hkeep : ∀ j ∈ jobs w.slots desired, ¬j.Deletes cfg w v.slots o) :
    ∃ r s, v.slots.get r = some s ∧ Owns cfg s o := by
  obtain ⟨r, s, hs, hclears⟩ := hready.covered o ho
  rw [← hp.slots] at hs
  have hskipped : ∀ b ∈ desired, upToDate cfg w b = true → w.slots.get b.resourceId = some s →
      ∃ r s, v.slots.get r = some s ∧ Owns cfg s o := by
    intro b hb hup hs
    refine ⟨_, s, hp.kept hids hb hup hs, hclears.owns fun d hd => ?_⟩
    subst hd
    exact (hready.skipped b hb hup s hs).2.1 d ho hclears
  have hnew : ∀ b ∈ desired, upToDate cfg w b = false → v.slots.get b.resourceId ≠ some s := by
    intro b hb hup hs
    exact hkeep (.bind b) (mem_jobs_bind.mpr hb) ⟨s, .inr (by simp [Job.made, hup, hs]), hclears⟩
  rcases hs with hs | hs
  · by_cases hwanted : ∃ b ∈ desired, b.resourceId = r
    · obtain ⟨b, hb, rfl⟩ := hwanted
      cases hup : upToDate cfg w b with
      | true => exact hskipped b hb hup hs
      | false =>
        by_cases hsame : sameSlot b s = true
        · obtain ⟨s', hs', -, hold⟩ := hp.bind hids hb
          exact absurd ((hold s hs).2 hsame ▸ hs') (hnew b hb hup)
        · refine absurd ⟨s, .inl ?_, hclears⟩ (hkeep (.bind b) (mem_jobs_bind.mpr hb))
          rw [old_bind hs, if_neg (by simp [hup, hsame])]
    · refine absurd ⟨s, .inl hs, hclears⟩ (hkeep (.drop r) (mem_jobs_drop.mpr (mem_stale.mpr
        ⟨⟨s, hs⟩, fun b hb heq => hwanted ⟨b, hb, heq⟩⟩)))
  · obtain ⟨b, hb, rfl⟩ := hp.only hids hs
    cases hup : upToDate cfg w b with
    | true =>
      obtain ⟨s', hs', -⟩ := upToDate_slot hup
      cases hs.symm.trans (hp.kept hids hb hup hs')
      exact hskipped b hb hup hs'
    | false => exact absurd hs (hnew b hb hup)

include hd haddr

theorem Passes.unique {r' : String} (hs : v.slots.get r = some s) (hs' : v.slots.get r' = some s')
    (hclash : s.n = s'.n ∨ (o = .bridge s.address ∧ s'.address = s.address)) : r = r' := by
  rcases hclash with hn | ⟨-, heq⟩
  · have hdistinct : DistinctNumbers v.slots := hp.slots ▸ hd.plan _
    exact hdistinct _ _ _ _ hs hs' hn
  · obtain ⟨b, hb, rfl⟩ := hp.only hids hs
    obtain ⟨b', hb', rfl⟩ := hp.only hids hs'
    rw [hp.address hids hb hs, hp.address hids hb' hs'] at heq
    rw [List.inj_on_of_nodup_map haddr hb' hb heq]

theorem Passes.has_made {before after : List Binding} (hsplit : desired = before ++ b :: after)
    (hup : upToDate cfg w b = false) (hs : v.slots.get b.resourceId = some s)
    (ho : Owns cfg s o) :
    v.host.Has o ↔ (o = .bridge s.address → ∀ b' ∈ after, ∀ s',
      w.slots.get b'.resourceId = some s' → s'.address ≠ b.address) := by
  have hb : b ∈ desired := by simp [hsplit]
  have hafter : ∀ b' ∈ after, b' ∈ desired ∧ b.resourceId ≠ b'.resourceId := by
    intro b' hb'
    refine ⟨by simp [hsplit, hb'], fun heq => ?_⟩
    rw [hsplit, List.map_append, List.map_cons, List.nodup_append, List.nodup_cons] at hids
    exact hids.2.1.1 (heq ▸ List.mem_map_of_mem hb')
  -- the slots that the later bindings get are of other resources
  have hmade : ∀ b' ∈ after, ∀ s', (Job.bind b').made cfg w v.slots = some s' →
      ¬Clears cfg s' o := by
    intro b' hb' s' hs' hclears
    obtain ⟨b'', hjob, -, hs'⟩ := made_eq_some hs'
    cases hjob
    exact (hafter b' hb').2 (hp.unique hd hids haddr hs hs' (owns_clash ho hclears))
  have hjobs : jobs w.slots desired = ((stale w.slots desired).map .drop ++ before.map .bind) ++
      .bind b :: after.map .bind := by
    simp [jobs, hsplit]
  have hcreates : (Job.bind b).Creates cfg w v.slots o := ⟨s, by simp [Job.made, hup, hs], ho⟩
  rw [hp.host o, hjobs, survives_append_cons hcreates, List.forall_mem_map]
  · constructor
    · intro hkeep hbridge b' hb' s' hs' heq
      subst hbridge
      have haddress := hp.address hids hb hs
      obtain ⟨j, hj, hr, hdel⟩ := deletes_of_address cfg v.slots haddr hb hs'
        (hafter b' hb').2.symm heq
      rw [job_of_resource hids (hafter b' hb').1 hj hr, ← haddress] at hdel
      exact hkeep b' hb' hdel
    · rintro hkeep b' hb' ⟨s', hold | hnew, hclears⟩
      · obtain ⟨hs', -⟩ := old_eq_some hold
        rcases owns_clash ho hclears with hn | ⟨hbridge, heq⟩
        · -- the later binding keeps the number
          obtain ⟨s'', hs'', -, hnumber⟩ := hp.bind hids (hafter b' hb').1
          exact (hafter b' hb').2 (hp.unique (o := o) hd hids haddr hs hs''
            (.inl (hn.trans (hnumber s' hs').1.symm)))
        · exact hkeep hbridge b' hb' s' hs' (heq.trans (hp.address hids hb hs))
      · exact hmade b' hb' s' hnew hclears
  · rintro j' hj' ⟨s', hs', howns⟩
    obtain ⟨b', hb', rfl⟩ := List.mem_map.mp hj'
    exact hmade b' hb' s' hs' howns.clears

theorem Passes.has_skipped (hpair : Paired cfg w.host) (hb : b ∈ desired)
    (hup : upToDate cfg w b = true) (hs : w.slots.get b.resourceId = some s)
    (ho : Clears cfg s o) :
    v.host.Has o ↔ w.host.Has o ∧ (o = .bridge s.address → ∀ r' s', w.slots.get r' = some s' →
      s'.address = s.address → r' = b.resourceId) := by
  have hfinal : v.slots.get b.resourceId = some s := hp.kept hids hb hup hs
  have haddress : s.address = b.address := hp.address hids hb hfinal
  have hmade : ∀ j ∈ jobs w.slots desired, ∀ s', j.made cfg w v.slots = some s' →
      s'.n = s.n ∨ (o = .bridge s'.address ∧ s.address = s'.address) → False := by
    intro j hj s' hs' hclash
    obtain ⟨b', rfl, hup', hs'⟩ := made_eq_some hs'
    have hr := hp.unique hd hids haddr hs' hfinal hclash
    rw [List.inj_on_of_nodup_map hids (mem_jobs_bind.mp hj) hb hr] at hup'
    exact absurd (hup.symm.trans hup') (by decide)
  rw [hp.host o, survives_of_not_creates fun j hj ⟨s', hs', howns⟩ =>
    hmade j hj s' hs' (owns_clash howns ho)]
  refine and_congr_right fun hhas => ⟨fun hkeep hbridge r' s' hs' heq => ?_, fun hkeep j hj => ?_⟩
  · by_contra hr
    obtain ⟨j, hj, -, hdel⟩ := deletes_of_address cfg v.slots haddr hb hs' hr (heq.trans haddress)
    rw [← haddress, ← hbridge] at hdel
    exact hkeep j hj hdel
  · rintro ⟨s', hold | hnew, hclears⟩
    · obtain ⟨hs', hmoved⟩ := old_eq_some hold
      have hr : j.resource = b.resourceId := by
        rcases clears_clash hpair hhas ho hclears with hn | ⟨hbridge, heq⟩
        · exact hd _ _ _ _ hs' hs hn.symm
        · exact hkeep hbridge _ s' hs' heq
      have hmoved := (hmoved b (job_of_resource hids hb hj hr)).1
      exact absurd (hup.symm.trans hmoved) (by decide)
    · exact hmade j hj s' hnew (clears_clash hpair hhas hclears ho)

theorem Passes.converged (hpair : Paired cfg w.host) (hready : Ready cfg desired w) :
    Converged cfg desired v := by
  refine ⟨fun b hb => ?_, fun r s => hp.only hids, fun r s hs => installed_iff.mpr fun o ho => ?_,
    owned_iff.mpr fun o hhas => ?_, hp.filed.mpr ?_⟩
  · obtain ⟨s, hs, hsame, -⟩ := hp.bind hids hb
    exact ⟨s, hs, hsame⟩
  · obtain ⟨b, hb, rfl⟩ := hp.only hids hs
    cases hup : upToDate cfg w b with
    | true =>
      obtain ⟨s', hs', -⟩ := upToDate_slot hup
      cases hs.symm.trans (hp.kept hids hb hup hs')
      obtain ⟨hinst, -, hother⟩ := hready.skipped b hb hup s hs'
      exact (hp.has_skipped hd hids haddr hpair hb hup hs' ho.clears).mpr
        ⟨installed_iff.mp hinst o ho, fun _ => hother⟩
    | false =>
      obtain ⟨before, after, hsplit⟩ := List.append_of_mem hb
      exact (hp.has_made hd hids haddr hsplit hup hs ho).mpr fun _ =>
        hready.order before b after hsplit hup
  · rcases ((hp.host o).mp hhas).created with ⟨j, -, s, hs, howns⟩ | ⟨ho, hkeep⟩
    · obtain ⟨b, -, -, hs⟩ := made_eq_some hs
      exact ⟨_, s, hs, howns⟩
    · exact hp.owned_of_kept hids hready ho hkeep
  · by_contra hnone
    rw [not_or] at hnone
    have hsaves : ∀ j ∈ jobs w.slots desired, ¬j.Saves cfg w := fun j hj h => hnone.1 ⟨j, hj, h⟩
    refine hnone.2 (hready.saved (List.eq_nil_iff_forall_not_mem.mpr fun r hr => ?_) fun b hb => ?_)
    · exact hsaves (.drop r) (mem_jobs_drop.mpr hr) trivial
    · have hup : ¬upToDate cfg w b = false := hsaves (.bind b) (mem_jobs_bind.mpr hb)
      simpa using hup

theorem Passes.ready (hpair : Paired cfg w.host) (hc : Converged cfg desired v) :
    Ready cfg desired w := by
  refine ⟨fun o ho => ?_, fun b hb hup s hs =>
    ?_, fun before b after hsplit hup b' hb' s' hs' => ?_,
    fun hstale hall => ?_⟩
  · by_contra hnone
    have hforeign : ∀ r s, (w.slots.get r = some s ∨ v.slots.get r = some s) → ¬Clears cfg s o := by
      intro r s hs hclears
      rw [hp.slots] at hs
      exact hnone ⟨r, s, hs, hclears⟩
    obtain ⟨r, s, hs, howns⟩ := owned_iff.mp hc.owned o (hp.has_foreign ho hforeign)
    exact hforeign r s (.inr hs) howns.clears
  · have hfinal := hp.kept hids hb hup hs
    have hiff : ∀ {o}, Clears cfg s o → _ := fun ho =>
      hp.has_skipped hd hids haddr hpair hb hup hs ho
    have hinst := installed_iff.mp (hc.installed _ s hfinal)
    refine ⟨installed_iff.mpr fun o ho => ((hiff ho.clears).mp (hinst o ho)).1,
      fun d hd' htouch => ?_, ?_⟩
    · have hhas : v.host.Has (.route d) :=
        (hiff (o := .route d) htouch).mpr ⟨hd', nofun⟩
      obtain ⟨r', s', hs', howns⟩ := owned_iff.mp hc.owned _ hhas
      obtain rfl := hp.unique (o := .route d) hd hids haddr hs' hfinal (owns_clash howns htouch)
      cases hfinal.symm.trans hs'
      exact howns
    · have hbridge := hinst (.bridge s.address) rfl
      exact ((hiff (o := .bridge s.address) rfl).mp hbridge).2 rfl
  · have hb : b ∈ desired := by simp [hsplit]
    obtain ⟨s, hs, -⟩ := hp.bind hids hb
    have hbridge := installed_iff.mp (hc.installed _ s hs) (.bridge s.address) rfl
    exact (hp.has_made (o :=
      .bridge s.address) hd hids haddr hsplit hup hs rfl).mp hbridge rfl b' hb' s' hs'
  · rcases hp.filed.mp hc.saved with ⟨j, hj, hsaves⟩ | hsaved
    · cases j with
      | drop r =>
        rw [mem_jobs_drop, hstale] at hj
        cases hj
      | bind b => exact absurd ((hall b (mem_jobs_bind.mp hj)).symm.trans hsaves) (by decide)
    · exact hsaved

end Pass

/-! ## Histories -/

instance meets_nothing : Meets cfg {} anyStep := ⟨False.elim, False.elim⟩

/-- For every state that earlier calls lead to, whatever fails in them and wherever they are
cut off by a crash, and every list with distinct resources and addresses: a call in which nothing
fails is possible, and it converges exactly from the states that are ready for it. -/
theorem reconcile_installs_iff {c : Conf World Input Act}
    (hrun : Run (tunnels cfg) (fun _ _ => True) anyStep ⟨{}, none⟩ c)
    (hids : (desired.map (·.resourceId)).Nodup) (haddr : (desired.map (·.address)).Nodup) :
    (∃ x v, Prog.Runs machine Smooth self (reconcile cfg desired) c.mem x v) ∧
    ∀ x v, Prog.Runs machine Smooth self (reconcile cfg desired) c.mem x v →
      (Converged cfg desired v ↔ Ready cfg desired c.mem) := by
  have hrec : Recorded cfg {} c.mem := (recorded_of_run (fun _ _ => False.elim) hrun).inv
  obtain ⟨hexists, hpost⟩ := (does_reconcile hrec.distinct hrec.attached hids).runs rfl
  refine ⟨hexists trivial, fun x v hpass => ?_⟩
  have hpasses : Passes cfg desired c.mem v := by
    have hres := hpost x v hpass
    cases x with
    | error e => exact hres.elim
    | ok _ => exact hres
  exact ⟨hpasses.ready hrec.distinct hids haddr hrec.paired,
    hpasses.converged hrec.distinct hids haddr hrec.paired⟩

instance (p : Pid) (e : Act) (w : World) (i : Input) : Decidable (Smooth p e w i) :=
  inferInstanceAs (Decidable (i.fail = none))

def firstSlot : Slot := ⟨0, first.vmId.asStr, first.address⟩

theorem reconcile_installs_iff_replaced : ∃ c,
    Run (tunnels gateway) (fun _ _ => True) anyStep ⟨{}, none⟩ c ∧
    c.mem.slots.entries = [("res-1", firstSlot)] ∧
    ∃ x v, Prog.Runs machine Smooth self (reconcile gateway [second]) c.mem x v ∧
      Converged gateway [second] v := by
  refine exists_run_imp (p := fun c => c.mem.slots.entries = [("res-1", firstSlot)] ∧ c.mem.host =
    { links := ["rw0"], rules := [(first.address, 20000)],
      defaults := [(.inet, 20000, "rw0")], bridge := [first.address] })
    ([.call [first]] ++ List.replicate 16 (.act {}) ++ [.done]) (by decide +kernel)
    fun c hrun ⟨hslots, hhost⟩ => ?_
  have hget : ∀ r s, c.mem.slots.get r = some s ↔ (r, s) = ("res-1", firstSlot) := by
    intro r s
    rw [SortedMap.get_eq_some, hslots, List.mem_singleton]
  have hup : upToDate gateway c.mem second = false := by
    by_contra hup
    obtain ⟨s, hs, -⟩ := upToDate_slot (Bool.not_eq_false _ ▸ hup)
    exact absurd (Prod.mk.inj ((hget _ s).mp hs)).1 (by decide)
  obtain ⟨⟨x, v, hpass⟩, hiff⟩ := reconcile_installs_iff hrun
    (show ([second].map (·.resourceId)).Nodup by decide) (by decide)
  refine ⟨hslots, x, v, hpass, (hiff x v hpass).mpr ⟨fun o ho => ?_, fun b hb hb' => ?_,
    fun before b after hsplit _ b' hb' s' hs' => ?_, fun hstale => ?_⟩⟩
  · refine ⟨"res-1", firstSlot, .inl ((hget _ _).mpr rfl), ?_⟩
    rw [hhost] at ho
    cases o with
    | link dev => exact List.mem_singleton.mp ho
    | rule rule => exact List.mem_singleton.mp ho
    | route d =>
      rw [List.mem_singleton.mp ho]
      exact .inl rfl
    | bridge a => exact List.mem_singleton.mp ho
  · rw [List.mem_singleton.mp hb, hup] at hb'
    cases hb'
  · have hmem : b' ∈ [second] := by simp [hsplit, hb']
    rw [List.mem_singleton.mp hmem] at hs'
    exact absurd (Prod.mk.inj ((hget _ _).mp hs')).1 (by decide)
  · have hmem : "res-1" ∈ stale c.mem.slots [second] :=
      mem_stale.mpr ⟨⟨firstSlot, (hget _ _).mpr rfl⟩, by decide⟩
    rw [hstale] at hmem
    cases hmem

/-- The two bindings exchange their addresses. -/
def exchanged : List Binding :=
  [{ first with address := second.address }, { second with address := first.address }]

/-- The teardown of the second binding deletes the route of the address that the first one has just
got. -/
theorem moved_address_lost : ∃ c x v,
    Run (tunnels gateway) (fun _ _ => True) anyStep ⟨{}, none⟩ c ∧ c.run = none ∧
    (exchanged.map (·.resourceId)).Nodup ∧ (exchanged.map (·.address)).Nodup ∧
    Prog.Runs machine Smooth self (reconcile gateway exchanged) c.mem x v ∧
    v.host.bridge = [first.address] ∧ ¬Converged gateway exchanged v := by
  obtain ⟨c, hrun, hidle, halone⟩ : ∃ c,
      Run (tunnels gateway) (fun _ _ => True) anyStep ⟨{}, none⟩ c ∧ c.run = none ∧
      (Prog.alone machine Smooth self (reconcile gateway exchanged) c.mem
        (List.replicate 60 {})).any fun x => x.2.host.bridge = [first.address] ∧
          x.2.slots.get "res-1" = some { firstSlot with address := second.address } :=
    exists_run ([.call [first, second]] ++ List.replicate 31 (.act {}) ++ [.done])
      (by decide +kernel)
  obtain ⟨x, v, hpass, hlast⟩ := Prog.runs_of_any halone
  obtain ⟨hbridge, hslot⟩ := of_decide_eq_true hlast
  refine ⟨c, x, v, hrun, hidle, by decide, by decide, hpass, hbridge, fun hconv => ?_⟩
  have hroute := (hconv.installed _ _ hslot).bridge
  rw [hbridge] at hroute
  exact absurd hroute (by decide)

end RunmanAgent.Wg
