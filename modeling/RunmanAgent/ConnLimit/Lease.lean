import RunmanAgent.ConnLimit.Steps

/-!
# Leases of connection limits

`lease_fixed`: whatever fails, ids and unexpired policies are unique, and expiry and mark of a
stored policy do not change. A policy counts as unexpired if its expiry lies after every reading
of the clock so far, so nothing is assumed about the clock.
-/

namespace RunmanAgent.ConnLimit

open Concurrency Server

/-- At the time `t` there is at most one unexpired policy for a generation of an instance. -/
def Single (t : Int) (policies : List Policy) : Prop :=
  ((policies.filter fun p => t < p.expiresAt).map fun p => (p.vmId, p.instanceId)).Nodup

variable {cfg : Config} {truthful : Prop} {w : World} {policies : List Policy}

theorem Move.single {t : Int} (h : Move cfg truthful w policies) (hw : Single t w.mem)
    (ht : w.clock ≤ t) : Single t policies := by
  unfold Single at hw ⊢
  cases h with
  | enter p hid hsingle =>
    rw [List.filter_append, List.map_append]
    refine List.nodup_append.mpr ⟨hw, ?_, ?_⟩
    · exact ((List.filter_sublist (l := [p])).map _).nodup (List.nodup_singleton _)
    · -- a policy for the same generation has expired
      intro x hx y hy hxy
      obtain ⟨q, hq, rfl⟩ := List.mem_map.mp hx
      obtain ⟨r, hr, rfl⟩ := List.mem_map.mp hy
      obtain ⟨hqmem, hqt⟩ := List.mem_filter.mp hq
      obtain rfl : r = p := List.mem_singleton.mp (List.mem_filter.mp hr).1
      obtain ⟨hvm, hinst⟩ := Prod.mk.inj hxy
      have hexp := hsingle q hqmem hvm hinst
      have hlt : t < q.expiresAt := of_decide_eq_true hqt
      omega
  | replace p' hmem hsame =>
    rw [hmem] at hw
    rw [List.filter_append, List.map_append, List.filter_cons] at hw ⊢
    rw [hsame.expiresAt]
    split at hw
    · rename_i hlt
      rw [if_pos hlt]
      simpa [hsame.vmId, hsame.instanceId] using hw
    · rename_i hlt
      rwa [if_neg hlt]
  | drop hmem =>
    rw [hmem] at hw
    refine hw.sublist (((List.Sublist.append_left ?_ _).filter _).map _)
    exact List.sublist_cons_self _ _

theorem Move.same (h : Move cfg truthful w policies) (hw : (w.mem.map (·.id)).Nodup) :
    ∀ p ∈ w.mem, ∀ p' ∈ policies, p'.id = p.id → p.Same p' := by
  intro p hp p' hp' hid
  rcases h.origin hp' with ⟨q, hq, hsame⟩ | ⟨hnew, -⟩
  · exact List.inj_on_of_nodup_map hw hq hp (hsame.id.symm.trans hid) ▸ hsame
  · exact absurd hid.symm (hnew p hp)

/-- Memory and file have at most one unexpired policy for a generation. -/
def Leases (w : World) : Prop :=
  ∀ t, w.clock ≤ t → Single t w.mem ∧ ∀ policies, w.disk = some policies → Single t policies

theorem Leases.apply {A : Assumed} {e : Act} {i : Input} (hw : Leases w) (h : Duty cfg A e w) :
    Leases (w.apply i e) := by
  intro t ht
  cases e with
  | setState policies => exact ⟨h.single (hw t ht).1 ht, (hw t ht).2⟩
  | save policies =>
    cases h
    refine ⟨(hw t ht).1, fun policies hdisk => ?_⟩
    simp only [World.apply] at hdisk
    split at hdisk
    · exact (hw t ht).2 policies hdisk
    · cases hdisk
      exact (hw t ht).1
  | now p => exact hw t ((le_max_left _ _).trans ht)
  | _ => exact hw t ht

/-- Anything may fail. -/
def nothing : Assumed where
  truthful := False
  recorded := False
  clean := False

instance meets_nothing : Meets nothing anyStep where
  may _ _ := ⟨False.elim, False.elim, False.elim⟩

theorem sound_nothing :
    Sound (manager cfg) (fun _ _ => True) (orderly cfg nothing anyStep) Idle :=
  manager_orderly trivial

/-- In every history, with crashes, the ids of the stored policies are distinct and at most one
policy for a generation of an instance is unexpired, where unexpired is relative to the largest
reading of the clock so far (or a later time); and a step other than a restart neither changes
the expiry of a stored policy nor takes away its mark for removal. -/
theorem lease_fixed {w : World} {c : Conf World Input Act} (hw : w.Fresh)
    (h : Run (manager cfg) (fun _ _ => True) anyStep ⟨w, none⟩ c) :
    (c.mem.mem.map (·.id)).Nodup ∧
    (∀ t, c.mem.clock ≤ t → ((c.mem.mem.filter fun p => t < p.expiresAt).map
      fun p => (p.vmId, p.instanceId)).Nodup) ∧
    ∀ c', Step (steady cfg) (fun _ _ => True) anyStep c c' →
      ∀ p ∈ c.mem.mem, ∀ p' ∈ c'.mem.mem, p'.id = p.id →
        p'.expiresAt = p.expiresAt ∧ (p.removeOnly = true → p'.removeOnly = true) := by
  have hsafe := sound_nothing.run_safe hw.safe h
  have hleases : Leases c.mem := by
    refine orderly_invariant sound_nothing
      (fun w e i _ hl hduty _ => hl.apply hduty)
      (fun w w' hl hr => ?_) hw ?_ h
    · cases restart_eq_some hr
      intro t ht
      refine ⟨?_, (hl t ht).2⟩
      show Single t (w.disk.getD [])
      cases hdisk : w.disk with
      | none => exact List.nodup_nil
      | some policies => exact (hl t ht).2 policies hdisk
    · intro t _
      rw [hw.1, hw.2.1]
      exact ⟨List.nodup_nil, nofun⟩
  refine ⟨hsafe.inv.mem, fun t ht => (hleases t ht).1, fun c' hstep p hp p' hp' hid => ?_⟩
  have hsame : p.Same p' := by
    have hrefl : p' ∈ c.mem.mem → p.Same p' := fun h =>
      List.inj_on_of_nodup_map hsafe.inv.mem h hp hid ▸ ⟨rfl, rfl, rfl, rfl, rfl, id⟩
    cases hstep with
    | call | done => exact hrefl hp'
    | crash hr => cases hr
    | other _ _ _ _ he => exact he.elim
    | @act s e nx i hen hok =>
      have hduty := may_self.mp (hsafe.next (i := i) ⟨nx, rfl⟩ hen hok)
      cases e with
      | setState policies => exact Move.same hduty hsafe.inv.mem p hp p' hp' hid
      | _ => exact hrefl hp'
  exact ⟨hsame.expiresAt, hsame.removeOnly⟩

/-- A policy that is stored and then marked because its rules could not be installed. -/
theorem lease_fixed_marked : ∃ c,
    Run (manager bridged) (fun _ _ => True) anyStep ⟨{}, none⟩ c ∧
    c.Next (.setState [(cap.withIps ["10.0.0.2"]).marked]) ∧
    c.mem.mem = [cap.withIps ["10.0.0.2"]] ∧ c.mem.clock < cap.expiresAt ∧
    (c.mem.mem.map (·.id)).Nodup ∧
    ∀ c', Step (steady bridged) (fun _ _ => True) anyStep c c' →
      ∀ p ∈ c.mem.mem, ∀ p' ∈ c'.mem.mem, p'.id = p.id → p'.expiresAt = p.expiresAt := by
  refine exists_run_imp (p := fun c => c.Next (.setState [(cap.withIps ["10.0.0.2"]).marked]) ∧
    c.mem.mem = [cap.withIps ["10.0.0.2"]] ∧ c.mem.clock < cap.expiresAt)
    [.call (Call.apply cap instanceUp), .act {}, .act { now := 1000 }, .act {}, .act {}, .act {},
      .act { fail := some "lock" }, .act { fail := some "lock" }] (by decide +kernel)
    fun c hrun ⟨hnext, hmem, hclock⟩ => ?_
  obtain ⟨hids, -, hsteps⟩ := lease_fixed ⟨rfl, rfl, rfl, rfl⟩ hrun
  refine ⟨hnext, hmem, hclock, hids, ?_⟩
  exact fun c' hstep p hp p' hp' hid => (hsteps c' hstep p hp p' hp' hid).1

end RunmanAgent.ConnLimit
