import RunmanAgent.HostPolicy.Kept

/-!
# Acknowledged policies are in the file

`apply` changes the state in memory before it saves it, and a request for the policy that
memory already holds is answered without saving. So a policy whose save has failed is
acknowledged when the request is repeated, and lost at the next restart
(`acknowledged_unsaved`). Other requests are only acknowledged if the file holds their policy
(`apply_ok_reloads`).
-/

namespace RunmanAgent.HostPolicy

open Concurrency Server

instance meets_anyStep {strict : Prop} : Meets { strict } anyStep := ⟨False.elim⟩

theorem persisted_run {strict : Prop} {calls : Call → World → Prop} {w : World}
    {c : Conf World Input Act} (hmem : w.mem = {}) (hdisk : w.disk = none)
    (hacked : strict → w.acked = [])
    (hcalls : ∀ k w, strict → calls k w → OnlySavedAgain k w)
    (h : Run manager calls anyStep ⟨w, none⟩ c) :
    c.Safe (kept { strict } anyStep) (fun _ => True) :=
  (manager_keeps hcalls).run_safe
    (Conf.Safe.start ⟨persisted_start hmem hdisk hacked, False.elim⟩ trivial) h

/-- In every history in which a request for the policy in memory is only made when the file
holds that policy, `apply` answers `Ok` only if a restart would start with the normalised
request; and neither the file nor memory, after any restart, is behind an acknowledged
revision. -/
theorem apply_ok_reloads {w : World} {c : Conf World Input Act} (hmem : w.mem = {})
    (hdisk : w.disk = none) (hacked : w.acked = [])
    (h : Run manager OnlySavedAgain anyStep ⟨w, none⟩ c) :
    (∀ requested, c.Next (.answer requested) → ∃ q, normalizePolicy requested = .ok q ∧
      reloaded c.mem.disk = some (q.revision, q)) ∧
    ∀ requested ∈ c.mem.acked, requested.revision ≤ c.mem.mem.revision ∧
      ∃ revision policy, reloaded c.mem.disk = some (revision, policy) ∧
        requested.revision ≤ revision := by
  have hsafe := persisted_run hmem hdisk (fun _ : True => hacked) (fun _ _ _ hk => hk) h
  constructor
  · intro requested hnext
    exact (may_self.mp (hsafe.next (i := {}) hnext rfl trivial)).2 trivial
  · intro requested hr
    have hfile := hsafe.inv.acked trivial requested hr
    exact ⟨hfile.trans hsafe.inv.order, _, _, by rw [reloaded, hsafe.inv.load.1]; rfl, hfile⟩

instance (k : Call) (w : World) : Decidable (OnlySavedAgain k w) :=
  match k with
  | .apply requested =>
    decidable_of_iff (requested.revision = w.mem.revision →
      (normalizePolicy requested).toOption = some w.mem.policy → Holds w.mem.policy w) (by
        cases h : normalizePolicy requested <;> simp [OnlySavedAgain, h, Except.toOption])
  | .reconcile | .deleteManualRule _ => .isTrue trivial

/-- The policy of revision 1 without rules. -/
def firstPolicy : Policy := { revision := 1 }

theorem apply_ok_reloads_first : ∃ c,
    Run manager OnlySavedAgain anyStep ⟨{}, none⟩ c ∧ c.Next (.answer firstPolicy) ∧
      ∃ q, normalizePolicy firstPolicy = .ok q ∧ reloaded c.mem.disk = some (q.revision, q) :=
  exists_run_imp (p := fun c => c.Next (.answer firstPolicy))
    ([.call (.apply firstPolicy)] ++ List.replicate 6 (.act {})) (by decide +kernel)
    fun _ hrun hnext => ⟨hnext, (apply_ok_reloads rfl rfl rfl hrun).1 _ hnext⟩

/-- The first save fails, the repeated request is acknowledged, and the restart starts
without a policy. -/
theorem acknowledged_unsaved : ∃ c,
    Run manager (fun _ _ => True) anyStep ⟨{}, none⟩ c ∧ c.Next (.answer firstPolicy) ∧
      normalizePolicy firstPolicy = .ok firstPolicy ∧ reloaded c.mem.disk = some (0, {}) :=
  exists_run ([.call (Call.apply firstPolicy), .act {}, .act {},
    .act { fail := some "No space left on device" }, .done, .call (.apply firstPolicy)] ++
    List.replicate 4 (.act {})) (by decide +kernel)

end RunmanAgent.HostPolicy
