import RunmanAgent.Wg.Recorded

/-!
# A binding that counts as applied is set up

The applied bindings are those that `reconcile` leaves alone as long as their interface is there.
When every resource keeps its address and its instance, they are really set up between calls
(`applied_installed`), with two exceptions. A teardown that has removed the rule and the routes and
then cannot delete the interface leaves the binding applied (`applied_torn_down`). And a teardown
removes the bridge route of its address even when another binding has the same address.
-/

namespace RunmanAgent.Wg

open Concurrency Server

variable {cfg : Config} {home : String → VmId × IpAddr}

instance meets_careful : Meets cfg { careful := True, home } (CarefulDeletes cfg) :=
  ⟨False.elim, fun _ hi => hi⟩

/-- In every history with crashes and failing commands and saves in which every resource keeps its
address and its instance and the deletions are careful, an applied binding is set up between calls,
and so is a binding that the next call would leave alone. -/
theorem applied_installed {conf : Conf World Input Act}
    (h : Run (tunnels cfg) (Faithful home) (CarefulDeletes cfg) ⟨{}, none⟩ conf)
    (hidle : conf.run = none) :
    (∀ r v, conf.mem.applied.get r = some v →
      ∃ s, conf.mem.slots.get r = some s ∧ Installed cfg s conf.mem.host) ∧
    ∀ b, upToDate cfg conf.mem b = true →
      ∃ s, conf.mem.slots.get b.resourceId = some s ∧ s.address = b.address ∧
        Installed cfg s conf.mem.host := by
  have hgood : Good cfg conf.mem := (recorded_of_run (A := { careful := True, home })
    (fun _ _ _ hd => hd) h).idle hidle trivial
  refine ⟨hgood, fun b hb => ?_⟩
  unfold upToDate at hb
  split at hb
  · rename_i fp ep slot happ hslot
    obtain ⟨s, hs, hinst⟩ := hgood _ _ happ
    cases hslot.symm.trans hs
    simp only [Bool.and_eq_true, sameSlot, beq_iff_eq] at hb
    exact ⟨slot, hs, hb.1.2.2, hinst⟩
  · cases hb

/-- The resources of the two bindings. -/
def homes (r : String) : VmId × IpAddr :=
  if r = second.resourceId then (second.vmId, second.address) else (first.vmId, first.address)

theorem applied_installed_again : ∃ conf,
    Run (tunnels gateway) (Faithful homes) (CarefulDeletes gateway) ⟨{}, none⟩ conf ∧
    conf.mem.applied.keys = ["res-1", "res-2"] ∧
    ∃ s, conf.mem.slots.get "res-1" = some s ∧ Installed gateway s conf.mem.host := by
  refine exists_run_imp (p := fun conf => conf.run = none ∧
    conf.mem.applied.keys = ["res-1", "res-2"] ∧ conf.mem.applied.get "res-1" = some (25, ""))
    ([.call [first]] ++ List.replicate 16 (.act {}) ++ [.done, .call []] ++
      List.replicate 11 (.act {}) ++ [.done, .call [second, first]] ++
      List.replicate 31 (.act {}) ++ [.done]) (by decide +kernel) fun conf hrun
        ⟨hidle, hkeys, happ⟩ => ?_
  exact ⟨hkeys, (applied_installed hrun hidle).1 _ _ happ⟩

/-- The binding is not wanted any more, and its interface cannot be deleted: it stays applied
without its rule and its routes, and is left alone when it is wanted again. -/
theorem applied_torn_down : ∃ conf,
    Run (tunnels gateway) (Faithful homes) anyStep ⟨{}, none⟩ conf ∧ conf.run = none ∧
    (conf.mem.applied.get "res-1").isSome = true ∧ upToDate gateway conf.mem first = true ∧
    conf.mem.host.rules = [] ∧ conf.mem.host.defaults = [] ∧ conf.mem.host.bridge = [] :=
  exists_run ([.call [first]] ++ List.replicate 16 (.act {}) ++ [.done, .call []] ++
    List.replicate 8 (.act {}) ++ [.act { fail := some "Device or resource busy" }, .done,
    .call [first], .act {}, .act {}, .act {}, .done]) (by decide +kernel)

end RunmanAgent.Wg
