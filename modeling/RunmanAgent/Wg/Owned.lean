import RunmanAgent.Wg.Recorded

/-!
# What is set up on the host belongs to a stored slot

As long as `ip rule del` and `ip route del` fail only when there is nothing to delete, the slots of
the file cover what is set up (`slots_cover_host`). Otherwise a later binding with the same number
gets the rule of another address (`rule_orphaned`).
-/

namespace RunmanAgent.Wg

open Concurrency Server

variable {cfg : Config}

instance meets_truthful : Meets cfg { truthful := True } TruthfulDeletes :=
    ⟨fun _ hi => hi, False.elim⟩

/-- In every history with crashes, in which commands and saves fail without effect and deletions of
rules and routes only when there is nothing to delete: the numbers of the slots are distinct, what
is set up belongs to a slot of `wg.json` with its number and address, and no other address is sent
to the table of a slot. -/
theorem slots_cover_host {c : Conf World Input Act}
    (h : Run (tunnels cfg) (fun _ _ => True) TruthfulDeletes ⟨{}, none⟩ c) :
    DistinctNumbers c.mem.slots ∧ DistinctNumbers c.mem.filed ∧
    Owned cfg c.mem.filed c.mem.host ∧
    ∀ r s, c.mem.filed.get r = some s → ∀ a, (a, table cfg s) ∈ c.mem.host.rules →
      a = s.address := by
  have hrec : Recorded cfg { truthful := True } c.mem :=
    (recorded_of_run (fun _ _ => False.elim) h).inv
  have hfiled := hrec.filed trivial
  refine ⟨hrec.distinct, hrec.filedDistinct, hfiled, fun r s hs a hrule => ?_⟩
  obtain ⟨r', s', hs', ha, ht⟩ := hfiled.rule a _ hrule
  have hr := hrec.filedDistinct r r' s s' hs hs' (table_inj ht)
  subst hr
  rw [hs] at hs'
  rw [ha, Option.some.inj hs']

theorem slots_cover_host_reused : ∃ c,
    Run (tunnels gateway) (fun _ _ => True) TruthfulDeletes ⟨{}, none⟩ c ∧
    c.mem.host.rules = [(second.address, 20000)] ∧
    Owned gateway c.mem.filed c.mem.host :=
  exists_run_imp (p := fun c => c.mem.host.rules = [(second.address, 20000)])
    ([.call [first]] ++ List.replicate 16 (.act {}) ++ [.done, .call []] ++
      List.replicate 11 (.act {}) ++ [.done, .call [second]] ++ List.replicate 16 (.act {}))
    (by decide +kernel) fun _ hrun hrules => ⟨hrules, (slots_cover_host hrun).2.2.1⟩

/-- `ip rule del` fails in the teardown of the first binding. The second one gets its number, and
traffic from the first address goes through its tunnel. -/
theorem rule_orphaned : ∃ c,
    Run (tunnels gateway) (fun _ _ => True) anyStep ⟨{}, none⟩ c ∧ c.run = none ∧
    c.mem.filed.entries = [("res-2", ⟨0, second.vmId.asStr, second.address⟩)] ∧
    (first.address, 20000) ∈ c.mem.host.rules ∧ first.address ≠ second.address :=
  exists_run
    ([.call [first]] ++ List.replicate 16 (.act {}) ++ [.done, .call [], .act {}, .act {}, .act {},
      .act { fail := some "Resource temporarily unavailable" }] ++ List.replicate 6 (.act {}) ++
      [.done, .call [second]] ++ List.replicate 16 (.act {}) ++ [.done]) (by decide +kernel)

end RunmanAgent.Wg
