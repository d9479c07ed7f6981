import RunmanAgent.ConnLimit.Rejected

/-!
# Forgotten connection limits

A policy is taken off the list when the loop that deletes its rules has ended. The loop ends
at the first check that fails, whatever the reason: a check that fails while the rule is
installed leaves the rule, and the policy is forgotten. The pass clears the chains only if the
list has become empty, so the rule stays beside those of another policy (`expired_forgotten`).
If checks tell the truth, a forgotten policy has no rule installed (`forgotten_gone`).
-/

namespace RunmanAgent.ConnLimit

open Concurrency Server Iptables

variable {cfg : Config}

instance meets_truthful : Meets trusted TruthfulChecks where
  may hok hf := ⟨fun _ => hok hf, False.elim, False.elim⟩

theorem Move.gone {w : World} {policies : List Policy} {p : Policy}
    (h : Move cfg True w policies) (hp : p ∈ w.mem) (hgone : ∀ q ∈ policies, q.id ≠ p.id) :
    Gone cfg p w := by
  cases h with
  | enter q => exact absurd rfl (hgone p (List.mem_append_left _ hp))
  | @replace before after q q' hmem hsame =>
    rw [hmem] at hp
    rcases List.mem_append.mp hp with hp | hp
    · exact absurd rfl (hgone p (List.mem_append_left _ hp))
    · rcases hp with _ | ⟨_, hp⟩
      · exact absurd hsame.id (hgone q' (List.mem_append_right _ (.head _)))
      · exact absurd rfl (hgone p (List.mem_append_right _ (.tail _ hp)))
  | @drop before after q hmem hrules =>
    rw [hmem] at hp
    rcases List.mem_append.mp hp with hp | hp
    · exact absurd rfl (hgone p (List.mem_append_left _ hp))
    · rcases hp with _ | ⟨_, hp⟩
      · exact hrules trivial
      · exact absurd rfl (hgone p (List.mem_append_right _ hp))

/-- In every history, with crashes, in which a check fails only if the rule is not installed:
when a policy is taken off the list, none of its rules is installed. Without crashes, and from a
start without chains, no rule with its id is installed at all. -/
theorem forgotten_gone {w : World} {c : Conf World Input Act} (hw : w.Fresh)
    (h : Run (manager cfg) (fun _ _ => True) TruthfulChecks ⟨w, none⟩ c) {policies : List Policy}
    (hnext : c.Next (.setState policies)) {p : Policy} (hp : p ∈ c.mem.mem)
    (hgone : ∀ q ∈ policies, q.id ≠ p.id) :
    Gone cfg p c.mem ∧ (Run (steady cfg) (fun _ _ => True) TruthfulChecks ⟨w, none⟩ c →
      (∀ tool, w.fw tool = none) →
      ∀ tool rule, RuleOf cfg p.id rule → copies (c.mem.fw tool) rule = 0) := by
  have hsound : Sound (manager cfg) (fun _ _ => True) (orderly cfg trusted TruthfulChecks) Idle :=
    manager_orderly trivial
  have hsafe := hsound.run_safe hw.safe h
  have hduty : Duty cfg trusted (.setState policies) c.mem :=
    may_self.mp (hsafe.next (i := {}) hnext rfl nofun)
  have hrules := Move.gone hduty hp hgone
  refine ⟨hrules, fun hsteady hfw tool rule hrule => ?_⟩
  -- an installed rule with the id is a rule of a policy on the list, and that is `p`
  have hcovered : Covered cfg c.mem.mem c.mem := by
    refine orderly_invariant (I := fun w => Covered cfg w.mem w)
      (steady_orderly (A := trusted) trivial) (fun w e i _ hw hduty _ => hw.apply rfl hduty)
      nofun hw ?_ hsteady
    intro tool rule hpos
    rw [hfw] at hpos
    cases hpos
  by_contra hpos
  obtain ⟨q, ip, incoming, hid, rfl⟩ := hrule
  rcases hcovered tool _ (Nat.pos_of_ne_zero hpos) with hmarker | ⟨p', hp', hmem⟩
  · exact ruleArgs_ne_marker hmarker
  · obtain ⟨_, -, hat⟩ := mem_rules.mp hmem
    obtain ⟨_, -, -, _, heq⟩ := mem_rulesAt.mp hat
    have hsame : p' = p := by
      refine List.inj_on_of_nodup_map hsafe.inv.mem hp' hp ?_
      exact (ruleArgs_inj heq).2.2.symm.trans hid
    subst hsame
    exact hpos (hrules tool _ hmem)

def capApplied : List (Server.Move Input Act Call) :=
  [.call (Call.apply cap instanceUp), .act {}, .act { now := 1000 }] ++
    List.replicate 18 (.act {}) ++ [.done]

/-- The lease of `cap` is over when the pass looks at it. -/
def capOver : List (Server.Move Input Act Call) := [.call .reconcile, .act {}, .act { now := 1600 }]

theorem forgotten_gone_cap : ∃ c,
    Run (manager bridged) (fun _ _ => True) TruthfulChecks ⟨{}, none⟩ c ∧
    c.Next (.setState []) ∧ c.mem.mem = [cap.withIps ["10.0.0.2"]] ∧
    Gone bridged (cap.withIps ["10.0.0.2"]) c.mem := by
  refine exists_run_imp
    (p := fun c => c.Next (.setState []) ∧ c.mem.mem = [cap.withIps ["10.0.0.2"]])
    (capApplied ++ capOver ++ List.replicate 8 (.act {})) (by decide +kernel)
    fun c hrun ⟨hnext, hmem⟩ => ?_
  obtain ⟨hgone, -⟩ := forgotten_gone ⟨rfl, rfl, rfl, rfl⟩ hrun hnext
    (hmem ▸ List.mem_singleton_self _) (fun q hq => absurd hq List.not_mem_nil)
  exact ⟨hnext, hmem, hgone⟩

/-- A policy for another VM, with a longer lease. -/
def longCap : Policy :=
  { cap with
    id := "fedcba9876543210fedcba9876543210"
    vmId := "0d1c0c5e-7a51-4d5b-9c35-0c8a5d3f2b12"
    expiresAt := 2200 }

def secondUp : Target := { instanceUp with ips := ["10.0.0.3"] }

/-- The checks for the rules of `cap` fail when its lease is over: after the pass it is forgotten,
and its rules are still installed. -/
theorem expired_forgotten : ∃ c,
    Run (manager bridged) (fun _ _ => True) anyStep ⟨{}, none⟩ c ∧ c.run = none ∧
    c.mem.mem = [longCap.withIps ["10.0.0.3"]] ∧ c.mem.disk = some c.mem.mem ∧
    copies (c.mem.fw .iptables) capRule = 1 :=
  exists_run (capApplied ++
    [.call (Call.apply longCap secondUp), .act {}, .act { now := 1000 }] ++
    List.replicate 12 (.act {}) ++ [.done] ++ capOver ++
    [.act {}, .act { fail := some "lock" }, .act {}, .act { fail := some "lock" },
    .act {}, .act {}, .act { now := 1600 }, .act { target := .ok secondUp }] ++
    List.replicate 6 (.act {}) ++ [.done]) (by decide +kernel)

end RunmanAgent.ConnLimit
