import RunmanAgent.HostPolicy.Persist

/-!
# Policies survive being saved and sent again

What `normalize_policy` accepts is its own normal form (`normalizePolicy_idem`). So every file
that the manager writes is loaded as it was saved, and a stored policy may be sent again in
another spelling (`policy_stable`).
-/

namespace RunmanAgent.HostPolicy

open Concurrency Server

/-- In every history, whatever fails: the file is loaded as it was saved; and a policy with the
revision of the stored one that has it as its normal form is not refused as changed. -/
theorem policy_stable {w : World} {c : Conf World Input Act} (hmem : w.mem = {})
    (hdisk : w.disk = none) (h : Run manager (fun _ _ => True) anyStep ⟨w, none⟩ c) :
    loadState c.mem.disk = .ok (c.mem.disk.getD {}) ∧
    ∀ requested q, normalizePolicy requested = .ok q → normalizePolicy q = .ok q ∧
      (c.mem.mem.policy = q → c.mem.mem.revision = requested.revision →
        advance q c.mem.mem = pure c.mem.mem) := by
  have hsafe := persisted_run hmem hdisk False.elim (fun _ _ => False.elim) h
  refine ⟨hsafe.inv.load.1, fun requested q hnorm => ?_⟩
  obtain ⟨hidem, hrev⟩ := normalizePolicy_idem hnorm
  refine ⟨hidem, fun hpolicy hsame => ?_⟩
  have hsame : q.revision = c.mem.mem.revision := hrev.trans hsame.symm
  rw [advance, if_neg (by rw [hsame]; exact lt_irrefl _), if_pos hsame,
    if_neg (not_not.mpr hpolicy.symm)]

/-- A policy as it may be sent. -/
def looseRule : Rule where
  key := "web"
  priority := 1
  direction := "in"
  protocol := "TCP"
  action := "block"
  enabled := true
  portStart := 80
  portEnd := some 80
  ipType := "Cidr"
  ip := " 10.1.2.3/8 "

/-- Its normal form. -/
def tightRule : Rule :=
  { looseRule with protocol := "tcp", portEnd := none, ipType := "cidr", ip := "10.0.0.0/8" }

theorem policy_stable_web : ∃ c, Run manager (fun _ _ => True) anyStep ⟨{}, none⟩ c ∧
    c.mem.disk = some ⟨1, { revision := 1, rules := [tightRule] }, []⟩ ∧
    loadState c.mem.disk = .ok ⟨1, { revision := 1, rules := [tightRule] }, []⟩ ∧
    normalizePolicy { revision := 1, rules := [looseRule] } =
      .ok { revision := 1, rules := [tightRule] } ∧
    advance { revision := 1, rules := [tightRule] } c.mem.mem = pure c.mem.mem := by
  have hnorm : normalizePolicy { revision := 1, rules := [looseRule] } =
      .ok { revision := 1, rules := [tightRule] } := by decide +kernel
  refine exists_run_imp (p := fun c =>
    c.mem.disk = some ⟨1, { revision := 1, rules := [tightRule] }, []⟩ ∧
    c.mem.mem = ⟨1, { revision := 1, rules := [tightRule] }, []⟩)
    [.call (Call.apply { revision := 1, rules := [looseRule] }), .act {}, .act {}, .act {}]
    (by decide +kernel) fun c hrun ⟨hdisk, hmem⟩ => ?_
  obtain ⟨hload, hagain⟩ := policy_stable rfl rfl hrun
  rw [hdisk] at hload
  refine ⟨hdisk, hdisk ▸ hload, hnorm, (hagain _ _ hnorm).2 ?_ ?_⟩
  · rw [hmem]
  · rw [hmem]

end RunmanAgent.HostPolicy
