import RunmanAgent.HostPolicy.Kept

/-!
# Only rules of its own

The manager deletes two kinds of rules in RFW: those it has created (`reconcile_rfw`), and
a manual rule that the caller has described (`delete_manual_rule`). `deletes_owned` says what every
request to delete a rule names.
-/

namespace RunmanAgent.HostPolicy

open Concurrency Server

variable {w : World}

instance meets_rfw : Meets { honest := True } Rfw := ⟨fun _ hok => hok⟩

/-- A host on which the manager has not run yet; RFW may have any rules. -/
structure Untouched (w : World) : Prop where
  mem : w.mem = {}
  disk : w.disk = none
  posted : w.posted = []
  distinct : (w.rules.map (·.id)).Nodup
  given : ∀ row ∈ w.rules, 1 ≤ row.id ∧ row.id ∈ w.used

theorem Untouched.owned (h : Untouched w) : Owned w where
  distinct := h.distinct
  given := h.given
  posted := by rw [h.posted]; exact nofun
  mem := h.mem ▸ owns_empty _
  disk st hst := by rw [h.disk] at hst; cases hst

theorem owned_reachable {c : Conf World Input Act} (hw : Untouched w)
    (h : Run manager (fun _ _ => True) Rfw ⟨w, none⟩ c) :
    c.Safe (kept { honest := True } Rfw) (fun _ => True) :=
  (manager_keeps fun _ _ => False.elim).run_safe (Conf.Safe.start
    ⟨persisted_start hw.mem hw.disk False.elim, fun _ => hw.owned⟩ trivial) h

/-- In every history, with any step failing, restarts, and others changing the rules at any
time: `reconcile_rfw` deletes only ids that RFW returned to the manager, and
`delete_manual_rule` only the id of a rule that is not managed and whose fields, in the list
that this call was sent, are the ones the caller described; unless others have changed the
rules since, it is still a rule of RFW. -/
theorem deletes_owned {w : World} {c : Conf World Input Act} (hw : Untouched w)
    (h : Run manager (fun _ _ => True) Rfw ⟨w, none⟩ c) :
    (∀ id, c.Next (.delete .reconcileRfw id) → id ∈ c.mem.posted) ∧
    ∀ expected id, c.Next (.delete (.deleteManualRule expected) id) →
      id ∉ c.mem.mem.managedRules.map (·.id) ∧
      ∃ row ∈ c.mem.listed, row.id = id ∧ readbackRule row = expected ∧
        (c.mem.quiet = true → row ∈ c.mem.rules) := by
  have hsafe := owned_reachable hw h
  -- a request without an answer, which is always possible
  have hlost : ∀ by_ id, Rfw self (.delete by_ id) c.mem { reply := .error "" } := fun _ _ =>
    ⟨nofun, nofun⟩
  have hduty : ∀ by_ id, c.Next (.delete by_ id) → OwnDuty (.delete by_ id) c.mem :=
    fun by_ id hnext => (may_self.mp (hsafe.next hnext rfl (hlost by_ id))).1 trivial
  exact ⟨fun id hnext => hduty _ id hnext, fun expected id hnext => hduty _ id hnext⟩

/-- A rule somebody has made in RFW by hand. -/
def manualRule : RawRule where
  id := 7
  priority := 10
  direction := "IN"
  protocol := "tcp"
  action := "block"
  enabled := true
  portStart := 25
  portEnd := 25
  ipType := "any"

/-- A policy with one rule. -/
def sshPolicy : Policy where
  revision := 1
  rules := [{ key := "ssh", priority := 5, direction := "in", protocol := "TCP", action := "block",
              enabled := true, portStart := 22, ipType := "any" }]

theorem deletes_owned_runs :
    (∃ c, Run manager (fun _ _ => True) Rfw ⟨{ rules := [manualRule], used := [7] }, none⟩ c ∧
      c.Next (.delete .reconcileRfw 8) ∧ 8 ∈ c.mem.posted) ∧
    ∃ c, Run manager (fun _ _ => True) Rfw ⟨{ rules := [manualRule], used := [7] }, none⟩ c ∧
      c.Next (.delete (.deleteManualRule (readbackRule manualRule)) 7) ∧
      7 ∉ c.mem.mem.managedRules.map (·.id) := by
  have hstart : Untouched { rules := [manualRule], used := [7] } :=
    ⟨rfl, rfl, rfl, by decide, by decide⟩
  constructor
  · exact exists_run_imp (p := fun c => c.Next (.delete .reconcileRfw 8))
      ([.call (.apply sshPolicy), .act {}, .act {}, .act {}, .act {}, .act {},
        .act { id := 8 }, .act {}, .act {}, .act {}, .act {}, .act {}, .act {}, .done,
        .call (.apply { revision := 2 }), .act {}, .act {}, .act {}, .act {}, .act {}])
      (by decide +kernel) fun c hrun hnext => ⟨hnext, (deletes_owned hstart hrun).1 8 hnext⟩
  · exact exists_run_imp
      (p := fun c => c.Next (.delete (.deleteManualRule (readbackRule manualRule)) 7))
      [.call (.deleteManualRule (readbackRule manualRule)), .act {}, .act {}] (by decide +kernel)
      fun c hrun hnext => ⟨hnext, ((deletes_owned hstart hrun).2 _ 7 hnext).1⟩

end RunmanAgent.HostPolicy
