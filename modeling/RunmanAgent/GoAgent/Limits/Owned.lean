import RunmanAgent.ConnLimit.Manager
import RunmanAgent.GoAgent.Limits.Pass

/-!
# Rules belong to policies in the file

A policy leaves the file when its removal has found none of its rules. Rules are installed for
the validated addresses of a policy and removed for its texts as they stand, so a text such as
`::ffff:10.0.0.5`, which validation accepts, leaves its rules behind (`mapped_rule_orphaned`).
For policies with plain texts they do not, if checks tell the truth (`rules_owned`).
-/

namespace RunmanAgent.GoAgent.Limits

open Concurrency Server Iptables

/-- A check for a rule fails only if the rule is not installed. -/
def TruthfulChecks (_ : Pid) (e : Act) (w : World) (i : Input) : Prop :=
  i.fail = true → ∀ x ∈ e.checks, copies (w.fw x.1) x.2 = 0

instance (p : Pid) (e : Act) (w : World) (i : Input) : Decidable (TruthfulChecks p e w i) :=
  inferInstanceAs (Decidable (_ → ∀ x ∈ e.checks, _))

/-- Nothing is assumed but truthful checks. -/
def trusting : Assumed where
  recorded := False
  clean := False

instance meets_trusting : Meets trusting TruthfulChecks where
  may hok hf := ⟨fun _ => hok hf, False.elim, False.elim⟩

/-- A host without policies and rules. -/
structure World.Fresh (w : World) : Prop where
  filed : w.filed = []
  fw : ∀ tool rule, copies (w.fw tool) rule = 0
  applying : w.applying = none

theorem World.Fresh.good {truthful : Prop} {w : World} (hw : w.Fresh) :
    Good truthful w.filed w := by
  rw [hw.filed]
  refine ⟨List.nodup_nil, nofun, fun _ tool rule hpos => ?_⟩
  rw [hw.fw] at hpos
  cases hpos

theorem World.Fresh.inv {A : Assumed} {w : World} (hw : w.Fresh) : Inv A w := by
  refine ⟨hw.good, fun _ tool rule => ?_, fun _ id _ _ p hp => ?_⟩
  · rw [hw.fw]
    exact Nat.zero_le 1
  · rw [hw.filed] at hp
    cases hp

/-- In every history whose policies are plain, every installed rule belongs to a policy in the
file; an id that is not in the file has no rules. -/
theorem rules_owned {cfg : Config} {w : World} {c : Conf World Input Act} (hw : w.Fresh)
    (h : Run (manager cfg) PlainCalls TruthfulChecks ⟨w, none⟩ c) :
    (∀ tool rule, 0 < copies (c.mem.fw tool) rule →
      ∃ p ∈ c.mem.filed, (tool, rule) ∈ p.rules ∧ RuleOf p.id rule) ∧
    ∀ id, (∀ p ∈ c.mem.filed, p.id ≠ id) → Cleared id c.mem := by
  have hsound : Sound (manager cfg) PlainCalls (orderly trusting cfg TruthfulChecks) Idle :=
    manager_orderly trivial id
  have hsafe := hsound.run_safe (.start hw.inv hw.applying) h
  refine ⟨fun tool rule hpos => ?_, fun id hid => ?_⟩
  · obtain ⟨p, hp, hmem⟩ := hsafe.inv.filed.owned trivial tool rule hpos
    exact ⟨p, hp, hmem, ruleOf_of_mem hmem⟩
  · exact hsafe.inv.filed.cleared_of_notMem trivial hid

/-- No rule is installed twice, and no id is stored twice. -/
theorem rules_once {cfg : Config} {w : World} {c : Conf World Input Act} (hw : w.Fresh)
    (h : Run (manager cfg) PlainCalls TruthfulChecks ⟨w, none⟩ c) :
    (c.mem.filed.map (·.id)).Nodup ∧ ∀ tool rule, copies (c.mem.fw tool) rule ≤ 1 := by
  have hsound : Sound (manager cfg) PlainCalls (orderly trusting cfg TruthfulChecks) Idle :=
    manager_orderly trivial id
  have hinv := (hsound.run_safe (.start hw.inv hw.applying) h).inv
  exact ⟨hinv.filed.nodup, hinv.once trivial⟩

/-! ## An instance with a limit -/

def installed : Config where
  configPath := "/etc/narwhal/agent.yaml"
  executable := "/usr/local/bin/narwhal-agent"
  uuid := ConnLimit.hyphenated

def cap : Policy where
  id := "0123456789abcdef0123456789abcdef"
  vmId := "web-1"
  instanceId := "2b7e1516-28ae-4d2a-abf7-158809cf4f3c"
  max := 200
  expiresAt := 1600
  ips := ["10.0.0.5"]

/-- The incoming rule for the address. -/
def capRule : Rule := ruleArgs cap ⟨.v4 0x0a000005, []⟩ true

/-- A new policy for one address; nothing fails. -/
def applied (p : Policy) : List (Server.Move Input Act Call) :=
  [.call (.apply p), .act {}, .act { now := 1000 }] ++ List.replicate 10 (.act {}) ++
    [.act { fail := true }, .act { now := 1000 }, .act {}, .act {}, .done]

def released (p : Policy) : List (Server.Move Input Act Call) :=
  [.call (.release p.id p.vmId p.instanceId)] ++ List.replicate 7 (.act {}) ++ [.done]

theorem cap_rule_owned : ∃ c,
    Run (manager installed) PlainCalls TruthfulChecks ⟨{}, none⟩ c ∧
    copies (c.mem.fw .iptables) capRule = 1 ∧
    ∃ p ∈ c.mem.filed, (Tool.iptables, capRule) ∈ p.rules ∧ RuleOf p.id capRule :=
  exists_run_imp (p := fun c => copies (c.mem.fw .iptables) capRule = 1) (applied cap)
    (by decide +kernel) fun _ hrun hcopies =>
    ⟨hcopies, (rules_owned ⟨rfl, fun _ _ => rfl, rfl⟩ hrun).1 _ _ (by rw [hcopies]; decide)⟩

theorem rules_once_cap : ∃ c, Run (manager installed) PlainCalls TruthfulChecks ⟨{}, none⟩ c ∧
    c.mem.filed ≠ [] ∧ (c.mem.filed.map (·.id)).Nodup :=
  exists_run_imp (p := fun c => c.mem.filed ≠ []) (applied cap) (by decide +kernel)
    fun _ hrun hfiled => ⟨hfiled, (rules_once ⟨rfl, fun _ _ => rfl, rfl⟩ hrun).1⟩

/-- Nothing fails, and the policy is accepted; its release drops it and leaves its rule. -/
theorem mapped_rule_orphaned : ∃ c,
    Run (manager installed) (fun _ _ => True) TruthfulChecks ⟨{}, none⟩ c ∧ c.run = none ∧
    c.mem.rejected = [] ∧ c.mem.filed = [] ∧ copies (c.mem.fw .iptables) capRule = 1 :=
  exists_run (applied (cap.withIPs ["::ffff:10.0.0.5"]) ++ released cap) (by decide +kernel)

end RunmanAgent.GoAgent.Limits
