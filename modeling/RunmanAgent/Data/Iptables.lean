import Mathlib

/-!
# A user-defined chain of the `filter` table

What `iptables` and `ip6tables` do with one chain of their own: rules are argument lists,
`FORWARD` may jump to the chain any number of times. An absent chain has no jumps, since
the kernel keeps a chain that is still referred to; so the table is an `Option Chain`.

A command may also fail without doing anything (`fails`), for example because it did not
get the lock in time.
-/

namespace RunmanAgent.Iptables

inductive Tool where
  | iptables
  | ip6tables
  deriving DecidableEq

def Tool.name : Tool → String
  | .iptables => "iptables"
  | .ip6tables => "ip6tables"

instance {P : Tool → Prop} [DecidablePred P] : Decidable (∀ tool, P tool) :=
  decidable_of_iff (P .iptables ∧ P .ip6tables)
    ⟨fun h tool => by cases tool; exacts [h.1, h.2], fun h => ⟨h _, h _⟩⟩

abbrev Rule := List String

structure Chain where
  rules : List Rule := []
  jumps : Nat := 0
  deriving DecidableEq

inductive Cmd where
  | list
  | newChain
  | append (rule : Rule)
  | insert (rule : Rule)
  | check (rule : Rule)
  | delete (rule : Rule)
  | flush
  | deleteChain
  | checkJump
  | insertJump
  | deleteJump
  deriving DecidableEq

def Cmd.args (chain : String) : Cmd → List String
  | .list => ["-S", chain]
  | .newChain => ["-N", chain]
  | .append rule => ["-A", chain] ++ rule
  | .insert rule => ["-I", chain, "1"] ++ rule
  | .check rule => ["-C", chain] ++ rule
  | .delete rule => ["-D", chain] ++ rule
  | .flush => ["-F", chain]
  | .deleteChain => ["-X", chain]
  | .checkJump => ["-C", "FORWARD", "-j", chain]
  | .insertJump => ["-I", "FORWARD", "1", "-j", chain]
  | .deleteJump => ["-D", "FORWARD", "-j", chain]

instance (rule : Rule) (rules : List Rule) : Decidable (rule ∈ rules) := inferInstance

/-- The table after a command, or `none` if it exits with an error. -/
def exec : Cmd → Option Chain → Option (Option Chain)
  | .newChain, none => some (some {})
  | .newChain, some _ => none
  | _, none => none
  | .list, some c => some (some c)
  | .append rule, some c => some (some { c with rules := c.rules ++ [rule] })
  | .insert rule, some c => some (some { c with rules := rule :: c.rules })
  | .check rule, some c => if rule ∈ c.rules then some (some c) else none
  | .delete rule, some c =>
    if rule ∈ c.rules then some (some { c with rules := c.rules.erase rule }) else none
  | .flush, some c => some (some { c with rules := [] })
  | .deleteChain, some c => if c.rules = [] ∧ c.jumps = 0 then some none else none
  | .checkJump, some c => if 0 < c.jumps then some (some c) else none
  | .insertJump, some c => some (some { c with jumps := c.jumps + 1 })
  | .deleteJump, some c =>
    if 0 < c.jumps then some (some { c with jumps := c.jumps - 1 }) else none

def after (fails : Bool) (cmd : Cmd) (t : Option Chain) : Option Chain :=
  if fails then t else (exec cmd t).getD t

def succeeds (fails : Bool) (cmd : Cmd) (t : Option Chain) : Bool :=
  !fails && (exec cmd t).isSome

theorem after_of_not_succeeds {fails : Bool} {cmd : Cmd} {t : Option Chain}
    (h : succeeds fails cmd t = false) : after fails cmd t = t := by
  cases fails with
  | true => rfl
  | false =>
    have hnone : exec cmd t = none := by simpa [succeeds] using h
    simp [after, hnone]

theorem exec_of_succeeds {fails : Bool} {cmd : Cmd} {t : Option Chain}
    (h : succeeds fails cmd t = true) : exec cmd t = some (after fails cmd t) := by
  obtain ⟨hf, hs⟩ := Bool.and_eq_true_iff.mp h
  obtain ⟨t', ht'⟩ := Option.isSome_iff_exists.mp hs
  have hfalse : fails = false := by simpa using hf
  rw [after, hfalse, ht']
  rfl

/-- A text occurs in the listing of the chain. -/
def Chain.mentions (c : Chain) (text : String) : Bool :=
  c.rules.any fun rule => rule.any fun arg => decide (text.toList <:+: arg.toList)

theorem mentions_of_mem {c : Chain} {text : String} {rule : Rule} (h : rule ∈ c.rules)
    (ht : text ∈ rule) : c.mentions text = true := by
  refine List.any_eq_true.mpr ⟨rule, h, List.any_eq_true.mpr ⟨text, ht, ?_⟩⟩
  exact decide_eq_true (List.infix_refl _)

/-! ## Copies of a rule -/

/-- How often a rule is installed. -/
def copies (t : Option Chain) (rule : Rule) : Nat := t.elim 0 fun c => c.rules.count rule

section Copies

variable {t t' : Option Chain} {rule : Rule} {fails : Bool}

theorem copies_pos {c : Chain} : 0 < copies (some c) rule ↔ rule ∈ c.rules :=
  List.count_pos_iff

theorem copies_of_check (h : exec (.check rule) t = some t') :
    t' = t ∧ 0 < copies t rule := by
  cases t with
  | none => cases h
  | some c =>
    simp only [exec] at h
    split at h
    · rename_i hmem
      exact ⟨(Option.some.inj h).symm, copies_pos.mpr hmem⟩
    · cases h

theorem copies_of_check_none (h : exec (.check rule) t = none) : copies t rule = 0 := by
  cases t with
  | none => rfl
  | some c =>
    simp only [exec] at h
    split at h
    · cases h
    · exact List.count_eq_zero.mpr ‹_›

theorem copies_of_delete (h : exec (.delete rule) t = some t') :
    copies t rule = copies t' rule + 1 ∧ ∀ r, copies t' r ≤ copies t r := by
  cases t with
  | none => cases h
  | some c =>
    simp only [exec] at h
    split at h
    · rename_i hmem
      cases Option.some.inj h
      refine ⟨?_, fun r => List.Sublist.count_le _ List.erase_sublist⟩
      have hpos : 0 < c.rules.count rule := List.count_pos_iff.mpr hmem
      show c.rules.count rule = (c.rules.erase rule).count rule + 1
      rw [List.count_erase_self]
      omega
    · cases h

theorem after_check : after fails (.check rule) t = t := by
  cases hs : succeeds fails (.check rule) t with
  | true => exact (copies_of_check (exec_of_succeeds hs)).1
  | false => exact after_of_not_succeeds hs

theorem copies_after_le {cmd : Cmd} (hinsert : cmd ≠ .insert rule) (happend : cmd ≠ .append rule) :
    copies (after fails cmd t) rule ≤ copies t rule := by
  cases hs : succeeds fails cmd t with
  | false => rw [after_of_not_succeeds hs]
  | true =>
    have hexec := exec_of_succeeds hs
    generalize after fails cmd t = t' at hexec ⊢
    cases t with
    | none =>
      cases cmd with
      | newChain => cases hexec; exact Nat.le_refl 0
      | _ => cases hexec
    | some c =>
      cases cmd with
      | newChain => cases hexec
      | list | insertJump => cases hexec; exact le_rfl
      | append r =>
        cases hexec
        have hne : r ≠ rule := fun h => happend (h ▸ rfl)
        show (c.rules ++ [r]).count rule ≤ c.rules.count rule
        rw [List.count_append, List.count_singleton, beq_false_of_ne hne]
        exact le_rfl
      | insert r =>
        cases hexec
        have hne : r ≠ rule := fun h => hinsert (h ▸ rfl)
        show (r :: c.rules).count rule ≤ c.rules.count rule
        rw [List.count_cons_of_ne hne]
      | flush => cases hexec; exact Nat.zero_le _
      | check r | checkJump | deleteJump =>
        simp only [exec] at hexec
        split at hexec
        · cases hexec; exact le_rfl
        · cases hexec
      | delete r => exact (copies_of_delete hexec).2 rule
      | deleteChain =>
        simp only [exec] at hexec
        split at hexec
        · cases hexec; exact Nat.zero_le _
        · cases hexec

theorem copies_update_le {fw : Tool → Option Chain} {tool tool' : Tool} {cmd : Cmd}
    (h : tool' = tool → cmd ≠ .insert rule ∧ cmd ≠ .append rule) :
    copies (Function.update fw tool (after fails cmd (fw tool)) tool') rule ≤
      copies (fw tool') rule := by
  by_cases ht : tool' = tool
  · subst ht
    rw [Function.update_self]
    exact copies_after_le (h rfl).1 (h rfl).2
  · rw [Function.update_of_ne ht]

end Copies

end RunmanAgent.Iptables
