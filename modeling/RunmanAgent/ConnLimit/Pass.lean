import RunmanAgent.Concurrency.Total
import RunmanAgent.ConnLimit.WriteAhead

/-!
# A pass of `reconcile` without failures

What such a pass leaves is determined by the clock and by what is known about the instances
(`Answers`). `Abstract` describes the state by the two lists, whether both chains are absent
or marked, and how often each rule is installed; `verdict` says what becomes of a policy and
`roundCopies` what becomes of the rules in its round. `total_reconcile` is the whole pass.
-/

namespace RunmanAgent.ConnLimit

open Concurrency Server Iptables

/-- No step fails; `time` is what the clock says when a policy is looked at, `target` what is
known about its instance. -/
def Answers (time : String → Nat) (target : String → Target) (_ : Pid) (e : Act) (_ : World)
    (i : Input) : Prop :=
  i.fail = none ∧ (∀ p, e = .now p → i.now = time p.id) ∧
    ∀ p, e = .resolve p → i.target = .ok (target p.id)

/-! ## The marker -/

/-- The rule does not mention the marker. -/
def Plain (rule : Rule) : Prop :=
  (rule.any fun arg => decide (CHAIN_MARKER.toList <:+: arg.toList)) = false

variable {cfg : Config}

variable {rule : Rule} {w : World} {n : Counts} {tool : Tool} {g : Nat → Nat} {P : World → Prop}
  {S : List Tool}

/-- The chain is absent or mentions the marker. -/
def tendedTable (t : Option Chain) : Bool := t.all (·.mentions CHAIN_MARKER)

/-- `ensure_chain` accepts both chains. -/
def World.tended (w : World) : Bool := tendedTable (w.fw .iptables) && tendedTable (w.fw .ip6tables)

/-- How often each rule is installed. -/
abbrev Counts := Tool → Rule → Nat

/-- The lists in memory and in the file, whether the chains are accepted, and how often each rule
other than the marker is installed. -/
structure Abstract (m : List Policy) (d : Option (List Policy)) (b : Bool) (n : Counts)
    (w : World) : Prop where
  mem : w.mem = m
  disk : w.disk = d
  tended : w.tended = b
  copies : ∀ tool rule, rule ≠ markerRule → copies (w.fw tool) rule = n tool rule

/-- `g` applied to the number of copies of the rules in `S`. -/
def Counts.on (S : Tool → List Rule) (g : Nat → Nat) (n : Counts) : Counts :=
  fun tool rule => if rule ∈ S tool then g (n tool rule) else n tool rule

/-- A rule that is removed, and one that is installed unless it is there. -/
def removed (_ : Nat) : Nat := 0

def installed (k : Nat) : Nat := max 1 k

variable {time : String → Nat} {target : String → Target} {m : List Policy}
  {d : Option (List Policy)} {b : Bool} {n : Counts} {go : Prop}

variable (time target) in
/-- Hoare triples for a pass without failures. -/
abbrev Does {α : Type} (P : World → Prop) (p : Prog World Input Act α) (Q : α → World → Prop) :
    Prop :=
  Total host (Answers time target) self True P p Q

/-- The world with another table. -/
def World.withTable (w : World) (tool : Tool) (t : Option Chain) : World :=
  { w with fw := Function.update w.fw tool t }

theorem withTable_fw (w : World) (tool : Tool) (t : Option Chain) :
    (w.withTable tool t).fw tool = t :=
  Function.update_self ..

theorem withTable_other (w : World) {tool' : Tool} (t : Option Chain) (h : tool' ≠ tool) :
    (w.withTable tool t).fw tool' = w.fw tool' :=
  Function.update_of_ne h ..

theorem Abstract.withTable {t : Option Chain} {n' : Counts} (hw : Abstract m d b n w)
    (ht : tendedTable t = tendedTable (w.fw tool))
    (hself : ∀ rule, rule ≠ markerRule → Iptables.copies t rule = n' tool rule)
    (hother : ∀ tool', tool' ≠ tool → n' tool' = n tool') :
    Abstract m d b n' (w.withTable tool t) := by
  refine ⟨hw.mem, hw.disk, ?_, fun tool' rule hne => ?_⟩
  · have hall : ∀ tool', tendedTable ((w.withTable tool t).fw tool') =
        tendedTable (w.fw tool') := by
      intro tool'
      by_cases h : tool' = tool
      · rw [h, withTable_fw, ht]
      · rw [withTable_other w t h]
    rw [World.tended, hall, hall]
    exact hw.tended
  · by_cases h : tool' = tool
    · rw [h, withTable_fw]
      exact hself rule hne
    · rw [withTable_other w t h, hother tool' h]
      exact hw.copies tool' rule hne

/-! ## One rule -/

/-- One rule of one table. -/
def single (tool : Tool) (rule : Rule) : Tool → List Rule :=
  fun t => if t = tool then [rule] else []

theorem Abstract.chain {k : Nat} (hw : Abstract m d b n w) (hrule : rule ≠ markerRule)
    (hk : n tool rule = k + 1) : ∃ c, w.fw tool = some c ∧ rule ∈ c.rules := by
  have hcopies := hw.copies tool rule hrule
  cases hc : w.fw tool with
  | none =>
    rw [hc, hk] at hcopies
    cases hcopies
  | some c =>
    rw [hc, hk] at hcopies
    exact ⟨c, rfl, copies_pos.mp (by omega)⟩

/-- Both chains are there. -/
def Present (w : World) : Prop := ∀ tool, (w.fw tool).isSome = true

variable {p : Policy}

variable (cfg time target)

/-- The policy is not to be kept. -/
def stale (p : Policy) : Bool :=
  p.removeOnly || decide (p.expiresAt ≤ time p.id) || !(target p.id).managed ||
    decide ((target p.id).instanceId ≠ p.instanceId)

/-- The addresses that are to be limited. -/
def wantedIps (p : Policy) : List String :=
  if (target p.id).running then currentIps (target p.id) else []

/-- What a round leaves of a policy. -/
def verdict (p : Policy) : Option Policy :=
  if stale time target p then none else some (p.withIps (wantedIps target p))

/-- The rules that are to be installed for a policy. -/
def wantedRules (p : Policy) (tool : Tool) : List Rule :=
  (verdict time target p).elim [] fun p' => p'.rules cfg tool

/-- What a round leaves of the rules; `b` says whether the chains are accepted. -/
def roundCounts (b : Bool) (p : Policy) (n : Counts) : Counts :=
  let n := if verdict time target p = some p then n else n.on (p.rules cfg) removed
  if b then n.on (wantedRules cfg time target p) installed else n

variable {cfg time target}

theorem mem_of_mapM {α β : Type} {f : α → Option β} {l : List α} {l' : List β}
    (h : l.mapM f = some l') {y : β} (hy : y ∈ l') : ∃ x ∈ l, f x = some y := by
  induction l generalizing l' with
  | nil =>
    cases h
    cases hy
  | cons x l ih =>
    simp only [List.mapM_cons, Option.bind_eq_bind, Option.bind_eq_some_iff] at h
    obtain ⟨y', hy', ys, hys, hl'⟩ := h
    cases hl'
    rcases hy with _ | ⟨_, hy⟩
    · exact ⟨x, by simp, hy'⟩
    · obtain ⟨x', hx', hfx⟩ := ih hys hy
      exact ⟨x', by simp [hx'], hfx⟩

theorem parse_currentIps {t : Target} {raw : String} (h : raw ∈ currentIps t) :
    ∃ ip, IpAddr.parse raw = some ip := by
  unfold currentIps validateIps at h
  cases hips : t.ips.mapM IpAddr.parse with
  | none => rw [hips] at h; cases h
  | some ips =>
    rw [hips] at h
    dsimp only at h
    split at h
    · cases h
    · obtain ⟨ip, hip, rfl⟩ := List.mem_map.mp h
      have hip := mem_sortedSet.mp hip
      obtain ⟨s, -, hs⟩ := mem_of_mapM hips hip
      exact ⟨ip, IpAddr.parse_toText (IpAddr.parse_valid hs)⟩

/-- A round that keeps `k` and does not leave the loop. -/
def keeps (k : Option Policy) (A : World → Prop) : Except String Round → World → Prop :=
  succeedsWith fun r w => (r.skip = false ∧ r.kept = k) ∧ A w

section

variable (hbridge : validBridge cfg.bridge = true) (hid : validPolicyId p.id = true)
  {before after : List Policy}
include hbridge hid

end

/-! ## The pass -/

variable (cfg time target) in
/-- What the loop leaves of the rules. -/
def passCounts (b : Bool) (policies : List Policy) (n : Counts) : Counts :=
  policies.foldl (fun n p => roundCounts cfg time target b p n) n

variable (time target) in
/-- The file after the loop. -/
def passFile (kept policies : List Policy) (d : Option (List Policy)) : Option (List Policy) :=
  if ∀ p ∈ policies, verdict time target p = some p then d
  else some (kept ++ policies.filterMap (verdict time target))

variable (cfg time target) in
/-- What a pass without failures leaves of the state `w`. -/
structure Passes (w v : World) : Prop where
  mem : v.mem = w.mem.filterMap (verdict time target)
  disk : v.disk = passFile time target [] w.mem w.disk
  atMost : ∀ tool rule, rule ≠ markerRule → copies (v.fw tool) rule ≤
    passCounts cfg time target w.tended w.mem (fun tool rule => copies (w.fw tool) rule) tool rule
  counts : v.mem ≠ [] → ∀ tool rule, rule ≠ markerRule → copies (v.fw tool) rule =
    passCounts cfg time target w.tended w.mem (fun tool rule => copies (w.fw tool) rule) tool rule

end RunmanAgent.ConnLimit
