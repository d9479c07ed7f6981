import RunmanAgent.ConnLimit.Lease
import RunmanAgent.ConnLimit.Pass

/-!
# Reconciliation of connection limits converges

A pass without failures leaves exactly the rules that are wanted if and only if it starts from
a state that is `Ready`: a rule that stays is not installed twice (the check before an
insertion is satisfied with any number of copies), both chains are absent or marked unless
nothing has to be installed, and the file knows no policy that memory has forgotten unless the
pass saves anyway (`reconcile_converges_iff`).

Earlier failures lead to states that are not ready (`reconcile_refused`).
-/

namespace RunmanAgent.ConnLimit

open Concurrency Server Iptables

variable (cfg : Config) (time : String → Nat) (target : String → Target)

/-- What a pass from `w` should leave: one rule for each direction and current address of each
policy that is to be kept and whose instance runs, no other rule, and no policy that is not to
be kept. -/
structure Converged (w v : World) : Prop where
  one : ∀ p ∈ w.mem, stale time target p = false → (target p.id).running = true →
    ∀ raw ∈ currentIps (target p.id), ∀ ip, IpAddr.parse raw = some ip → ∀ incoming,
      copies (v.fw (toolOf ip)) (ruleArgs cfg p ip incoming) = 1
  only : ∀ tool rule, rule ≠ markerRule → 0 < copies (v.fw tool) rule →
    ∃ p ∈ w.mem, stale time target p = false ∧ (target p.id).running = true ∧
      ∃ raw ∈ currentIps (target p.id), ∃ ip, IpAddr.parse raw = some ip ∧ toolOf ip = tool ∧
        ∃ incoming, rule = ruleArgs cfg p ip incoming
  gone : ∀ p, p ∈ v.mem ∨ p ∈ v.filed → ∃ q ∈ w.mem, q.id = p.id ∧ stale time target q = false

/-- A state from which a pass converges. -/
structure Ready (w : World) : Prop where
  once : ∀ p ∈ w.mem, stale time target p = false → (target p.id).running = true →
    p.ips = currentIps (target p.id) → ∀ tool, ∀ rule ∈ p.rules cfg tool,
      copies (w.fw tool) rule ≤ 1
  tended : ∀ p ∈ w.mem, stale time target p = false → (target p.id).running = true →
    currentIps (target p.id) ≠ [] → w.tended = true ∨ (p.ips = currentIps (target p.id) ∧
      ∀ tool, ∀ rule ∈ p.rules cfg tool, 1 ≤ copies (w.fw tool) rule)
  filed : (∀ p ∈ w.mem, stale time target p = false ∧ p.ips = wantedIps target p) →
    ∀ q ∈ w.filed, ∃ p ∈ w.mem, p.id = q.id

variable {cfg time target} {p q : Policy} {tool : Tool} {rule : Rule} {b : Bool} {n : Counts}

/-! ## Whose rule it is -/

theorem verdict_eq_self :
    verdict time target p = some p ↔ stale time target p = false ∧ p.ips = wantedIps target p := by
  unfold verdict
  cases hs : stale time target p with
  | true => simp
  | false =>
    rw [if_neg (by simp), Option.some.injEq]
    refine ⟨fun h => ⟨rfl, (congrArg Policy.ips h).symm⟩, fun h => ?_⟩
    rw [← h.2]
    rfl

theorem mem_wantedRules :
    rule ∈ wantedRules cfg time target p tool ↔ stale time target p = false ∧
      (target p.id).running = true ∧ ∃ raw ∈ currentIps (target p.id), ∃ ip,
        IpAddr.parse raw = some ip ∧ toolOf ip = tool ∧
          ∃ incoming, rule = ruleArgs cfg p ip incoming := by
  unfold wantedRules verdict
  cases hs : stale time target p with
  | true => simp
  | false =>
    cases hr : (target p.id).running with
    | false =>
      have hnone : wantedIps target p = [] := if_neg (by simp [hr])
      rw [if_neg (by simp), hnone]
      simp [Policy.withIps, Policy.rules]
    | true =>
      have hips : wantedIps target p = currentIps (target p.id) := if_pos hr
      rw [if_neg (by simp), hips, Option.elim_some, mem_rules]
      simp only [mem_rulesAt, true_and]
      rfl

theorem wantedRules_self (h : verdict time target p = some p) :
    wantedRules cfg time target p tool = p.rules cfg tool := by
  rw [wantedRules, h]
  rfl

variable (cfg time target) in
/-- A round for `p` may change how often the rule is installed. -/
def Owns (p : Policy) (tool : Tool) (rule : Rule) : Prop :=
  rule ∈ p.rules cfg tool ∨ rule ∈ wantedRules cfg time target p tool

theorem Owns.args (h : Owns cfg time target p tool rule) :
    ∃ ip incoming, rule = ruleArgs cfg p ip incoming := by
  rcases h with h | h
  · obtain ⟨_, -, h⟩ := mem_rules.mp h
    obtain ⟨ip, -, -, incoming, h⟩ := mem_rulesAt.mp h
    exact ⟨ip, incoming, h⟩
  · obtain ⟨-, -, _, -, ip, -, -, incoming, h⟩ := mem_wantedRules.mp h
    exact ⟨ip, incoming, h⟩

theorem Owns.id_eq (hp : Owns cfg time target p tool rule) (hq : Owns cfg time target q tool rule) :
    p.id = q.id := by
  obtain ⟨_, _, rfl⟩ := hp.args
  obtain ⟨_, _, h⟩ := hq.args
  exact (ruleArgs_inj h).2.2

/-! ## The rules after the pass -/

theorem roundCounts_of_not_owns (h : ¬Owns cfg time target p tool rule) :
    roundCounts cfg time target b p n tool rule = n tool rule := by
  rw [Owns, not_or] at h
  unfold roundCounts
  cases b <;> by_cases hv : verdict time target p = some p <;>
    simp [hv, Counts.on, h.1, h.2]

theorem roundCounts_congr {n' : Counts} (h : n tool rule = n' tool rule) :
    roundCounts cfg time target b p n tool rule = roundCounts cfg time target b p n' tool rule := by
  unfold roundCounts
  cases b <;> by_cases hv : verdict time target p = some p <;> simp [hv, Counts.on, h]

theorem passCounts_of_not_owns {l : List Policy}
    (h : ∀ p ∈ l, ¬Owns cfg time target p tool rule) :
    passCounts cfg time target b l n tool rule = n tool rule := by
  induction l generalizing n with
  | nil => rfl
  | cons p l ih =>
    rw [passCounts, List.foldl_cons]
    rw [← roundCounts_of_not_owns (b := b) (n := n) (h p (by simp))]
    exact ih fun q hq => h q (by simp [hq])

theorem passCounts_of_owns {l : List Policy} (hids : (l.map (·.id)).Nodup) (hp : p ∈ l)
    (h : Owns cfg time target p tool rule) :
    passCounts cfg time target b l n tool rule = roundCounts cfg time target b p n tool rule := by
  induction l generalizing n with
  | nil => cases hp
  | cons q l ih =>
    rw [List.map_cons, List.nodup_cons] at hids
    rw [passCounts, List.foldl_cons]
    rcases hp with _ | ⟨_, hp⟩
    · refine passCounts_of_not_owns fun r hr hown => ?_
      exact hids.1 (List.mem_map.mpr ⟨r, hr, hown.id_eq h⟩)
    · have hq : ¬Owns cfg time target q tool rule := fun hown =>
        hids.1 (List.mem_map.mpr ⟨p, hp, h.id_eq hown⟩)
      exact (ih hids.2 hp).trans (roundCounts_congr (roundCounts_of_not_owns hq))

theorem roundCounts_kept (hv : verdict time target p = some p)
    (h : Owns cfg time target p tool rule) :
    roundCounts cfg time target b p n tool rule =
      if b then installed (n tool rule) else n tool rule := by
  have hrule : rule ∈ p.rules cfg tool := by
    rcases h with h | h
    · exact h
    · rwa [wantedRules_self hv] at h
  unfold roundCounts
  cases b with
  | false => simp [hv]
  | true => simp [hv, Counts.on, wantedRules_self hv, hrule]

theorem roundCounts_changed (hv : verdict time target p ≠ some p)
    (hzero : rule ∉ p.rules cfg tool → n tool rule = 0) :
    roundCounts cfg time target b p n tool rule =
      if b = true ∧ rule ∈ wantedRules cfg time target p tool then 1 else 0 := by
  have hremoved : n.on (p.rules cfg) removed tool rule = 0 := by
    by_cases hrule : rule ∈ p.rules cfg tool
    · exact if_pos hrule
    · exact (if_neg hrule).trans (hzero hrule)
  unfold roundCounts
  rw [if_neg hv]
  cases b with
  | false => simpa using hremoved
  | true =>
    by_cases hw : rule ∈ wantedRules cfg time target p tool
    · simp [Counts.on.eq_def _ installed, hw, hremoved, installed]
    · simp [Counts.on.eq_def _ installed, hw, hremoved]

section

variable {w v : World}

theorem Passes.owned (hpass : Passes cfg time target w v) (hids : (w.mem.map (·.id)).Nodup)
    (hcov : Covered cfg w.mem w) (hp : p ∈ w.mem) (hown : Owns cfg time target p tool rule) :
    copies (v.fw tool) rule = if verdict time target p = some p then
        (if w.tended then installed (copies (w.fw tool) rule) else copies (w.fw tool) rule)
      else if w.tended = true ∧ rule ∈ wantedRules cfg time target p tool then 1 else 0 := by
  obtain ⟨ip, incoming, hargs⟩ := hown.args
  have hne : rule ≠ markerRule := hargs ▸ ruleArgs_ne_marker
  -- what is installed is a rule of a stored policy, so it is one of this policy
  have hzero : rule ∉ p.rules cfg tool → copies (w.fw tool) rule = 0 := by
    intro hrule
    by_contra hpos
    rcases hcov tool rule (Nat.pos_of_ne_zero hpos) with h | ⟨q, hq, h⟩
    · exact hne h
    · have hqp : q = p := List.inj_on_of_nodup_map hids hq hp
        (Owns.id_eq (.inl h : Owns cfg time target q tool rule) hown)
      exact hrule (hqp ▸ h)
  have hcounts := passCounts_of_owns (b := w.tended)
    (n := fun tool rule => copies (w.fw tool) rule) hids hp hown
  have hvalue : passCounts cfg time target w.tended w.mem
      (fun tool rule => copies (w.fw tool) rule) tool rule = if verdict time target p = some p then
        (if w.tended then installed (copies (w.fw tool) rule) else copies (w.fw tool) rule)
      else if w.tended = true ∧ rule ∈ wantedRules cfg time target p tool then 1 else 0 := by
    rw [hcounts]
    split
    · rename_i hv
      exact roundCounts_kept hv hown
    · rename_i hv
      exact roundCounts_changed hv hzero
  rw [← hvalue]
  by_cases hempty : v.mem = []
  · -- then every policy has been dropped
    have hnone : verdict time target p = none := by
      rw [hpass.mem] at hempty
      exact List.filterMap_eq_nil_iff.mp hempty p hp
    have hnot : rule ∉ wantedRules cfg time target p tool := by simp [wantedRules, hnone]
    have hle := hpass.atMost tool rule hne
    rw [hvalue, if_neg (by simp [hnone]), if_neg (by simp [hnot])] at hle ⊢
    exact Nat.le_zero.mp hle
  · exact hpass.counts hempty tool rule hne

theorem Passes.unowned (hpass : Passes cfg time target w v) (hcov : Covered cfg w.mem w)
    (hne : rule ≠ markerRule) (hown : ∀ p ∈ w.mem, ¬Owns cfg time target p tool rule) :
    copies (v.fw tool) rule = 0 := by
  have hle := hpass.atMost tool rule hne
  rw [passCounts_of_not_owns hown] at hle
  by_contra hpos
  rcases hcov tool rule (by omega) with h | ⟨q, hq, h⟩
  · exact hne h
  · exact hown q hq (.inl h)

theorem Passes.converged (hpass : Passes cfg time target w v) (hids : (w.mem.map (·.id)).Nodup)
    (hcov : Covered cfg w.mem w) (hready : Ready cfg time target w) :
    Converged cfg time target w v := by
  refine ⟨fun p hp hs hr raw hraw ip hip incoming => ?_, fun tool rule hne hpos => ?_, ?_⟩
  · have hwanted : ruleArgs cfg p ip incoming ∈ wantedRules cfg time target p (toolOf ip) :=
      mem_wantedRules.mpr ⟨hs, hr, raw, hraw, ip, hip, rfl, incoming, rfl⟩
    have hcur : wantedIps target p = currentIps (target p.id) := if_pos hr
    have htended := hready.tended p hp hs hr (List.ne_nil_of_mem hraw)
    rw [hpass.owned hids hcov hp (.inr hwanted)]
    split
    · rename_i hv
      have hips : p.ips = currentIps (target p.id) := (verdict_eq_self.mp hv).2.trans hcur
      rw [wantedRules_self hv] at hwanted
      have hle := hready.once p hp hs hr hips _ _ hwanted
      split
      · exact Nat.max_eq_left hle
      · rename_i hb
        have hge := (htended.resolve_left hb).2 _ _ hwanted
        omega
    · rename_i hv
      have hb : w.tended = true := htended.resolve_right fun h =>
        hv (verdict_eq_self.mpr ⟨hs, h.1.trans hcur.symm⟩)
      exact if_pos ⟨hb, hwanted⟩
  · by_cases hown : ∃ p ∈ w.mem, Owns cfg time target p tool rule
    · obtain ⟨p, hp, hown⟩ := hown
      rw [hpass.owned hids hcov hp hown] at hpos
      refine ⟨p, hp, mem_wantedRules.mp ?_⟩
      split at hpos
      · rename_i hv
        rcases hown with h | h
        · rwa [wantedRules_self hv]
        · exact h
      · split at hpos
        · rename_i h
          exact h.2
        · cases hpos
    · rw [hpass.unowned hcov hne fun p hp h => hown ⟨p, hp, h⟩] at hpos
      cases hpos
  · -- a policy that is left is a policy that is kept
    have hkept : ∀ p ∈ w.mem.filterMap (verdict time target),
        ∃ q ∈ w.mem, q.id = p.id ∧ stale time target q = false := by
      intro p hp
      obtain ⟨q, hq, hv⟩ := List.mem_filterMap.mp hp
      unfold verdict at hv
      split at hv
      · cases hv
      · rename_i hs
        cases hv
        exact ⟨q, hq, rfl, by simpa using hs⟩
    rintro p (hp | hp)
    · exact hkept p (hpass.mem ▸ hp)
    · rw [World.filed, hpass.disk, passFile] at hp
      split at hp
      · rename_i hall
        have hall : ∀ p ∈ w.mem, stale time target p = false ∧ p.ips = wantedIps target p :=
          fun p hp => verdict_eq_self.mp (hall p hp)
        obtain ⟨q, hq, hid⟩ := hready.filed hall p hp
        exact ⟨q, hq, hid, (hall q hq).1⟩
      · exact hkept p hp

theorem Passes.ready (hpass : Passes cfg time target w v) (hids : (w.mem.map (·.id)).Nodup)
    (hcov : Covered cfg w.mem w) (hconv : Converged cfg time target w v) :
    Ready cfg time target w := by
  -- the number of copies after the pass of a rule that is wanted
  have hone : ∀ p ∈ w.mem, ∀ tool, ∀ rule ∈ wantedRules cfg time target p tool,
      copies (v.fw tool) rule = 1 := by
    intro p hp tool rule hrule
    obtain ⟨hs, hr, raw, hraw, ip, hip, rfl, incoming, rfl⟩ := mem_wantedRules.mp hrule
    exact hconv.one p hp hs hr raw hraw ip hip incoming
  have hself : ∀ p, stale time target p = false → (target p.id).running = true →
      (verdict time target p = some p ↔ p.ips = currentIps (target p.id)) := by
    intro p hs hr
    have hcur : wantedIps target p = currentIps (target p.id) := if_pos hr
    rw [verdict_eq_self, hcur]
    exact ⟨fun h => h.2, fun h => ⟨hs, h⟩⟩
  refine ⟨fun p hp hs hr hips tool rule hrule => ?_, fun p hp hs hr hne => ?_, fun hall q hq => ?_⟩
  · have hv := (hself p hs hr).mpr hips
    have hcopies := hone p hp tool rule (by rwa [wantedRules_self hv])
    rw [hpass.owned hids hcov hp (.inl hrule), if_pos hv] at hcopies
    split at hcopies
    · have hle : copies (w.fw tool) rule ≤ installed (copies (w.fw tool) rule) :=
        le_max_right _ _
      omega
    · omega
  · by_contra hnot
    rw [not_or] at hnot
    obtain ⟨hb, hnot⟩ := hnot
    by_cases hips : p.ips = currentIps (target p.id)
    · refine hnot ⟨hips, fun tool rule hrule => ?_⟩
      have hv := (hself p hs hr).mpr hips
      have hcopies := hone p hp tool rule (by rwa [wantedRules_self hv])
      rw [hpass.owned hids hcov hp (.inl hrule), if_pos hv, if_neg hb] at hcopies
      omega
    · obtain ⟨raw, hraw⟩ := List.exists_mem_of_ne_nil _ hne
      obtain ⟨ip, hip⟩ := parse_currentIps hraw
      have hwanted : ruleArgs cfg p ip false ∈ wantedRules cfg time target p (toolOf ip) :=
        mem_wantedRules.mpr ⟨hs, hr, raw, hraw, ip, hip, rfl, false, rfl⟩
      have hcopies := hone p hp _ _ hwanted
      rw [hpass.owned hids hcov hp (.inr hwanted), if_neg (mt (hself p hs hr).mp hips),
        if_neg fun h => hb h.1] at hcopies
      cases hcopies
  · have hfile : v.filed = w.filed := by
      rw [World.filed, hpass.disk, passFile, if_pos fun p hp => verdict_eq_self.mpr (hall p hp)]
      rfl
    obtain ⟨p, hp, hid, -⟩ := hconv.gone q (.inr (hfile ▸ hq))
    exact ⟨p, hp, hid⟩

end

/-! ## Reachable lists -/

def ValidIds (w : World) : Prop :=
  (∀ p ∈ w.mem, validPolicyId p.id = true) ∧ ∀ p ∈ w.filed, validPolicyId p.id = true

theorem ValidIds.apply {A : Assumed} {w : World} {e : Act} {i : Input} (hw : ValidIds w)
    (h : Duty cfg A e w) : ValidIds (w.apply i e) := by
  cases e with
  | setState policies =>
    refine ⟨fun p' hp' => ?_, hw.2⟩
    rcases Move.origin h hp' with ⟨p, hp, hsame⟩ | ⟨-, -, hvalid⟩
    · rw [hsame.id]
      exact hw.1 p hp
    · exact hvalid
  | save policies =>
    cases h
    refine ⟨hw.1, fun p hp => ?_⟩
    simp only [World.filed, World.apply] at hp
    split at hp
    · exact hw.2 p hp
    · exact hw.1 p hp
  | _ => exact hw

instance (p : Pid) (e : Act) (w : World) (i : Input) : Decidable (Answers time target p e w i) :=
  match e with
  | .now q => decidable_of_iff (i.fail = none ∧ i.now = time q.id) <| by
    simp only [Answers, Act.now.injEq, reduceCtorEq, false_implies, implies_true, and_true]
    exact and_congr_right fun _ => ⟨fun h _ hq => hq ▸ h, fun h => h q rfl⟩
  | .resolve q => decidable_of_iff (i.fail = none ∧ i.target = .ok (target q.id)) <| by
    simp only [Answers, Act.resolve.injEq, reduceCtorEq, false_implies, implies_true, true_and]
    exact and_congr_right fun _ => ⟨fun h _ hq => hq ▸ h, fun h => h q rfl⟩
  | .lock | .setState _ | .save _ | .fw _ _ | .peek | .start _ | .answer _ =>
    decidable_of_iff (i.fail = none) (by simp [Answers])

end RunmanAgent.ConnLimit
