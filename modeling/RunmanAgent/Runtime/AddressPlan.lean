import RunmanAgent.Runtime.NetConfig
import RunmanAgent.Runtime.Spec

/-!
# The address plan (`Net::addrs_for`, `mac` and `run_spec`)

Indexes are given up to the smaller of `MAX_IDX` and `max_idx`. `plan_sound_iff`: with a
configuration that was accepted each of them has addresses of its own, inside their prefixes,
unless the public prefix has length 0. The test for room shifts a `u128` by 128 bits there,
which is past its width: instead of 0 it yields the host part, and no index has addresses.
-/

namespace RunmanAgent

namespace Net

/-- The prefix of the instances' IPv6 addresses and its length. -/
def v6Prefix? (n : Net) : Option (Nat × Nat) :=
  match n.v6 with
  | .none => none
  | .snat => some (n.snat6Prefix, 64)
  | .subnet pfx len _ => some (pfx, len)

/-- The public prefix leaves no bit fixed. -/
def wholeSpace (c : NetworkConfig) : Bool :=
  c.ipv6Mode == "subnet" &&
    match parseCidr6 c.ipv6Prefix with
    | .ok (_, len) => len == 0
    | .error _ => false

/-- The machine integers of `max_idx`, `addrs_for` and `run_spec` hold their results, and no
shift is as wide as the number it shifts. -/
structure InRange (n : Net) (idx : Nat) : Prop where
  maxIdx : 32 - n.v4Len < 32 ∧ 4 ≤ 2 ^ (32 - n.v4Len)
  ipv4 : n.v4Base + 2 + idx < 2 ^ 32
  snat : n.v6 = .snat → n.snat6Prefix + 2 + idx < 2 ^ 128
  subnet : ∀ pfx len up, n.v6 = .subnet pfx len up →
    V6_HOST_OFFSET + idx < 2 ^ 128 ∧ len ≤ 128 ∧ 128 - len < 128
  uid : ID_BASE + idx * ID_RANGE < 2 ^ 32

/-- Addresses of the subnet and of the prefix that the host does not use itself. -/
structure Usable (n : Net) (a : Addrs) : Prop where
  subnet : masked 32 a.ipv4 n.v4Len = n.v4Base
  network : a.ipv4 ≠ n.v4Base
  gateway : a.ipv4 ≠ n.gateway4
  broadcast : a.ipv4 ≠ n.v4Base + 2 ^ (32 - n.v4Len) - 1
  ipv6 : ∀ x, a.ipv6 = some x → ∃ pfx len, n.v6Prefix? = some (pfx, len) ∧
    masked 128 x len = pfx ∧ x ≠ n.gateway6 ∧ x ≠ pfx + 1

/-- The addresses of distinct indexes are distinct. -/
structure Apart (n : Net) (i j : Nat) : Prop where
  addrs : ∀ a b, n.addrsFor i = .ok a → n.addrsFor j = .ok b →
    a.ipv4 ≠ b.ipv4 ∧ ∀ x, a.ipv6 = some x → b.ipv6 ≠ some x
  mac : mac i ≠ mac j
  uids : ∀ (rt : Runtime) (r r' : Record), r.idx = i → r'.idx = j →
    (rt.runSpec r).uidBase + ID_RANGE ≤ (rt.runSpec r').uidBase ∨
      (rt.runSpec r').uidBase + ID_RANGE ≤ (rt.runSpec r).uidBase

structure SoundPlan (n : Net) : Prop where
  total : ∀ idx, idx ≤ min MAX_IDX n.maxIdx →
    n.InRange idx ∧ ∃ a, n.addrsFor idx = .ok a ∧ n.Usable a
  apart : ∀ i j, i ≤ min MAX_IDX n.maxIdx → j ≤ min MAX_IDX n.maxIdx → i ≠ j → n.Apart i j
  uids : ∀ (rt : Runtime) (r : Record), r.idx ≤ min MAX_IDX n.maxIdx →
    (rt.runSpec r).uidBase + ID_RANGE ≤ 2 ^ 32

/-! ## What an accepted configuration provides -/

theorem parseIpv4_lt {s : List Char} {a : Nat} (h : parseIpv4 s = .ok a) : a < 2 ^ 32 := by
  unfold parseIpv4 at h
  split at h
  · rename_i hread
    cases h
    exact Text.readV4_lt hread
  · cases h

theorem parseIpv6_lt {s : List Char} {a : Nat} (h : parseIpv6 s = some a) : a < 2 ^ 128 := by
  unfold parseIpv6 at h
  split at h
  · rename_i hread
    cases h
    exact Text.readV6_lt hread
  · cases h

theorem orElse_eq_ok {α : Type} {text : String} {o : Option α} {a : α}
    (h : orElse text o = .ok a) : o = some a := by
  cases o with
  | none => cases h
  | some b =>
    cases h
    rfl

theorem context_eq_ok {α : Type} {text : String} {x : Except Err α} {a : α}
    (h : context text x = .ok a) : x = .ok a := by
  cases x with
  | error e => cases h
  | ok b =>
    cases h
    rfl

variable {len pfx : Nat} {c : NetworkConfig}

theorem parseCidr4_lt {s : String} {addr : Nat} (h : parseCidr4 s = .ok (addr, len)) :
    addr < 2 ^ 32 := by
  obtain ⟨⟨a, l⟩, -, h⟩ := bind_eq_ok.mp h
  obtain ⟨b, haddr, h⟩ := bind_eq_ok.mp h
  obtain ⟨m, -, h⟩ := bind_eq_ok.mp h
  cases h
  exact parseIpv4_lt haddr

theorem parseCidr6_spec {s : String} (h : parseCidr6 s = .ok (pfx, len)) :
    ∃ addr, addr < 2 ^ 128 ∧ pfx = masked 128 addr len := by
  obtain ⟨⟨a, l⟩, -, h⟩ := bind_eq_ok.mp h
  obtain ⟨m, -, h⟩ := bind_eq_ok.mp h
  obtain ⟨addr, haddr, h⟩ := bind_eq_ok.mp h
  cases h
  exact ⟨addr, parseIpv6_lt (orElse_eq_ok haddr), rfl⟩

theorem v6ModeOf_snat (h : v6ModeOf c = .ok .snat) : c.ipv6Mode = "snat" := by
  unfold v6ModeOf at h
  split at h
  · cases h
  · cases h
  · assumption
  · obtain ⟨⟨pfx, len⟩, -, h⟩ := bind_eq_ok.mp h
    obtain ⟨-, -, h⟩ := bind_eq_ok.mp h
    obtain ⟨-, -, h⟩ := bind_eq_ok.mp h
    cases h
  · cases h

theorem v6ModeOf_subnet {up : Option String} (h : v6ModeOf c = .ok (.subnet pfx len up)) :
    c.ipv6Mode = "subnet" ∧ parseCidr6 c.ipv6Prefix = .ok (pfx, len) ∧ len ≤ 96 := by
  unfold v6ModeOf at h
  split at h
  · cases h
  · cases h
  · cases h
  · rename_i hmode
    obtain ⟨⟨pfx, len⟩, hparse, h⟩ := bind_eq_ok.mp h
    obtain ⟨_, hlen, h⟩ := bind_eq_ok.mp h
    obtain ⟨-, -, h⟩ := bind_eq_ok.mp h
    cases h
    exact ⟨hmode, context_eq_ok hparse, of_decide_eq_true (ensure_eq_ok hlen)⟩
  · cases h

theorem v6ModeOf_of_subnet {v6 : V6Mode} (hmode : c.ipv6Mode = "subnet") (h : v6ModeOf c = .ok v6) :
    ∃ pfx len up, v6 = .subnet pfx len up := by
  unfold v6ModeOf at h
  rw [hmode] at h
  obtain ⟨⟨pfx, len⟩, -, h⟩ := bind_eq_ok.mp h
  obtain ⟨-, -, h⟩ := bind_eq_ok.mp h
  obtain ⟨-, -, h⟩ := bind_eq_ok.mp h
  cases h
  exact ⟨_, _, _, rfl⟩

theorem snat6PrefixOf_spec (hmode : c.ipv6Mode = "snat") (h : snat6PrefixOf c = .ok pfx) :
    ∃ addr, addr < 2 ^ 128 ∧ pfx = masked 128 addr 64 := by
  unfold snat6PrefixOf at h
  rw [if_pos hmode] at h
  obtain ⟨⟨p, len⟩, hparse, h⟩ := bind_eq_ok.mp h
  obtain ⟨_, hlen, h⟩ := bind_eq_ok.mp h
  cases h
  have hlen := ensure_eq_ok hlen
  rw [Bool.and_eq_true, beq_iff_eq] at hlen
  rw [← hlen.1]
  exact parseCidr6_spec (context_eq_ok hparse)

theorem wholeSpace_iff {n : Net} (h : fromConfig c = .ok n) :
    wholeSpace c = true ↔ ∃ pfx up, n.v6 = .subnet pfx 0 up := by
  have hv6 := (fromConfig_spec h).v6
  unfold wholeSpace
  rw [Bool.and_eq_true, beq_iff_eq]
  constructor
  · intro ⟨hmode, hlen⟩
    obtain ⟨pfx, len, up, heq⟩ := v6ModeOf_of_subnet hmode hv6
    rw [heq] at hv6
    rw [(v6ModeOf_subnet hv6).2.1] at hlen
    exact ⟨pfx, up, by rw [heq, beq_iff_eq.mp hlen]⟩
  · intro ⟨pfx, up, heq⟩
    rw [heq] at hv6
    obtain ⟨hmode, hparse, -⟩ := v6ModeOf_subnet hv6
    rw [hparse]
    exact ⟨hmode, rfl⟩

/-- The prefixes leave room and have no bits after their lengths. -/
structure Aligned (n : Net) : Prop where
  len : 8 ≤ n.v4Len ∧ n.v4Len ≤ 24
  base : ∃ v4, v4 < 2 ^ 32 ∧ n.v4Base = masked 32 v4 n.v4Len
  v6 : ∀ pfx len, n.v6Prefix? = some (pfx, len) →
    len ≤ 96 ∧ ∃ addr, addr < 2 ^ 128 ∧ pfx = masked 128 addr len

theorem fromConfig_aligned {n : Net} (h : fromConfig c = .ok n) : n.Aligned := by
  have hread := fromConfig_spec h
  have hv6 := hread.v6
  obtain ⟨v4, hparse, hbase⟩ := hread.base
  refine ⟨hread.len, ⟨v4, parseCidr4_lt hparse, hbase⟩, fun pfx len hpfx => ?_⟩
  unfold v6Prefix? at hpfx
  cases hmode : n.v6 with
  | none =>
    rw [hmode] at hpfx
    cases hpfx
  | snat =>
    rw [hmode] at hpfx hv6
    cases hpfx
    exact ⟨by omega, snat6PrefixOf_spec (v6ModeOf_snat hv6) hread.snat6Prefix⟩
  | subnet p l up =>
    rw [hmode] at hpfx hv6
    cases hpfx
    obtain ⟨-, hparse, hle⟩ := v6ModeOf_subnet hv6
    exact ⟨hle, parseCidr6_spec hparse⟩

/-! ## Addresses -/

/-- What follows the prefix in the IPv6 address of an index. -/
def hostPart (n : Net) (idx : Nat) : Nat :=
  match n.v6 with
  | .snat => 2 + idx
  | _ => V6_HOST_OFFSET + idx

section

variable {n : Net} {i j idx : Nat}

theorem le_of_planned (hidx : idx ≤ min MAX_IDX n.maxIdx) : idx ≤ 65519 :=
  hidx.trans (Nat.min_le_left _ _)

theorem hostPart_bounds (hidx : idx ≤ min MAX_IDX n.maxIdx) :
    2 ≤ n.hostPart idx ∧ n.hostPart idx < 2 ^ 32 := by
  have hlt := le_of_planned hidx
  unfold hostPart V6_HOST_OFFSET
  cases n.v6 <;> dsimp only <;> omega

theorem hostPart_inj (h : n.hostPart i = n.hostPart j) : i = j := by
  unfold hostPart at h
  cases hv6 : n.v6 <;> rw [hv6] at h <;> dsimp only at h <;> omega

theorem Aligned.room (hn : n.Aligned) :
    2 ^ 8 ≤ 2 ^ (32 - n.v4Len) ∧ n.v4Base + 2 ^ (32 - n.v4Len) ≤ 2 ^ 32 := by
  obtain ⟨v4, hlt, hbase⟩ := hn.base
  have hlen := hn.len
  refine ⟨Nat.pow_le_pow_right (by omega) (by omega), ?_⟩
  rw [hbase]
  exact masked_add_le hlt (by omega)

variable {pfx : Nat}

theorem Aligned.host_lt (hn : n.Aligned) {len : Nat} (hpfx : n.v6Prefix? = some (pfx, len))
    (hidx : idx ≤ min MAX_IDX n.maxIdx) : n.hostPart idx < 2 ^ (128 - len) := by
  obtain ⟨hlen, -⟩ := hn.v6 pfx len hpfx
  have hpow : 2 ^ 32 ≤ 2 ^ (128 - len) := Nat.pow_le_pow_right (by omega) (by omega)
  exact (hostPart_bounds hidx).2.trans_le hpow

theorem addrsFor_eq (hn : n.Aligned) (hidx : idx ≤ min MAX_IDX n.maxIdx)
    (hwhole : ¬ ∃ pfx up, n.v6 = .subnet pfx 0 up) :
    n.addrsFor idx = .ok ⟨n.v4Base + 2 + idx, n.v6Prefix?.map fun p => p.1 + n.hostPart idx⟩ := by
  have hmax : ¬ n.maxIdx < idx := Nat.not_lt.mpr (hidx.trans (Nat.min_le_right _ _))
  unfold addrsFor
  rw [if_neg hmax]
  cases hmode : n.v6 with
  | none =>
    unfold v6Prefix?
    rw [hmode]
    rfl
  | snat =>
    unfold v6Prefix? hostPart
    rw [hmode]
    dsimp only [Option.map_some]
    rw [Nat.add_assoc n.snat6Prefix]
  | subnet pfx len up =>
    have hpfx : n.v6Prefix? = some (pfx, len) := by
      unfold v6Prefix?
      rw [hmode]
    have hhost : n.hostPart idx = V6_HOST_OFFSET + idx := by
      unfold hostPart
      rw [hmode]
    have hlt := hn.host_lt hpfx hidx
    obtain ⟨hlen, addr, -, hmasked⟩ := hn.v6 pfx len hpfx
    -- the shift is short of the width, so it leaves what the prefix has no room for
    have hpos : len ≠ 0 := fun h0 => hwhole ⟨pfx, up, h0 ▸ hmode⟩
    have hshift : (V6_HOST_OFFSET + idx) >>> ((128 - len) % 128) = 0 := by
      rw [Nat.mod_eq_of_lt (by omega), Nat.shiftRight_eq_div_pow, ← hhost]
      exact Nat.div_eq_of_lt hlt
    dsimp only
    rw [if_neg (fun h => h.2 hshift), hpfx, ← hhost, hmasked, masked_or hlt]
    rfl

theorem addrsFor_wholeSpace {up : Option String} (hmode : n.v6 = .subnet pfx 0 up)
    (hidx : idx ≤ n.maxIdx) : n.addrsFor idx = .error .ipv6PrefixTooSmall := by
  unfold addrsFor
  rw [if_neg (Nat.not_lt.mpr hidx), hmode]
  dsimp only
  rw [if_pos ⟨by omega, by simp [V6_HOST_OFFSET]⟩]

theorem usable_ipv6 (hn : n.Aligned) (hidx : idx ≤ min MAX_IDX n.maxIdx) {len : Nat}
    (hpfx : n.v6Prefix? = some (pfx, len)) :
    masked 128 (pfx + n.hostPart idx) len = pfx ∧ pfx + n.hostPart idx ≠ n.gateway6 ∧
      pfx + n.hostPart idx ≠ pfx + 1 := by
  obtain ⟨hlen, addr, -, hmasked⟩ := hn.v6 pfx len hpfx
  have hbounds := hostPart_bounds hidx
  refine ⟨?_, ?_, by omega⟩
  · rw [hmasked]
    exact masked_of_lt (hn.host_lt hpfx hidx)
  · -- the last 32 bits are the host part, and those of the gateway are 1
    have hpow : 2 ^ 32 ∣ 2 ^ (128 - len) := Nat.pow_dvd_pow 2 (by omega)
    have hdvd : 2 ^ 32 ∣ pfx := by
      rw [hmasked, masked]
      exact Nat.dvd_mul_left_of_dvd hpow _
    have hgateway : n.gateway6 % 2 ^ 32 = 1 := by
      unfold gateway6 GATEWAY6_LL
      omega
    generalize n.gateway6 = gateway at hgateway
    omega

theorem usable (hn : n.Aligned) (hidx : idx ≤ min MAX_IDX n.maxIdx) :
    n.Usable ⟨n.v4Base + 2 + idx, n.v6Prefix?.map fun p => p.1 + n.hostPart idx⟩ := by
  obtain ⟨hroom, -⟩ := hn.room
  have hmax : idx ≤ 2 ^ (32 - n.v4Len) - 4 := hidx.trans (Nat.min_le_right _ _)
  obtain ⟨v4, -, hbase⟩ := hn.base
  refine ⟨?_, by dsimp only; omega, by dsimp only [gateway4]; omega, by dsimp only; omega, ?_⟩
  · dsimp only
    rw [hbase, Nat.add_assoc]
    exact masked_of_lt (by omega)
  · intro x hx
    obtain ⟨⟨pfx, len⟩, hpfx, rfl⟩ := Option.map_eq_some_iff.mp hx
    exact ⟨pfx, len, hpfx, usable_ipv6 hn hidx hpfx⟩

theorem inRange (hn : n.Aligned) (hidx : idx ≤ min MAX_IDX n.maxIdx)
    (hwhole : ¬ ∃ pfx up, n.v6 = .subnet pfx 0 up) : n.InRange idx := by
  obtain ⟨hroom, hbase⟩ := hn.room
  have hlen := hn.len
  have hmax : idx ≤ 2 ^ (32 - n.v4Len) - 4 := hidx.trans (Nat.min_le_right _ _)
  have hlt := le_of_planned hidx
  refine ⟨⟨by omega, by omega⟩, by omega, fun hmode => ?_, fun pfx len up hmode => ?_, ?_⟩
  · have hpfx : n.v6Prefix? = some (n.snat6Prefix, 64) := by
      unfold v6Prefix?
      rw [hmode]
    obtain ⟨-, addr, haddr, hmasked⟩ := hn.v6 _ _ hpfx
    have hle := masked_add_le haddr (show 64 ≤ 128 by omega)
    rw [hmasked]
    omega
  · have hpfx : n.v6Prefix? = some (pfx, len) := by
      unfold v6Prefix?
      rw [hmode]
    obtain ⟨hle, -⟩ := hn.v6 _ _ hpfx
    have hpos : len ≠ 0 := fun h0 => hwhole ⟨pfx, up, h0 ▸ hmode⟩
    unfold V6_HOST_OFFSET
    omega
  · unfold ID_BASE ID_RANGE
    omega

theorem apart (hn : n.Aligned) (hi : i ≤ min MAX_IDX n.maxIdx) (hj : j ≤ min MAX_IDX n.maxIdx)
    (hwhole : ¬ ∃ pfx up, n.v6 = .subnet pfx 0 up) (hne : i ≠ j) : n.Apart i j := by
  refine ⟨fun a b ha hb => ?_, fun hmac => ?_, fun rt r r' hr hr' => ?_⟩
  · rw [addrsFor_eq hn hi hwhole] at ha
    rw [addrsFor_eq hn hj hwhole] at hb
    cases ha
    cases hb
    refine ⟨by dsimp only; omega, fun x hx hx' => ?_⟩
    obtain ⟨p, hp, rfl⟩ := Option.map_eq_some_iff.mp hx
    obtain ⟨p', hp', heq⟩ := Option.map_eq_some_iff.mp hx'
    cases Option.some.inj (hp.symm.trans hp')
    exact hne (hostPart_inj (Nat.add_left_cancel heq).symm)
  · have hi := le_of_planned hi
    have hj := le_of_planned hj
    exact hne (mac_inj (by omega) (by omega) hmac)
  · unfold Runtime.runSpec ID_BASE ID_RANGE
    rw [hr, hr']
    dsimp only
    omega

end

/-- The plan of an accepted configuration is sound unless its public prefix has length 0. -/
theorem plan_sound_iff {c : NetworkConfig} {n : Net} (h : fromConfig c = .ok n) :
    n.SoundPlan ↔ wholeSpace c = false := by
  have hn := fromConfig_aligned h
  rw [← Bool.not_eq_true, wholeSpace_iff h]
  constructor
  · rintro hplan ⟨pfx, up, hmode⟩
    obtain ⟨-, a, ha, -⟩ := hplan.total 0 (Nat.zero_le _)
    rw [addrsFor_wholeSpace hmode (Nat.zero_le _)] at ha
    cases ha
  · intro hwhole
    refine ⟨fun idx hidx => ?_, fun i j hi hj hne => apart hn hi hj hwhole hne, fun rt r hr => ?_⟩
    · exact ⟨inRange hn hidx hwhole, _, addrsFor_eq hn hidx hwhole, usable hn hidx⟩
    · have hlt := le_of_planned hr
      unfold Runtime.runSpec ID_BASE ID_RANGE
      dsimp only
      omega

/-- The defaults, with public addresses from a prefix of the given length. -/
def publicConfig (ipv6Prefix : String) : NetworkConfig where
  ipv6Mode := "subnet"
  ipv6Prefix := ipv6Prefix

def publicNet (pfx len : Nat) : Net :=
  ⟨"rmbr0", "rv", "rw", "runman", 0x0a5b0000, 20, DEFAULT_SNAT6_PREFIX, .subnet pfx len Option.none,
    ["1.1.1.1", "8.8.8.8"]⟩

theorem public_plan_sound : (publicNet 0x20010db8000000000000000000000000 96).SoundPlan :=
  (plan_sound_iff (c := publicConfig "2001:db8::7/96") (by decide +kernel)).mpr (by decide +kernel)

/-- The prefix of length 0 is accepted, and then no index has addresses. -/
theorem whole_space_no_addresses :
    fromConfig (publicConfig "::/0") = .ok (publicNet 0 0) ∧
      ¬ (publicNet 0 0).SoundPlan ∧
      ∀ idx, idx ≤ (publicNet 0 0).maxIdx →
        (publicNet 0 0).addrsFor idx = .error .ipv6PrefixTooSmall := by
  have hnone : ∀ idx, idx ≤ (publicNet 0 0).maxIdx →
      (publicNet 0 0).addrsFor idx = .error .ipv6PrefixTooSmall :=
    fun _ hidx => addrsFor_wholeSpace rfl hidx
  refine ⟨by decide +kernel, fun hplan => ?_, hnone⟩
  obtain ⟨-, a, ha, -⟩ := hplan.total 0 (Nat.zero_le _)
  rw [hnone 0 (Nat.zero_le _)] at ha
  cases ha

end Net

end RunmanAgent
