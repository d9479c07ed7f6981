import RunmanAgent.Runtime.NetConfig
import RunmanAgent.Runtime.Supervisor
import RunmanAgent.Wg.Tunnels

/-!
# Names of host interfaces

The agent makes a bridge, for each instance a veth and an IFB device, and for each tunnel a
WireGuard interface, and deletes a leftover of the same name first. The last three kinds
are a prefix of the configuration with a number, and `from_config` keeps them apart. It does
not compare the name of the bridge with them: `names_apart_iff`.
-/

namespace RunmanAgent

open Text

namespace Net

/-- A link the agent makes on the host. -/
inductive HostLink where
  | bridge
  | veth (idx : Nat)
  | ifb (idx : Nat)
  | wg (slot : Nat)
  deriving DecidableEq

namespace HostLink

def Valid : HostLink → Prop
  | bridge => True
  | veth idx => idx ≤ MAX_IDX
  | ifb idx => idx ≤ MAX_IDX
  | wg slot => slot < 10 ^ 6

def name (n : Net) : HostLink → String
  | bridge => n.bridge
  | veth idx => n.hostIf idx
  | ifb idx => ifbName (n.hostIf idx)
  | wg slot => n.wgPrefix ++ toString slot

end HostLink

structure NamesApart (n : Net) : Prop where
  distinct : ∀ l l' : HostLink, l.Valid → l'.Valid → l ≠ l' → l.name n ≠ l'.name n
  short : ∀ l : HostLink, l.Valid → (l.name n).utf8ByteSize ≤ 15

/-- The name is the prefix with a number below `bound`, without leading zeros. -/
def numbered (pfx : String) (bound : Nat) (name : List Char) : Bool :=
  let rest := name.drop pfx.toList.length
  pfx.toList.isPrefixOf name &&
    match parseUnsigned bound rest with
    | some k => Nat.toDigits 10 k == rest
    | none => false

/-- The name of the bridge is one that an instance or a tunnel uses. -/
def bridgeTaken (c : NetworkConfig) : Bool :=
  let bridge := c.bridge.toList
  numbered c.vethPrefix (MAX_IDX + 1) bridge ||
    (bridge.getLast? == some 'i' && numbered c.vethPrefix (MAX_IDX + 1) bridge.dropLast) ||
    numbered c.wgPrefix (10 ^ 6) bridge

theorem numbered_iff {pfx : String} {bound : Nat} {name : List Char} :
    numbered pfx bound name = true ↔ ∃ k, k < bound ∧ name = pfx.toList ++ Nat.toDigits 10 k := by
  unfold numbered
  dsimp only
  rw [Bool.and_eq_true, List.isPrefixOf_iff_prefix]
  constructor
  · intro ⟨⟨rest, hname⟩, h⟩
    rw [← hname, List.drop_left] at h
    cases hparse : parseUnsigned bound rest with
    | none =>
      rw [hparse] at h
      cases h
    | some k =>
      rw [hparse] at h
      exact ⟨k, parseUnsigned_lt hparse, by rw [← hname, beq_iff_eq.mp h]⟩
  · intro ⟨k, hk, hname⟩
    refine ⟨⟨_, hname.symm⟩, ?_⟩
    rw [hname, List.drop_left, parseUnsigned_toDigits hk]
    exact beq_self_eq_true _

/-! ## Names with a number -/

theorem append_inj_of_head {α : Type} {p : α → Bool} {a a' b b' : List α}
    (ha : ∀ c ∈ a, p c = true) (ha' : ∀ c ∈ a', p c = true) (hb : ∀ c ∈ b.head?, p c = false)
    (hb' : ∀ c ∈ b'.head?, p c = false) (h : a ++ b = a' ++ b') : a = a' ∧ b = b' := by
  have htake : ∀ l : List α, (∀ c ∈ l.head?, p c = false) → l.takeWhile p = [] := fun l hl => by
    cases l with
    | nil => rfl
    | cons c l => rw [List.takeWhile_cons_of_neg (by rw [hl c rfl]; exact Bool.false_ne_true)]
  have hsame := congrArg (List.takeWhile p) h
  rw [List.takeWhile_append_of_pos ha, List.takeWhile_append_of_pos ha', htake b hb, htake b' hb',
    List.append_nil, List.append_nil] at hsame
  subst hsame
  exact ⟨rfl, List.append_cancel_left h⟩

theorem isDigit_of_mem {k : Nat} {c : Char} (h : c ∈ Nat.toDigits 10 k) : c.isDigit = true :=
  Nat.isDigit_of_mem_toDigits (by decide) (by decide) h

theorem not_isLower_of_isDigit {c : Char} (h : c.isDigit = true) : c.isLower = false := by
  have hdigit : c.toNat ≤ 57 := (Char.isDigit_iff_toNat.mp h).2
  by_contra hlower
  simp only [Bool.not_eq_false, Char.isLower, Bool.and_eq_true, decide_eq_true_eq, ge_iff_le,
    UInt32.le_iff_toNat_le] at hlower
  have hletter : 97 ≤ c.toNat := hlower.1
  omega

theorem utf8ByteSize_digits {cs : List Char} (h : ∀ c ∈ cs, c.isDigit = true) :
    (String.ofList cs).utf8ByteSize = cs.length := by
  induction cs with
  | nil => rfl
  | cons c cs ih =>
    have hc := (Char.isDigit_iff_toNat.mp (h c (.head _))).2
    have hsize : c.utf8Size = 1 := Char.utf8Size_eq_one_iff.mpr
      (UInt32.le_iff_toNat_le.mpr (Nat.le_trans hc (by decide)))
    rw [String.ofList_cons, String.utf8ByteSize_append, String.utf8ByteSize_singleton, hsize,
      ih fun d hd => h d (.tail _ hd), List.length_cons, Nat.add_comm]

theorem utf8ByteSize_toString_le {k width : Nat} (hwidth : 0 < width) (h : k < 10 ^ width) :
    (toString k).utf8ByteSize ≤ width := by
  rw [Nat.toString_eq_repr, Nat.repr_eq_ofList_toDigits,
    utf8ByteSize_digits fun c hc => isDigit_of_mem hc]
  exact (Nat.length_toDigits_le_iff (by omega) hwidth).mpr h

theorem short_spec {p : String} (h : short p = true) :
    p.utf8ByteSize ≤ 4 ∧ ∀ c ∈ p.toList, c.isLower = true := by
  unfold short at h
  rw [Bool.and_eq_true, Bool.and_eq_true, decide_eq_true_eq, decide_eq_true_eq,
    List.all_eq_true] at h
  exact ⟨h.1.2, h.2⟩

theorem numbered_inj {p p' : String} {i j : Nat} {t t' : List Char}
    (hp : ∀ c ∈ p.toList, c.isLower = true) (hp' : ∀ c ∈ p'.toList, c.isLower = true)
    (ht : ∀ c ∈ t.head?, c.isDigit = false) (ht' : ∀ c ∈ t'.head?, c.isDigit = false)
    (h : p.toList ++ (Nat.toDigits 10 i ++ t) = p'.toList ++ (Nat.toDigits 10 j ++ t')) :
    p = p' ∧ i = j ∧ t = t' := by
  have hhead : ∀ k t, ∀ c ∈ (Nat.toDigits 10 k ++ t).head?, c.isLower = false := by
    intro k t c hc
    have hne : Nat.toDigits 10 k ≠ [] := Nat.toDigits_ne_nil
    rw [List.head?_append_of_ne_nil _ hne] at hc
    exact not_isLower_of_isDigit (isDigit_of_mem (List.mem_of_mem_head? hc))
  obtain ⟨hpfx, h⟩ := append_inj_of_head hp hp' (hhead i t) (hhead j t') h
  obtain ⟨hdigits, h⟩ :=
    append_inj_of_head (fun c => isDigit_of_mem) (fun c => isDigit_of_mem) ht ht' h
  have hnumber : i = j := by
    rw [← Nat.ofDigitChars_ten_toDigits (n := i), hdigits, Nat.ofDigitChars_ten_toDigits]
  exact ⟨String.toList_injective hpfx, hnumber, h⟩

namespace HostLink

/-- The prefix, the number and the rest of a name. -/
def parts (n : Net) : HostLink → Option (String × Nat × List Char)
  | bridge => none
  | veth idx => some (n.vethPrefix, idx, [])
  | ifb idx => some (n.vethPrefix, idx, ['i'])
  | wg slot => some (n.wgPrefix, slot, [])

variable {n : Net} {l l' : HostLink} {p : String} {k : Nat} {t : List Char}

theorem toList_name (h : l.parts n = some (p, k, t)) :
    (l.name n).toList = p.toList ++ (Nat.toDigits 10 k ++ t) := by
  cases l <;> cases h <;>
    simp [name, hostIf, ifbName, String.toList_append]

theorem parts_short (hn : n.Accepted) (h : l.parts n = some (p, k, t)) : short p = true := by
  cases l <;> cases h
  · exact hn.vethPrefix
  · exact hn.vethPrefix
  · exact hn.wgPrefix

theorem parts_rest (h : l.parts n = some (p, k, t)) : ∀ c ∈ t.head?, c.isDigit = false := by
  cases l <;> cases h
  · rintro c ⟨⟩
  · rintro c ⟨⟩
    rfl
  · rintro c ⟨⟩

theorem parts_inj (hne : n.vethPrefix ≠ n.wgPrefix) (h : l.parts n = some (p, k, t))
    (h' : l'.parts n = some (p, k, t)) : l = l' := by
  cases l <;> cases l' <;> cases h <;> simp_all [parts]

theorem name_inj (hn : n.Accepted) (hne : n.vethPrefix ≠ n.wgPrefix) (hl : l ≠ bridge)
    (hl' : l' ≠ bridge) (h : l.name n = l'.name n) : l = l' := by
  obtain ⟨⟨p, k, t⟩, hparts⟩ : ∃ x, l.parts n = some x := by
    cases l with
    | bridge => exact absurd rfl hl
    | _ => exact ⟨_, rfl⟩
  obtain ⟨⟨p', k', t'⟩, hparts'⟩ : ∃ x, l'.parts n = some x := by
    cases l' with
    | bridge => exact absurd rfl hl'
    | _ => exact ⟨_, rfl⟩
  have hlist := congrArg String.toList h
  rw [toList_name hparts, toList_name hparts'] at hlist
  obtain ⟨rfl, rfl, rfl⟩ := numbered_inj (short_spec (parts_short hn hparts)).2
    (short_spec (parts_short hn hparts')).2 (parts_rest hparts) (parts_rest hparts') hlist
  exact parts_inj hne hparts hparts'

theorem utf8ByteSize_name (hn : n.Accepted) (hl : l.Valid) : (l.name n).utf8ByteSize ≤ 15 := by
  have hveth := (short_spec hn.vethPrefix).1
  have hwg := (short_spec hn.wgPrefix).1
  have hnumber : ∀ idx, idx ≤ MAX_IDX → (toString idx).utf8ByteSize ≤ 5 := fun idx hidx => by
    have hmax : MAX_IDX < 10 ^ 5 := by decide
    exact utf8ByteSize_toString_le (by omega) (by omega)
  cases l with
  | bridge =>
    have hbridge := hn.bridge
    unfold validIfname at hbridge
    rw [Bool.and_eq_true, Bool.and_eq_true, decide_eq_true_eq] at hbridge
    exact hbridge.1.2
  | veth idx =>
    have hidx := hnumber idx hl
    rw [name, hostIf, String.utf8ByteSize_append]
    omega
  | ifb idx =>
    have hidx := hnumber idx hl
    have hsuffix : "i".utf8ByteSize = 1 := rfl
    rw [name, ifbName, hostIf, String.utf8ByteSize_append, String.utf8ByteSize_append]
    omega
  | wg slot =>
    have hslot := utf8ByteSize_toString_le (by omega) hl
    rw [name, String.utf8ByteSize_append]
    omega

end HostLink

theorem bridgeTaken_iff {c : NetworkConfig} {n : Net} (h : ReadFrom c n) :
    bridgeTaken c = true ↔
      ∃ l : HostLink, l.Valid ∧ l ≠ .bridge ∧ l.name n = HostLink.bridge.name n := by
  have hname : ∀ l : HostLink, l.name n = HostLink.bridge.name n ↔
      (l.name n).toList = c.bridge.toList := fun l => by
    rw [← h.bridge, String.toList_inj]
    rfl
  unfold bridgeTaken
  dsimp only
  rw [← h.vethPrefix, ← h.wgPrefix, Bool.or_eq_true, Bool.or_eq_true, Bool.and_eq_true,
    numbered_iff, numbered_iff, numbered_iff, beq_iff_eq]
  constructor
  · intro h
    obtain (⟨k, hk, h⟩ | ⟨hlast, k, hk, h⟩) | ⟨k, hk, h⟩ := h
    · refine ⟨.veth k, Nat.le_of_lt_succ hk, nofun, (hname _).mpr ?_⟩
      rw [HostLink.toList_name rfl, h, List.append_nil]
    · refine ⟨.ifb k, Nat.le_of_lt_succ hk, nofun, (hname _).mpr ?_⟩
      rw [HostLink.toList_name rfl, ← List.append_assoc, ← h]
      exact List.dropLast_append_getLast? _ hlast
    · refine ⟨.wg k, hk, nofun, (hname _).mpr ?_⟩
      rw [HostLink.toList_name rfl, h, List.append_nil]
  · intro ⟨l, hl, hne, h⟩
    have h := (hname l).mp h
    cases l with
    | bridge => exact absurd rfl hne
    | veth k =>
      rw [HostLink.toList_name rfl, List.append_nil] at h
      exact .inl (.inl ⟨k, Nat.lt_succ_of_le hl, h.symm⟩)
    | ifb k =>
      rw [HostLink.toList_name rfl, ← List.append_assoc] at h
      rw [← h, List.dropLast_concat, List.getLast?_concat]
      exact .inl (.inr ⟨rfl, k, Nat.lt_succ_of_le hl, rfl⟩)
    | wg k =>
      rw [HostLink.toList_name rfl, List.append_nil] at h
      exact .inr ⟨k, hl, h.symm⟩

/-- An accepted configuration gives all links of the host different names that are short enough,
unless an instance or a tunnel uses the name of the bridge. -/
theorem names_apart_iff {c : NetworkConfig} {n : Net} (h : fromConfig c = .ok n) :
    n.NamesApart ↔ bridgeTaken c = false := by
  have hread := fromConfig_spec h
  rw [← Bool.not_eq_true, bridgeTaken_iff hread]
  constructor
  · intro hapart ⟨l, hl, hne, hname⟩
    exact hapart.distinct l .bridge hl trivial hne hname
  · intro hfree
    refine ⟨fun l l' hl hl' hne hname => ?_, fun l hl =>
      HostLink.utf8ByteSize_name hread.accepted hl⟩
    by_cases hb : l = .bridge
    · subst hb
      exact hfree ⟨l', hl', hne.symm, hname.symm⟩
    · by_cases hb' : l' = .bridge
      · subst hb'
        exact hfree ⟨l, hl, hne, hname⟩
      · exact hne (HostLink.name_inj hread.accepted hread.distinct hb hb' hname)

def namedNet (bridge : String) : Net :=
  ⟨bridge, "rv", "rw", "runman", 0x0a5b0000, 20, DEFAULT_SNAT6_PREFIX, .none,
    ["1.1.1.1", "8.8.8.8"]⟩

/-- A number with a leading zero is no name of an instance. -/
theorem padded_bridge_apart : (namedNet "rv07").NamesApart :=
  (names_apart_iff (c := { bridge := "rv07" }) rfl).mpr (by decide +kernel)

/-- A bridge named as the veth of instance 5: attaching the instance deletes the bridge first. -/
theorem bridge_deleted_by_attach :
    fromConfig { bridge := "rv5" } = .ok (namedNet "rv5") ∧
      (HostLink.veth 5).Valid ∧ (HostLink.veth 5).name (namedNet "rv5") = (namedNet "rv5").bridge ∧
      ¬ (namedNet "rv5").NamesApart := by
  have hvalid : (HostLink.veth 5).Valid := show 5 ≤ MAX_IDX by decide
  refine ⟨rfl, hvalid, rfl, fun hapart => ?_⟩
  exact hapart.distinct (.veth 5) .bridge hvalid trivial nofun rfl

end Net

end RunmanAgent
