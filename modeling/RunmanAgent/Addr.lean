import RunmanAgent.Runtime.Net

/-!
# Addresses: text and order (`std::net::IpAddr`)
-/

namespace RunmanAgent

open Text

namespace IpAddr

/-- The number fits the address family. -/
def Valid : IpAddr → Prop
  | v4 a => a < 2 ^ 32
  | v6 a => a < 2 ^ 128

/-- `to_string`. -/
def toText : IpAddr → String
  | v4 a => String.ofList (showV4 a)
  | v6 a => String.ofList (showV6 a)

/-- `parse`: the whole text is an address. -/
def parse (s : String) : Option IpAddr :=
  match readV4 s.toList with
  | some (a, rest) => if rest = [] then some (v4 a) else none
  | none =>
    match readV6 s.toList with
    | some (a, rest) => if rest = [] then some (v6 a) else none
    | none => none

theorem parse_toText {a : IpAddr} (h : a.Valid) : parse a.toText = some a := by
  cases a with
  | v4 a =>
    have hread : readV4 (showV4 a) = some (a, []) := by simpa using readV4_show h Ends.nil
    simp [parse, toText, hread]
  | v6 a =>
    have hread := readV6_show h
    have hv4 : readV4 (showV6 a) = none := readV4_showV6 a
    simp [parse, toText, hv4, hread]

theorem parse_valid {s : String} {a : IpAddr} (h : parse s = some a) : a.Valid := by
  unfold parse at h
  split at h
  · rename_i n rest hread
    split at h
    · cases h
      exact readV4_lt hread
    · cases h
  · split at h
    · rename_i n rest hread
      split at h
      · cases h
        exact readV6_lt hread
      · cases h
    · cases h

theorem toText_chars {a : IpAddr} {c : Char} (h : c ∈ a.toText.toList) : ipChar c := by
  cases a with
  | v4 a => exact showV4_chars (by simpa [toText] using h)
  | v6 a => exact showV6_chars (by simpa [toText] using h)

theorem parse_chars {s : String} {a : IpAddr} (h : parse s = some a) {c : Char}
    (hc : c ∈ s.toList) : ipChar c := by
  have hall : Reads s.toList [] → ipChar c := by
    rintro ⟨pre, hpre, hchars⟩
    rw [hpre, List.append_nil] at hc
    exact hchars c hc
  unfold parse at h
  split at h
  · rename_i n rest hread
    split at h
    · rename_i hrest
      subst hrest
      exact hall (readV4_reads hread)
    · cases h
  · split at h
    · rename_i n rest hread
      split at h
      · rename_i hrest
        subst hrest
        exact hall (readV6_reads hread)
      · cases h
    · cases h

/-- The order of addresses: IPv4 ones come first. -/
def key : IpAddr → ℕ ×ₗ ℕ
  | v4 a => toLex (0, a)
  | v6 a => toLex (1, a)

theorem key_injective : Function.Injective key := by
  intro a b h
  cases a <;> cases b <;> simp_all [key]

instance : LinearOrder IpAddr := LinearOrder.lift' key key_injective

end IpAddr

end RunmanAgent
