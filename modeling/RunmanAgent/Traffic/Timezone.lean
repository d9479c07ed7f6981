import RunmanAgent.Data.Text
import RunmanAgent.Model

/-!
# Timezones (`parse_utc_offset` of `src/config.rs`)

A timezone is a sign, two digits for the hours, a colon and two digits for the minutes. The parser
counts the bytes of the two fields and then reads them as `i32`, which may have a sign of its own:
`+-5:00` is accepted, as five hours west.
-/

namespace RunmanAgent

open Text

/-- `str::len`. -/
def byteLen (s : List Char) : Nat := (s.map Char.utf8Size).sum

def offsetFields (sign : Int) (rest : List Char) : Option Int := do
  let (h, m) ← splitOnce ':' rest
  if byteLen h ≠ 2 ∨ byteLen m ≠ 2 then none
  else
    let h ← parseI32 h
    let m ← parseI32 m
    let total := sign * (h * 60 + m)
    if m < 60 ∧ -12 * 60 ≤ total ∧ total ≤ 14 * 60 then some total else none

def parseUtcOffset (s : String) : Except String Int :=
  let parsed := match s.toList with
    | '+' :: rest => offsetFields 1 rest
    | '-' :: rest => offsetFields (-1) rest
    | _ => none
  parsed.elim (.error ("traffic_timezone " ++ debugStr s ++
    " must be a UTC offset like +08:00 (-12:00 to +14:00)")) .ok

/-! ## The documented format -/

def twoDigits (n : Nat) : List Char := [Nat.digitChar (n / 10), Nat.digitChar (n % 10)]

/-- The text is a sign and two fields, and denotes the offset. -/
def Offset (hours minutes : List Char → Int → Prop) (s : String) (r : Int) : Prop :=
  ∃ (west : Bool) (h m : List Char) (vh vm : Int),
    s.toList = (if west then '-' else '+') :: (h ++ ':' :: m) ∧ hours h vh ∧ minutes m vm ∧
    vm < 60 ∧ r = (if west then -1 else 1) * (vh * 60 + vm) ∧ -720 ≤ r ∧ r ≤ 840

/-- Two decimal digits. -/
def Digits (f : List Char) (v : Int) : Prop := ∃ n < 100, f = twoDigits n ∧ v = n

/-- A sign and one decimal digit. -/
def SignedDigit (f : List Char) (v : Int) : Prop :=
  ∃ n < 10, (f = ['+', Nat.digitChar n] ∧ v = n) ∨ (f = ['-', Nat.digitChar n] ∧ v = -n)

def Field (f : List Char) (v : Int) : Prop := Digits f v ∨ SignedDigit f v

variable {f : List Char} {v r : Int} {s : String}

theorem digitVal_ten {c : Char} {d : Nat} (h : digitVal 10 c = some d) :
    d < 10 ∧ c = Nat.digitChar d := by
  have hchar : ∀ n < 10, Char.ofNat (48 + n) = Nat.digitChar n := by decide
  unfold digitVal at h
  split at h
  · rename_i hlt
    cases h
    refine ⟨hlt, ?_⟩
    rw [← hchar _ hlt]
    unfold charVal at hlt ⊢
    split at hlt
    · rename_i hrange
      have hlow : 48 ≤ c.toNat := hrange.1
      have hself : 48 + (c.toNat - '0'.toNat) = c.toNat := Nat.add_sub_cancel' hlow
      rw [if_pos hrange, hself, Char.ofNat_toNat]
    · split at hlt
      · omega
      · split at hlt <;> omega
  · cases h

theorem digits_of_readDigits {ds : List Nat} (h : readDigits 10 f = (ds, [])) :
    f = ds.map Nat.digitChar ∧ ∀ d ∈ ds, d < 10 := by
  induction f generalizing ds with
  | nil =>
    cases h
    exact ⟨rfl, nofun⟩
  | cons c f ih =>
    unfold readDigits at h
    cases hc : digitVal 10 c with
    | none => simp [hc] at h
    | some d =>
      simp only [hc, Prod.mk.injEq] at h
      obtain ⟨rfl, hrest⟩ := h
      obtain ⟨hf, hlt⟩ := ih (Prod.ext rfl hrest)
      obtain ⟨hd, rfl⟩ := digitVal_ten hc
      exact ⟨by rw [List.map_cons, ← hf], List.forall_mem_cons.mpr ⟨hd, hlt⟩⟩

theorem byteLen_digits {ds : List Nat} (h : ∀ d ∈ ds, d < 10) :
    byteLen (ds.map Nat.digitChar) = ds.length := by
  have hsize : ∀ d < 10, (Nat.digitChar d).utf8Size = 1 := by decide
  have hone : (ds.map Nat.digitChar).map Char.utf8Size = ds.map fun _ => 1 := by
    rw [List.map_map]
    exact List.map_congr_left fun d hd => hsize d (h d hd)
  rw [byteLen, hone]
  simp

theorem field_of_parseI32 (hlen : byteLen f = 2) (h : parseI32 f = some v) : Field f v := by
  have hsingle : ∀ {s : List Char} {ds : List Nat} {c : Char}, c.utf8Size = 1 →
      byteLen (c :: s) = 2 → readDigits 10 s = (ds, []) →
      ∃ n < 10, s = [Nat.digitChar n] ∧ digitsVal 10 ds = n := by
    intro s ds c hc hlen hread
    obtain ⟨rfl, hlt⟩ := digits_of_readDigits hread
    have hone := byteLen_digits hlt
    rw [byteLen, List.map_cons, List.sum_cons, hc] at hlen
    rw [byteLen] at hone
    obtain ⟨d, rfl⟩ := List.length_eq_one_iff.mp (show ds.length = 1 by omega)
    exact ⟨d, hlt d (.head _), rfl, by simp [digitsVal]⟩
  unfold parseI32 at h
  split at h
  · rename_i s
    rcases hread : readDigits 10 s with ⟨ds, rest⟩
    simp only [hread] at h
    split at h
    · rename_i hc
      obtain ⟨n, hn, rfl, hval⟩ := hsingle rfl hlen (hc.2.1 ▸ hread)
      cases h
      exact .inr ⟨n, hn, .inr ⟨rfl, by rw [hval]⟩⟩
    · cases h
  · simp only [parseUnsigned] at h
    rcases hread : readDigits 10 (dropPlus f) with ⟨ds, rest⟩
    simp only [hread] at h
    split at h
    · rename_i hc
      cases h
      replace hread : readDigits 10 (dropPlus f) = (ds, []) := hc.2.1 ▸ hread
      unfold dropPlus at hread
      split at hread
      · obtain ⟨n, hn, rfl, hval⟩ := hsingle rfl hlen hread
        exact .inr ⟨n, hn, .inl ⟨rfl, by rw [hval]⟩⟩
      · obtain ⟨rfl, hlt⟩ := digits_of_readDigits hread
        obtain ⟨a, b, rfl⟩ := List.length_eq_two.mp ((byteLen_digits hlt).symm.trans hlen)
        have ha := hlt a (by simp)
        have hb := hlt b (by simp)
        refine .inl ⟨10 * a + b, by omega, ?_, by simp [digitsVal]⟩
        have hdiv : (10 * a + b) / 10 = a := by omega
        have hmod : (10 * a + b) % 10 = b := by omega
        simp [twoDigits, hdiv, hmod]
    · cases h

theorem parseI32_of_field (h : Field f v) : byteLen f = 2 ∧ ':' ∉ f ∧ parseI32 f = some v := by
  have htwo : ∀ n < 100, byteLen (twoDigits n) = 2 ∧ ':' ∉ twoDigits n ∧
      parseI32 (twoDigits n) = some (n : Int) := by decide +kernel
  have hone : ∀ n < 10, byteLen ['+', Nat.digitChar n] = 2 ∧ ':' ∉ ['+', Nat.digitChar n] ∧
      parseI32 ['+', Nat.digitChar n] = some (n : Int) := by decide
  have hneg : ∀ n < 10, byteLen ['-', Nat.digitChar n] = 2 ∧ ':' ∉ ['-', Nat.digitChar n] ∧
      parseI32 ['-', Nat.digitChar n] = some (-(n : Int)) := by decide
  rcases h with ⟨n, hn, rfl, rfl⟩ | ⟨n, hn, ⟨rfl, rfl⟩ | ⟨rfl, rfl⟩⟩
  · exact htwo n hn
  · exact hone n hn
  · exact hneg n hn

theorem offsetFields_eq {sign : Int} {rest : List Char} :
    offsetFields sign rest = some r ↔ ∃ h m vh vm, rest = h ++ ':' :: m ∧ Field h vh ∧
      Field m vm ∧ vm < 60 ∧ r = sign * (vh * 60 + vm) ∧ -720 ≤ r ∧ r ≤ 840 := by
  refine ⟨fun hr => ?_, ?_⟩
  · unfold offsetFields at hr
    obtain ⟨⟨h, m⟩, hsplit, hr⟩ := Option.bind_eq_some_iff.mp hr
    dsimp only at hr
    split at hr
    · cases hr
    · rename_i hlen
      rw [not_or, not_not, not_not] at hlen
      obtain ⟨vh, hvh, hr⟩ := Option.bind_eq_some_iff.mp hr
      obtain ⟨vm, hvm, hr⟩ := Option.bind_eq_some_iff.mp hr
      split at hr
      · rename_i hc
        cases hr
        exact ⟨h, m, vh, vm, splitOnce_eq_some hsplit, field_of_parseI32 hlen.1 hvh,
          field_of_parseI32 hlen.2 hvm, hc.1, rfl, hc.2.1, hc.2.2⟩
      · cases hr
  · rintro ⟨h, m, vh, vm, rfl, hh, hm, hlt, rfl, hlow, hhigh⟩
    obtain ⟨hlen, hcolon, hvh⟩ := parseI32_of_field hh
    obtain ⟨hlen', -, hvm⟩ := parseI32_of_field hm
    simp [offsetFields, splitOnce_append hcolon, hlen, hlen', hvh, hvm, hlt, hlow, hhigh]

theorem parseUtcOffset_eq : parseUtcOffset s = .ok r ↔ Offset Field Field s r := by
  have helim : ∀ {o : Option Int} {e : String},
      o.elim (.error e) .ok = (.ok r : Except String Int) ↔ o = some r := by
    intro o e
    cases o <;> simp
  rw [parseUtcOffset, helim]
  constructor
  · intro hr
    split at hr
    · rename_i rest hs
      obtain ⟨h, m, vh, vm, rfl, hrest⟩ := offsetFields_eq.mp hr
      exact ⟨false, h, m, vh, vm, hs, hrest⟩
    · rename_i rest hs
      obtain ⟨h, m, vh, vm, rfl, hrest⟩ := offsetFields_eq.mp hr
      exact ⟨true, h, m, vh, vm, hs, hrest⟩
    · cases hr
  · rintro ⟨west, h, m, vh, vm, hs, hrest⟩
    rw [hs]
    cases west with
    | false => exact offsetFields_eq.mpr ⟨h, m, vh, vm, rfl, hrest⟩
    | true => exact offsetFields_eq.mpr ⟨h, m, vh, vm, rfl, hrest⟩

theorem not_signed_of_digits {w : Int} (h : Digits f v) : ¬SignedDigit f w := by
  have hsign : ∀ n < 10, Nat.digitChar n ≠ '+' ∧ Nat.digitChar n ≠ '-' := by decide
  obtain ⟨n, hn, rfl, -⟩ := h
  obtain ⟨hplus, hminus⟩ := hsign (n / 10) (by omega)
  rintro ⟨k, -, ⟨heq, -⟩ | ⟨heq, -⟩⟩
  · exact hplus (List.cons.inj heq).1
  · exact hminus (List.cons.inj heq).1

theorem length_of_field (h : Field f v) : f.length = 2 := by
  rcases h with ⟨n, -, rfl, -⟩ | ⟨n, -, ⟨rfl, -⟩ | ⟨rfl, -⟩⟩ <;> rfl

section Fields

variable {P Q P' Q' : List Char → Int → Prop}

theorem Offset.mono (hP : ∀ f v, P f v → P' f v) (hQ : ∀ f v, Q f v → Q' f v)
    (h : Offset P Q s r) : Offset P' Q' s r := by
  obtain ⟨west, h, m, vh, vm, hs, hh, hm, hrest⟩ := h
  exact ⟨west, h, m, vh, vm, hs, hP h vh hh, hQ m vm hm, hrest⟩

/-- The text determines its fields. -/
theorem Offset.same {r' : Int} (hP : ∀ f v, P f v → Field f v) (hP' : ∀ f v, P' f v → Field f v)
    (h : Offset P Q s r) (h' : Offset P' Q' s r') :
    ∃ f g v v' u u', P f v ∧ P' f v' ∧ Q g u ∧ Q' g u' := by
  obtain ⟨west, f, g, v, u, hs, hf, hg, -⟩ := h
  obtain ⟨west', f', g', v', u', hs', hf', hg', -⟩ := h'
  have heq := (List.cons.inj (hs.symm.trans hs')).2
  have hlen := (length_of_field (hP f v hf)).trans (length_of_field (hP' f' v' hf')).symm
  obtain ⟨rfl, hcons⟩ := List.append_inj heq hlen
  obtain rfl := (List.cons.inj hcons).2
  exact ⟨f, g, v, v', u, u', hf, hf', hg, hg'⟩

end Fields

/-- The parser accepts exactly the documented format, with its offset, except where one of the
fields has a sign of its own. -/
theorem parseUtcOffset_documented_iff (s : String) :
    (∀ r, parseUtcOffset s = .ok r ↔ Offset Digits Digits s r) ↔
      ¬∃ r, Offset SignedDigit Field s r ∨ Offset Digits SignedDigit s r := by
  have hdigits : ∀ f v, Digits f v → Field f v := fun _ _ => .inl
  have hsigned : ∀ f v, SignedDigit f v → Field f v := fun _ _ => .inr
  constructor
  · rintro hall ⟨r, hr | hr⟩
    · have hdoc := (hall r).mp (parseUtcOffset_eq.mpr (hr.mono hsigned fun _ _ => id))
      obtain ⟨f, g, v, v', u, u', hf, hf', -, -⟩ := hdoc.same hdigits hsigned hr
      exact not_signed_of_digits hf hf'
    · have hdoc := (hall r).mp (parseUtcOffset_eq.mpr (hr.mono hdigits hsigned))
      obtain ⟨f, g, v, v', u, u', -, -, hg, hg'⟩ := hdoc.same hdigits hdigits hr
      exact not_signed_of_digits hg hg'
  · intro hno r
    rw [parseUtcOffset_eq]
    refine ⟨fun hr => ?_, fun hr => hr.mono hdigits hdigits⟩
    obtain ⟨west, h, m, vh, vm, hs, hh | hh, hm, hrest⟩ := hr
    · rcases hm with hm | hm
      · exact ⟨west, h, m, vh, vm, hs, hh, hm, hrest⟩
      · exact absurd ⟨r, .inr ⟨west, h, m, vh, vm, hs, hh, hm, hrest⟩⟩ hno
    · exact absurd ⟨r, .inl ⟨west, h, m, vh, vm, hs, hh, hm, hrest⟩⟩ hno

/-- Five hours west, written with two signs. -/
theorem signed_hours_accepted :
    parseUtcOffset "+-5:00" = .ok (-300) ∧ ¬∃ r, Offset Digits Digits "+-5:00" r := by
  have hoffset : Offset SignedDigit Field "+-5:00" (-300) :=
    ⟨false, ['-', '5'], ['0', '0'], -5, 0, by decide, ⟨5, by decide, .inr ⟨rfl, rfl⟩⟩,
      .inl ⟨0, by decide, rfl, rfl⟩, by decide, by decide, by decide, by decide⟩
  refine ⟨by decide, fun ⟨r, hr⟩ => ?_⟩
  obtain ⟨f, g, v, v', u, u', hf, hf', -, -⟩ := hr.same (fun _ _ => .inl) (fun _ _ => .inr) hoffset
  exact not_signed_of_digits hf hf'

end RunmanAgent
