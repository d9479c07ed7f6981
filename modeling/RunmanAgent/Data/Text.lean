import Mathlib

/-!
# Text of numbers

Reading and writing of numerals, and the small text functions of a standard library, on
lists of characters.

* `readDigits`, `readNumber`: a numeral at the front of a text.
* `readNumber_toDigits`: a numeral that was written is read back.
* `trim`, `splitOnce`, `parseUnsigned`: `str::trim`, `str::split_once` and `str::parse` of
  an unsigned integer.
* `lines`, `words`: `str::lines` and `str::split_whitespace`.
-/

namespace RunmanAgent.Text

/-! ## Digits -/

/-- Value of a digit, with letters for the digits from ten on. -/
def charVal (c : Char) : Nat :=
  if '0' ≤ c ∧ c ≤ '9' then c.toNat - '0'.toNat
  else if 'a' ≤ c ∧ c ≤ 'z' then c.toNat - 'a'.toNat + 10
  else if 'A' ≤ c ∧ c ≤ 'Z' then c.toNat - 'A'.toNat + 10
  else 36

/-- `char::to_digit`. -/
def digitVal (b : Nat) (c : Char) : Option Nat :=
  if charVal c < b then some (charVal c) else none

def digitsVal (b : Nat) (ds : List Nat) : Nat := ds.foldl (fun a d => b * a + d) 0

/-- The digits at the front of a text, and what follows them. -/
def readDigits (b : Nat) : List Char → List Nat × List Char
  | [] => ([], [])
  | c :: s =>
    match digitVal b c with
    | some d => (d :: (readDigits b s).1, (readDigits b s).2)
    | none => ([], c :: s)

/-- The text does not go on with a digit. -/
def Ends (b : Nat) (s : List Char) : Prop := ∀ c ∈ s.head?, digitVal b c = none

variable {b : Nat} {c : Char} {width bound n : Nat} {strict : Bool} {s a : List Char}

theorem Ends.nil : Ends b [] := by
  rintro c ⟨⟩

theorem Ends.cons (h : digitVal b c = none) : Ends b (c :: s) := by
  rintro _ ⟨⟩
  exact h

theorem digitVal_digitChar {d : Nat} (hb : b ≤ 16) (hd : d < b) :
    digitVal b (Nat.digitChar d) = some d := by
  have hval : ∀ d < 16, charVal (Nat.digitChar d) = d := by decide
  rw [digitVal, hval d (by omega), if_pos hd]

theorem readDigits_map (hb : b ≤ 16) {ds : List Nat} (hds : ∀ d ∈ ds, d < b) (hs : Ends b s) :
    readDigits b (ds.map Nat.digitChar ++ s) = (ds, s) := by
  induction ds with
  | nil =>
    cases s with
    | nil => rfl
    | cons c s => simp [readDigits, hs c rfl]
  | cons d ds ih =>
    have hd := digitVal_digitChar hb (hds d (.head _))
    have hrest := ih fun d' h => hds d' (.tail _ h)
    simp [readDigits, hd, hrest]

theorem exists_digits (hb : 1 < b) (n : Nat) :
    ∃ ds, Nat.toDigits b n = ds.map Nat.digitChar ∧ (∀ d ∈ ds, d < b) ∧ digitsVal b ds = n ∧
      ds ≠ [] ∧ (ds.head? = some 0 → ds = [0]) := by
  induction n using Nat.strongRecOn with
  | _ n ih =>
    rw [Nat.toDigits_eq_if hb]
    by_cases hn : n < b
    · rw [if_pos hn]
      exact ⟨[n], rfl, by simpa using hn, by simp [digitsVal], by simp, by simp⟩
    · rw [if_neg hn]
      have hpos : 0 < n / b := Nat.div_pos (by omega) (by omega)
      obtain ⟨ds, hds, hlt, hval, hne, hzero⟩ := ih (n / b) (Nat.div_lt_self (by omega) hb)
      refine ⟨ds ++ [n % b], by simp [hds], ?_, ?_, by simp, ?_⟩
      · intro d hd
        rcases List.mem_append.mp hd with hd | hd
        · exact hlt d hd
        · rw [List.mem_singleton.mp hd]
          exact Nat.mod_lt _ (by omega)
      · have hsum : digitsVal b (ds ++ [n % b]) = b * digitsVal b ds + n % b := by
          simp [digitsVal]
        rw [hsum, hval, Nat.div_add_mod]
      · intro hhead
        -- a leading zero would make the quotient zero
        rw [List.head?_append_of_ne_nil _ hne] at hhead
        rw [hzero hhead] at hval
        simp [digitsVal] at hval
        omega

theorem repr_injective : Function.Injective Nat.repr := by
  intro a b h
  rw [Nat.repr_eq_ofList_toDigits, Nat.repr_eq_ofList_toDigits] at h
  have hdigits := String.ofList_injective h
  rw [← Nat.ofDigitChars_ten_toDigits (n := a), hdigits, Nat.ofDigitChars_ten_toDigits]

/-- A numeral of at most `width` digits below `bound`; with `strict`, only zero itself may
start with a zero. -/
def readNumber (b width bound : Nat) (strict : Bool) (s : List Char) :
    Option (Nat × List Char) :=
  let (ds, rest) := readDigits b s
  if ds = [] ∨ width < ds.length ∨ bound ≤ digitsVal b ds ∨
      (strict ∧ ds.head? = some 0 ∧ 1 < ds.length) then none
  else some (digitsVal b ds, rest)

theorem readNumber_toDigits (hb : 1 < b) (hb' : b ≤ 16) (hwidth : 0 < width) (hn : n < b ^ width)
    (hbound : n < bound) (hs : Ends b s) :
    readNumber b width bound strict (Nat.toDigits b n ++ s) = some (n, s) := by
  have hlen := (Nat.length_toDigits_le_iff hb hwidth).mpr hn
  obtain ⟨ds, hds, hlt, hval, hne, hzero⟩ := exists_digits hb n
  rw [hds, List.length_map] at hlen
  rw [hds, readNumber, readDigits_map hb' hlt hs]
  have hlead : ¬ (strict ∧ ds.head? = some 0 ∧ 1 < ds.length) := by
    rintro ⟨-, hhead, hlong⟩
    rw [hzero hhead] at hlong
    simp at hlong
  simp only [hval]
  rw [if_neg]
  rintro (h | h | h | h)
  · exact hne h
  · omega
  · omega
  · exact hlead h

theorem readNumber_of_head (hs : Ends b s) : readNumber b width bound strict s = none := by
  cases s with
  | nil => rfl
  | cons c s => simp [readNumber, readDigits, hs c rfl]

theorem readNumber_suffix {rest : List Char}
    (h : readNumber b width bound strict s = some (n, rest)) : rest <:+ s := by
  have hsuffix : ∀ s, (readDigits b s).2 <:+ s := by
    intro s
    induction s with
    | nil => exact List.suffix_rfl
    | cons c s ih =>
      rw [readDigits]
      split
      · exact ih.trans (List.suffix_cons c s)
      · exact List.suffix_rfl
  simp only [readNumber] at h
  split at h
  · cases h
  · cases h
    exact hsuffix s

/-! ## Text functions -/

/-- The Unicode property `White_Space`. -/
def isWhitespace (c : Char) : Bool :=
  let n := c.toNat
  (9 ≤ n && n ≤ 13) || n == 0x20 || n == 0x85 || n == 0xa0 || n == 0x1680 ||
    (0x2000 ≤ n && n ≤ 0x200a) || n == 0x2028 || n == 0x2029 || n == 0x202f || n == 0x205f ||
    n == 0x3000

theorem isWhitespace_of_range (h : 48 ≤ c.toNat ∧ c.toNat ≤ 122) : isWhitespace c = false := by
  simp only [isWhitespace, Bool.or_eq_false_iff, Bool.and_eq_false_iff, decide_eq_false_iff_not,
    beq_eq_false_iff_ne]
  omega

def trim (s : List Char) : List Char :=
  ((s.dropWhile isWhitespace).reverse.dropWhile isWhitespace).reverse

theorem dropWhile_of_head? {p : Char → Bool} (h : ∀ c ∈ s.head?, p c = false) :
    s.dropWhile p = s := by
  cases s with
  | nil => rfl
  | cons c s => simp [h c rfl]

theorem trim_of_ends (hhead : ∀ c ∈ s.head?, isWhitespace c = false)
    (hlast : ∀ c ∈ s.getLast?, isWhitespace c = false) : trim s = s := by
  have hrev : ∀ c ∈ s.reverse.head?, isWhitespace c = false := by
    rwa [List.head?_reverse]
  rw [trim, dropWhile_of_head? hhead, dropWhile_of_head? hrev, List.reverse_reverse]

theorem trim_of_forall (h : ∀ c ∈ s, isWhitespace c = false) : trim s = s :=
  trim_of_ends (fun c hc => h c (List.mem_of_mem_head? hc))
    fun c hc => h c (List.mem_of_mem_getLast? hc)

theorem getLast?_trim : ∀ c ∈ (trim s).getLast?, isWhitespace c = false := by
  intro c hc
  rw [trim, List.getLast?_reverse] at hc
  have hhead := List.head?_dropWhile_not isWhitespace (s.dropWhile isWhitespace).reverse
  rwa [hc] at hhead

theorem mem_of_mem_trim (h : c ∈ trim s) : c ∈ s := by
  unfold trim at h
  have h := (List.dropWhile_sublist _).subset (List.mem_reverse.mp h)
  exact (List.dropWhile_sublist _).subset (List.mem_reverse.mp h)

theorem head?_trim : ∀ c ∈ (trim s).head?, isWhitespace c = false := by
  intro c hc
  obtain ⟨a, ha⟩ := List.dropWhile_suffix isWhitespace (l := (s.dropWhile isWhitespace).reverse)
  rw [trim, List.head?_reverse] at hc
  have hlast := congrArg List.getLast? ha
  rw [List.getLast?_append, hc, Option.some_or, List.getLast?_reverse] at hlast
  have hhead := List.head?_dropWhile_not isWhitespace s
  rwa [← hlast] at hhead

@[simp] theorem trim_trim (s : List Char) : trim (trim s) = trim s :=
  trim_of_ends head?_trim getLast?_trim

theorem notMem_of_mem_splitOn {p : List Char} (h : p ∈ s.splitOn c) : c ∉ p := by
  induction s generalizing p with
  | nil =>
    rw [List.splitOn_nil, List.mem_singleton] at h
    rw [h]
    exact List.not_mem_nil
  | cons d s ih =>
    rw [List.splitOn_cons_eq_if_modifyHead] at h
    split at h
    · rcases h with _ | ⟨_, h⟩
      · exact List.not_mem_nil
      · exact ih h
    · rename_i hd
      cases hs : s.splitOn c with
      | nil => exact absurd hs (List.splitOn_ne_nil c s)
      | cons q qs =>
        rw [hs] at h ih
        rcases h with _ | ⟨_, h⟩
        · intro hc
          rcases hc with _ | ⟨_, hc⟩
          · exact hd (beq_self_eq_true c)
          · exact ih (.head _) hc
        · exact ih (.tail _ h)

/-- The text before and after the first `c`. -/
def splitOnce (c : Char) : List Char → Option (List Char × List Char)
  | [] => none
  | d :: s => if d = c then some ([], s) else (splitOnce c s).map fun (a, b) => (d :: a, b)

theorem splitOnce_append {b : List Char} (h : c ∉ a) : splitOnce c (a ++ c :: b) = some (a, b) := by
  induction a with
  | nil => simp [splitOnce]
  | cons d a ih =>
    have hd : d ≠ c := fun hdc => h (hdc ▸ (.head _))
    simp [splitOnce, hd, ih fun hc => h (.tail _ hc)]

theorem splitOnce_eq_some {b : List Char} (h : splitOnce c s = some (a, b)) : s = a ++ c :: b := by
  induction s generalizing a with
  | nil => cases h
  | cons d s ih =>
    unfold splitOnce at h
    split at h
    · rename_i hd
      cases h
      rw [hd]
      rfl
    · obtain ⟨⟨a', b'⟩, hs, heq⟩ := Option.map_eq_some_iff.mp h
      cases heq
      rw [ih hs]
      rfl

theorem splitOnce_eq_none (h : c ∉ s) : splitOnce c s = none := by
  induction s with
  | nil => rfl
  | cons d s ih =>
    have hd : d ≠ c := fun hdc => h (hdc ▸ (.head _))
    simp [splitOnce, hd, ih fun hc => h (.tail _ hc)]

/-- The text before and after the last `c`. -/
def rsplitOnce (c : Char) (s : List Char) : Option (List Char × List Char) :=
  (splitOnce c s.reverse).map fun (a, b) => (b.reverse, a.reverse)

/-- The text without a leading plus sign. -/
def dropPlus : List Char → List Char
  | '+' :: s => s
  | s => s

/-- An unsigned decimal number below `bound`, with an optional plus sign. -/
def parseUnsigned (bound : Nat) (s : List Char) : Option Nat :=
  let (ds, rest) := readDigits 10 (dropPlus s)
  if ds ≠ [] ∧ rest = [] ∧ digitsVal 10 ds < bound then some (digitsVal 10 ds) else none

/-- Decimal `i32`. -/
def parseI32 : List Char → Option Int
  | '-' :: s =>
    let (ds, rest) := readDigits 10 s
    if ds ≠ [] ∧ rest = [] ∧ digitsVal 10 ds ≤ 2 ^ 31 then some (-(digitsVal 10 ds : Nat)) else none
  | s => (parseUnsigned (2 ^ 31) s).map fun n => (n : Int)

theorem parseUnsigned_lt (h : parseUnsigned bound s = some n) : n < bound := by
  simp only [parseUnsigned] at h
  by_cases hn : digitsVal 10 (readDigits 10 (dropPlus s)).1 < bound
  · split at h
    · cases h
      exact hn
    · cases h
  · rw [if_neg fun hc => hn hc.2.2] at h
    cases h

theorem parseUnsigned_toDigits (h : n < bound) :
    parseUnsigned bound (Nat.toDigits 10 n) = some n := by
  obtain ⟨ds, hds, hlt, hval, hne, -⟩ := exists_digits (by decide : 1 < 10) n
  have hread := readDigits_map (by decide) hlt (Ends.nil (b := 10))
  rw [List.append_nil] at hread
  have hbody : dropPlus (ds.map Nat.digitChar) = ds.map Nat.digitChar := by
    cases ds with
    | nil => rfl
    | cons d ds =>
      -- a digit is no plus sign
      have hplus : ∀ d < 10, Nat.digitChar d ≠ '+' := by decide
      have hd := hplus d (hlt d (.head _))
      rw [List.map_cons, dropPlus]
      intro s hs
      exact hd (List.cons.inj hs).1
  simp only [parseUnsigned, hds, hbody, hread, hval]
  exact if_pos ⟨hne, trivial, h⟩

/-! ## Lines and words -/

def words (s : List Char) : List (List Char) := (s.splitOnP isWhitespace).filter (· ≠ [])

theorem words_append (hc : isWhitespace c = true) (a b : List Char) :
    words (a ++ c :: b) = words a ++ words b := by
  simp [words, List.splitOnP_append_cons a b hc]

theorem words_of_forall {w : List Char} (hw : w ≠ []) (h : ∀ c ∈ w, isWhitespace c = false) :
    words w = [w] := by
  simp [words, List.splitOnP_eq_singleton h, hw]

/-- A carriage return before the end of a line belongs to it. -/
def lines : List Char → List (List Char)
  | [] => []
  | '\n' :: s => [] :: lines s
  | '\r' :: '\n' :: s => [] :: lines s
  | c :: s =>
    match lines s with
    | [] => [[c]]
    | l :: ls => (c :: l) :: ls

theorem lines_append (h : ∀ c ∈ a, c ≠ '\n' ∧ c ≠ '\r') (s : List Char) :
    lines (a ++ '\n' :: s) = a :: lines s := by
  induction a with
  | nil => rfl
  | cons c a ih =>
    obtain ⟨hn, hr⟩ := h c (.head _)
    have hrest := ih fun d hd => h d (.tail _ hd)
    rw [List.cons_append, lines.eq_4 _ _ hn fun _ hc => absurd hc hr, hrest]

end RunmanAgent.Text
