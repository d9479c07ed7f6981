import RunmanAgent.Data.Text

/-!
# Text of IP addresses

`showV4` and `showV6` write an address as the Rust standard library does: an IPv6 address
in groups of hexadecimal digits, the first longest run of zero groups as `::`, and an
IPv4-mapped one with its IPv4 address. `readV4` and `readV6` are the parser, which reads
an address at the front of a text and returns what follows.

* `readV4_show`, `readV6_show`: an address that was written is read back.
* `readV4_lt`, `readV6_lt`: what is read is an address.
-/

namespace RunmanAgent.Text

def readChar (c : Char) : List Char → Option (List Char)
  | [] => none
  | d :: s => if d = c then some s else none

/-! ## IPv4 -/

def showV4 (a : Nat) : List Char :=
  Nat.toDigits 10 (a / 2 ^ 24 % 256) ++ '.' :: (Nat.toDigits 10 (a / 2 ^ 16 % 256) ++
    '.' :: (Nat.toDigits 10 (a / 2 ^ 8 % 256) ++ '.' :: Nat.toDigits 10 (a % 256)))

/-- A decimal octet; octal-looking ones are refused. -/
def readOctet : List Char → Option (Nat × List Char) := readNumber 10 3 256 true

def readV4 (s : List Char) : Option (Nat × List Char) := do
  let (a, s) ← readOctet s
  let s ← readChar '.' s
  let (b, s) ← readOctet s
  let s ← readChar '.' s
  let (c, s) ← readOctet s
  let s ← readChar '.' s
  let (d, s) ← readOctet s
  some (((a * 256 + b) * 256 + c) * 256 + d, s)

variable {n a b : Nat} {c : Char} {s rest : List Char} {gs : List Nat}

theorem readOctet_show (hn : n < 256) (hs : Ends 10 s) :
    readOctet (Nat.toDigits 10 n ++ s) = some (n, s) :=
  readNumber_toDigits (by decide) (by decide) (by decide) (by omega) hn hs

theorem readV4_show (ha : a < 2 ^ 32) (hs : Ends 10 s) : readV4 (showV4 a ++ s) = some (a, s) := by
  have hdot : ∀ s, Ends 10 ('.' :: s) := fun s => Ends.cons (by decide)
  have hread : ∀ n s, Ends 10 s → readOctet (Nat.toDigits 10 (n % 256) ++ s) = some (n % 256, s) :=
    fun n s hs => readOctet_show (Nat.mod_lt _ (by decide)) hs
  simp only [showV4, List.append_assoc, List.cons_append]
  simp only [readV4, hread _ _ (hdot _), hread _ _ hs, readChar, if_true, Option.bind_eq_bind,
    Option.bind_some]
  congr 2
  omega

theorem readV4_eq_none (h : '.' ∉ s) : readV4 s = none := by
  unfold readV4
  cases hoct : readOctet s with
  | none => rfl
  | some r =>
    obtain ⟨n, rest⟩ := r
    have hdot : readChar '.' rest = none := by
      cases rest with
      | nil => rfl
      | cons c rest =>
        have hmem : c ∈ s := (readNumber_suffix hoct).subset (.head _)
        have hc : c ≠ '.' := fun hc => h (hc ▸ hmem)
        exact if_neg hc
    simp [hdot]

theorem readV4_of_ends (h : Ends 10 s) : readV4 s = none := by
  have hnum : readOctet s = none := readNumber_of_head h
  simp [readV4, hnum]

theorem readNumber_lt {width bound : Nat} {strict : Bool}
    (h : readNumber b width bound strict s = some (n, rest)) : n < bound := by
  simp only [readNumber] at h
  split at h
  · cases h
  · rename_i hcond
    cases h
    by_contra hn
    exact hcond (.inr (.inr (.inl (by omega))))

theorem readV4_lt (h : readV4 s = some (a, rest)) : a < 2 ^ 32 := by
  simp only [readV4, Option.bind_eq_bind, Option.bind_eq_some_iff] at h
  obtain ⟨⟨a, _⟩, ha, _, -, ⟨b, _⟩, hb, _, -, ⟨c, _⟩, hc, _, -, ⟨d, _⟩, hd, he⟩ := h
  have ha := readNumber_lt ha
  have hb := readNumber_lt hb
  have hc := readNumber_lt hc
  have hd := readNumber_lt hd
  simp only [Option.some.injEq, Prod.mk.injEq] at he
  omega

/-! ## IPv6 -/

/-- The groups of an address, the most significant one first. -/
def segments (a : Nat) : List Nat :=
  [a / 2 ^ 112 % 2 ^ 16, a / 2 ^ 96 % 2 ^ 16, a / 2 ^ 80 % 2 ^ 16, a / 2 ^ 64 % 2 ^ 16,
    a / 2 ^ 48 % 2 ^ 16, a / 2 ^ 32 % 2 ^ 16, a / 2 ^ 16 % 2 ^ 16, a % 2 ^ 16]

def ofSegments (gs : List Nat) : Nat := gs.foldl (fun a g => a * 2 ^ 16 + g) 0

theorem ofSegments_segments (ha : a < 2 ^ 128) : ofSegments (segments a) = a := by
  simp only [ofSegments, segments, List.foldl_cons, List.foldl_nil]
  omega

theorem segments_lt {g : Nat} (h : g ∈ segments a) : g < 2 ^ 16 := by
  simp only [segments, List.mem_cons, List.not_mem_nil, or_false] at h
  rcases h with rfl | rfl | rfl | rfl | rfl | rfl | rfl | rfl <;> exact Nat.mod_lt _ (by decide)

theorem ofSegments_lt (h : ∀ g ∈ gs, g < 2 ^ 16) : ofSegments gs < (2 ^ 16) ^ gs.length := by
  have hfold : ∀ (gs : List Nat) (a k : Nat), (∀ g ∈ gs, g < 2 ^ 16) → a < (2 ^ 16) ^ k →
      gs.foldl (fun a g => a * 2 ^ 16 + g) a < (2 ^ 16) ^ (k + gs.length) := by
    intro gs
    induction gs with
    | nil => exact fun a k _ ha => ha
    | cons g gs ih =>
      intro a k hgs ha
      have hg := hgs g (.head _)
      have hnext : a * 2 ^ 16 + g < (2 ^ 16) ^ (k + 1) := by
        calc a * 2 ^ 16 + g < a * 2 ^ 16 + 2 ^ 16 := by omega
          _ = (a + 1) * 2 ^ 16 := (Nat.succ_mul a _).symm
          _ ≤ (2 ^ 16) ^ k * 2 ^ 16 := Nat.mul_le_mul_right _ ha
          _ = (2 ^ 16) ^ (k + 1) := (Nat.pow_succ _ _).symm
      have hrest := ih _ (k + 1) (fun g' h => hgs g' (.tail _ h)) hnext
      rwa [List.length_cons, Nat.add_comm gs.length, ← Nat.add_assoc]
  simpa [ofSegments] using hfold gs 0 0 h (by simp)

/-- The first longest run of zero groups, as its start and length. `cur` is the run that
ends before the group `i`, `best` the longest one so far. -/
def zeroSpan : (i : Nat) → (cur best : Nat × Nat) → List Nat → Nat × Nat
  | _, _, best, [] => best
  | i, cur, best, g :: gs =>
    if g = 0 then
      let cur := if cur.2 = 0 then (i, 1) else (cur.1, cur.2 + 1)
      zeroSpan (i + 1) cur (if best.2 < cur.2 then cur else best) gs
    else zeroSpan (i + 1) (0, 0) best gs

/-- The groups with colons between them. -/
def showGroups : List Nat → List Char
  | [] => []
  | g :: gs => Nat.toDigits 16 g ++ gs.flatMap fun g => ':' :: Nat.toDigits 16 g

def showV6 (a : Nat) : List Char :=
  let gs := segments a
  if gs.take 6 = [0, 0, 0, 0, 0, 0xffff] then "::ffff:".toList ++ showV4 (a % 2 ^ 32)
  else
    let span := zeroSpan 0 (0, 0) (0, 0) gs
    if 1 < span.2 then
      showGroups (gs.take span.1) ++ ':' :: ':' :: showGroups (gs.drop (span.1 + span.2))
    else showGroups gs

/-- A separator, if this is not the first group, and a part. -/
def readSep {α : Type} (first : Bool) (f : List Char → Option (α × List Char))
    (s : List Char) : Option (α × List Char) :=
  if first then f s else (readChar ':' s).bind f

def readHex : List Char → Option (Nat × List Char) := readNumber 16 4 (2 ^ 16) false

/-- At most `n` groups; the last two may be an IPv4 address. Returns the groups, whether
they end in an IPv4 address, and the rest of the text. -/
def readGroups : (n : Nat) → (first : Bool) → List Char → List Nat × Bool × List Char
  | 0, _, s => ([], false, s)
  | n + 1, first, s =>
    match (if 0 < n then readSep first readV4 s else none) with
    | some (a, s) => ([a / 2 ^ 16, a % 2 ^ 16], true, s)
    | none =>
      match readSep first readHex s with
      | some (g, s) =>
        let (gs, v4, s) := readGroups n false s
        (g :: gs, v4, s)
      | none => ([], false, s)

def readV6 (s : List Char) : Option (Nat × List Char) :=
  let (head, v4, s) := readGroups 8 true s
  if head.length = 8 then some (ofSegments head, s)
  else if v4 then none
  else do
    let s ← readChar ':' s
    let s ← readChar ':' s
    -- the `::` stands for at least one group
    let (tail, _, s) := readGroups (8 - (head.length + 1)) true s
    some (ofSegments (head ++ List.replicate (8 - head.length - tail.length) 0 ++ tail), s)

/-! ### The run of zeros -/

def ZeroSpan (l : List Nat) (span : Nat × Nat) : Prop :=
  ∃ a b, l = a ++ List.replicate span.2 0 ++ b ∧ a.length = span.1

theorem zeroSpan_spec {gs pre : List Nat} {cur best : Nat × Nat}
    (hcur : ∃ a, pre = a ++ List.replicate cur.2 0 ∧ (cur.2 ≠ 0 → a.length = cur.1))
    (hbest : ZeroSpan pre best) : ZeroSpan (pre ++ gs) (zeroSpan pre.length cur best gs) := by
  induction gs generalizing pre cur best with
  | nil => simpa [zeroSpan] using hbest
  | cons g gs ih =>
    have hext : ZeroSpan (pre ++ [g]) best := by
      obtain ⟨a, b, hpre, ha⟩ := hbest
      exact ⟨a, b ++ [g], by rw [hpre, List.append_assoc], ha⟩
    have hsplit : pre ++ g :: gs = (pre ++ [g]) ++ gs := by simp
    have hlen : pre.length + 1 = (pre ++ [g]).length := by simp
    rw [hsplit, zeroSpan, hlen]
    by_cases hg : g = 0
    · subst hg
      rw [if_pos rfl]
      obtain ⟨a, hpre, ha⟩ := hcur
      have hcur' : ∃ a, pre ++ [0] = a ++ List.replicate
          (if cur.2 = 0 then (pre.length, 1) else (cur.1, cur.2 + 1)).2 0 ∧
          a.length = (if cur.2 = 0 then (pre.length, 1) else (cur.1, cur.2 + 1)).1 := by
        by_cases hz : cur.2 = 0
        · exact ⟨pre, by simp [hz], by simp [hz]⟩
        · refine ⟨a, ?_, by simp [hz, ha hz]⟩
          nth_rewrite 1 [hpre]
          simp [hz, List.replicate_succ']
      obtain ⟨a', hpre', ha'⟩ := hcur'
      dsimp only
      generalize (if cur.2 = 0 then (pre.length, 1) else (cur.1, cur.2 + 1)) = cur' at hpre' ha'
      refine ih ⟨a', hpre', fun _ => ha'⟩ ?_
      split
      · exact ⟨a', [], by simpa using hpre', ha'⟩
      · exact hext
    · rw [if_neg hg]
      exact ih ⟨pre ++ [g], by simp, by simp⟩ hext

theorem zeroSpan_zero (gs : List Nat) : ZeroSpan gs (zeroSpan 0 (0, 0) (0, 0) gs) :=
  @zeroSpan_spec gs [] (0, 0) (0, 0) ⟨[], rfl, by simp⟩ ⟨[], [], rfl, rfl⟩

/-! ### Reading groups -/

theorem readHex_show {g : Nat} (hg : g < 2 ^ 16) (hs : Ends 16 s) :
    readHex (Nat.toDigits 16 g ++ s) = some (g, s) :=
  readNumber_toDigits (by decide) (by decide) (by decide) (by omega) hg hs

theorem hexChars (h : c ∈ Nat.toDigits 16 n) : digitVal 16 c ≠ none := by
  obtain ⟨ds, hds, hlt, -⟩ := exists_digits (by decide : 1 < 16) n
  rw [hds] at h
  obtain ⟨d, hd, rfl⟩ := List.mem_map.mp h
  rw [digitVal_digitChar (by decide) (hlt d hd)]
  simp

theorem showGroups_chars (h : c ∈ showGroups gs) : digitVal 16 c ≠ none ∨ c = ':' := by
  cases gs with
  | nil => cases h
  | cons g gs =>
    rcases List.mem_append.mp h with h | h
    · exact .inl (hexChars h)
    · obtain ⟨g', -, h⟩ := List.mem_flatMap.mp h
      rcases h with _ | ⟨_, h⟩
      · exact .inr rfl
      · exact .inl (hexChars h)

/-- No group follows. -/
def GroupsEnd (s : List Char) : Prop := s = [] ∨ ∃ rest, s = ':' :: ':' :: rest

theorem GroupsEnd.ends (hb : b ≤ 16) (h : GroupsEnd s) : Ends b s := by
  have hcolon : digitVal b ':' = none := if_neg (by simp [charVal]; omega)
  rcases h with rfl | ⟨rest, rfl⟩
  · exact Ends.nil
  · exact Ends.cons hcolon

theorem readSep_of_groupsEnd {α : Type} {f : List Char → Option (α × List Char)} (hb : b ≤ 16)
    (hf : ∀ s, Ends b s → f s = none) (hs : GroupsEnd s) (first : Bool) :
    readSep first f s = none := by
  have hcolon : digitVal b ':' = none := if_neg (by simp [charVal]; omega)
  cases first with
  | true => exact hf s (hs.ends hb)
  | false =>
    rcases hs with rfl | ⟨rest, rfl⟩
    · rfl
    · exact hf _ (Ends.cons hcolon)

theorem readGroups_end (n : Nat) (first : Bool) (hs : GroupsEnd s) :
    readGroups n first s = ([], false, s) := by
  have hV4 : readSep first readV4 s = none :=
    readSep_of_groupsEnd (by decide) (fun _ => readV4_of_ends) hs first
  have hHex : readSep first readHex s = none :=
    readSep_of_groupsEnd (by decide) (fun _ => readNumber_of_head) hs first
  cases n with
  | zero => rfl
  | succ n => simp [readGroups, hV4, hHex]

theorem GroupsEnd.flatMap (hs : GroupsEnd s) (gs : List Nat) :
    Ends 16 (gs.flatMap (fun g => ':' :: Nat.toDigits 16 g) ++ s) := by
  cases gs with
  | nil => exact hs.ends (by decide)
  | cons g gs => exact Ends.cons (by decide)

theorem readGroups_flatMap (hgs : ∀ g ∈ gs, g < 2 ^ 16) (hlen : gs.length ≤ n) (hs : GroupsEnd s)
    (hdot : '.' ∉ gs.flatMap (fun g => ':' :: Nat.toDigits 16 g) ++ s) :
    readGroups n false (gs.flatMap (fun g => ':' :: Nat.toDigits 16 g) ++ s) = (gs, false, s) := by
  induction gs generalizing n with
  | nil => exact readGroups_end n false hs
  | cons g gs ih =>
    cases n with
    | zero => simp at hlen
    | succ n =>
      have hrest := ih (fun g' h => hgs g' (.tail _ h)) (by simpa using hlen)
        fun h => hdot (by
          rw [List.flatMap_cons, List.append_assoc]
          exact List.mem_append_right _ h)
      simp only [List.flatMap_cons, List.cons_append, List.append_assoc] at hdot ⊢
      have hends := hs.flatMap gs
      generalize gs.flatMap (fun g => ':' :: Nat.toDigits 16 g) ++ s = s' at hdot hrest hends ⊢
      have hV4 : readV4 (Nat.toDigits 16 g ++ s') = none :=
        readV4_eq_none fun h => hdot (.tail _ h)
      have hHex := readHex_show (hgs g (.head _)) hends
      simp [readGroups, readSep, readChar, hV4, hHex, hrest]

theorem readGroups_show (hgs : ∀ g ∈ gs, g < 2 ^ 16) (hlen : gs.length ≤ n) (hs : GroupsEnd s)
    (hdot : '.' ∉ showGroups gs ++ s) :
    readGroups n true (showGroups gs ++ s) = (gs, false, s) := by
  cases gs with
  | nil => exact readGroups_end n true hs
  | cons g gs =>
    cases n with
    | zero => simp at hlen
    | succ n =>
      simp only [showGroups, List.append_assoc] at hdot ⊢
      have hrest := readGroups_flatMap (fun g' h => hgs g' (.tail _ h))
        (by simpa using hlen) hs fun h => hdot (List.mem_append_right _ h)
      have hends := hs.flatMap gs
      generalize gs.flatMap (fun g => ':' :: Nat.toDigits 16 g) ++ s = s' at hdot hrest hends ⊢
      have hV4 := readV4_eq_none hdot
      have hHex := readHex_show (hgs g (.head _)) hends
      simp [readGroups, readSep, hV4, hHex, hrest]

theorem dot_notMem_showGroups (gs : List Nat) : '.' ∉ showGroups gs := by
  intro h
  rcases showGroups_chars h with h | h
  · exact h (by decide)
  · cases h

/-! ### Reading an address -/

theorem segments_mapped (ha : a < 2 ^ 128) (h : (segments a).take 6 = [0, 0, 0, 0, 0, 0xffff]) :
    a = 0xffff * 2 ^ 32 + a % 2 ^ 32 := by
  simp only [segments, List.take_succ_cons, List.take_zero, List.cons.injEq, and_true] at h
  omega

theorem readV6_mapped (hb : b < 2 ^ 32) :
    readV6 ("::ffff:".toList ++ showV4 b) = some (0xffff * 2 ^ 32 + b, []) := by
  have htext : "::ffff:".toList ++ showV4 b =
      ':' :: ':' :: (Nat.toDigits 16 0xffff ++ ':' :: showV4 b) := rfl
  have hhead : readGroups 8 true (':' :: ':' :: (Nat.toDigits 16 0xffff ++ ':' :: showV4 b)) =
      ([], false, ':' :: ':' :: (Nat.toDigits 16 0xffff ++ ':' :: showV4 b)) :=
    readGroups_end 8 true (.inr ⟨_, rfl⟩)
  have hhex : readHex (Nat.toDigits 16 0xffff ++ ':' :: showV4 b) =
      some (0xffff, ':' :: showV4 b) := readHex_show (by decide) (Ends.cons (by decide))
  have hv4f : readV4 (Nat.toDigits 16 0xffff ++ ':' :: showV4 b) = none := by
    have hends : Ends 10 ('f' :: 'f' :: 'f' :: 'f' :: ':' :: showV4 b) := Ends.cons (by decide)
    exact readV4_of_ends hends
  have hv4 : readV4 (showV4 b) = some (b, []) := by
    simpa using readV4_show hb Ends.nil
  generalize Nat.toDigits 16 0xffff ++ ':' :: showV4 b = s at htext hhead hhex hv4f
  have htail : readGroups 7 true s = ([0xffff, b / 2 ^ 16, b % 2 ^ 16], true, []) := by
    rw [readGroups]
    simp [readGroups, readSep, readChar, hv4f, hhex, hv4]
  have hsum : ofSegments [0, 0, 0, 0, 0, 0xffff, b / 2 ^ 16, b % 2 ^ 16] = 0xffff * 2 ^ 32 + b := by
    simp only [ofSegments, List.foldl_cons, List.foldl_nil]
    omega
  rw [htext]
  simp [readV6, hhead, readChar, htail, List.replicate]
  simpa using hsum

theorem readV6_groups {head tail : List Nat} (hhead : ∀ g ∈ head, g < 2 ^ 16)
    (htail : ∀ g ∈ tail, g < 2 ^ 16) (hn : 1 < n) (hlen : head.length + n + tail.length = 8) :
    readV6 (showGroups head ++ ':' :: ':' :: showGroups tail) =
      some (ofSegments (head ++ List.replicate n 0 ++ tail), []) := by
  have hdot : '.' ∉ showGroups head ++ ':' :: ':' :: showGroups tail := by
    simp [dot_notMem_showGroups]
  have hfront := readGroups_show hhead (by omega : head.length ≤ 8) (.inr ⟨_, rfl⟩) hdot
  have hback := readGroups_show htail (by omega : tail.length ≤ 8 - (head.length + 1)) (.inl rfl)
    (by simpa using dot_notMem_showGroups tail)
  rw [List.append_nil] at hback
  have hzeros : 8 - head.length - tail.length = n := by omega
  have hne : ¬ head.length = 8 := by omega
  simp only [readV6, hfront, if_neg hne, readChar, if_true, Option.bind_eq_bind, Option.bind_some,
    hback, hzeros, Bool.false_eq_true, if_false]

theorem readV6_show (ha : a < 2 ^ 128) : readV6 (showV6 a) = some (a, []) := by
  have hlt : ∀ g ∈ segments a, g < 2 ^ 16 := fun g => segments_lt
  rw [showV6]
  by_cases hmapped : (segments a).take 6 = [0, 0, 0, 0, 0, 0xffff]
  · rw [if_pos hmapped, readV6_mapped (Nat.mod_lt _ (by decide)), ← segments_mapped ha hmapped]
  · rw [if_neg hmapped]
    obtain ⟨front, back, hsegs, hfront⟩ := zeroSpan_zero (segments a)
    generalize zeroSpan 0 (0, 0) (0, 0) (segments a) = span at hsegs hfront
    have hlen : front.length + span.2 + back.length = 8 := by
      have hcount := congrArg List.length hsegs
      have hwhole : (segments a).length = 8 := rfl
      simp only [hwhole, List.length_append, List.length_replicate] at hcount
      exact hcount.symm
    by_cases hspan : 1 < span.2
    · have htake : (segments a).take span.1 = front := by
        rw [hsegs, ← hfront, List.append_assoc, List.take_left]
      have hdrop : (segments a).drop (span.1 + span.2) = back := by
        rw [hsegs, ← hfront]
        exact List.drop_left' (by simp)
      have hfl : ∀ g ∈ front, g < 2 ^ 16 := fun g h => hlt g (by simp [hsegs, h])
      have hbl : ∀ g ∈ back, g < 2 ^ 16 := fun g h => hlt g (by simp [hsegs, h])
      simp only [if_pos hspan, htake, hdrop]
      rw [readV6_groups hfl hbl hspan hlen, ← hsegs, ofSegments_segments ha]
    · have hread := readGroups_show hlt (by simp [segments] : (segments a).length ≤ 8) (.inl rfl)
        (by simpa using dot_notMem_showGroups _)
      rw [List.append_nil] at hread
      have hwhole : (segments a).length = 8 := rfl
      simp only [if_neg hspan, readV6, hread, if_pos hwhole, ofSegments_segments ha]

theorem readV4_showV6 (a : Nat) : readV4 (showV6 a) = none := by
  rw [showV6]
  by_cases hmapped : (segments a).take 6 = [0, 0, 0, 0, 0, 0xffff]
  · rw [if_pos hmapped]
    exact readV4_of_ends (Ends.cons (by decide) : Ends 10 (':' :: (":ffff:".toList ++ _)))
  · rw [if_neg hmapped]
    dsimp only
    split
    · exact readV4_eq_none (by simp [dot_notMem_showGroups])
    · exact readV4_eq_none (dot_notMem_showGroups _)

theorem readGroups_lt {n : Nat} {first : Bool} {s : List Char} :
    (readGroups n first s).1.length ≤ n ∧ ∀ g ∈ (readGroups n first s).1, g < 2 ^ 16 := by
  have hsep : ∀ {α : Type} {f : List Char → Option (α × List Char)} {first s r},
      readSep first f s = some r → ∃ s', f s' = some r := by
    intro α f first s r h
    cases first with
    | true => exact ⟨s, h⟩
    | false =>
      obtain ⟨s', -, h⟩ := Option.bind_eq_some_iff.mp h
      exact ⟨s', h⟩
  induction n generalizing first s with
  | zero => exact ⟨le_rfl, by simp [readGroups]⟩
  | succ n ih =>
    rw [readGroups]
    split
    · rename_i a rest hv4
      split at hv4
      · obtain ⟨s', hv4⟩ := hsep hv4
        have ha := readV4_lt hv4
        exact ⟨by simp; omega, by simp; omega⟩
      · cases hv4
    · split
      · rename_i g rest hhex
        obtain ⟨s', hhex⟩ := hsep hhex
        have hg := readNumber_lt hhex
        obtain ⟨hlen, hgs⟩ := @ih false rest
        exact ⟨by simpa using hlen, by simpa using ⟨hg, hgs⟩⟩
      · exact ⟨Nat.zero_le _, by simp⟩

theorem readV6_lt (h : readV6 s = some (a, rest)) : a < 2 ^ 128 := by
  have hbound : ∀ gs : List Nat, gs.length = 8 → (∀ g ∈ gs, g < 2 ^ 16) →
      ofSegments gs < 2 ^ 128 := by
    intro gs hlen hgs
    have := ofSegments_lt hgs
    rwa [hlen, ← Nat.pow_mul] at this
  obtain ⟨hhead, hheadlt⟩ := @readGroups_lt 8 true s
  simp only [readV6] at h
  split at h
  · rename_i hlen
    cases h
    exact hbound _ hlen hheadlt
  · rename_i hlen
    split at h
    · cases h
    · simp only [Option.bind_eq_bind, Option.bind_eq_some_iff] at h
      obtain ⟨s1, -, s2, -, he⟩ := h
      obtain ⟨htail, htaillt⟩ := @readGroups_lt (8 - ((readGroups 8 true s).1.length + 1)) true s2
      cases he
      refine hbound _ ?_ fun g hg => ?_
      · simp only [List.length_append, List.length_replicate]
        omega
      rcases List.mem_append.mp hg with hg | hg
      · rcases List.mem_append.mp hg with hg | hg
        · exact hheadlt g hg
        · rw [(List.mem_replicate.mp hg).2]
          decide
      · exact htaillt g hg

/-! ## Characters -/

/-- The characters an address is written with. -/
def ipChar (c : Char) : Prop := digitVal 16 c ≠ none ∨ c = ':' ∨ c = '.'

theorem decChars (h : c ∈ Nat.toDigits 10 n) : digitVal 16 c ≠ none := by
  obtain ⟨ds, hds, hlt, -⟩ := exists_digits (by decide : 1 < 10) n
  rw [hds] at h
  obtain ⟨d, hd, rfl⟩ := List.mem_map.mp h
  have hd := hlt d hd
  rw [digitVal_digitChar (by decide) (by omega)]
  simp

theorem showV4_chars (h : c ∈ showV4 a) : ipChar c := by
  have hdigit : ∀ {n : Nat}, c ∈ Nat.toDigits 10 n → ipChar c := fun h => .inl (decChars h)
  simp only [showV4, List.mem_append, List.mem_cons] at h
  rcases h with h | h | h | h | h | h | h
  all_goals first
    | exact hdigit h
    | exact .inr (.inr h)

theorem showV6_chars (h : c ∈ showV6 a) : ipChar c := by
  have hgroups : ∀ {gs : List Nat}, c ∈ showGroups gs → ipChar c := fun h =>
    (showGroups_chars h).imp_right .inl
  simp only [showV6] at h
  split at h
  · rcases List.mem_append.mp h with h | h
    · have hfix : c = ':' ∨ c = 'f' ∨ c = ':' := by simpa using h
      rcases hfix with rfl | rfl | rfl
      · exact .inr (.inl rfl)
      · exact .inl (by decide)
      · exact .inr (.inl rfl)
    · exact showV4_chars h
  · split at h
    · rcases List.mem_append.mp h with h | h
      · exact hgroups h
      · rcases List.mem_cons.mp h with h | h
        · exact .inr (.inl h)
        · rcases List.mem_cons.mp h with h | h
          · exact .inr (.inl h)
          · exact hgroups h
    · exact hgroups h

theorem digit_range (h : digitVal 16 c ≠ none) : 48 ≤ c.toNat ∧ c.toNat ≤ 122 := by
  have hval : charVal c < 16 := by
    by_contra hc
    exact h (if_neg hc)
  simp only [charVal, Char.le_def, UInt32.le_iff_toNat_le] at hval
  simp only [Char.toNat]
  split at hval
  · rename_i hd
    exact ⟨hd.1, Nat.le_trans hd.2 (by decide)⟩
  · split at hval
    · rename_i hd
      exact ⟨Nat.le_trans (by decide) hd.1, hd.2⟩
    · split at hval
      · rename_i hd
        exact ⟨Nat.le_trans (by decide) hd.1, Nat.le_trans hd.2 (by decide)⟩
      · omega

theorem ipChar_not_whitespace (h : ipChar c) : isWhitespace c = false := by
  rcases h with h | rfl | rfl
  · exact isWhitespace_of_range (digit_range h)
  · decide
  · decide

theorem ipChar_ne_slash (h : ipChar c) : c ≠ '/' := by
  rintro rfl
  revert h
  unfold ipChar
  decide

/-! ## What is read -/

/-- `rest` is what follows some characters of an address. -/
def Reads (s rest : List Char) : Prop := ∃ a, s = a ++ rest ∧ ∀ c ∈ a, ipChar c

theorem Reads.refl (s : List Char) : Reads s s := ⟨[], rfl, nofun⟩

theorem Reads.trans {t u : List Char} (h : Reads s t) (h' : Reads t u) : Reads s u := by
  obtain ⟨a, rfl, ha⟩ := h
  obtain ⟨b, rfl, hb⟩ := h'
  refine ⟨a ++ b, (List.append_assoc a b u).symm, fun c hc => ?_⟩
  exact (List.mem_append.mp hc).elim (ha c) (hb c)

theorem Reads.cons (hc : ipChar c) (s : List Char) : Reads (c :: s) s :=
  ⟨[c], rfl, fun _ hd => List.mem_singleton.mp hd ▸ hc⟩

theorem readDigits_reads (hb : b ≤ 16) (s : List Char) : Reads s (readDigits b s).2 := by
  induction s with
  | nil => exact .refl _
  | cons c s ih =>
    rw [readDigits]
    split
    · rename_i d hd
      refine (Reads.cons (.inl ?_) s).trans ih
      have hlt : charVal c < b := by
        by_contra hge
        rw [digitVal, if_neg hge] at hd
        cases hd
      rw [digitVal, if_pos (by omega)]
      exact Option.some_ne_none _
    · exact .refl _

theorem readNumber_reads {width bound : Nat} {strict : Bool} (hb : b ≤ 16)
    (h : readNumber b width bound strict s = some (n, rest)) : Reads s rest := by
  simp only [readNumber] at h
  split at h
  · cases h
  · cases h
    exact readDigits_reads hb s

theorem readChar_reads (hc : ipChar c) (h : readChar c s = some rest) : Reads s rest := by
  cases s with
  | nil => cases h
  | cons d s =>
    rw [readChar] at h
    split at h
    · rename_i hd
      cases h
      exact .cons (hd ▸ hc) _
    · cases h

theorem readV4_reads (h : readV4 s = some (a, rest)) : Reads s rest := by
  have hoctet : ∀ {s rest : List Char} {n : Nat}, readOctet s = some (n, rest) → Reads s rest :=
    readNumber_reads (by decide)
  have hdot : ∀ {s rest : List Char}, readChar '.' s = some rest → Reads s rest :=
    readChar_reads (.inr (.inr rfl))
  simp only [readV4, Option.bind_eq_bind, Option.bind_eq_some_iff] at h
  obtain ⟨⟨_, _⟩, ha, _, ha', ⟨_, _⟩, hb, _, hb', ⟨_, _⟩, hc, _, hc', ⟨_, _⟩, hd, he⟩ := h
  cases he
  exact (hoctet ha).trans <| (hdot ha').trans <| (hoctet hb).trans <| (hdot hb').trans <|
    (hoctet hc).trans <| (hdot hc').trans (hoctet hd)

theorem readSep_reads {α : Type} {first : Bool} {f : List Char → Option (α × List Char)}
    (hf : ∀ {s rest : List Char} {a : α}, f s = some (a, rest) → Reads s rest) {a : α}
    (h : readSep first f s = some (a, rest)) : Reads s rest := by
  unfold readSep at h
  split at h
  · exact hf h
  · obtain ⟨s', hs', h⟩ := Option.bind_eq_some_iff.mp h
    exact (readChar_reads (.inr (.inl rfl)) hs').trans (hf h)

theorem readGroups_reads (n : Nat) (first : Bool) (s : List Char) :
    Reads s (readGroups n first s).2.2 := by
  induction n generalizing first s with
  | zero => exact .refl s
  | succ n ih =>
    rw [readGroups]
    split
    · rename_i a rest hread
      split at hread
      · exact readSep_reads readV4_reads hread
      · cases hread
    · split
      · rename_i g rest hread
        exact (readSep_reads (readNumber_reads (by decide)) hread).trans (ih false rest)
      · exact .refl s

theorem readV6_reads (h : readV6 s = some (a, rest)) : Reads s rest := by
  have hcolon : ∀ {s rest : List Char}, readChar ':' s = some rest → Reads s rest :=
    readChar_reads (.inr (.inl rfl))
  have hhead := readGroups_reads 8 true s
  simp only [readV6] at h
  split at h
  · cases h
    exact hhead
  · split at h
    · cases h
    · simp only [Option.bind_eq_bind, Option.bind_eq_some_iff] at h
      obtain ⟨s₁, h₁, s₂, h₂, he⟩ := h
      cases he
      exact hhead.trans <| (hcolon h₁).trans <| (hcolon h₂).trans (readGroups_reads _ true s₂)

end RunmanAgent.Text
