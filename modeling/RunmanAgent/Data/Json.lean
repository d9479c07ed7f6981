import RunmanAgent.Data.Text

/-!
# Text of JSON objects

Objects whose members are strings, numbers, truth values, lists of strings or null, written
without white space. How a character is written inside a string is a parameter: encoders
differ in the characters they escape.

* `object`: the text of an object.
* `object_injective`: the text determines the members and their order, for an encoder whose
  characters can be told apart.
-/

namespace RunmanAgent.Json

inductive Value where
  | str (s : String)
  | num (n : Int)
  | bool (b : Bool)
  | strs (l : List String)
  | null
  deriving DecidableEq

section Text

variable (esc : Char → List Char)

def quote (s : String) : String := String.ofList ('"' :: s.toList.flatMap esc ++ ['"'])

def Value.text : Value → String
  | .str s => quote esc s
  | .num n => toString n
  | .bool b => toString b
  | .strs l => "[" ++ String.intercalate "," (l.map (quote esc)) ++ "]"
  | .null => "null"

def member (m : String × Value) : String := quote esc m.1 ++ ":" ++ m.2.text esc

def object (members : List (String × Value)) : String :=
  "\x7b" ++ String.intercalate "," (members.map (member esc)) ++ "\x7d"

end Text

/-! ## Encoders -/

def Value.chars : Value → List Char
  | .str s => s.toList
  | .strs l => l.flatMap String.toList
  | _ => []

section Congr

variable {esc esc' : Char → List Char}

theorem quote_congr {s : String} (h : ∀ c ∈ s.toList, esc c = esc' c) :
    quote esc s = quote esc' s := by
  rw [quote, quote, List.flatMap_congr h]

theorem Value.text_congr {v : Value} (h : ∀ c ∈ v.chars, esc c = esc' c) :
    v.text esc = v.text esc' := by
  cases v with
  | str s => exact quote_congr h
  | strs l =>
    have hquote : l.map (quote esc) = l.map (quote esc') :=
      List.map_congr_left fun s hs =>
        quote_congr fun c hc => h c (List.mem_flatMap.mpr ⟨s, hs, hc⟩)
    rw [Value.text, hquote, Value.text]
  | _ => rfl

theorem object_congr {members : List (String × Value)}
    (h : ∀ m ∈ members, ∀ c ∈ m.1.toList ++ m.2.chars, esc c = esc' c) :
    object esc members = object esc' members := by
  have hmember : members.map (member esc) = members.map (member esc') :=
    List.map_congr_left fun m hm => by
      rw [member, member, quote_congr fun c hc => h m hm c (List.mem_append_left _ hc),
        Value.text_congr fun c hc => h m hm c (List.mem_append_right _ hc)]
  rw [object, hmember, object]

end Congr

/-- No written character starts another, and none starts with a quotation mark. -/
structure Escaping (esc : Char → List Char) : Prop where
  eq_of_starts : ∀ c d, esc c <+: esc d → c = d
  head : ∀ c, ∃ d r, esc c = d :: r ∧ d ≠ '"'

/-! ## Lists with separators -/

/-- Items that are told apart when a comma or the end mark follows them. -/
structure Separable {α : Type} (item : α → List Char) (e : Char) : Prop where
  read : ∀ {a b c d r s}, c = ',' ∨ c = e → d = ',' ∨ d = e →
    item a ++ c :: r = item b ++ d :: s → a = b ∧ c = d ∧ r = s
  head : ∀ a, ∃ c r, item a = c :: r ∧ c ≠ e
  comma : e ≠ ','

theorem Separable.read_list {α : Type} {item : α → List Char} {e : Char}
    (h : Separable item e) {l m : List α} {r s : List Char}
    (heq : [','].intercalate (l.map item) ++ e :: r = [','].intercalate (m.map item) ++ e :: s) :
    l = m ∧ r = s := by
  -- an empty list is followed at once by the end mark, which starts no item
  have hend : ∀ {a : α} {m : List α} {r s : List Char},
      e :: r ≠ [','].intercalate ((a :: m).map item) ++ e :: s := by
    intro a m r s heq
    obtain ⟨c, t, hitem, hc⟩ := h.head a
    cases m with
    | nil =>
      rw [List.map_singleton, List.intercalate_singleton, hitem] at heq
      exact hc (List.cons.inj heq).1.symm
    | cons b m =>
      rw [List.map_cons, List.map_cons, List.intercalate_cons_cons, hitem] at heq
      exact hc (List.cons.inj heq).1.symm
  induction l generalizing m with
  | nil =>
    cases m with
    | nil => exact ⟨rfl, (List.cons.inj heq).2⟩
    | cons b m => exact absurd heq hend
  | cons a l ih =>
    cases m with
    | nil => exact absurd heq.symm hend
    | cons b m =>
      cases l with
      | nil =>
        cases m with
        | nil =>
          simp only [List.map_singleton, List.intercalate_singleton] at heq
          obtain ⟨rfl, -, rfl⟩ := h.read (.inr rfl) (.inr rfl) heq
          exact ⟨rfl, rfl⟩
        | cons b' m =>
          simp only [List.map_cons, List.map_nil, List.intercalate_singleton,
            List.intercalate_cons_cons, List.append_assoc, List.singleton_append] at heq
          exact absurd (h.read (.inr rfl) (.inl rfl) heq).2.1 h.comma
      | cons a' l =>
        cases m with
        | nil =>
          simp only [List.map_cons, List.map_nil, List.intercalate_singleton,
            List.intercalate_cons_cons, List.append_assoc, List.singleton_append] at heq
          exact absurd (h.read (.inl rfl) (.inr rfl) heq).2.1.symm h.comma
        | cons b' m =>
          rw [List.map_cons, List.map_cons, List.intercalate_cons_cons, List.map_cons,
            List.map_cons, List.intercalate_cons_cons] at heq
          simp only [List.append_assoc, List.singleton_append] at heq
          obtain ⟨rfl, -, hrest⟩ := h.read (.inl rfl) (.inl rfl) heq
          rw [← List.map_cons, ← List.map_cons] at hrest
          obtain ⟨hlist, hr⟩ := ih hrest
          exact ⟨by rw [hlist], hr⟩

/-! ## Values -/

/-- What may follow a value in an object. -/
def Mark (c : Char) : Prop := c = ',' ∨ c = '}'

theorem read_word {a b r s : List Char} {c d : Char} (ha : ∀ x ∈ a, ¬ Mark x)
    (hb : ∀ x ∈ b, ¬ Mark x) (hc : Mark c) (hd : Mark d) (heq : a ++ c :: r = b ++ d :: s) :
    a = b ∧ c = d ∧ r = s := by
  induction a generalizing b with
  | nil =>
    cases b with
    | nil => exact ⟨rfl, List.cons.inj heq⟩
    | cons y b =>
      have hy : c = y := (List.cons.inj heq).1
      exact absurd (hy ▸ hc) (hb y (.head _))
  | cons x a ih =>
    cases b with
    | nil =>
      have hx : x = d := (List.cons.inj heq).1
      exact absurd (hx ▸ hd) (ha x (.head _))
    | cons y b =>
      obtain ⟨rfl, hrest⟩ := List.cons.inj heq
      obtain ⟨rfl, hcd⟩ := ih (fun x hx => ha x (.tail _ hx)) (fun x hx => hb x (.tail _ hx)) hrest
      exact ⟨rfl, hcd⟩

theorem toList_num (n : Int) : (toString n).toList =
    (if n < 0 then ['-'] else []) ++ Nat.toDigits 10 n.natAbs := by
  cases n with
  | ofNat n =>
    rw [if_neg (by simp)]
    simp [toString, Int.repr, Nat.repr_eq_ofList_toDigits]
  | negSucc n =>
    rw [if_pos (Int.negSucc_lt_zero n)]
    simp [toString, Int.repr, Nat.repr_eq_ofList_toDigits]

theorem num_injective {n m : Int} (h : (toString n).toList = (toString m).toList) : n = m := by
  have hdigits : ∀ a b : Nat, Nat.toDigits 10 a = Nat.toDigits 10 b → a = b := by
    intro a b hab
    apply Text.repr_injective
    rw [Nat.repr_eq_ofList_toDigits, Nat.repr_eq_ofList_toDigits, hab]
  have hminus : ∀ (a : Nat) (l : List Char), Nat.toDigits 10 a ≠ '-' :: l := by
    intro a l hl
    have hmem : '-' ∈ Nat.toDigits 10 a := hl ▸ (.head _)
    exact absurd (Nat.isDigit_of_mem_toDigits (by omega) (by omega) hmem) (by decide)
  rw [toList_num, toList_num] at h
  split at h
  · split at h
    · have habs := hdigits _ _ (List.append_cancel_left h)
      omega
    · exact absurd h.symm (hminus _ _)
  · split at h
    · exact absurd h (hminus _ _)
    · have habs := hdigits _ _ h
      omega

theorem num_chars {n : Int} {c : Char} (h : c ∈ (toString n).toList) :
    c = '-' ∨ c.isDigit = true := by
  rw [toList_num] at h
  rcases List.mem_append.mp h with h | h
  · split at h
    · exact .inl (List.mem_singleton.mp h)
    · cases h
  · exact .inr (Nat.isDigit_of_mem_toDigits (by omega) (by omega) h)

namespace Escaping

variable {esc : Char → List Char} (h : Escaping esc)

include h

theorem read_escaped {s t r r' : List Char}
    (heq : s.flatMap esc ++ '"' :: r = t.flatMap esc ++ '"' :: r') : s = t ∧ r = r' := by
  induction s generalizing t with
  | nil =>
    cases t with
    | nil => exact ⟨rfl, (List.cons.inj heq).2⟩
    | cons d t =>
      obtain ⟨x, y, hesc, hx⟩ := h.head d
      rw [List.flatMap_cons, hesc] at heq
      exact absurd (List.cons.inj heq).1.symm hx
  | cons c s ih =>
    cases t with
    | nil =>
      obtain ⟨x, y, hesc, hx⟩ := h.head c
      rw [List.flatMap_cons, hesc] at heq
      exact absurd (List.cons.inj heq).1 hx
    | cons d t =>
      rw [List.flatMap_cons, List.flatMap_cons, List.append_assoc, List.append_assoc] at heq
      have hcd : c = d := by
        rcases List.prefix_or_prefix_of_prefix ⟨_, rfl⟩ ⟨_, heq.symm⟩ with hp | hp
        · exact h.eq_of_starts c d hp
        · exact (h.eq_of_starts d c hp).symm
      subst hcd
      obtain ⟨rfl, hr⟩ := ih (List.append_cancel_left heq)
      exact ⟨rfl, hr⟩

theorem read_quote {s t : String} {r r' : List Char}
    (heq : (quote esc s).toList ++ r = (quote esc t).toList ++ r') : s = t ∧ r = r' := by
  simp only [quote, String.toList_ofList, List.cons_append, List.append_assoc, List.cons.injEq,
    true_and, List.nil_append] at heq
  obtain ⟨hst, hr⟩ := h.read_escaped heq
  exact ⟨String.toList_injective hst, hr⟩

theorem separable_quote : Separable (fun s => (quote esc s).toList) ']' where
  read := by
    intro a b c d r s _ _ heq
    obtain ⟨rfl, hrest⟩ := h.read_quote heq
    obtain ⟨rfl, rfl⟩ := List.cons.inj hrest
    exact ⟨rfl, rfl, rfl⟩
  head a := ⟨'"', a.toList.flatMap esc ++ ['"'], by simp [quote], by decide⟩
  comma := by decide

end Escaping

/-- The constructor of a value, told from the first character of its text. -/
def kind (c : Char) : Nat :=
  if c = '"' then 0
  else if c.isDigit ∨ c = '-' then 1
  else if c = 't' ∨ c = 'f' then 2
  else if c = '[' then 3
  else 4

def Value.kind : Value → Nat
  | .str _ => 0
  | .num _ => 1
  | .bool _ => 2
  | .strs _ => 3
  | .null => 4

theorem kind_num {c : Char} (h : c = '-' ∨ c.isDigit = true) : Json.kind c = 1 := by
  have hquote : c ≠ '"' := by
    rintro rfl
    exact absurd h (by decide)
  rw [Json.kind, if_neg hquote, if_pos h.symm]

theorem Value.head_text (esc : Char → List Char) (v : Value) :
    ∃ c r, (v.text esc).toList = c :: r ∧ Json.kind c = v.kind := by
  cases v with
  | str s => exact ⟨'"', s.toList.flatMap esc ++ ['"'], by simp [Value.text, quote], rfl⟩
  | num n =>
    have hne : (toString n).toList ≠ [] := by
      rw [toList_num]
      exact List.append_ne_nil_of_right_ne_nil _ Nat.toDigits_ne_nil
    obtain ⟨c, r, hcr⟩ := List.exists_cons_of_ne_nil hne
    exact ⟨c, r, hcr, kind_num (num_chars (hcr ▸ List.mem_cons_self))⟩
  | bool b =>
    cases b with
    | true => exact ⟨'t', ['r', 'u', 'e'], by rw [Value.text]; decide, rfl⟩
    | false => exact ⟨'f', ['a', 'l', 's', 'e'], by rw [Value.text]; decide, rfl⟩
  | strs l =>
    refine ⟨'[', (String.intercalate "," (l.map (quote esc))).toList ++ [']'], ?_, rfl⟩
    simp [Value.text]
  | null => exact ⟨'n', ['u', 'l', 'l'], by simp [Value.text], rfl⟩

namespace Escaping

variable {esc : Char → List Char} (h : Escaping esc)

include h

theorem read_value {v w : Value} {c d : Char} {r s : List Char} (hc : Mark c) (hd : Mark d)
    (heq : (v.text esc).toList ++ c :: r = (w.text esc).toList ++ d :: s) :
    v = w ∧ c = d ∧ r = s := by
  have hkind : v.kind = w.kind := by
    obtain ⟨x, a, hv, hx⟩ := v.head_text esc
    obtain ⟨y, b, hw, hy⟩ := w.head_text esc
    rw [hv, hw] at heq
    rw [← hx, ← hy, (List.cons.inj heq).1]
  have hdigit : ∀ {n : Int}, ∀ x ∈ (toString n).toList, ¬ Mark x := by
    rintro n x hx (rfl | rfl) <;> exact absurd (num_chars hx) (by decide)
  have hbool : ∀ {b : Bool}, ∀ x ∈ (toString b).toList, ¬ Mark x := by
    rintro (_ | _) x hx (rfl | rfl) <;> exact absurd hx (by decide)
  cases v <;> cases w <;> try cases hkind
  case str.str s t =>
    obtain ⟨rfl, hrest⟩ := h.read_quote heq
    exact ⟨rfl, List.cons.inj hrest⟩
  case num.num n m =>
    obtain ⟨hnm, hrest⟩ := read_word hdigit hdigit hc hd heq
    exact ⟨by rw [num_injective hnm], hrest⟩
  case bool.bool a b =>
    obtain ⟨hab, hrest⟩ := read_word hbool hbool hc hd heq
    have : a = b := by
      revert hab
      cases a <;> cases b <;> decide
    exact ⟨by rw [this], hrest⟩
  case strs.strs l m =>
    simp only [Value.text, String.toList_append, String.toList_intercalate, List.map_map,
      List.append_assoc] at heq
    obtain ⟨rfl, hrest⟩ := h.separable_quote.read_list (List.append_cancel_left heq)
    exact ⟨rfl, List.cons.inj hrest⟩
  case null.null => exact ⟨rfl, List.cons.inj (List.append_cancel_left heq)⟩

theorem separable_member : Separable (fun m => (member esc m).toList) '}' where
  read := by
    rintro ⟨a, v⟩ ⟨b, w⟩ c d r s hc hd heq
    simp only [member, String.toList_append, List.append_assoc] at heq
    obtain ⟨rfl, hrest⟩ := h.read_quote heq
    obtain ⟨rfl, hmark⟩ := h.read_value hc hd (List.append_cancel_left hrest)
    exact ⟨rfl, hmark⟩
  head := by
    rintro ⟨a, v⟩
    exact ⟨'"', a.toList.flatMap esc ++ '"' :: ':' :: (v.text esc).toList,
      by simp [member, quote], by decide⟩
  comma := by decide

theorem object_injective : Function.Injective (object esc) := by
  intro l m heq
  have heq : (object esc l).toList = (object esc m).toList := by rw [heq]
  simp only [object, String.toList_append, String.toList_intercalate, List.map_map,
    List.append_assoc] at heq
  exact (h.separable_member.read_list (List.append_cancel_left heq)).1

end Escaping

end RunmanAgent.Json
