import RunmanAgent.Data.Text

/-!
# Cursors in query strings

`url_encode` of `src/hostpolicy.rs` and `percent_decode` of `src/controlapi.rs`. Both work on the
bytes of a text. A byte is written as itself or as three characters, none of which separates the
items of a query, and is read back as itself; so `query_value` finds the text that was encoded.
-/

namespace RunmanAgent.HostPolicy

open Text

/-- The UTF-8 bytes of a text. -/
def bytes (s : String) : List UInt8 := s.toByteArray.data.toList

/-- A digit of `{:02X}`. -/
def upperHex (n : Nat) : Char := (Nat.digitChar n).toUpper

def unreserved (b : UInt8) : Bool :=
  (Char.ofUInt8 b).isAlphanum || decide (Char.ofUInt8 b ∈ ['-', '_', '.', '~'])

def escape (b : UInt8) : List Char :=
  if unreserved b then [Char.ofUInt8 b] else ['%', upperHex (b.toNat / 16), upperHex (b.toNat % 16)]

def urlEncode (s : String) : String := String.ofList ((bytes s).flatMap escape)

inductive DecodeError where
  | badEscape
  | utf8
  deriving DecidableEq

/-- The loop of `percent_decode`. -/
def unescape : List UInt8 → Except DecodeError (List UInt8)
  | [] => .ok []
  | b :: rest =>
    if b = '%'.toUInt8 then
      match rest with
      | hi :: lo :: rest =>
        match digitVal 16 (Char.ofUInt8 hi), digitVal 16 (Char.ofUInt8 lo) with
        | some hi, some lo => (unescape rest).map ((UInt8.ofNat hi <<< 4 ||| UInt8.ofNat lo) :: ·)
        | _, _ => .error .badEscape
      | _ => .error .badEscape
    else if b = '+'.toUInt8 then (unescape rest).map (' '.toUInt8 :: ·)
    else (unescape rest).map (b :: ·)

def percentDecode (value : String) : Except DecodeError String :=
  match unescape (bytes value) with
  | .ok out => (String.fromUTF8? ⟨out.toArray⟩).elim (.error .utf8) .ok
  | .error e => .error e

def queryValue (query key : String) : Option String :=
  ((query.toList.splitOn '&').filterMap (splitOnce '=')).findSome? fun item =>
    match percentDecode (String.ofList item.1) with
    | .ok k => if k = key then (percentDecode (String.ofList item.2)).toOption else none
    | .error _ => none

/-! ## Bytes -/

variable {b : UInt8} {c : Char} {s : String}

theorem bytes_ofList {cs : List Char} (h : ∀ c ∈ cs, c.utf8Size = 1) :
    bytes (String.ofList cs) = cs.map Char.toUInt8 := by
  have hflat : cs.flatMap String.utf8EncodeChar = cs.map Char.toUInt8 := by
    induction cs with
    | nil => rfl
    | cons c cs ih =>
      rw [List.flatMap_cons, String.utf8EncodeChar_eq_singleton (h c (.head _)),
        ih fun d hd => h d (.tail _ hd)]
      rfl
  simp [bytes, List.utf8Encode, hflat]

theorem escape_ascii (b : UInt8) : ∀ c ∈ escape b,
    c.utf8Size = 1 ∧ c ∉ ['&', '=', ';', '?', '#', '+', '/', ' '] := by
  have hall : ∀ n < 256, (escape (UInt8.ofNat n)).all (fun c => decide
      (c.utf8Size = 1 ∧ c ∉ ['&', '=', ';', '?', '#', '+', '/', ' '])) = true := by
    decide +kernel
  have hbyte := hall b.toNat b.toNat_lt
  rw [UInt8.ofNat_toNat] at hbyte
  exact fun c hc => of_decide_eq_true (List.all_eq_true.mp hbyte c hc)

theorem unescape_escape (b : UInt8) (rest : List UInt8) :
    unescape ((escape b).map Char.toUInt8 ++ rest) = (unescape rest).map (b :: ·) := by
  have hdigit : ∀ n < 16, digitVal 16 (Char.ofUInt8 (upperHex n).toUInt8) = some n := by decide
  have hbyte : ∀ n < 256, UInt8.ofNat (n / 16) <<< 4 ||| UInt8.ofNat (n % 16) = UInt8.ofNat n := by
    decide +kernel
  unfold escape
  split
  · rename_i hb
    have hpercent : b ≠ '%'.toUInt8 := by
      rintro rfl
      exact absurd hb (by decide)
    have hplus : b ≠ '+'.toUInt8 := by
      rintro rfl
      exact absurd hb (by decide)
    have hself : (Char.ofUInt8 b).toUInt8 = b := by simp [Char.ofUInt8, Char.toUInt8]
    simp only [List.map_cons, List.map_nil, List.cons_append, List.nil_append, hself]
    rw [unescape.eq_def]
    dsimp only
    rw [if_neg hpercent, if_neg hplus]
  · have hhi := hdigit (b.toNat / 16) (by have := b.toNat_lt; omega)
    have hlo := hdigit (b.toNat % 16) (by omega)
    have hself := hbyte b.toNat b.toNat_lt
    rw [UInt8.ofNat_toNat] at hself
    simp only [List.map_cons, List.map_nil, List.cons_append, List.nil_append]
    rw [unescape, if_pos rfl]
    simp only [hhi, hlo, hself]

theorem unescape_flatMap (bs : List UInt8) :
    unescape ((bs.flatMap escape).map Char.toUInt8) = .ok bs := by
  induction bs with
  | nil => rfl
  | cons b bs ih =>
    rw [List.flatMap_cons, List.map_append, unescape_escape, ih]
    rfl

theorem percentDecode_urlEncode (s : String) : percentDecode (urlEncode s) = .ok s := by
  have hbytes : bytes (urlEncode s) = ((bytes s).flatMap escape).map Char.toUInt8 := by
    refine bytes_ofList fun c hc => ?_
    obtain ⟨b, -, hb⟩ := List.mem_flatMap.mp hc
    exact (escape_ascii b c hb).1
  have hutf8 : String.fromUTF8? s.toByteArray = some s := by
    rw [String.fromUTF8?, dif_pos s.isValidUTF8]
    rfl
  rw [percentDecode, hbytes, unescape_flatMap]
  simp [bytes, hutf8]

theorem urlEncode_separators (hc : c ∈ (urlEncode s).toList) :
    c ∉ ['&', '=', ';', '?', '#', '+', '/', ' '] := by
  rw [urlEncode, String.toList_ofList] at hc
  obtain ⟨b, -, hb⟩ := List.mem_flatMap.mp hc
  exact (escape_ascii b c hb).2

/-! ## Queries -/

/-- The query of a request for events. -/
def eventsQuery (cursor : String) (limit : Nat) : String :=
  "cursor=" ++ urlEncode cursor ++ "&limit=" ++ toString limit

theorem queryValue_eventsQuery (limit : Nat) :
    queryValue (eventsQuery s limit) "cursor" = some s := by
  have hlist : (eventsQuery s limit).toList =
      ("cursor".toList ++ '=' :: (urlEncode s).toList) ++
        '&' :: ("limit=" ++ toString limit).toList := by
    simp [eventsQuery]
  have hamp : '&' ∉ "cursor".toList ++ '=' :: (urlEncode s).toList := by
    have henc : '&' ∉ (urlEncode s).toList := fun hc => urlEncode_separators hc (by decide)
    simpa using henc
  have hkey : percentDecode "cursor" = .ok "cursor" := by
    have henc : urlEncode "cursor" = "cursor" := by decide
    rw [← henc, percentDecode_urlEncode, henc]
  rw [queryValue, hlist, List.splitOn_append_cons_self_of_not_mem hamp, List.filterMap_cons,
    splitOnce_append (by decide)]
  simp [hkey, percentDecode_urlEncode, Except.toOption]

/-- The cursor that is read from a request with a given one. -/
def hop (limit : Nat) (cursor : Option String) : Option String :=
  cursor.bind fun cursor => queryValue (eventsQuery cursor limit) "cursor"

theorem hop_some (limit : Nat) (cursor : String) : hop limit (some cursor) = some cursor := by
  rw [hop, Option.bind_some, queryValue_eventsQuery]

/-- Every text is read back from its encoded form, which has no separator of a query; so a cursor
that is passed on in the query of one request after another stays as it is. -/
theorem cursor_survives (cursor : String) :
    percentDecode (urlEncode cursor) = .ok cursor ∧
    (∀ c ∈ (urlEncode cursor).toList, c ∉ ['&', '=', ';', '?', '#', '+', '/', ' ']) ∧
    ∀ limit n, (hop limit)^[n] (some cursor) = some cursor :=
  ⟨percentDecode_urlEncode cursor, fun _ => urlEncode_separators, fun limit n =>
    Function.iterate_fixed (hop_some limit cursor) n⟩

end RunmanAgent.HostPolicy
