import RunmanAgent.Data.Nft
import RunmanAgent.Runtime.Ruleset

/-!
# Anti-spoofing on instance ports

`guardTable` is what the bridge table of the ruleset says, and `read_ruleset` that it is what
is read from the generated text. The interface name of a port determines its index, so that a
port's elements are its own addresses, and the chain drops the forged frames (`guard_exact`).
-/

namespace RunmanAgent

open Text Nft

/-! ## What a port may send -/

/-- The port's own and dedicated addresses. -/
def Port.Owns (p : Port) (a : IpAddr) : Prop :=
  a = .v4 p.addrs.ipv4 ∨ p.addrs.ipv6.map .v6 = some a ∨ a ∈ p.extra

/-- The addresses are 32 and 128 bits wide. -/
def Port.Valid (p : Port) : Prop := ∀ a, p.Owns a → a.Valid

/-- `fe80::/10`. -/
def LinkLocal (a : Nat) : Prop := a / 2 ^ 118 = 0x3fa

/-- The frame has a source that the port may not use, or it poses as a router. -/
def Port.Forged (p : Port) : Payload → Prop
  | .ip a | .arp a => ¬p.Owns (.v4 a)
  | .ip6 a type => type = some 134 ∨ type = some 137 ∨ ¬LinkLocal a ∧ a ≠ 0 ∧ ¬p.Owns (.v6 a)
  | .other => False

theorem Port.mem_addrs4 {p : Port} {a : Nat} : a ∈ p.addrs4 ↔ p.Owns (.v4 a) := by
  simp only [addrs4, Owns, List.mem_cons, List.mem_filterMap]
  constructor
  · rintro (rfl | ⟨x, hx, hxa⟩)
    · exact .inl rfl
    · cases x with
      | v4 b => cases hxa; exact .inr (.inr hx)
      | v6 b => cases hxa
  · rintro (h | h | h)
    · exact .inl (IpAddr.v4.inj h)
    · cases hv : p.addrs.ipv6 <;> simp [hv] at h
    · exact .inr ⟨.v4 a, h, rfl⟩

theorem Port.mem_addrs6 {p : Port} {a : Nat} : a ∈ p.addrs6 ↔ p.Owns (.v6 a) := by
  simp only [addrs6, Owns, List.mem_append, Option.mem_toList, List.mem_filterMap]
  constructor
  · rintro (h | ⟨x, hx, hxa⟩)
    · exact .inr (.inl (by simp [h]))
    · cases x with
      | v4 b => cases hxa
      | v6 b => cases hxa; exact .inr (.inr hx)
  · rintro (h | h | h)
    · cases h
    · refine .inl ?_
      cases hv : p.addrs.ipv6 with
      | none => simp [hv] at h
      | some b => simpa [hv] using h
    · exact .inr ⟨.v6 a, h, rfl⟩

/-! ## The table -/

namespace Net

variable (n : Net)

/-- The elements of a set: the interface of each port with the port's addresses. -/
def elems (addrs : Port → List Nat) (instances : List Port) : List (String × Nat) :=
  instances.flatMap fun p => (addrs p).map fun a => (n.hostIf p.idx, a)

def guardRules : List Rule :=
  [⟨[.iifnameNot (n.vethPrefix ++ "*")], .accept⟩,
    ⟨[.etherType .ip, .notIn .ipSaddr "src4"], .drop⟩,
    ⟨[.etherType .arp, .notIn .arpSaddrIp "src4"], .drop⟩,
    ⟨[.etherType .ip6, .icmpv6Type [134, 137]], .drop⟩,
    ⟨[.etherType .ip6, .ip6Saddr (0xfe80 * 2 ^ 112) 10], .accept⟩,
    ⟨[.etherType .ip6, .ip6Saddr 0 128], .accept⟩,
    ⟨[.etherType .ip6, .notIn .ip6Saddr "src6"], .drop⟩]

def guardTable (instances : List Port) : Table where
  sets := [⟨"src4", n.elems Port.addrs4 instances⟩, ⟨"src6", n.elems Port.addrs6 instances⟩]
  chains := [⟨"guard", "prerouting", .accept, n.guardRules⟩]

variable {n} {instances : List Port} {p : Port} {a : Nat}

theorem mem_elems {addrs : Port → List Nat} (hidx : (instances.map Port.idx).Nodup)
    (hp : p ∈ instances) : (n.hostIf p.idx, a) ∈ n.elems addrs instances ↔ a ∈ addrs p := by
  simp only [elems, List.mem_flatMap, List.mem_map, Prod.mk.injEq]
  constructor
  · rintro ⟨q, hq, b, hb, hif, rfl⟩
    cases List.inj_on_of_nodup_map hidx hq hp (n.hostIf_injective hif)
    exact hb
  · intro h
    exact ⟨p, hp, a, h, rfl, rfl⟩

theorem holds_first (sets : List AddrSet) (idx : Nat) (payload : Payload) :
    (Cond.iifnameNot (n.vethPrefix ++ "*")).holds sets ⟨n.hostIf idx, payload⟩ = false := by
  simp [ifnameHolds, hostIf]

theorem holds_src4 (hidx : (instances.map Port.idx).Nodup) (hp : p ∈ instances) {field : Field}
    {payload : Payload} (h : field.value payload = some a) :
    (Cond.notIn field "src4").holds (n.guardTable instances).sets ⟨n.hostIf p.idx, payload⟩ =
      decide (a ∉ p.addrs4) := by
  have hset : (n.guardTable instances).sets.find? (·.name = "src4") =
      some ⟨"src4", n.elems Port.addrs4 instances⟩ := rfl
  simp [Cond.holds_notIn hset h, mem_elems hidx hp]

theorem holds_src6 (hidx : (instances.map Port.idx).Nodup) (hp : p ∈ instances) {field : Field}
    {payload : Payload} (h : field.value payload = some a) :
    (Cond.notIn field "src6").holds (n.guardTable instances).sets ⟨n.hostIf p.idx, payload⟩ =
      decide (a ∉ p.addrs6) := by
  have hset : (n.guardTable instances).sets.find? (·.name = "src6") =
      some ⟨"src6", n.elems Port.addrs6 instances⟩ := rfl
  simp [Cond.holds_notIn hset h, mem_elems hidx hp]

theorem guardTable_verdict (hidx : (instances.map Port.idx).Nodup) (hp : p ∈ instances) {f : Frame}
    (hf : f.iifname = n.hostIf p.idx) :
    (n.guardTable instances).verdict "guard" f = some .drop ↔ p.Forged f.payload := by
  obtain ⟨iif, payload⟩ := f
  obtain rfl : iif = n.hostIf p.idx := hf
  have hchain : (n.guardTable instances).verdict "guard" ⟨n.hostIf p.idx, payload⟩ =
      some (verdictOf (n.guardTable instances).sets
        ⟨n.hostIf p.idx, payload⟩ .accept n.guardRules) :=
    rfl
  rw [hchain, guardRules, verdictOf_skip (holds_first _ _ _)]
  cases payload with
  | ip a =>
    rw [verdictOf_typed rfl, holds_src4 hidx hp rfl, verdictOf_skip rfl, verdictOf_skip rfl,
      verdictOf_skip rfl, verdictOf_skip rfl, verdictOf_skip rfl]
    simp [verdictOf, Port.Forged, Port.mem_addrs4]
  | arp a =>
    rw [verdictOf_skip rfl, verdictOf_typed rfl, holds_src4 hidx hp rfl, verdictOf_skip rfl,
      verdictOf_skip rfl, verdictOf_skip rfl, verdictOf_skip rfl]
    simp [verdictOf, Port.Forged, Port.mem_addrs4]
  | ip6 a type =>
    have hlocal : a / 2 ^ (128 - 10) = 0xfe80 * 2 ^ 112 / 2 ^ (128 - 10) ↔ LinkLocal a := by
      simp [LinkLocal]
    rw [verdictOf_skip rfl, verdictOf_skip rfl, verdictOf_typed rfl, verdictOf_typed rfl,
      verdictOf_typed rfl, verdictOf_typed rfl, holds_src6 hidx hp rfl, Cond.holds_icmpv6Type,
      Cond.holds_ip6Saddr, Cond.holds_ip6Saddr, Port.Forged]
    by_cases hra : type = some 134 ∨ type = some 137
    · rw [if_pos (by simpa using hra)]
      simp [hra, ← or_assoc]
    rw [if_neg (by simpa using hra), ← or_assoc, or_iff_right hra]
    by_cases hll : LinkLocal a
    · rw [if_pos (decide_eq_true (hlocal.mpr hll))]
      simp [hll]
    rw [if_neg fun h => hll (hlocal.mp (of_decide_eq_true h))]
    by_cases hzero : a = 0
    · simp [hzero]
    · simp [hzero, hll, verdictOf, Port.mem_addrs6]
  | other =>
    rw [verdictOf_skip rfl, verdictOf_skip rfl, verdictOf_skip rfl, verdictOf_skip rfl,
      verdictOf_skip rfl, verdictOf_skip rfl]
    simp [verdictOf, Port.Forged]

/-! ## The text says what the table says -/

variable {c : Char} {readAddr : String → Option Nat}

theorem nameChar (h : (c.isLower || c.isDigit || c == '_') = true) :
    48 ≤ c.toNat ∧ c.toNat ≤ 122 := by
  simp only [Bool.or_eq_true, Char.isLower, Char.isDigit, Bool.and_eq_true, decide_eq_true_eq,
    UInt32.le_iff_toNat_le, beq_iff_eq] at h
  rcases h with (h | h) | rfl
  · exact ⟨Nat.le_trans (by decide) h.1, h.2⟩
  · exact ⟨h.1, Nat.le_trans h.2 (by decide)⟩
  · decide

theorem Accepted.table_char (hn : n.Accepted) (hc : c ∈ n.table.toList) :
    48 ≤ c.toNat ∧ c.toNat ≤ 122 := by
  have htable := hn.table
  simp only [validTable, Bool.and_eq_true, List.all_eq_true] at htable
  exact nameChar (htable.2 c hc)

theorem Accepted.table_word (hn : n.Accepted) : IsWord n.table := by
  have htable := hn.table
  simp only [validTable, Bool.and_eq_true, Bool.not_eq_true'] at htable
  refine ⟨fun h => ?_, fun c hc => isWhitespace_of_range (hn.table_char hc)⟩
  rw [h] at htable
  cases htable.1

theorem Accepted.vethPrefix_char (hn : n.Accepted) (hc : c ∈ n.vethPrefix.toList) :
    48 ≤ c.toNat ∧ c.toNat ≤ 122 := by
  have hshort := hn.vethPrefix
  simp only [short, Bool.and_eq_true, List.all_eq_true] at hshort
  exact nameChar (by simp [hshort.2 c hc])

theorem Accepted.hostIf_char (hn : n.Accepted) {idx : Nat} (hc : c ∈ (n.hostIf idx).toList) :
    48 ≤ c.toNat ∧ c.toNat ≤ 122 := by
  rw [hostIf, String.toList_append, List.mem_append] at hc
  rcases hc with hc | hc
  · exact hn.vethPrefix_char hc
  · have hrepr : (toString idx).toList = Nat.toDigits 10 idx := by
      rw [Nat.toString_eq_repr, Nat.repr_eq_ofList_toDigits, String.toList_ofList]
    rw [hrepr] at hc
    have hdigit : c.isDigit = true := Nat.isDigit_of_mem_toDigits (by decide) (by decide) hc
    exact nameChar (by simp [hdigit])

theorem readAddr4_toText (ha : a < 2 ^ 32) : readAddr4 (IpAddr.v4 a).toText = some a := by
  have hread : readV4 (showV4 a) = some (a, []) := by simpa using readV4_show ha Ends.nil
  simp [readAddr4, IpAddr.toText, hread]

theorem readAddr6_toText (ha : a < 2 ^ 128) : readAddr6 (IpAddr.v6 a).toText = some a := by
  simp [readAddr6, IpAddr.toText, readV6_show ha]

theorem readable_toText (hn : n.Accepted) {idx : Nat} {x : IpAddr} (hempty : readAddr "" = none)
    (hread : readAddr x.toText = some a) : Readable readAddr (n.hostIf idx) x.toText a where
  blank c hc := isWhitespace_of_range (hn.hostIf_char hc)
  quote hc := by
    have hrange := hn.hostIf_char hc
    revert hrange
    decide
  word := by
    refine ⟨fun h => ?_, fun c hc => ipChar_not_whitespace (IpAddr.toText_chars hc)⟩
    rw [h, hempty] at hread
    cases hread
  comma hc := by
    have hchar := IpAddr.toText_chars hc
    revert hchar
    unfold ipChar
    decide
  value := hread

theorem oneLine_intercalate {items : List String} (h : ∀ s ∈ items, OneLine s) :
    OneLine (String.intercalate ", " items) := by
  induction items with
  | nil => intro c hc; cases hc
  | cons s items ih =>
    have hs := h s (.head _)
    have htail := ih fun s' hs' => h s' (.tail _ hs')
    cases items with
    | nil => simpa using hs
    | cons s' items =>
      rw [String.intercalate_cons_cons]
      exact (hs.append (.of_all rfl)).append htail

theorem oneLine_elements {items : List String} (h : ∀ s ∈ items, OneLine s) :
    OneLine (elements items) := by
  unfold elements
  split
  · rintro c ⟨⟩
  · exact (OneLine.append (.of_all rfl) (oneLine_intercalate h)).append (.of_all rfl)

theorem readSet_elements {head name : String}
    (hempty : readSet (wordsOf (head ++ " \x7d").toList) = some ⟨name, []⟩)
    (hopen : ∀ ws, readSet (wordsOf (head ++ " elements = \x7b").toList ++ ws) =
      (readElems readAddr ws).bind fun es => some ⟨name, es⟩) (text : Nat → String)
    {es : List (String × Nat)} (h : ∀ x ∈ es, Readable readAddr x.1 (text x.2) x.2) :
    readSet (wordsOf (head ++ elements (es.map fun x => elemText x.1 (text x.2)) ++
      " \x7d").toList) =
      some ⟨name, es⟩ := by
  cases es with
  | nil => simpa [elements] using hempty
  | cons e es =>
    have hlist : (head ++ elements ((e :: es).map fun x => elemText x.1 (text x.2)) ++
      " \x7d").toList =
        (head ++ " elements = \x7b").toList ++ ' ' :: ((String.intercalate ", "
          ((e :: es).map fun x => elemText x.1 (text x.2))).toList ++
            ' ' :: "\x7d; \x7d".toList) := by
      simp [elements]
    have hclose : wordsOf "\x7d; \x7d".toList = ["\x7d;", "\x7d"] := rfl
    rw [hlist, wordsOf_append, wordsOf_append, hopen, hclose, readElems_intercalate text e es h]
    rfl

theorem src4_eq : n.src4 instances =
    (n.elems Port.addrs4 instances).map fun x => elemText x.1 (IpAddr.v4 x.2).toText := by
  simp only [src4, elems, List.map_flatMap, List.map_map]
  rfl

theorem src6_eq : n.src6 instances =
    (n.elems Port.addrs6 instances).map fun x => elemText x.1 (IpAddr.v6 x.2).toText := by
  simp only [src6, elems, List.map_flatMap, List.map_map]
  rfl

theorem readable4 (hn : n.Accepted) (hvalid : ∀ p ∈ instances, p.Valid) :
    ∀ x ∈ n.elems Port.addrs4 instances, Readable readAddr4 x.1 (IpAddr.v4 x.2).toText x.2 := by
  intro x hx
  simp only [elems, List.mem_flatMap, List.mem_map] at hx
  obtain ⟨p, hp, a, ha, rfl⟩ := hx
  exact readable_toText hn rfl (readAddr4_toText (hvalid p hp _ (Port.mem_addrs4.mp ha)))

theorem readable6 (hn : n.Accepted) (hvalid : ∀ p ∈ instances, p.Valid) :
    ∀ x ∈ n.elems Port.addrs6 instances, Readable readAddr6 x.1 (IpAddr.v6 x.2).toText x.2 := by
  intro x hx
  simp only [elems, List.mem_flatMap, List.mem_map] at hx
  obtain ⟨p, hp, a, ha, rfl⟩ := hx
  exact readable_toText hn rfl (readAddr6_toText (hvalid p hp _ (Port.mem_addrs6.mp ha)))

theorem readSet_src4 (hn : n.Accepted) (hvalid : ∀ p ∈ instances, p.Valid) :
    readSet (wordsOf ("  set src4 \x7b type ifname . ipv4_addr;" ++ elements (n.src4 instances) ++
      " \x7d").toList) = some ⟨"src4", n.elems Port.addrs4 instances⟩ := by
  rw [src4_eq]
  exact readSet_elements rfl (fun _ => rfl) (fun a => (IpAddr.v4 a).toText) (readable4 hn hvalid)

theorem readSet_src6 (hn : n.Accepted) (hvalid : ∀ p ∈ instances, p.Valid) :
    readSet (wordsOf ("  set src6 \x7b type ifname . ipv6_addr;" ++ elements (n.src6 instances) ++
      " \x7d").toList) = some ⟨"src6", n.elems Port.addrs6 instances⟩ := by
  rw [src6_eq]
  exact readSet_elements rfl (fun _ => rfl) (fun a => (IpAddr.v6 a).toText) (readable6 hn hvalid)

theorem oneLine_elem {name addr : String} (h : Readable readAddr name addr a) :
    OneLine (elemText name addr) :=
  ((OneLine.append (.of_all rfl) (.of_blank h.blank)).append (.of_all rfl)).append
    (.of_blank h.word.2)

theorem oneLine_bridgeTable (hn : n.Accepted) (hvalid : ∀ p ∈ instances, p.Valid) :
    ∀ l ∈ n.dropTables ++ n.bridgeTable instances, OneLine l := by
  have htable : OneLine n.table := .of_blank hn.table_word.2
  have hveth : OneLine n.vethPrefix :=
    .of_blank fun c hc => isWhitespace_of_range (hn.vethPrefix_char hc)
  have hsrc4 : OneLine (elements (n.src4 instances)) := by
    refine oneLine_elements fun s hs => ?_
    rw [src4_eq] at hs
    obtain ⟨x, hx, rfl⟩ := List.mem_map.mp hs
    exact oneLine_elem (readable4 hn hvalid x hx)
  have hsrc6 : OneLine (elements (n.src6 instances)) := by
    refine oneLine_elements fun s hs => ?_
    rw [src6_eq] at hs
    obtain ⟨x, hx, rfl⟩ := List.mem_map.mp hs
    exact oneLine_elem (readable6 hn hvalid x hx)
  have hdrop : ∀ {verb family : String}, OneLine verb → OneLine family →
      OneLine (verb ++ family ++ " " ++ n.table) := fun hverb hfamily =>
    ((hverb.append hfamily).append (.of_all rfl)).append htable
  simp only [dropTables, bridgeTable, List.flatMap_cons, List.flatMap_nil, List.append_nil,
    List.cons_append, List.nil_append, List.forall_mem_cons]
  refine ⟨hdrop (.of_all rfl) (.of_all rfl), hdrop (.of_all rfl) (.of_all rfl),
    hdrop (.of_all rfl) (.of_all rfl), hdrop (.of_all rfl) (.of_all rfl),
    (OneLine.append (.of_all rfl) htable).append (.of_all rfl),
    (OneLine.append (.of_all rfl) hsrc4).append (.of_all rfl),
    (OneLine.append (.of_all rfl) hsrc6).append (.of_all rfl),
    .of_all rfl, .of_all rfl, (OneLine.append (.of_all rfl) hveth).append (.of_all rfl),
    .of_all rfl, .of_all rfl, .of_all rfl, .of_all rfl, .of_all rfl, .of_all rfl, .of_all rfl,
    .of_all rfl, ?_⟩
  rintro l ⟨⟩

theorem wordsOf_table (hn : n.Accepted) (head : String) :
    wordsOf (head ++ " " ++ n.table).toList = wordsOf head.toList ++ [n.table] := by
  have hlist : (head ++ " " ++ n.table).toList = head.toList ++ ' ' :: n.table.toList := by simp
  rw [hlist, wordsOf_append, hn.table_word.wordsOf]

theorem wordsOf_open (hn : n.Accepted) :
    wordsOf ("table bridge " ++ n.table ++ " \x7b").toList =
      ["table", "bridge", n.table, "\x7b"] := by
  have hlist : ("table bridge " ++ n.table ++ " \x7b").toList =
      ("table bridge" ++ " " ++ n.table).toList ++ ' ' :: "\x7b".toList := by simp
  rw [hlist, wordsOf_append, wordsOf_table hn]
  rfl

theorem readRule_first (hn : n.Accepted) {ws : List String}
    (hws : wordsOf ("    iifname != \"" ++ n.vethPrefix ++ "*\" accept").toList = ws) :
    readRule ws.length ws = some ⟨[.iifnameNot (n.vethPrefix ++ "*")], .accept⟩ := by
  have hblank : ∀ c ∈ n.vethPrefix.toList, isWhitespace c = false :=
    fun c hc => isWhitespace_of_range (hn.vethPrefix_char hc)
  have hpattern : ∀ c ∈ (n.vethPrefix ++ "*").toList, isWhitespace c = false ∧ c ≠ '\x22' := by
    intro c hc
    rw [String.toList_append, List.mem_append] at hc
    rcases hc with hc | hc
    · refine ⟨hblank c hc, ?_⟩
      rintro rfl
      have hrange := hn.vethPrefix_char hc
      revert hrange
      decide
    · rw [List.mem_singleton.mp hc]
      decide
  have hquote : IsWord "\"" := ⟨by decide, .of_all rfl⟩
  have hword : IsWord ("\"" ++ (n.vethPrefix ++ "*") ++ "\"") :=
    (hquote.append fun c hc => (hpattern c hc).1).append (.of_all rfl)
  have hlist : ("    iifname != \"" ++ n.vethPrefix ++ "*\" accept").toList =
      "    iifname !=".toList ++ ' ' ::
        (("\"" ++ (n.vethPrefix ++ "*") ++ "\"").toList ++ ' ' :: "accept".toList) := by simp
  have hunquote : unquote ("\"" ++ (n.vethPrefix ++ "*") ++ "\"") = some (n.vethPrefix ++ "*") :=
    unquote_quoted fun hc => (hpattern _ hc).2 rfl
  have hopen : wordsOf "    iifname !=".toList = ["iifname", "!="] := rfl
  have hverdict : wordsOf "accept".toList = ["accept"] := rfl
  rw [hlist, wordsOf_append, wordsOf_append, hword.wordsOf, hopen, hverdict] at hws
  subst hws
  simp [readRule, readCond, hunquote, readVerdict]

theorem read_ruleset (hn : n.Accepted) (hvalid : ∀ p ∈ instances, p.Valid)
    (forwards : List Forward) :
    Nft.read "bridge" n.table (n.ruleset instances forwards) = some (n.guardTable instances) := by
  have hlist : (n.ruleset instances forwards).toList =
      (unlines (n.dropTables ++ n.bridgeTable instances)).toList ++
        (unlines (n.inetTable forwards)).toList := by
    simp [ruleset, unlines]
  have hskip : ∀ (head : String) (w : String) (ws : List String) (ls : List (List String)),
      wordsOf head.toList = w :: ws → w ≠ "table" →
      readTable "bridge" n.table (wordsOf (head ++ " " ++ n.table).toList :: ls) =
        readTable "bridge" n.table ls := by
    intro head w ws ls hw hne
    rw [readTable, wordsOf_table hn, hw, List.cons_append, if_neg fun h => hne (List.cons.inj h).1]
  rw [Nft.read, hlist, lines_unlines (oneLine_bridgeTable hn hvalid)]
  simp only [dropTables, bridgeTable, List.flatMap_cons, List.flatMap_nil, List.append_nil,
    List.cons_append, List.nil_append, List.map_cons, List.map_nil]
  -- the old tables are removed
  rw [hskip _ _ _ _ rfl (by decide), hskip _ _ _ _ rfl (by decide), hskip _ _ _ _ rfl (by decide),
    hskip _ _ _ _ rfl (by decide), readTable, wordsOf_open hn, if_pos rfl,
    readItems_set (readSet_src4 hn hvalid), readItems_set (readSet_src6 hn hvalid)]
  have hchain : ∀ t ls, readItems t none (wordsOf "  chain guard \x7b".toList ::
      wordsOf "    type filter hook prerouting priority -200; policy accept;".toList :: ls) =
      readItems t (some ⟨"guard", "prerouting", .accept, []⟩) ls := fun _ _ => rfl
  rw [hchain, readItems_rule (readRule_first hn rfl)]
  rfl

end Net

/-- For every accepted configuration and every list of ports with different indexes, the chain of
the generated text drops a frame that enters on the interface of a port exactly if the frame is
forged. -/
theorem guard_exact {c : NetworkConfig} {n : Net} (hc : Net.fromConfig c = .ok n)
    {ports : List Port} (hidx : (ports.map Port.idx).Nodup) (hvalid : ∀ p ∈ ports, p.Valid)
    (forwards : List Forward) {p : Port} (hp : p ∈ ports) {f : Frame}
    (hf : f.iifname = n.hostIf p.idx) :
    ∃ t, Nft.read "bridge" n.table (n.ruleset ports forwards) = some t ∧
      (t.verdict "guard" f = some .drop ↔ p.Forged f.payload) :=
  ⟨n.guardTable ports, Net.read_ruleset (Net.fromConfig_accepted hc) hvalid forwards,
    Net.guardTable_verdict hidx hp hf⟩

/-- Two ports of the default network, the first one with a dedicated address. -/
def twoPorts : List Port :=
  [⟨0, ⟨0x0a5b0002, none⟩, [.v4 0xcb007109]⟩, ⟨1, ⟨0x0a5b0003, none⟩, []⟩]

/-- The second port may not use the dedicated address of the first one. -/
theorem guard_exact_other : ∃ n t, Net.fromConfig {} = .ok n ∧
    Nft.read "bridge" "runman" (n.ruleset twoPorts []) = some t ∧
    t.verdict "guard" ⟨"rv1", .ip 0xcb007109⟩ = some .drop := by
  have hvalid : ∀ p ∈ twoPorts, p.Valid := by
    simp only [twoPorts, List.forall_mem_cons]
    refine ⟨?_, ?_, nofun⟩
    · rintro a (rfl | h | h)
      · exact (by decide : 0x0a5b0002 < 2 ^ 32)
      · cases h
      · rw [List.mem_singleton.mp h]
        exact (by decide : 0xcb007109 < 2 ^ 32)
    · rintro a (rfl | h | h)
      · exact (by decide : 0x0a5b0003 < 2 ^ 32)
      · cases h
      · cases h
  obtain ⟨n, hn⟩ : ∃ n, Net.fromConfig {} = .ok n := ⟨_, rfl⟩
  cases hn
  obtain ⟨t, hread, hiff⟩ :=
    guard_exact (c := {}) rfl (by decide) hvalid [] (p := ⟨1, ⟨0x0a5b0003, none⟩, []⟩)
    (by simp [twoPorts]) (f := ⟨"rv1", .ip 0xcb007109⟩) rfl
  refine ⟨_, t, rfl, hread, hiff.mpr ?_⟩
  simp [Port.Forged, Port.Owns]

end RunmanAgent
