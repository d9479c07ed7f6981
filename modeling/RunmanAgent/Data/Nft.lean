import RunmanAgent.Data.IpText

/-!
# A part of the nftables language

Tables with sets of interface names and addresses, and with chains of rules that accept or
drop a frame. `read` finds a table in the text of a ruleset, and `Table.verdict` says what a
chain does with a frame: the first rule all of whose conditions hold decides, and the policy
of the chain if there is none.
-/

namespace RunmanAgent.Nft

open Text

/-! ## Frames, rules and their meaning -/

inductive Payload where
  | ip (saddr : Nat)
  | arp (saddrIp : Nat)
  | ip6 (saddr : Nat) (icmpv6Type : Option Nat)
  | other
  deriving DecidableEq

/-- A frame that enters on the interface `iifname`. -/
structure Frame where
  iifname : String
  payload : Payload
  deriving DecidableEq

inductive EtherType where
  | ip
  | arp
  | ip6
  deriving DecidableEq

def EtherType.holds : EtherType → Payload → Bool
  | ip, .ip _ => true
  | arp, .arp _ => true
  | ip6, .ip6 _ _ => true
  | _, _ => false

/-- Fields that have an address. -/
inductive Field where
  | ipSaddr
  | arpSaddrIp
  | ip6Saddr
  deriving DecidableEq

/-- The address, if the frame has the field. -/
def Field.value : Field → Payload → Option Nat
  | ipSaddr, .ip a => some a
  | arpSaddrIp, .arp a => some a
  | ip6Saddr, .ip6 a _ => some a
  | _, _ => none

/-- A set of interface names and addresses. -/
structure AddrSet where
  name : String
  elems : List (String × Nat)
  deriving DecidableEq

/-- `pattern*` stands for every name that starts with `pattern`. -/
def ifnameHolds (pattern name : String) : Bool :=
  if pattern.toList.getLast? = some '*' then pattern.toList.dropLast.isPrefixOf name.toList
  else pattern == name

inductive Cond where
  /-- `iifname != "pattern"`. -/
  | iifnameNot (pattern : String)
  | etherType (type : EtherType)
  /-- `iifname . field != @set`. -/
  | notIn (field : Field) (set : String)
  | icmpv6Type (types : List Nat)
  | ip6Saddr (addr len : Nat)
  deriving DecidableEq

def Cond.holds (sets : List AddrSet) (f : Frame) : Cond → Bool
  | iifnameNot pattern => !ifnameHolds pattern f.iifname
  | etherType type => type.holds f.payload
  | notIn field set =>
    match field.value f.payload, sets.find? (·.name = set) with
    | some a, some s => decide ((f.iifname, a) ∉ s.elems)
    | _, _ => false
  | icmpv6Type types =>
    match f.payload with
    | .ip6 _ (some t) => decide (t ∈ types)
    | _ => false
  | ip6Saddr addr len =>
    match f.payload with
    | .ip6 a _ => a / 2 ^ (128 - len) == addr / 2 ^ (128 - len)
    | _ => false

inductive Verdict where
  | accept
  | drop
  deriving DecidableEq

structure Rule where
  conds : List Cond
  verdict : Verdict
  deriving DecidableEq

structure Chain where
  name : String
  hook : String
  policy : Verdict
  rules : List Rule := []
  deriving DecidableEq

structure Table where
  sets : List AddrSet := []
  chains : List Chain := []
  deriving DecidableEq

def verdictOf (sets : List AddrSet) (f : Frame) (policy : Verdict) : List Rule → Verdict
  | [] => policy
  | r :: rules => if r.conds.all (·.holds sets f) then r.verdict else verdictOf sets f policy rules

def Table.verdict (t : Table) (chain : String) (f : Frame) : Option Verdict :=
  (t.chains.find? (·.name = chain)).map fun c => verdictOf t.sets f c.policy c.rules

section

variable {sets : List AddrSet} {f : Frame}

@[simp] theorem Cond.holds_iifnameNot {pattern : String} :
    (iifnameNot pattern).holds sets f = !ifnameHolds pattern f.iifname := rfl

@[simp] theorem Cond.holds_etherType {type : EtherType} :
    (etherType type).holds sets f = type.holds f.payload := rfl

theorem Cond.holds_notIn {field : Field} {set iif : String} {payload : Payload} {s : AddrSet}
    {a : Nat} (hset : sets.find? (·.name = set) = some s) (hvalue : field.value payload = some a) :
    (notIn field set).holds sets ⟨iif, payload⟩ = decide ((iif, a) ∉ s.elems) := by
  simp [holds, hset, hvalue]

@[simp] theorem Cond.holds_icmpv6Type {types : List Nat} {iif : String} {a : Nat}
    {type : Option Nat} :
    (icmpv6Type types).holds sets ⟨iif, .ip6 a type⟩ = decide (∃ t ∈ types, type = some t) := by
  cases type <;> simp [holds]

@[simp] theorem Cond.holds_ip6Saddr {addr len a : Nat} {iif : String} {type : Option Nat} :
    (ip6Saddr addr len).holds sets ⟨iif, .ip6 a type⟩ =
      decide (a / 2 ^ (128 - len) = addr / 2 ^ (128 - len)) := rfl

variable {policy v : Verdict} {conds : List Cond} {c : Cond} {type : EtherType} {rules : List Rule}

theorem verdictOf_skip (h : c.holds sets f = false) :
    verdictOf sets f policy (⟨c :: conds, v⟩ :: rules) = verdictOf sets f policy rules := by
  simp [verdictOf, h]

theorem verdictOf_typed (h : type.holds f.payload = true) :
    verdictOf sets f policy (⟨[.etherType type, c], v⟩ :: rules) =
      if c.holds sets f then v else verdictOf sets f policy rules := by
  simp [verdictOf, h]

end

/-! ## Reading -/

def unquote (w : String) : Option String :=
  match w.toList with
  | '\x22' :: s =>
    if s.getLast? = some '\x22' ∧ '\x22' ∉ s.dropLast then some (String.ofList s.dropLast)
    else none
  | _ => none

/-- The text before a comma at the end. -/
def stripComma (w : String) : Option String :=
  if w.toList.getLast? = some ',' then some (String.ofList w.toList.dropLast) else none

def readAddr4 (w : String) : Option Nat :=
  match readV4 w.toList with
  | some (a, []) => some a
  | _ => none

def readAddr6 (w : String) : Option Nat :=
  match readV6 w.toList with
  | some (a, []) => some a
  | _ => none

/-- `::1` or `fe80::/10`. -/
def readPrefix6 (w : String) : Option (Nat × Nat) :=
  match splitOnce '/' w.toList with
  | none => do
    let a ← readAddr6 w
    some (a, 128)
  | some (a, l) => do
    let a ← readAddr6 (String.ofList a)
    let l ← parseUnsigned 129 l
    some (a, l)

def readAddrType : String → Option (String → Option Nat)
  | "ipv4_addr;" => some readAddr4
  | "ipv6_addr;" => some readAddr6
  | _ => none

/-- Elements up to the end of the set. -/
def readElems (readAddr : String → Option Nat) : List String → Option (List (String × Nat))
  | name :: "." :: addr :: rest => do
    let name ← unquote name
    match stripComma addr with
    | some addr =>
      let a ← readAddr addr
      let es ← readElems readAddr rest
      some ((name, a) :: es)
    | none =>
      let a ← readAddr addr
      if rest = ["\x7d;", "\x7d"] then some [(name, a)] else none
  | _ => none

def readSet : List String → Option AddrSet
  | "set" :: name :: "\x7b" :: "type" :: "ifname" :: "." :: type :: rest => do
    let readAddr ← readAddrType type
    match rest with
    | ["\x7d"] => some ⟨name, []⟩
    | "elements" :: "=" :: "\x7b" :: rest =>
      let es ← readElems readAddr rest
      some ⟨name, es⟩
    | _ => none
  | _ => none

def readIcmpv6Type : String → Option Nat
  | "nd-router-solicit" => some 133
  | "nd-router-advert" => some 134
  | "nd-neighbor-solicit" => some 135
  | "nd-neighbor-advert" => some 136
  | "nd-redirect" => some 137
  | _ => none

/-- Types up to the closing brace. -/
def readIcmpv6Types : List String → Option (List Nat × List String)
  | w :: "\x7d" :: rest => do
    let t ← readIcmpv6Type w
    some ([t], rest)
  | w :: rest => do
    let w ← stripComma w
    let t ← readIcmpv6Type w
    let (ts, rest) ← readIcmpv6Types rest
    some (t :: ts, rest)
  | [] => none

def readEtherType : String → Option EtherType
  | "ip" => some .ip
  | "arp" => some .arp
  | "ip6" => some .ip6
  | _ => none

/-- The name of a set after `@`. -/
def readSetName (w : String) : Option String :=
  match w.toList with
  | '@' :: s => some (String.ofList s)
  | _ => none

def readNotIn (field : Field) (w : String) (rest : List String) : Option (Cond × List String) := do
  let set ← readSetName w
  some (.notIn field set, rest)

def readCond : List String → Option (Cond × List String)
  | "iifname" :: "!=" :: w :: rest => do
    let pattern ← unquote w
    some (.iifnameNot pattern, rest)
  | "iifname" :: "." :: "ip" :: "saddr" :: "!=" :: w :: rest => readNotIn .ipSaddr w rest
  | "iifname" :: "." :: "arp" :: "saddr" :: "ip" :: "!=" :: w :: rest =>
    readNotIn .arpSaddrIp w rest
  | "iifname" :: "." :: "ip6" :: "saddr" :: "!=" :: w :: rest => readNotIn .ip6Saddr w rest
  | "ether" :: "type" :: w :: rest => do
    let type ← readEtherType w
    some (.etherType type, rest)
  | "icmpv6" :: "type" :: "\x7b" :: rest => do
    let (types, rest) ← readIcmpv6Types rest
    some (.icmpv6Type types, rest)
  | "ip6" :: "saddr" :: w :: rest => do
    let (a, l) ← readPrefix6 w
    some (.ip6Saddr a l, rest)
  | _ => none

def readVerdict : String → Option Verdict
  | "accept" => some .accept
  | "drop" => some .drop
  | _ => none

/-- At most `n` conditions, and the verdict. -/
def readRule : (n : Nat) → List String → Option Rule
  | _, [w] => do
    let v ← readVerdict w
    some ⟨[], v⟩
  | n + 1, ws => do
    let (c, rest) ← readCond ws
    let r ← readRule n rest
    some { r with conds := c :: r.conds }
  | 0, _ => none

/-- `type filter hook <hook> priority <priority>; policy <policy>;` -/
def readHeader (name : String) : List String → Option Chain
  | ["type", "filter", "hook", hook, "priority", _, "policy", "accept;"] =>
    some ⟨name, hook, .accept, []⟩
  | ["type", "filter", "hook", hook, "priority", _, "policy", "drop;"] =>
    some ⟨name, hook, .drop, []⟩
  | _ => none

/-- The lines of a table up to the closing brace, some of them in an open chain. -/
def readItems (t : Table) : Option Chain → List (List String) → Option Table
  | none, ["\x7d"] :: _ => some t
  | none, ["chain", name, "\x7b"] :: header :: ls => do
    let c ← readHeader name header
    readItems t (some c) ls
  | none, ws :: ls => do
    let s ← readSet ws
    readItems { t with sets := t.sets ++ [s] } none ls
  | some c, ["\x7d"] :: ls => readItems { t with chains := t.chains ++ [c] } none ls
  | some c, ws :: ls => do
    let r ← readRule ws.length ws
    readItems t (some { c with rules := c.rules ++ [r] }) ls
  | _, [] => none

def readTable (family name : String) : List (List String) → Option Table
  | [] => none
  | ws :: ls =>
    if ws = ["table", family, name, "\x7b"] then readItems {} none ls
    else readTable family name ls

def wordsOf (l : List Char) : List String := (words l).map String.ofList

/-- The table of this family and name in the text of a ruleset. -/
def read (family name text : String) : Option Table :=
  readTable family name ((lines text.toList).map wordsOf)

/-! ## Reading what has been written -/

/-- A text without blanks. -/
def NoBlank (w : String) : Prop := ∀ c ∈ w.toList, isWhitespace c = false

theorem NoBlank.of_all {s : List Char} (h : s.all (fun c => !isWhitespace c) = true) :
    NoBlank (String.ofList s) := by
  intro c hc
  rw [String.toList_ofList] at hc
  simpa using List.all_eq_true.mp h c hc

/-- A text that is one word. -/
def IsWord (w : String) : Prop := w ≠ "" ∧ NoBlank w

theorem wordsOf_append (a b : List Char) : wordsOf (a ++ ' ' :: b) = wordsOf a ++ wordsOf b := by
  simp [wordsOf, words_append (c := ' ') rfl]

theorem IsWord.wordsOf {w : String} (h : IsWord w) : wordsOf w.toList = [w] := by
  have hne : w.toList ≠ [] := fun h' => h.1 (String.toList_eq_nil_iff.mp h')
  simp [Nft.wordsOf, words_of_forall hne h.2]

theorem IsWord.append {v w : String} (hv : IsWord v) (hw : NoBlank w) : IsWord (v ++ w) := by
  constructor
  · intro h
    exact hv.1 (String.append_eq_empty_iff.mp h).1
  · intro c hc
    rw [String.toList_append, List.mem_append] at hc
    exact hc.elim (hv.2 c) (hw c)

theorem unquote_quoted {name : String} (h : '\x22' ∉ name.toList) :
    unquote ("\"" ++ name ++ "\"") = some name := by
  have hlist : ("\"" ++ name ++ "\"").toList = '\x22' :: (name.toList ++ ['\x22']) := by simp
  simp [unquote, hlist, h]

theorem stripComma_append (w : String) : stripComma (w ++ ",") = some w := by
  simp [stripComma]

/-- An element of a set: its words are the quoted name, a dot and the address. -/
def elemText (name addr : String) : String := "\"" ++ name ++ "\" . " ++ addr

/-- The name and the address of an element can be read. -/
structure Readable (readAddr : String → Option Nat) (name addr : String) (a : Nat) : Prop where
  blank : NoBlank name
  quote : '\x22' ∉ name.toList
  word : IsWord addr
  comma : ',' ∉ addr.toList
  value : readAddr addr = some a

section

variable {readAddr : String → Option Nat} {name addr : String} {a : Nat}

theorem Readable.wordsOf (h : Readable readAddr name addr a) {t : String} (ht : NoBlank t) :
    wordsOf (elemText name addr ++ t).toList = ["\"" ++ name ++ "\"", ".", addr ++ t] := by
  have hquoted : IsWord ("\"" ++ name ++ "\"") := by
    have hquote : IsWord "\"" := ⟨by decide, .of_all rfl⟩
    exact (hquote.append h.blank).append (.of_all rfl)
  have hdot : IsWord "." := ⟨by decide, .of_all rfl⟩
  have hlist : (elemText name addr ++ t).toList =
      ("\"" ++ name ++ "\"").toList ++ ' ' :: (".".toList ++ ' ' :: (addr ++ t).toList) := by
    simp [elemText]
  rw [hlist, wordsOf_append, wordsOf_append, hquoted.wordsOf, hdot.wordsOf,
    (h.word.append ht).wordsOf]
  rfl

theorem Readable.stripComma (h : Readable readAddr name addr a) : stripComma addr = none := by
  have hlast : addr.toList.getLast? ≠ some ',' := fun hc => h.comma (List.mem_of_getLast? hc)
  simp [Nft.stripComma, hlast]

theorem readElems_cons (h : Readable readAddr name addr a) (rest : List String) :
    readElems readAddr (wordsOf (elemText name addr ++ ",").toList ++ rest) =
      (readElems readAddr rest).map ((name, a) :: ·) := by
  rw [h.wordsOf (t := ",") (.of_all rfl)]
  simp only [List.cons_append, List.nil_append, readElems, unquote_quoted h.quote,
    stripComma_append, h.value]
  cases readElems readAddr rest <;> rfl

theorem readElems_last (h : Readable readAddr name addr a) :
    readElems readAddr (wordsOf (elemText name addr).toList ++ ["\x7d;", "\x7d"]) =
      some [(name, a)] := by
  have hwords := h.wordsOf (t := "") (.of_all rfl)
  rw [String.append_empty, String.append_empty] at hwords
  rw [hwords]
  simp [readElems, unquote_quoted h.quote, h.stripComma, h.value]

theorem readElems_intercalate (text : Nat → String) (e : String × Nat) (es : List (String × Nat))
    (h : ∀ x ∈ e :: es, Readable readAddr x.1 (text x.2) x.2) :
    readElems readAddr (wordsOf (String.intercalate ", "
      ((e :: es).map fun x => elemText x.1 (text x.2))).toList ++ ["\x7d;", "\x7d"]) =
      some (e :: es) := by
  induction es generalizing e with
  | nil => simpa using readElems_last (h e (.head _))
  | cons e' es ih =>
    have hlist : (String.intercalate ", "
      ((e :: e' :: es).map fun x => elemText x.1 (text x.2))).toList =
        (elemText e.1 (text e.2) ++ ",").toList ++ ' ' ::
          (String.intercalate ", " ((e' :: es).map fun x => elemText x.1 (text x.2))).toList := by
      simp [String.intercalate_cons_cons]
    rw [hlist, wordsOf_append, List.append_assoc, readElems_cons (h e (.head _)),
      ih e' fun x hx => h x (.tail _ hx)]
    rfl

end

section

variable {t : Table} {c : Chain} {ws : List String} {ls : List (List String)}

theorem readItems_set {s : AddrSet} (h : readSet ws = some s) :
    readItems t none (ws :: ls) = readItems { t with sets := t.sets ++ [s] } none ls := by
  rw [readItems.eq_3, h]
  · rfl
  · rintro rfl
    cases h
  · rintro name header ls' rfl
    cases h

theorem readItems_rule {r : Rule} (h : readRule ws.length ws = some r) :
    readItems t (some c) (ws :: ls) = readItems t (some { c with rules := c.rules ++ [r] }) ls := by
  rw [readItems.eq_5, h]
  · rfl
  · rintro rfl
    cases h

end

end RunmanAgent.Nft
