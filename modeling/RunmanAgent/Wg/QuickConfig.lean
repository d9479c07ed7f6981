import RunmanAgent.Data.Result
import RunmanAgent.Wg.Binding

/-!
# Tunnel configurations of the panel (`parse_wg_quick` of `src/local_wg.rs`)

A configuration has an `[Interface]` and one `[Peer]` section. The settings of all sections go
into one table, and a second `[Peer]` header is refused when the table has the public key of a
peer: a peer without one is not noticed, and its other settings are then read as those of the
next peer (`onePeer_iff`).
-/

namespace RunmanAgent.Wg

open Text

structure LocalBinding where
  resourceId : String
  vmId : String
  address : String
  endpoint : String
  privateKey : String
  peerPublicKey : String
  presharedKey : String
  allowedIps : List String
  keepaliveSec : Int
  deriving DecidableEq

/-! ## Lines -/

inductive Sect where
  | top
  | interface
  | peer
  deriving DecidableEq

/-- A line that is neither blank nor a comment. -/
inductive Line where
  | header (s : Sect)
  | setting (key value : String)
  deriving DecidableEq

def eqIgnoreAsciiCase (a b : List Char) : Bool := a.map Char.toLower == b.map Char.toLower

def Line.read (line : List Char) : Except String Line :=
  if line.head? = some '[' then
    if eqIgnoreAsciiCase line "[interface]".toList then .ok (.header .interface)
    else if eqIgnoreAsciiCase line "[peer]".toList then .ok (.header .peer)
    else .error ("unknown section " ++ String.ofList line)
  else
    match splitOnce '=' line with
    | none => .error ("not a key = value line: " ++ String.ofList line)
    | some (k, v) => .ok (.setting (String.ofList (trim k)) (String.ofList (trim v)))

def configLines (text : String) : List (List Char) :=
  ((lines text.toList).map trim).filter fun l => l ≠ [] ∧ l.head? ≠ some '#'

/-! ## The table of settings -/

/-- A setting with the kind of its section. -/
abbrev Entry := Sect × String × String

/-- The settings so far, the newest one first. -/
abbrev Table := List Entry

def Table.get (t : Table) (s : Sect) (key : String) : Option String :=
  (t.find? fun e => e.1 = s ∧ e.2.1 = key).map fun e => e.2.2

def Table.field (t : Table) (s : Sect) (key : String) : String := (t.get s key).getD ""

def Table.addLine (st : Sect × Table) : Line → Except String (Sect × Table)
  | .header .peer =>
    if (st.2.get .peer "PublicKey").isSome then .error "only one [Peer] is supported"
    else .ok (.peer, st.2)
  | .header s => .ok (s, st.2)
  | .setting k v => .ok (st.1, (st.1, k, v) :: st.2)

def readLine (st : Sect × Table) (line : List Char) : Except String (Sect × Table) := do
  Table.addLine st (← Line.read line)

/-! ## The binding -/

/-- The text before the first `c`. -/
def before (c : Char) (s : List Char) : List Char := ((splitOnce c s).map Prod.fst).getD s

def commaItems (s : String) : List (List Char) :=
  ((s.toList.splitOn ',').map trim).filter (· ≠ [])

def requireAddress (address : List Char) : Except String Unit :=
  if IpAddr.parse (String.ofList (before '/' address)) = none then
    throw ("[Interface] Address " ++ debugStr (String.ofList address) ++
      " is not an IP address: invalid IP address syntax")
  else pure ()

def requireKey (what key : String) (required : Bool) : Except String Unit :=
  if (required ∨ key ≠ "") ∧ isWgKey key = false then
    throw (what ++ " is missing or not a WireGuard key")
  else pure ()

def requireEndpoint (endpoint : String) : Except String Unit :=
  match rsplitOnce ':' endpoint.toList with
  | some (host, port) =>
    if host ≠ [] ∧ (parseUnsigned (2 ^ 16) port).isSome then pure ()
    else throw "[Peer] Endpoint must be host:port"
  | none => throw "[Peer] Endpoint must be host:port"

/-- The address of the tunnel, with its prefix length. -/
def Table.address (t : Table) : List Char :=
  trim (before ',' (t.field .interface "Address").toList)

/-- `uuid` is the fresh id. -/
def Table.build (t : Table) (vmId : VmId) (uuid : String) : LocalBinding where
  resourceId := "local-" ++ uuid
  vmId := vmId.asStr
  address := String.ofList t.address
  endpoint := t.field .peer "Endpoint"
  privateKey := t.field .interface "PrivateKey"
  peerPublicKey := t.field .peer "PublicKey"
  presharedKey := t.field .peer "PresharedKey"
  allowedIps := (commaItems (t.field .peer "AllowedIPs")).map String.ofList
  keepaliveSec := (parseI32 (t.field .peer "PersistentKeepalive").toList).getD 25

/-- What follows the loop over the lines. -/
def Table.binding (t : Table) (vmId : VmId) (uuid : String) : Except String LocalBinding := do
  requireAddress t.address
  requireKey "[Interface] PrivateKey" (t.field .interface "PrivateKey") true
  requireKey "[Peer] PublicKey" (t.field .peer "PublicKey") true
  requireKey "[Peer] PresharedKey" (t.field .peer "PresharedKey") false
  requireEndpoint (t.field .peer "Endpoint")
  pure (t.build vmId uuid)

def parseWgQuick (text : String) (vmId : VmId) (uuid : String) : Except String LocalBinding := do
  let st ← (configLines text).foldlM readLine (.top, [])
  st.2.binding vmId uuid

/-! ## What the binding is built from -/

/-- The settings are those of a tunnel. -/
structure Table.Accepts (t : Table) : Prop where
  address : (IpAddr.parse (String.ofList (before '/' t.address))).isSome = true
  privateKey : isWgKey (t.field .interface "PrivateKey") = true
  publicKey : isWgKey (t.field .peer "PublicKey") = true
  presharedKey : t.field .peer "PresharedKey" = "" ∨ isWgKey (t.field .peer "PresharedKey") = true
  endpoint : ∃ host port, rsplitOnce ':' (t.field .peer "Endpoint").toList = some (host, port) ∧
    host ≠ [] ∧ (parseUnsigned (2 ^ 16) port).isSome = true

theorem requireKey_eq_ok {what key : String} {required : Bool} {u : Unit} :
    requireKey what key required = .ok u ↔ (required = false ∧ key = "") ∨ isWgKey key = true := by
  unfold requireKey
  rw [throw_unless_eq_ok]
  cases isWgKey key <;> cases required <;> simp

theorem requireEndpoint_eq_ok {endpoint : String} {u : Unit} :
    requireEndpoint endpoint = .ok u ↔
      ∃ host port, rsplitOnce ':' endpoint.toList = some (host, port) ∧ host ≠ [] ∧
        (parseUnsigned (2 ^ 16) port).isSome = true := by
  unfold requireEndpoint
  cases rsplitOnce ':' endpoint.toList with
  | none =>
    constructor
    · rintro ⟨⟩
    · rintro ⟨_, _, h, -⟩
      cases h
  | some parts =>
    dsimp only
    constructor
    · intro h
      split at h
      · exact ⟨parts.1, parts.2, rfl, ‹_›⟩
      · cases h
    · rintro ⟨_, _, ⟨⟩, h⟩
      rw [if_pos h]
      rfl

variable {t : Table} {vmId : VmId} {uuid : String} {s s' : Sect} {v : String} {ls : List Line}

theorem binding_eq_ok {b : LocalBinding} :
    t.binding vmId uuid = .ok b ↔ t.Accepts ∧ b = t.build vmId uuid := by
  unfold Table.binding
  constructor
  · intro h
    obtain ⟨_, haddress, h⟩ := bind_eq_ok.mp h
    obtain ⟨_, hprivate, h⟩ := bind_eq_ok.mp h
    obtain ⟨_, hpublic, h⟩ := bind_eq_ok.mp h
    obtain ⟨_, hpreshared, h⟩ := bind_eq_ok.mp h
    obtain ⟨_, hendpoint, h⟩ := bind_eq_ok.mp h
    cases h
    refine ⟨⟨?_, ?_, ?_, ?_, requireEndpoint_eq_ok.mp hendpoint⟩, rfl⟩
    · exact Option.isSome_iff_ne_none.mpr (throw_unless_eq_ok.mp haddress)
    · exact (requireKey_eq_ok.mp hprivate).resolve_left fun h => (by cases h.1)
    · exact (requireKey_eq_ok.mp hpublic).resolve_left fun h => (by cases h.1)
    · exact (requireKey_eq_ok.mp hpreshared).imp_left And.right
  · rintro ⟨h, rfl⟩
    have haddress := Option.isSome_iff_ne_none.mp h.address
    refine bind_eq_ok.mpr ⟨(), throw_unless_eq_ok.mpr haddress, ?_⟩
    refine bind_eq_ok.mpr ⟨(), requireKey_eq_ok.mpr (.inr h.privateKey), ?_⟩
    refine bind_eq_ok.mpr ⟨(), requireKey_eq_ok.mpr (.inr h.publicKey), ?_⟩
    refine bind_eq_ok.mpr ⟨(), requireKey_eq_ok.mpr (h.presharedKey.imp_left fun h => ⟨rfl, h⟩), ?_⟩
    exact bind_eq_ok.mpr ⟨(), requireEndpoint_eq_ok.mpr h.endpoint, rfl⟩

/-! ## Sections -/

/-- A setting of a section. -/
abbrev Setting := String × String

/-- The settings before the first header, and the sections with their settings. -/
def sections : List Line → List Setting × List (Sect × List Setting)
  | [] => ([], [])
  | .header s :: ls => ([], (s, (sections ls).1) :: (sections ls).2)
  | .setting k v :: ls => ((k, v) :: (sections ls).1, (sections ls).2)

/-- The `[Peer]` sections. -/
def peers (ls : List Line) : List (List Setting) :=
  ((sections ls).2.filter fun s => s.1 = .peer).map Prod.snd

/-- The settings with the kinds of their sections; the first lines belong to `s`. -/
def settings : Sect → List Line → List Entry
  | _, [] => []
  | _, .header s :: ls => settings s ls
  | s, .setting k v :: ls => (s, k, v) :: settings s ls

def Lacks (key : String) (sec : List Setting) : Prop := ∀ e ∈ sec, e.1 ≠ key

@[simp] theorem peers_setting (k v : String) (ls : List Line) :
    peers (.setting k v :: ls) = peers ls := rfl

@[simp] theorem peers_header_peer (ls : List Line) :
    peers (.header .peer :: ls) = (sections ls).1 :: peers ls := rfl

theorem peers_header (h : s ≠ .peer) (ls : List Line) : peers (.header s :: ls) = peers ls := by
  unfold peers
  rw [sections, List.filter_cons_of_neg]
  simpa using h

/-- No public key of a peer precedes a `[Peer]` header: neither in the table `t`, nor in the open
section `s`, nor in a `[Peer]` section other than the last one. -/
structure Once (s : Sect) (t : Table) (ls : List Line) : Prop where
  table : t.get .peer "PublicKey" = none
  started : s = .peer → Lacks "PublicKey" (sections ls).1
  rest : ∀ sec ∈ (peers ls).dropLast, Lacks "PublicKey" sec

theorem get_cons {k k' : String} :
    Table.get ((s, k, v) :: t) s' k' = if s = s' ∧ k = k' then some v else t.get s' k' := by
  unfold Table.get
  rw [List.find?_cons]
  by_cases h : s = s' ∧ k = k'
  · simp [h]
  · rw [if_neg h, decide_eq_false h]

theorem once_setting {k : String} : Once s ((s, k, v) :: t) ls ↔ Once s t (.setting k v :: ls) := by
  constructor
  · rintro ⟨htable, hstarted, hrest⟩
    rw [get_cons] at htable
    split at htable
    · cases htable
    · rename_i hne
      refine ⟨htable, fun hs => ?_, hrest⟩
      intro e he
      rcases he with _ | ⟨_, he⟩
      · exact fun hk => hne ⟨hs, hk⟩
      · exact hstarted hs e he
  · rintro ⟨htable, hstarted, hrest⟩
    refine ⟨?_, fun hs e he => hstarted hs e (.tail _ he), hrest⟩
    rw [get_cons, if_neg]
    · exact htable
    · rintro ⟨hs, hk⟩
      exact hstarted hs (k, v) (.head _) hk

theorem once_header (h : s' ≠ .peer) : Once s' t ls ↔ Once s t (.header s' :: ls) := by
  have hlacks : Lacks "PublicKey" (sections (.header s' :: ls)).1 := nofun
  have hpeers := peers_header h ls
  constructor
  · exact fun ⟨htable, _, hrest⟩ => ⟨htable, fun _ => hlacks, hpeers ▸ hrest⟩
  · exact fun ⟨htable, _, hrest⟩ => ⟨htable, fun hs => absurd hs h, hpeers ▸ hrest⟩

theorem once_header_peer (htable : t.get .peer "PublicKey" = none) :
    (peers ls ≠ [] → Once .peer t ls) ↔ Once s t (.header .peer :: ls) := by
  constructor
  · intro h
    refine ⟨htable, nofun, ?_⟩
    rw [peers_header_peer]
    by_cases hpeers : peers ls = []
    · rw [hpeers]
      exact nofun
    · obtain ⟨-, hstarted, hrest⟩ := h hpeers
      rw [List.dropLast_cons_of_ne_nil hpeers]
      exact List.forall_mem_cons.mpr ⟨hstarted rfl, hrest⟩
  · rintro ⟨-, -, hrest⟩ hpeers
    rw [peers_header_peer, List.dropLast_cons_of_ne_nil hpeers, List.forall_mem_cons] at hrest
    exact ⟨htable, fun _ => hrest.1, hrest.2⟩

theorem addLine_header (h : s' = .peer → t.get .peer "PublicKey" = none) :
    Table.addLine (s, t) (.header s') = .ok (s', t) := by
  cases s' with
  | top => rfl
  | interface => rfl
  | peer => simp [Table.addLine, h rfl]

theorem addLine_header_peer (h : t.get .peer "PublicKey" = some v) :
    Table.addLine (s, t) (.header .peer) = .error "only one [Peer] is supported" := by
  simp [Table.addLine, h]

theorem exists_foldlM_addLine :
    (∃ st, ls.foldlM Table.addLine (s, t) = .ok st) ↔ (peers ls ≠ [] → Once s t ls) := by
  induction ls generalizing s t with
  | nil => exact ⟨fun _ h => absurd rfl h, fun _ => ⟨_, rfl⟩⟩
  | cons l ls ih =>
    rw [List.foldlM_cons]
    cases l with
    | setting k v =>
      rw [peers_setting, ← once_setting]
      exact ih
    | header s' =>
      by_cases hs : s' = .peer
      · subst hs
        rw [peers_header_peer]
        cases hkey : t.get .peer "PublicKey" with
        | none =>
          rw [addLine_header fun _ => hkey, forall_prop_of_true (List.cons_ne_nil _ _),
            ← once_header_peer hkey]
          exact ih
        | some v =>
          rw [addLine_header_peer hkey]
          constructor
          · rintro ⟨_, h⟩
            cases h
          · intro h
            have htable := (h (List.cons_ne_nil _ _)).table
            rw [hkey] at htable
            cases htable
      · rw [addLine_header fun h => absurd h hs, peers_header hs, ← once_header hs]
        exact ih

theorem foldlM_addLine_table {st : Sect × Table} (h : ls.foldlM Table.addLine (s, t) = .ok st) :
    st.2 = (settings s ls).reverse ++ t := by
  induction ls generalizing s t with
  | nil =>
    cases h
    rfl
  | cons l ls ih =>
    rw [List.foldlM_cons] at h
    cases l with
    | setting k v =>
      rw [ih (s := s) (t := (s, k, v) :: t) h, settings, List.reverse_cons, List.append_assoc]
      rfl
    | header s' =>
      by_cases hkey : s' = .peer → t.get .peer "PublicKey" = none
      · rw [addLine_header hkey] at h
        exact ih h
      · obtain ⟨rfl, hne⟩ := Classical.not_imp.mp hkey
        obtain ⟨v, hv⟩ := Option.ne_none_iff_exists'.mp hne
        rw [addLine_header_peer hv] at h
        cases h

/-! ## Accepted texts -/

/-- The lines that can be read. -/
def readable (text : String) : List Line :=
  (configLines text).filterMap fun l => (Line.read l).toOption

/-- The settings of a text, the last one first. -/
def fileTable (text : String) : Table := (settings .top (readable text)).reverse

theorem foldlM_readLine {lines : List (List Char)} {st st' : Sect × Table} :
    lines.foldlM readLine st = .ok st' ↔
      ∃ ls, lines.mapM Line.read = .ok ls ∧ ls.foldlM Table.addLine st = .ok st' := by
  induction lines generalizing st with
  | nil =>
    constructor
    · exact fun h => ⟨[], rfl, h⟩
    · rintro ⟨_, ⟨⟩, h⟩
      exact h
  | cons line lines ih =>
    rw [List.foldlM_cons]
    constructor
    · intro h
      obtain ⟨st₁, hline, h⟩ := bind_eq_ok.mp h
      obtain ⟨l, hl, hadd⟩ := bind_eq_ok.mp hline
      obtain ⟨ls, hls, hfold⟩ := ih.mp h
      refine ⟨l :: ls, mapM_eq_ok.mpr (.cons hl (mapM_eq_ok.mp hls)), ?_⟩
      rw [List.foldlM_cons]
      exact bind_eq_ok.mpr ⟨st₁, hadd, hfold⟩
    · rintro ⟨ls, hls, h⟩
      cases mapM_eq_ok.mp hls with
      | cons hl hrest =>
        rw [List.foldlM_cons] at h
        obtain ⟨st₁, hadd, hfold⟩ := bind_eq_ok.mp h
        have hline : readLine st line = .ok st₁ := bind_eq_ok.mpr ⟨_, hl, hadd⟩
        exact bind_eq_ok.mpr ⟨st₁, hline, ih.mpr ⟨_, mapM_eq_ok.mpr hrest, hfold⟩⟩

theorem filterMap_read {lines : List (List Char)} (h : lines.mapM Line.read = .ok ls) :
    lines.filterMap (fun l => (Line.read l).toOption) = ls := by
  induction mapM_eq_ok.mp h with
  | nil => rfl
  | cons hl hrest ih =>
    rw [List.filterMap_cons, hl, ih (mapM_eq_ok.mpr hrest)]
    rfl

/-- A text is accepted if its lines can be read, the loop does not find the public key of an
earlier peer, and the last values of the settings are those of a tunnel. -/
theorem parseWgQuick_eq_ok {text : String} {b : LocalBinding} :
    parseWgQuick text vmId uuid = .ok b ↔
      (∀ l ∈ configLines text, ∃ x, Line.read l = .ok x) ∧
      (∀ sec ∈ (peers (readable text)).dropLast, Lacks "PublicKey" sec) ∧
      (fileTable text).Accepts ∧ b = (fileTable text).build vmId uuid := by
  -- with an empty table and no open section, only the sections before the last one matter
  have honce : ∀ ls : List Line, (peers ls ≠ [] → Once .top [] ls) ↔
      ∀ sec ∈ (peers ls).dropLast, Lacks "PublicKey" sec := by
    intro ls
    constructor
    · intro h sec hsec
      refine (h ?_).rest sec hsec
      rintro hnil
      rw [hnil] at hsec
      cases hsec
    · exact fun h _ => ⟨rfl, nofun, h⟩
  unfold parseWgQuick
  rw [bind_eq_ok]
  constructor
  · rintro ⟨st, hst, hb⟩
    obtain ⟨ls, hls, hfold⟩ := foldlM_readLine.mp hst
    have hread : readable text = ls := filterMap_read hls
    have htable : st.2 = fileTable text := by
      rw [foldlM_addLine_table hfold, List.append_nil, fileTable, hread]
    rw [htable, binding_eq_ok] at hb
    refine ⟨fun l hl => exists_of_mapM_ok hls hl, ?_, hb⟩
    rw [hread]
    exact (honce ls).mp (exists_foldlM_addLine.mp ⟨st, hfold⟩)
  · rintro ⟨hlines, hsecs, hb⟩
    obtain ⟨ls, hls⟩ := exists_mapM hlines
    have hread : readable text = ls := filterMap_read hls
    rw [hread] at hsecs
    obtain ⟨st, hfold⟩ := exists_foldlM_addLine.mpr ((honce ls).mpr hsecs)
    refine ⟨st, foldlM_readLine.mpr ⟨ls, hls, hfold⟩, ?_⟩
    rw [foldlM_addLine_table hfold, List.append_nil, ← hread]
    exact binding_eq_ok.mpr hb

/-! ## One peer -/

/-- The last value of a setting of a section. -/
def lastValue (sec : List Setting) (key : String) : String :=
  ((sec.reverse.find? fun e => e.1 = key).map Prod.snd).getD ""

/-- The peer of a binding is described by one section. -/
structure LocalBinding.PeerFrom (b : LocalBinding) (sec : List Setting) : Prop where
  publicKey : b.peerPublicKey = lastValue sec "PublicKey"
  presharedKey : b.presharedKey = lastValue sec "PresharedKey"
  endpoint : b.endpoint = lastValue sec "Endpoint"
  allowedIps : b.allowedIps = (commaItems (lastValue sec "AllowedIPs")).map String.ofList
  keepalive : b.keepaliveSec = (parseI32 (lastValue sec "PersistentKeepalive").toList).getD 25

theorem peerFrom_build {sec : List Setting} (h : ∀ key, t.field .peer key = lastValue sec key) :
    (t.build vmId uuid).PeerFrom sec where
  publicKey := h "PublicKey"
  presharedKey := h "PresharedKey"
  endpoint := h "Endpoint"
  allowedIps := by rw [← h]; rfl
  keepalive := by rw [← h]; rfl

theorem settings_peer :
    (settings s ls).filter (fun e => e.1 = .peer) =
      ((if s = .peer then (sections ls).1 else []) ++ (peers ls).flatten).map (Prod.mk .peer) := by
  induction ls generalizing s with
  | nil => cases s <;> rfl
  | cons l ls ih =>
    cases l with
    | setting k v =>
      by_cases hs : s = .peer
      · simp [settings, sections, hs, ih]
      · simp [settings, hs, ih]
    | header s' =>
      rw [settings, ih, sections]
      by_cases hs : s' = .peer
      · simp [hs]
      · simp [hs, peers_header hs]

theorem field_table_peer (text key : String) :
    (fileTable text).field .peer key = lastValue (peers (readable text)).flatten key := by
  have hfind : ∀ l : List Entry, l.find? (fun e => e.1 = .peer ∧ e.2.1 = key) =
      (l.filter fun e => e.1 = .peer).find? fun e => e.2.1 = key := by
    intro l
    simp [List.find?_filter]
  unfold Table.field Table.get fileTable lastValue
  rw [hfind, List.filter_reverse, settings_peer, if_neg (by decide), List.nil_append,
    ← List.map_reverse, List.find?_map, Option.map_map]
  rfl

/-- The number of `[Peer]` headers of a text. -/
def peerHeaders (text : String) : Nat := (readable text).count (.header .peer)

theorem length_peers (ls : List Line) : (peers ls).length = ls.count (.header .peer) := by
  induction ls with
  | nil => rfl
  | cons l ls ih =>
    cases l with
    | setting k v => simpa using ih
    | header s =>
      by_cases hs : s = .peer
      · simp [hs, ih]
      · simp [hs, peers_header hs, ih]

/-- A text with two or more `[Peer]` headers is refused, and the peer of an accepted text is
described by one section. -/
def OnePeer (text : String) (vmId : VmId) (uuid : String) : Prop :=
  (2 ≤ peerHeaders text → ∃ e, parseWgQuick text vmId uuid = .error e) ∧
    ∀ b, parseWgQuick text vmId uuid = .ok b → ∃ sec ∈ peers (readable text), b.PeerFrom sec

/-- A text with two or more `[Peer]` sections, only the last of which may have a public key, that
is a configuration otherwise: every line can be read, and the last values of the settings are
those of a tunnel. -/
structure Mixed (text : String) : Prop where
  lines : ∀ l ∈ configLines text, ∃ x, Line.read l = .ok x
  headers : 2 ≤ peerHeaders text
  keys : ∀ sec ∈ (peers (readable text)).dropLast, Lacks "PublicKey" sec
  accepts : (fileTable text).Accepts

theorem isWgKey_empty : isWgKey "" = false := by decide

/-- Second peers are refused and settings are those of one peer, except for texts in which a peer
without a public key comes before the last one. -/
theorem onePeer_iff (text : String) (vmId : VmId) (uuid : String) :
    OnePeer text vmId uuid ↔ ¬ Mixed text := by
  constructor
  · rintro ⟨hrefused, -⟩ ⟨hlines, hheaders, hkeys, haccepts⟩
    obtain ⟨e, he⟩ := hrefused hheaders
    rw [parseWgQuick_eq_ok.mpr ⟨hlines, hkeys, haccepts, rfl⟩] at he
    cases he
  · intro hmixed
    have hfew : ∀ b, parseWgQuick text vmId uuid = .ok b → peerHeaders text < 2 := by
      intro b hb
      obtain ⟨hlines, hkeys, haccepts, -⟩ := parseWgQuick_eq_ok.mp hb
      by_contra hmany
      exact hmixed ⟨hlines, by omega, hkeys, haccepts⟩
    refine ⟨fun hmany => ?_, fun b hb => ?_⟩
    · cases hparse : parseWgQuick text vmId uuid with
      | error e => exact ⟨e, rfl⟩
      | ok b =>
        have hlt := hfew b hparse
        omega
    · have hlt := hfew b hb
      obtain ⟨-, -, haccepts, rfl⟩ := parseWgQuick_eq_ok.mp hb
      unfold peerHeaders at hlt
      rw [← length_peers] at hlt
      have hpublic := haccepts.publicKey
      have hfield := field_table_peer text
      match hpeers : peers (readable text), hlt with
      | [], _ =>
        -- without a section there is no public key
        rw [hfield, hpeers] at hpublic
        cases hpublic.symm.trans isWgKey_empty
      | [sec], _ =>
        rw [hpeers, List.flatten_singleton] at hfield
        exact ⟨sec, .head _, peerFrom_build hfield⟩

/-- Two peers, the first one without a public key. -/
def twoPeers : String :=
  "[Interface]\nPrivateKey = AAAAAAAAAAAAAAAAAAAAAAAAAAAAAAAAAAAAAAAAAAA=\n" ++
  "Address = 203.0.113.7/32\n" ++
  "[Peer]\nEndpoint = 192.0.2.1:51820\n" ++
  "[Peer]\nPublicKey = BBBBBBBBBBBBBBBBBBBBBBBBBBBBBBBBBBBBBBBBBBB=\n"

/-- The public key of the second peer is bound with the endpoint of the first one. -/
theorem twoPeers_accepted : peerHeaders twoPeers = 2 ∧
    parseWgQuick twoPeers ⟨1⟩ "4f1c9a3e-8a5b-4c1d-9e2f-0a1b2c3d4e5f" = .ok
      { resourceId := "local-4f1c9a3e-8a5b-4c1d-9e2f-0a1b2c3d4e5f"
        vmId := "00000000-0000-0000-0000-000000000001"
        address := "203.0.113.7/32"
        endpoint := "192.0.2.1:51820"
        privateKey := "AAAAAAAAAAAAAAAAAAAAAAAAAAAAAAAAAAAAAAAAAAA="
        peerPublicKey := "BBBBBBBBBBBBBBBBBBBBBBBBBBBBBBBBBBBBBBBBBBB="
        presharedKey := ""
        allowedIps := []
        keepaliveSec := 25 } := by
  decide +kernel

end RunmanAgent.Wg
