import RunmanAgent.Wg.QuickConfig

/-!
# Dedicated addresses of a standalone node (`src/local_wg.rs`)

The panel parses a configuration and stores the binding; the runtime checks the stored binding
again when it is applied, and leaves out one that it refuses. The runtime is stricter about the
host of the endpoint and about the allowed addresses (`applied_iff`).

The store compares addresses as texts, so an address can be stored twice in two spellings
(`unique_iff`).
-/

namespace RunmanAgent.Wg

open Text

def LocalBinding.desired (b : LocalBinding) : WgBindDesired where
  vmId := b.vmId
  resourceId := b.resourceId
  privateKey := b.privateKey
  address := b.address
  peerPublicKey := b.peerPublicKey
  presharedKey := b.presharedKey
  endpoint := b.endpoint
  allowedIps := b.allowedIps
  keepaliveSec := b.keepaliveSec

/-! ## Texts -/

theorem utf8Len_of_ascii {l : List Char} (h : ∀ c ∈ l, c.utf8Size = 1) :
    String.utf8Len l = l.length := by
  induction l with
  | nil => rfl
  | cons c l ih =>
    rw [String.utf8Len_cons, ih fun d hd => h d (.tail _ hd), h c (.head _), List.length_cons]

theorem utf8Size_hexDigits {w n : Nat} {c : Char} (h : c ∈ hexDigits w n) : c.utf8Size = 1 := by
  have hdigit : ∀ d < 16, (Nat.digitChar d).utf8Size = 1 := by decide
  induction w generalizing n with
  | zero => cases h
  | succ w ih =>
    rcases List.mem_append.mp h with h | h
    · exact ih h
    · rw [List.mem_singleton.mp h]
      exact hdigit _ (Nat.mod_lt _ (by decide))

theorem utf8ByteSize_asStr (id : VmId) : id.asStr.utf8ByteSize = 36 := by
  have hlen := hexDigits_length 32 id.uuid.toNat
  have hhex : ∀ c ∈ hexDigits 32 id.uuid.toNat, c.utf8Size = 1 := fun _ => utf8Size_hexDigits
  unfold VmId.asStr
  dsimp only
  generalize hexDigits 32 id.uuid.toNat = h at hlen hhex
  rw [String.utf8ByteSize_ofList, utf8Len_of_ascii]
  · simp [hlen]
  · intro c hc
    simp only [List.mem_append, List.mem_singleton] at hc
    rcases hc with (((((((hc | rfl) | hc) | rfl) | hc) | rfl) | hc) | rfl) | hc
    · exact hhex c (List.mem_of_mem_take hc)
    · rfl
    · exact hhex c (List.mem_of_mem_drop (List.mem_of_mem_take hc))
    · rfl
    · exact hhex c (List.mem_of_mem_drop (List.mem_of_mem_take hc))
    · rfl
    · exact hhex c (List.mem_of_mem_drop (List.mem_of_mem_take hc))
    · rfl
    · exact hhex c (List.mem_of_mem_drop hc)

theorem trim_of_parse {s : List Char} {a : IpAddr} (h : IpAddr.parse (String.ofList s) = some a) :
    trim s = s := by
  apply trim_of_forall
  intro c hc
  refine ipChar_not_whitespace (IpAddr.parse_chars h ?_)
  rw [String.toList_ofList]
  exact hc

/-! ## Values of settings -/

theorem Line.read_setting {line : List Char} {k v : String}
    (h : Line.read line = .ok (.setting k v)) : trim v.toList = v.toList := by
  unfold Line.read at h
  split at h
  · split at h
    · cases h
    · split at h <;> cases h
  · split at h
    · cases h
    · cases h
      rw [String.toList_ofList, trim_trim]

theorem exists_setting_of_mem {s : Sect} {ls : List Line} {e : Entry} (h : e ∈ settings s ls) :
    .setting e.2.1 e.2.2 ∈ ls := by
  induction ls generalizing s with
  | nil => cases h
  | cons l ls ih =>
    cases l with
    | header s' => exact .tail _ (ih h)
    | setting k v =>
      rcases h with _ | ⟨_, h⟩
      · exact .head _
      · exact .tail _ (ih h)

theorem trim_field (text : String) (s : Sect) (key : String) :
    trim ((fileTable text).field s key).toList = ((fileTable text).field s key).toList := by
  unfold Table.field Table.get
  cases hfind : (fileTable text).find? fun e => e.1 = s ∧ e.2.1 = key with
  | none => rfl
  | some e =>
    have hmem := exists_setting_of_mem (List.mem_reverse.mp (List.mem_of_find?_eq_some hfind))
    obtain ⟨line, -, hline⟩ := List.mem_filterMap.mp hmem
    cases hread : Line.read line with
    | error msg =>
      rw [hread] at hline
      cases hline
    | ok l =>
      rw [hread] at hline
      cases hline
      exact Line.read_setting hread

/-! ## The runtime's checks -/

/-- An address with an optional prefix length. -/
def Network (item : List Char) : Prop :=
  ∃ ip, IpAddr.parse (String.ofList ((splitOnce '/' item).getD (item, [])).1) = some ip ∧
    (((splitOnce '/' item).getD (item, [])).2 = [] ∨
      ∃ len, parseUnsigned 256 ((splitOnce '/' item).getD (item, [])).2 = some len ∧
        len ≤ maxLen ip)

theorem exists_allowedIp {item : List Char} :
    (∃ s, allowedIp item = .ok s) ↔ Network item := by
  unfold allowedIp Network
  generalize (splitOnce '/' item).getD (item, []) = parts
  obtain ⟨raw, len⟩ := parts
  dsimp only
  cases hip : IpAddr.parse (String.ofList raw) with
  | none =>
    constructor
    · rintro ⟨_, h⟩
      cases h
    · rintro ⟨_, h, -⟩
      cases h
  | some ip =>
    by_cases hlen : len = []
    · exact ⟨fun _ => ⟨ip, rfl, .inl hlen⟩, fun _ => ⟨_, by simp only [hlen, if_true]; rfl⟩⟩
    · simp only [hlen, if_false, false_or]
      cases hfilter : (parseUnsigned 256 len).filter fun n => n ≤ maxLen ip with
      | none =>
        constructor
        · rintro ⟨_, h⟩
          cases h
        · rintro ⟨_, ⟨⟩, n, hparse, hle⟩
          rw [hparse, Option.filter_some, if_pos (decide_eq_true hle)] at hfilter
          cases hfilter
      | some n =>
        obtain ⟨hparse, hle⟩ := Option.filter_eq_some_iff.mp hfilter
        exact ⟨fun _ => ⟨ip, rfl, n, hparse, of_decide_eq_true hle⟩, fun _ => ⟨_, rfl⟩⟩

theorem allowedItems_commaItems (s : String) :
    allowedItems ((commaItems s).map String.ofList) = commaItems s := by
  have hitem : ∀ item ∈ commaItems s, commaItems (String.ofList item) = [item] := by
    intro item hitem
    obtain ⟨hmem, hne⟩ := List.mem_filter.mp hitem
    obtain ⟨part, hpart, rfl⟩ := List.mem_map.mp hmem
    have hcomma : ',' ∉ trim part := fun h => notMem_of_mem_splitOn hpart (mem_of_mem_trim h)
    unfold commaItems
    rw [String.toList_ofList, List.splitOn_eq_singleton hcomma, List.map_singleton, trim_trim,
      List.filter_singleton, hne, cond_true]
  calc allowedItems ((commaItems s).map String.ofList)
      = (commaItems s).flatMap fun item => commaItems (String.ofList item) := List.flatMap_map ..
    _ = (commaItems s).flatMap fun item => [item] := List.flatMap_congr hitem
    _ = commaItems s := List.flatMap_singleton' _

theorem exists_checkEndpoint {endpoint host port : List Char}
    (h : rsplitOnce ':' endpoint = some (host, port))
    (hport : (parseUnsigned (2 ^ 16) port).isSome = true) :
    checkEndpoint (String.ofList endpoint) = .ok () ↔ ∃ c ∈ host, isBracket c = false := by
  unfold checkEndpoint
  rw [String.toList_ofList, h]
  dsimp only
  rw [throw_unless_eq_ok, not_or, Bool.not_eq_true, List.all_eq_false,
    and_iff_left (Option.isSome_iff_ne_none.mp hport)]
  simp only [Bool.not_eq_true]

/-- A binding with an id, an address and keys as they have to be passes if its endpoint and its
allowed addresses do. -/
theorem exists_fromProto {uuid : UuidReader} {d : WgBindDesired} (vmId : VmId) (address : IpAddr)
    (hid : ¬ (d.resourceId.isEmpty = true ∨ 128 < d.resourceId.utf8ByteSize))
    (hvm : VmId.parse uuid d.vmId = .ok vmId)
    (haddress : IpAddr.parse (String.ofList (trim (before '/' d.address.toList))) = some address)
    (hprivate : checkKey "private_key" d.privateKey true = .ok ())
    (hpublic : checkKey "peer_public_key" d.peerPublicKey true = .ok ())
    (hpreshared : checkKey "preshared_key" d.presharedKey false = .ok ()) :
    (∃ r, Binding.fromProto uuid d = .ok r) ↔
      checkEndpoint (String.ofList (trim d.endpoint.toList)) = .ok () ∧
        ∀ item ∈ allowedItems d.allowedIps, ∃ s, allowedIp item = .ok s := by
  unfold before at haddress
  unfold Binding.fromProto
  have hbind : ∀ f : VmId → Except String Binding, (Except.ok vmId >>= f) = f vmId := fun _ => rfl
  rw [if_neg hid, hvm, hbind]
  dsimp only
  rw [haddress]
  dsimp only
  constructor
  · rintro ⟨r, h⟩
    obtain ⟨_, -, h⟩ := bind_eq_ok.mp h
    obtain ⟨_, -, h⟩ := bind_eq_ok.mp h
    obtain ⟨_, -, h⟩ := bind_eq_ok.mp h
    obtain ⟨_, hendpoint, h⟩ := bind_eq_ok.mp h
    obtain ⟨_, hallowed, -⟩ := bind_eq_ok.mp h
    exact ⟨hendpoint, fun item hitem => exists_of_mapM_ok hallowed hitem⟩
  · rintro ⟨hendpoint, hallowed⟩
    refine exists_bind_ok ⟨_, hprivate⟩ fun _ => ?_
    refine exists_bind_ok ⟨_, hpublic⟩ fun _ => ?_
    refine exists_bind_ok ⟨_, hpreshared⟩ fun _ => ?_
    refine exists_bind_ok ⟨_, hendpoint⟩ fun _ => ?_
    exact exists_bind_ok (exists_mapM hallowed) fun _ => ⟨_, rfl⟩

/-- The host of the endpoint is more than brackets, and every allowed address is one, with an
optional prefix length. -/
structure Table.Runnable (t : Table) : Prop where
  host : ∀ host port, rsplitOnce ':' (t.field .peer "Endpoint").toList = some (host, port) →
    ∃ c ∈ host, isBracket c = false
  allowed : ∀ item ∈ commaItems (t.field .peer "AllowedIPs"), Network item

theorem checkKey_eq_ok {what key : String} {required : Bool}
    (h : isWgKey key = true ∨ key = "" ∧
      required = false) : checkKey what key required = .ok () := by
  unfold checkKey
  rcases h with h | ⟨rfl, rfl⟩
  · rw [h]
    split <;> rfl
  · rfl

/-- What the panel accepts, the runtime applies if and only if it is runnable. -/
theorem applied_iff (uuid : UuidReader) {text : String} {vmId fresh : VmId} {b : LocalBinding}
    (h : parseWgQuick text vmId fresh.asStr = .ok b) :
    (∃ r, Binding.fromProto uuid b.desired = .ok r) ↔ (fileTable text).Runnable := by
  obtain ⟨-, -, haccepts, rfl⟩ := parseWgQuick_eq_ok.mp h
  obtain ⟨address, haddress⟩ := Option.isSome_iff_exists.mp haccepts.address
  obtain ⟨host, port, hsplit, -, hport⟩ := haccepts.endpoint
  rw [exists_fromProto vmId address]
  · unfold LocalBinding.desired Table.build
    dsimp only
    rw [trim_field, exists_checkEndpoint hsplit hport, allowedItems_commaItems]
    constructor
    · rintro ⟨hhost, hallowed⟩
      refine ⟨fun host' port' hsplit' => ?_,
        fun item hitem => exists_allowedIp.mp (hallowed item hitem)⟩
      cases hsplit.symm.trans hsplit'
      exact hhost
    · rintro ⟨hhost, hallowed⟩
      exact ⟨hhost host port hsplit, fun item hitem => exists_allowedIp.mpr (hallowed item hitem)⟩
  · have hsize : ("local-" ++ fresh.asStr).utf8ByteSize = 42 := by
      rw [String.utf8ByteSize_append, utf8ByteSize_asStr]
      rfl
    have hid : ((fileTable text).build vmId fresh.asStr).desired.resourceId =
        "local-" ++ fresh.asStr := rfl
    rw [hid]
    rintro (hempty | hlong)
    · rw [String.isEmpty_iff.mp hempty] at hsize
      cases hsize
    · omega
  · exact VmId.parse_asStr uuid vmId
  · have htext : (String.ofList (fileTable text).address).toList = (fileTable text).address :=
      String.toList_ofList
    unfold LocalBinding.desired Table.build
    dsimp only
    rw [htext, trim_of_parse haddress]
    exact haddress
  · exact checkKey_eq_ok (.inl haccepts.privateKey)
  · exact checkKey_eq_ok (.inl haccepts.publicKey)
  · exact checkKey_eq_ok (haccepts.presharedKey.symm.imp_right fun h => ⟨h, rfl⟩)

/-- A configuration with the given allowed addresses. -/
def tunnel (address allowedIps : String) : String :=
  "[Interface]\nPrivateKey = AAAAAAAAAAAAAAAAAAAAAAAAAAAAAAAAAAAAAAAAAAA=\n" ++
  "Address = " ++ address ++ "\n" ++
  "[Peer]\nPublicKey = BBBBBBBBBBBBBBBBBBBBBBBBBBBBBBBBBBBBBBBBBBB=\n" ++
  "Endpoint = 192.0.2.1:51820\nAllowedIPs = " ++ allowedIps ++ "\n"

/-- The binding of `tunnel`. -/
def tunnelBinding (address : String) (allowedIps : List String) : LocalBinding where
  resourceId := "local-00000000-0000-0000-0000-000000000002"
  vmId := "00000000-0000-0000-0000-000000000001"
  address := address
  endpoint := "192.0.2.1:51820"
  privateKey := "AAAAAAAAAAAAAAAAAAAAAAAAAAAAAAAAAAAAAAAAAAA="
  peerPublicKey := "BBBBBBBBBBBBBBBBBBBBBBBBBBBBBBBBBBBBBBBBBBB="
  presharedKey := ""
  allowedIps := allowedIps
  keepaliveSec := 25

theorem network_applied :
    parseWgQuick (tunnel "203.0.113.7/32" "10.0.0.0/8") ⟨1⟩ (VmId.mk 2).asStr =
        .ok (tunnelBinding "203.0.113.7/32" ["10.0.0.0/8"]) ∧
      ((∃ r, Binding.fromProto .canonical
          (tunnelBinding "203.0.113.7/32" ["10.0.0.0/8"]).desired = .ok r) ↔
        (fileTable (tunnel "203.0.113.7/32" "10.0.0.0/8")).Runnable) := by
  have hparse : parseWgQuick (tunnel "203.0.113.7/32" "10.0.0.0/8") ⟨1⟩ (VmId.mk 2).asStr =
      .ok (tunnelBinding "203.0.113.7/32" ["10.0.0.0/8"]) := by
    decide +kernel
  exact ⟨hparse, applied_iff .canonical hparse⟩

/-- An allowed address that is none is stored, and then left out by the runtime. -/
theorem hostname_ignored :
    parseWgQuick (tunnel "203.0.113.7/32" "office") ⟨1⟩ (VmId.mk 2).asStr =
        .ok (tunnelBinding "203.0.113.7/32" ["office"]) ∧
      Binding.fromProto .canonical (tunnelBinding "203.0.113.7/32" ["office"]).desired =
        .error "invalid allowed IP \"office\": invalid IP address syntax" := by
  decide +kernel

/-! ## The store -/

/-- The address of a binding as it is written, without its prefix length. -/
def LocalBinding.addressText (b : LocalBinding) : List Char := before '/' b.address.toList

/-- The address that a binding denotes. -/
def LocalBinding.ip (b : LocalBinding) : Option IpAddr :=
  IpAddr.parse (String.ofList b.addressText)

namespace LocalWg

/-- `save` is the outcome of writing the file. -/
def add (list : List LocalBinding) (b : LocalBinding) (save : Except String Unit) :
    Except String Unit × List LocalBinding :=
  if list.any fun x => x.addressText == b.addressText then
    (.error ("address " ++ b.address ++ " is already bound"), list)
  else
    match save with
    | .error e => (.error e, list)
    | .ok _ => (.ok (), list ++ [b])

/-- Remove by resource id, or every binding of `vmId`. -/
def remove (list : List LocalBinding) (resourceId vmId : Option String)
    (save : Except String Unit) : Except String Bool × List LocalBinding :=
  let next := list.filter fun b => !(resourceId == some b.resourceId || vmId == some b.vmId)
  if next.length = list.length then (.ok false, list)
  else
    match save with
    | .error e => (.error e, list)
    | .ok _ => (.ok true, next)

/-- What the panel asks for. -/
inductive Call where
  | add (text : String) (vmId fresh : VmId) (save : Except String Unit)
  | remove (resourceId vmId : Option String) (save : Except String Unit)

/-- The stored bindings after a call. -/
def Call.apply (list : List LocalBinding) : Call → List LocalBinding
  | .add text vmId fresh save =>
    match parseWgQuick text vmId fresh.asStr with
    | .error _ => list
    | .ok b => (LocalWg.add list b save).2
  | .remove resourceId vmId save => (LocalWg.remove list resourceId vmId save).2

/-- The stored bindings after the calls. -/
def run (calls : List Call) : List LocalBinding := calls.foldl Call.apply []

/-- No two bindings denote the same address. -/
def Unique (list : List LocalBinding) : Prop := list.Pairwise fun x y => x.ip ≠ y.ip

/-- A binding that is stored has no address that a stored one has in another spelling. -/
def Call.Fits (list : List LocalBinding) : Call → Prop
  | .add text vmId fresh (.ok _) => ∀ b, parseWgQuick text vmId fresh.asStr = .ok b →
    ∀ x ∈ list, x.ip = b.ip → x.addressText = b.addressText
  | _ => True

variable {list : List LocalBinding} {b : LocalBinding}

theorem add_error (e : String) : (add list b (.error e)).2 = list := by
  unfold add
  split <;> rfl

theorem unique_add (h : Unique list)
    (hfits : ∀ x ∈ list, x.ip = b.ip → x.addressText = b.addressText) :
    Unique (add list b (.ok ())).2 := by
  unfold add
  split
  · exact h
  · rename_i hnew
    refine List.pairwise_append.mpr ⟨h, List.pairwise_singleton _ _, fun x hx y hy => ?_⟩
    cases List.mem_singleton.mp hy
    intro hip
    refine hnew (List.any_eq_true.mpr ⟨x, hx, ?_⟩)
    exact beq_iff_eq.mpr (hfits x hx hip)

theorem spelling_of_unique_add (h : Unique list) (hadd : Unique (add list b (.ok ())).2) :
    ∀ x ∈ list, x.ip = b.ip → x.addressText = b.addressText := by
  intro x hx hip
  unfold add at hadd
  split at hadd
  · -- the address is stored, and `x` has it
    rename_i hbound
    obtain ⟨y, hy, htext⟩ := List.any_eq_true.mp hbound
    have htext : y.addressText = b.addressText := beq_iff_eq.mp htext
    have hyip : y.ip = b.ip := by rw [LocalBinding.ip, htext, LocalBinding.ip]
    have hxy : x = y :=
      List.inj_on_of_nodup_map (List.pairwise_map.mpr h) hx hy (hip.trans hyip.symm)
    rw [hxy, htext]
  · exact absurd hip ((List.pairwise_append.mp hadd).2.2 x hx b (.head _))

theorem unique_remove (h : Unique list) (resourceId vmId : Option String)
    (save : Except String Unit) : Unique (remove list resourceId vmId save).2 := by
  unfold remove
  dsimp only
  split
  · exact h
  · split
    · exact h
    · exact h.filter _

theorem unique_apply {list : List LocalBinding} {c : Call} (h : Unique list) :
    Unique (c.apply list) ↔ c.Fits list := by
  cases c with
  | remove resourceId vmId save =>
    exact ⟨fun _ => trivial, fun _ => unique_remove h resourceId vmId save⟩
  | add text vmId fresh save =>
    unfold Call.apply
    dsimp only
    cases hparse : parseWgQuick text vmId fresh.asStr with
    | error e =>
      refine ⟨fun _ => ?_, fun _ => h⟩
      cases save with
      | error e => trivial
      | ok u =>
        intro b hb
        rw [hparse] at hb
        cases hb
    | ok b =>
      cases save with
      | error e =>
        refine ⟨fun _ => trivial, fun _ => ?_⟩
        dsimp only
        rwa [add_error]
      | ok u =>
        constructor
        · intro hadd b' hb'
          rw [hparse] at hb'
          cases hb'
          exact spelling_of_unique_add h hadd
        · exact fun hfits => unique_add h (hfits b hparse)

/-- The stored bindings always have different addresses exactly if no call stores an address that is
stored in another spelling. -/
theorem unique_iff (calls : List Call) :
    (∀ n, Unique (run (calls.take n))) ↔
      ∀ (n : Nat) (c : Call), calls[n]? = some c → c.Fits (run (calls.take n)) := by
  have hstep : ∀ (n : Nat) (c : Call), calls[n]? = some c →
      run (calls.take (n + 1)) = c.apply (run (calls.take n)) := by
    intro n c hc
    rw [run, List.take_add_one, hc, List.foldl_append]
    rfl
  constructor
  · intro h n c hc
    have hnext := h (n + 1)
    rw [hstep n c hc] at hnext
    exact (unique_apply (h n)).mp hnext
  · intro h n
    induction n with
    | zero => exact List.Pairwise.nil
    | succ n ih =>
      cases hc : calls[n]? with
      | none =>
        rwa [List.take_add_one, hc, Option.toList_none, List.append_nil]
      | some c =>
        rw [hstep n c hc]
        exact (unique_apply ih).mpr (h n c hc)

/-- One address in two spellings. -/
def respelled : List Call :=
  [.add (tunnel "2001:db8::1/64" "::/0") ⟨1⟩ ⟨2⟩ (.ok ()),
    .add (tunnel "2001:DB8::1/64" "::/0") ⟨1⟩ ⟨3⟩ (.ok ())]

theorem respelled_twice : (run respelled).map (fun b => (b.address, b.ip)) =
    [("2001:db8::1/64", some (.v6 0x20010db8000000000000000000000001)),
      ("2001:DB8::1/64", some (.v6 0x20010db8000000000000000000000001))] := by
  decide +kernel

end LocalWg

end RunmanAgent.Wg
