import RunmanAgent.Addr

/-!
# Bindings of dedicated addresses (`Binding` of `src/runtime/wg.rs`, `VmId::parse`)

`Binding.fromProto` checks one desired binding of the platform. A binding that passes carries
the id of its instance in canonical form and a parsed address.
-/

namespace RunmanAgent

open Text

/-! ## Instance ids as text -/

/-- `Uuid::parse_str` of the crate `uuid`, which reads at least the canonical form. -/
structure UuidReader where
  parseStr : String → Option VmId
  parseStr_asStr (id : VmId) : parseStr id.asStr = some id

variable (uuid : UuidReader)

def VmId.parse (raw : String) : Except String VmId :=
  match uuid.parseStr raw with
  | some id => .ok id
  | none => .error ("invalid vm_id " ++ debugStr raw ++ ": expected a UUID")

@[simp] theorem VmId.parse_asStr (id : VmId) : VmId.parse uuid id.asStr = .ok id := by
  rw [VmId.parse, uuid.parseStr_asStr]

theorem digitsVal_hexDigits (w n : Nat) :
    digitsVal 16 ((hexDigits w n).filterMap (digitVal 16)) = n % 16 ^ w := by
  induction w generalizing n with
  | zero => simp [hexDigits, digitsVal, Nat.mod_one]
  | succ w ih =>
    have hlast : digitVal 16 (Nat.digitChar (n % 16)) = some (n % 16) :=
      digitVal_digitChar (le_refl _) (Nat.mod_lt _ (by decide))
    have hsum : ∀ ds, digitsVal 16 (ds ++ [n % 16]) = 16 * digitsVal 16 ds + n % 16 := by
      simp [digitsVal]
    rw [hexDigits, List.filterMap_append, List.filterMap_cons_some hlast, List.filterMap_nil,
      hsum, ih, Nat.pow_succ', Nat.mod_mul, Nat.add_comm]

/-- The digits of a text as an id. -/
def uuidDigits (raw : String) : VmId :=
  ⟨BitVec.ofNat 128 (digitsVal 16 (raw.toList.filterMap (digitVal 16)))⟩

theorem uuidDigits_asStr (id : VmId) : uuidDigits id.asStr = id := by
  have hdigits : id.asStr.toList.filterMap (digitVal 16) =
      (hexDigits 32 id.uuid.toNat).filterMap (digitVal 16) := by
    have hhyphen : digitVal 16 '-' = none := rfl
    have hgroups := congrArg (List.filterMap (digitVal 16))
      (uuid_groups (hexDigits 32 id.uuid.toNat))
    rw [VmId.asStr, String.toList_ofList, hgroups]
    simp [hhyphen]
  have hlt := id.uuid.isLt
  rw [uuidDigits, hdigits, digitsVal_hexDigits, Nat.mod_eq_of_lt (by omega)]
  simp

/-- The reader of the canonical form alone. -/
def UuidReader.canonical : UuidReader where
  parseStr raw := if (uuidDigits raw).asStr = raw then some (uuidDigits raw) else none
  parseStr_asStr id := by rw [uuidDigits_asStr, if_pos rfl]

/-! ## Bindings -/

namespace Wg

/-- A binding as the platform asks for it. -/
structure WgBindDesired where
  vmId : String
  resourceId : String
  privateKey : String
  address : String
  peerPublicKey : String
  presharedKey : String
  endpoint : String
  allowedIps : List String
  keepaliveSec : Int
  deriving DecidableEq

/-- A validated binding. -/
structure Binding where
  resourceId : String
  vmId : VmId
  address : IpAddr
  privateKey : String
  peerPublicKey : String
  presharedKey : String
  endpoint : String
  allowedIps : List String
  keepalive : Nat
  deriving DecidableEq

def isWgKey (s : String) : Bool :=
  s.toList.length == 44 && s.toList.getLast? == some '=' &&
    s.toList.dropLast.all fun c => c.isAlphanum || c == '+' || c == '/'

def keyError (what : String) : String := what ++ " is not a base64 WireGuard key"

def checkKey (what key : String) (required : Bool) : Except String Unit :=
  if key.isEmpty ∧ !required then pure ()
  else if isWgKey key then pure ()
  else throw (keyError what)

def isBracket (c : Char) : Bool := c == '[' || c == ']'

def checkEndpoint (endpoint : String) : Except String Unit :=
  match rsplitOnce ':' endpoint.toList with
  | none => throw "endpoint must be host:port"
  | some (host, port) =>
    if host.all isBracket ∨ parseUnsigned (2 ^ 16) port = none then
      throw ("invalid endpoint " ++ debugStr endpoint)
    else pure ()

/-- Longest prefix of the family. -/
def maxLen : IpAddr → Nat
  | .v4 _ => 32
  | .v6 _ => 128

/-- One item of the allowed addresses, as it is passed on. -/
def allowedIp (item : List Char) : Except String String := do
  let (raw, len) := (splitOnce '/' item).getD (item, [])
  match IpAddr.parse (String.ofList raw) with
  | none => throw ("invalid allowed IP " ++ debugStr (String.ofList item) ++
      ": invalid IP address syntax")
  | some ip =>
    let len ← if len = [] then pure (maxLen ip) else
      match (parseUnsigned 256 len).filter (· ≤ maxLen ip) with
      | some len => pure len
      | none => throw "bad allowed IP prefix"
    pure (ip.toText ++ "/" ++ toString len)

def allowedItems (raws : List String) : List (List Char) :=
  raws.flatMap fun raw => ((raw.toList.splitOn ',').map trim).filter (· ≠ [])

def Binding.fromProto (d : WgBindDesired) : Except String Binding := do
  if d.resourceId.isEmpty ∨ 128 < d.resourceId.utf8ByteSize then throw "invalid resource_id"
  let vmId ← VmId.parse uuid d.vmId
  let text := ((splitOnce '/' d.address.toList).map Prod.fst).getD d.address.toList
  let some address := IpAddr.parse (String.ofList (trim text))
    | throw ("invalid address " ++ debugStr d.address ++ ": invalid IP address syntax")
  checkKey "private_key" d.privateKey true
  checkKey "peer_public_key" d.peerPublicKey true
  checkKey "preshared_key" d.presharedKey false
  let endpoint := String.ofList (trim d.endpoint.toList)
  checkEndpoint endpoint
  let allowedIps ← (allowedItems d.allowedIps).mapM allowedIp
  pure
    { resourceId := d.resourceId
      vmId
      address
      privateKey := d.privateKey
      peerPublicKey := d.peerPublicKey
      presharedKey := d.presharedKey
      endpoint
      allowedIps := if allowedIps = [] then ["0.0.0.0/0", "::/0"] else allowedIps
      keepalive :=
        let sec := (max d.keepaliveSec 0).toNat
        if sec < 2 ^ 16 then sec else 25 }

end Wg

end RunmanAgent
