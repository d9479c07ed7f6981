import RunmanAgent.Concurrency.Prog
import RunmanAgent.Data.Text

/-!
# The WireGuard bindings of the Go agent (`manager/wgbind/manager.go`)

A binding is a row of the database and, while it is enabled, a tunnel in user space. The
manager keeps the tunnels it has started in a map under a mutex, which is held for single
accesses only: each section is one action here. Starting a tunnel is none of them: `start`
checks its copy of the row, writes the copy back if the check has completed it, brings the
tunnel up, and then puts it into the map.

A tunnel is up while it is in the map, or while the `start` that made it has not put it there
yet (`State.starting`): it is stopped when it is taken out of the map or replaced in it.
-/

namespace RunmanAgent.GoAgent.WgBind

open Concurrency Proc

/-- `db.WGBinding`. -/
structure WGBinding where
  id : String
  vmId : String
  name : String := ""
  enabled : Bool := true
  privateKey : String
  address : String
  listenPort : Int := 0
  mtu : Int := 0
  peerPublicKey : String
  presharedKey : String := ""
  endpoint : String := ""
  allowedIPs : String := ""
  keepalive : Int := 0
  createdAt : Nat := 0
deriving DecidableEq

/-- What `netip.ParseAddr` returns: the text of the address, unmapped if it is an IPv4 address
in an IPv6 one, and whether it is unspecified. -/
structure NetAddr where
  text : String
  unspecified : Bool
deriving DecidableEq

/-- The functions of the Go library that the checks use. -/
structure Library where
  /-- `base64.StdEncoding.DecodeString`: the number of bytes. -/
  decodeBase64 : String → Except String Nat
  parseAddr : String → Except String NetAddr
  /-- `netip.ParsePrefix`, masked, as text. -/
  parsePrefix : String → Option String
  /-- A single address as a prefix. -/
  hostPrefix : String → Option String
  splitHostPort : String → Option (String × String)
  atoi : String → Option Int

structure State where
  /-- `Manager.bindings`. -/
  bindings : List WGBinding := []
  failed : List (String × String) := []
  /-- The table of the database. -/
  rows : List WGBinding := []
  /-- The tunnel that a `start` has brought up and not yet put into the map. -/
  starting : Pid → Option WGBinding := fun _ => none
  /-- The removals that have stopped the tunnels with these ids and not yet deleted the rows; no
  function reads it. -/
  removing : List (Pid × List String) := []

def has (l : List WGBinding) (id : String) : Bool := l.any (·.id == id)

def without (id : String) (l : List WGBinding) : List WGBinding := l.filter (·.id ≠ id)

/-- Put `b` in the place of the one with its id. -/
def put (b : WGBinding) (l : List WGBinding) : List WGBinding := b :: without b.id l

/-- A tunnel with the id is up. -/
def State.Up (s : State) (id : String) : Prop :=
  has s.bindings id = true ∨ ∃ p b, s.starting p = some b ∧ b.id = id

inductive Act where
  | listAll
  | listOf (vmId : String)
  | get (id : String)
  | save (b : WGBinding)
  | delete (id : String)
  | deleteForVM (vmId : String)
  /-- `LookupIPAddr` of the host of an endpoint. -/
  | lookup (host : String)
  | startBinding (b : WGBinding)
  /-- The section of `start`: stop the old tunnel, put the new one into the map. -/
  | register (b : WGBinding)
  | noteFailure (id err : String)
  | isRunning (id : String)
  /-- `stopLocked` and the removal from `failed`, for each of the ids; `removal`: the rows are
  deleted next. -/
  | stop (ids : List String) (removal : Bool)

structure Input where
  /-- Error of the database, of the resolver or of the device. -/
  fail : Option String := none

def State.apply (s : State) (p : Pid) (i : Input) : Act → State
  | .save b => if i.fail.isSome then s else { s with rows := put b s.rows }
  | .delete id =>
    { s with
      rows := if i.fail.isSome then s.rows else without id s.rows
      removing := s.removing.filter (·.1 ≠ p) }
  | .deleteForVM vmId =>
    { s with
      rows := if i.fail.isSome then s.rows else s.rows.filter (·.vmId ≠ vmId)
      removing := s.removing.filter (·.1 ≠ p) }
  | .startBinding b =>
    if i.fail.isSome then s else { s with starting := Function.update s.starting p (some b) }
  | .register b =>
    { s with
      bindings := put b s.bindings
      failed := s.failed.filter (·.1 ≠ b.id)
      starting := Function.update s.starting p none }
  | .noteFailure id err => { s with failed := (id, err) :: s.failed.filter (·.1 ≠ id) }
  | .stop ids removal =>
    { s with
      bindings := s.bindings.filter (·.id ∉ ids)
      failed := s.failed.filter (·.1 ∉ ids)
      removing := if removal then (p, ids) :: s.removing else s.removing }
  | .listAll | .listOf _ | .get _ | .lookup _ | .isRunning _ => s

def machine : Machine State Input Act where
  enabled _ _ _ := true
  apply e p s i := s.apply p i e

abbrev MProc := Proc State Input Act String

/-- A call that can fail; `f` is what it gives otherwise. -/
def fallible {α : Type} (e : Act) (f : State → α) : MProc α :=
  perform e fun _ s i =>
    match i.fail with
    | some msg => .error msg
    | none => .ok (f s)

/-! ## The database -/

/-- `Order("created_at")`. -/
def sorted (l : List WGBinding) : List WGBinding :=
  l.insertionSort fun a b => a.createdAt ≤ b.createdAt

def listAllWGBindings : MProc (List WGBinding) := fallible .listAll fun s => sorted s.rows

def listWGBindings (vmId : String) : MProc (List WGBinding) :=
  fallible (.listOf vmId) fun s => sorted (s.rows.filter (·.vmId = vmId))

def getWGBinding (id : String) : MProc WGBinding :=
  perform (.get id) fun _ s i =>
    match i.fail, s.rows.find? (·.id = id) with
    | some msg, _ => .error msg
    | none, none => .error "record not found"
    | none, some b => .ok b

def saveWGBinding (b : WGBinding) : MProc Unit := fallible (.save b) fun _ => ()

def deleteWGBinding (id : String) : MProc Unit := fallible (.delete id) fun _ => ()

def deleteWGBindingsForVM (vmId : String) : MProc Unit := fallible (.deleteForVM vmId) fun _ => ()

/-! ## The checks of `config.go` -/

def DefaultMTU : Int := 1420
def MinMTU : Int := 576
def MaxMTU : Int := 9000
def DefaultKeepalive : Int := 25
def defaultAllowedIPs : List String := ["0.0.0.0/0", "::/0"]

variable (lib : Library)

def parseKey (s : String) : Except String Unit :=
  match lib.decodeBase64 (String.ofList (Text.trim s.toList)) with
  | .error e => .error s!"not valid base64: {e}"
  | .ok n => if n = 32 then .ok () else .error s!"expected 32 bytes, got {n}"

/-- The fields of a text that commas and blanks separate. -/
def fields (s : List Char) : List (List Char) :=
  (s.splitOnP fun c => c == ',' || c == ' ' || c == '\t' || c == '\n').filter (· ≠ [])

def parseAllowedIP (f : String) : Except String String :=
  match lib.parsePrefix f with
  | some p => .ok p
  | none =>
    match lib.hostPrefix f with
    | some p => .ok p
    | none => .error s!"allowed_ips: {f.quote} is not a valid CIDR or address"

def parseAllowedIPs (s : String) : Except String (List String) :=
  match fields s.toList with
  | [] => .ok defaultAllowedIPs
  | fs => fs.mapM fun f => parseAllowedIP lib (String.ofList f)

def resolveEndpointHost (host : String) : MProc Unit :=
  match lib.parseAddr host with
  | .ok _ => pure ()
  | .error _ => mapErr (fun e => s!"resolve endpoint host {host.quote}: {e}")
    (fallible (.lookup host) fun _ => ())

def validateKeys (b : WGBinding) : Except String Unit := do
  (parseKey lib b.privateKey).mapError ("private_key: " ++ ·)
  (parseKey lib b.peerPublicKey).mapError ("peer_public_key: " ++ ·)
  if b.presharedKey ≠ "" then (parseKey lib b.presharedKey).mapError ("preshared_key: " ++ ·)

/-- The tunnel address without a prefix length. -/
def validateAddress (b : WGBinding) : Except String WGBinding :=
  let addrStr := Text.trim b.address.toList
  if addrStr = [] then .error "address is required"
  else
    let addrStr := String.ofList (addrStr.takeWhile (· ≠ '/'))
    match lib.parseAddr addrStr with
    | .error e => .error s!"address: {e}"
    | .ok addr =>
      if addr.unspecified then .error s!"address: {addrStr} is not a usable tunnel address"
      else .ok { b with address := addr.text }

def validateMTU (b : WGBinding) : Except String WGBinding :=
  let b := if b.mtu = 0 then { b with mtu := DefaultMTU } else b
  if b.mtu < MinMTU ∨ MaxMTU < b.mtu then .error s!"mtu {b.mtu} out of range [{MinMTU}, {MaxMTU}]"
  else .ok b

def validateEndpoint (b : WGBinding) : MProc WGBinding :=
  let ep := String.ofList (Text.trim b.endpoint.toList)
  if ep ≠ "" then
    match lib.splitHostPort ep with
    | none => fail s!"endpoint: expected host:port, got {ep.quote}"
    | some (host, portStr) =>
      if (lib.atoi portStr).all fun port => port ≤ 0 || 65535 < port then
        fail s!"endpoint: invalid port {portStr.quote}"
      else if host = "" then fail "endpoint: host is empty"
      else do
        mapErr ("endpoint: " ++ ·) (resolveEndpointHost lib host)
        pure { b with
          endpoint := ep
          keepalive := if b.keepalive = 0 then DefaultKeepalive else b.keepalive }
  else if b.listenPort = 0 then
    fail "listen_port is required when endpoint is empty (peer needs a fixed port to reach us)"
  else pure { b with endpoint := "" }

/-- Check the binding and fill in what it leaves open. -/
def validate (b : WGBinding) : MProc WGBinding := do
  lift (validateKeys lib b)
  let b ← lift (validateAddress lib b)
  let b ← lift (validateMTU b)
  if b.listenPort < 0 ∨ 65535 < b.listenPort then fail s!"listen_port {b.listenPort} out of range"
  else do
    let b ← validateEndpoint lib b
    if b.keepalive < 0 ∨ 65535 < b.keepalive then fail s!"keepalive {b.keepalive} out of range"
    else do
      let ips ← lift (parseAllowedIPs lib b.allowedIPs)
      pure { b with allowedIPs := String.intercalate ", " ips }

/-! ## The manager -/

def noteFailure {α : Type} (id err : String) : MProc α := do
  run (.noteFailure id err)
  fail err

/-- The completed row is written back, whether it is still in the table or not. -/
def writeBack (cfg b : WGBinding) : MProc Unit := do
  if b ≠ cfg then
    let _ ← (saveWGBinding b).attempt
    pure ()
  else pure ()

def bringUp (b : WGBinding) : MProc Unit := do
  match ← (fallible (.startBinding b) fun _ => ()).attempt with
  | .error e => noteFailure b.id e
  | .ok _ => run (.register b)

def start (cfg : WGBinding) : MProc Unit := do
  match ← (validate lib cfg).attempt with
  | .error e => noteFailure cfg.id e
  | .ok b =>
    writeBack cfg b
    bringUp b

def retryOne (b : WGBinding) : MProc Unit := do
  if b.enabled then
    if ← read (.isRunning b.id) fun _ s _ => has s.bindings b.id then pure ()
    else do
      let _ ← (start lib b).attempt
      pure ()
  else pure ()

/-- One tick of the loop. -/
def retry : MProc Unit := do
  match ← listAllWGBindings.attempt with
  | .error _ => pure ()
  | .ok all => forEach (retryOne lib) all

/-- The loop, for the given number of ticks. -/
def retryLoop : Nat → MProc Unit
  | 0 => pure ()
  | n + 1 => do
    retry lib
    retryLoop n

def restoreOne (b : WGBinding) : MProc Unit := do
  if b.enabled then
    let _ ← (start lib b).attempt
    pure ()
  else pure ()

/-- `Restore`, which the agent calls when it starts. -/
def restore (n : Nat) : MProc Unit := do
  match ← listAllWGBindings.attempt with
  | .error _ => pure ()
  | .ok all =>
    forEach (restoreOne lib) all
    retryLoop lib n

/-- The binding with which `cfg` cannot be used together. -/
def conflict (cfg : WGBinding) : List WGBinding → Except String Unit
  | [] => .ok ()
  | o :: os =>
    if o.id = cfg.id then conflict cfg os
    else if o.address = cfg.address then
      .error s!"tunnel address {cfg.address} is already used by another binding"
    else if cfg.listenPort ≠ 0 ∧ o.listenPort = cfg.listenPort ∧ o.enabled = true then
      .error s!"listen port {cfg.listenPort} is already used by another binding"
    else conflict cfg os

def checkConflict (cfg : WGBinding) : MProc Unit := do
  let all ← listAllWGBindings
  lift (conflict cfg all)

/-- `Add`; `id` is the new UUID and `now` the time. -/
def add (id vmId : String) (now : Nat) (cfg : WGBinding) : MProc Unit := do
  let cfg ← validate lib { cfg with id := id, vmId := vmId, createdAt := now }
  checkConflict cfg
  saveWGBinding cfg
  if cfg.enabled then start lib cfg else pure ()

def update (id : String) (cfg : WGBinding) : MProc Unit := do
  let old ← mapErr (fun _ => s!"binding {id} not found") (getWGBinding id)
  let cfg ← validate lib { cfg with id := old.id, vmId := old.vmId, createdAt := old.createdAt }
  checkConflict cfg
  run (.stop [id] false)
  saveWGBinding cfg
  if cfg.enabled then start lib cfg else pure ()

def remove (id : String) : MProc Unit := do
  run (.stop [id] true)
  deleteWGBinding id

def deleteVM (vmId : String) : MProc Unit := do
  match ← (listWGBindings vmId).attempt with
  | .error _ => pure ()
  | .ok list =>
    run (.stop (list.map (·.id)) true)
    let _ ← (deleteWGBindingsForVM vmId).attempt
    pure ()

end RunmanAgent.GoAgent.WgBind
