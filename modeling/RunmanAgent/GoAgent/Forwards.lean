import RunmanAgent.Concurrency.Prog
import RunmanAgent.Data.AList

/-!
# The port forward manager of the Go agent (`manager/portforward/portforward.go`)

The manager holds the active mappings in memory, each with its open listener, under one
mutex; the table `PortForward` of the database has the rules that are to survive a restart.
A background loop reads the table and adds what is not active. Reads and writes of the table
are actions of their own: not all of them are made under the mutex.

A mapping is listening exactly while it is in `State.mappings`: it is put there after
`net.Listen`, and it is taken out together with the call that closes its listener.
-/

namespace RunmanAgent.GoAgent

open Concurrency Proc

/-! ## Rules -/

/-- The host side of a rule: the primary key of the table. -/
structure PortKey where
  protocol : String
  hostPort : Int
deriving DecidableEq

/-- The other columns of a row. -/
structure Row where
  vmId : String
  guestPort : Int
  description : String
deriving DecidableEq

/-- `db.PortForward`, which is also what `addMapping` is called with. -/
structure Rule extends PortKey, Row
deriving DecidableEq

structure DesiredRule extends PortKey where
  guestPort : Int
  description : String
deriving DecidableEq

def DesiredRule.rule (vmId : String) (d : DesiredRule) : Rule :=
  { d with vmId := vmId }

/-- What an active mapping adds to its key. -/
structure Entry where
  guestPort : Int
  targetAddr : String
  description : String
deriving DecidableEq

/-- The entry forwards to the guest port of the rule, under its description. -/
def Entry.Is (e : Entry) (r : Row) : Prop :=
  e.guestPort = r.guestPort ∧ e.description = r.description

instance (e : Entry) (r : Row) : Decidable (e.Is r) := inferInstanceAs (Decidable (_ ∧ _))

theorem Entry.Is.row_eq {e : Entry} {r r' : Row} (h : e.Is r) (h' : e.Is r')
    (hv : r.vmId = r'.vmId) :
    r = r' := by
  obtain ⟨v, g, d⟩ := r
  obtain ⟨v', g', d'⟩ := r'
  obtain ⟨rfl, rfl⟩ := h
  obtain ⟨rfl, rfl⟩ := h'
  cases hv
  rfl

def minPort : Int := 1024
def minNewPort : Int := 20000
def maxPort : Int := 65535

inductive Err where
  | hostPortOutOfRange (got : Int)
  | newHostPortBelowFloor (got : Int)
  | guestPortOutOfRange (got : Int)
  | limitReached (active : Nat) (max : Int)
  | noAddress (vmId : String)
  | unsupportedProtocol (protocol : String)
  | duplicate (k : PortKey)
  | listExisting (msg : String)
  | other (msg : String)
deriving DecidableEq

def Err.text : Err → String
  | .hostPortOutOfRange got => s!"host port must be in range 1024-65535: got {got}"
  | .newHostPortBelowFloor got =>
    "new host ports must be in range 20000-65535; existing 1024-19999 mappings are retained" ++
      s!": got {got}"
  | .guestPortOutOfRange got => s!"guest port must be in range 1-65535: got {got}"
  | .limitReached active max => s!"port forward limit reached ({active}/{max})"
  | .noAddress vmId => s!"VM {vmId} has no IP address (is it running?)"
  | .unsupportedProtocol protocol => "unsupported port forward protocol " ++ protocol.quote
  | .duplicate k => s!"duplicate port forward {k.protocol}/{k.hostPort}"
  | .listExisting msg => s!"list existing port forwards: {msg}"
  | .other msg => msg

def validateHostPort (hostPort : Int) (allowLegacy : Bool) : Except Err Unit :=
  if hostPort < minPort ∨ maxPort < hostPort then .error (.hostPortOutOfRange hostPort)
  else if allowLegacy = false ∧ hostPort < minNewPort then
    .error (.newHostPortBelowFloor hostPort)
  else .ok ()

def validateGuestPort (guestPort : Int) : Except Err Unit :=
  if guestPort < 1 ∨ maxPort < guestPort then .error (.guestPortOutOfRange guestPort) else .ok ()

/-- `net.JoinHostPort`. -/
def formatTargetAddress (ip : String) (port : Int) : String :=
  if ip.toList.contains ':' then s!"[{ip}]:{port}" else s!"{ip}:{port}"

/-! ## State and actions -/

/-- What the mutex is held for. -/
inductive Section where
  | add (r : Rule) (checkLimit : Bool)
  | remove (vmId : String) (k : PortKey)
  | refresh (vmId : String)
deriving DecidableEq

structure State where
  /-- `mappings[vmId]`, searched by protocol and host port. -/
  mappings : AList (fun _ : String × PortKey => Entry) := ∅
  rows : AList (fun _ : PortKey => Row) := ∅
  ipLimits : AList (fun _ : String => Int) := ∅
  ipLimitRows : AList (fun _ : String => Int) := ∅
  /-- Who has locked `mu` for writing. -/
  holder : Option (Pid × Section) := none
  /-- What the callers have been answered: `none` is success. -/
  answers : List (Pid × Option Err) := []
  /-- Active mappings have been copied and the rows of their VM not yet deleted; no function
  reads it. -/
  copied : Bool := false

namespace State

variable (s : State)

/-- The keys of `mappings[vmId]`. -/
def active (vmId : String) : List PortKey :=
  s.mappings.keys.filterMap fun k => if k.1 = vmId then some k.2 else none

/-- `ListAllPortForwards`. -/
def rules : List Rule := s.rows.entries.map fun e => { e.1, e.2 with }

/-- `ListPortForwards`. -/
def rulesOf (vmId : String) : List Rule := s.rules.filter fun r => r.vmId = vmId

/-- The agent itself has a listener on the port. Every protocol but `tcp` is bound as UDP. -/
def inUse (k : PortKey) : Bool :=
  s.mappings.keys.any fun m =>
    (m.2.protocol == "tcp") == (k.protocol == "tcp") && m.2.hostPort == k.hostPort

end State

inductive Act where
  | lock (why : Section)
  | unlock
  | find (vmId : String) (k : PortKey)
  | count (vmId : String)
  | copy (vmId : String)
  | close (vmId : String) (k : PortKey)
  | append (r : Rule) (targetAddr : String)
  | listAll
  | listOf (vmId : String)
  | save (r : Rule)
  | delete (k : PortKey)
  | deleteForVM (vmId : String)
  | deleteIPLimitRow (vmId : String)
  | deleteIPLimit (vmId : String)
  | config
  | localIP (vmId : String)
  | listen (k : PortKey)
  | answer (r : Option Err)

structure Input where
  /-- Error of the database, of `GetVMLocalIP` or of `net.Listen`. -/
  fail : Option String := none
  ip : String := ""
  maxPortForward : Int := 20

/-- Reads of the mappings wait for a writer, unless it is the reader itself. -/
def State.readable (s : State) (p : Pid) : Bool :=
  match s.holder with
  | none => true
  | some (q, _) => p == q

def State.enabled (s : State) (p : Pid) : Act → Bool
  | .lock _ => s.holder.isNone
  | .find _ _ | .count _ | .copy _ => s.readable p
  | _ => true

def State.apply (s : State) (p : Pid) (i : Input) : Act → State
  | .lock why => { s with holder := some (p, why) }
  | .unlock => { s with holder := none }
  | .close vmId k => { s with mappings := s.mappings.erase (vmId, k) }
  | .append r targetAddr =>
    { s with
      mappings := s.mappings.insert (r.vmId, r.toPortKey) ⟨r.guestPort, targetAddr, r.description⟩ }
  | .save r => if i.fail.isSome then s else { s with rows := s.rows.insert r.toPortKey r.toRow }
  | .delete k => if i.fail.isSome then s else { s with rows := s.rows.erase k }
  | .deleteForVM vmId =>
    { s with
      rows := if i.fail.isSome then s.rows else s.rows.retain fun _ row => row.vmId ≠ vmId
      copied := false }
  | .deleteIPLimitRow vmId =>
    if i.fail.isSome then s else { s with ipLimitRows := s.ipLimitRows.erase vmId }
  | .deleteIPLimit vmId => { s with ipLimits := s.ipLimits.erase vmId }
  | .answer r => { s with answers := (p, r) :: s.answers }
  | .copy _ => { s with copied := true }
  | .find _ _ | .count _ | .listAll | .listOf _ | .config | .localIP _ | .listen _ => s

def machine : Machine State Input Act where
  enabled e p s := s.enabled p e
  apply e p s i := s.apply p i e

@[simp] theorem machine_enabled (e : Act) (p : Pid) (s : State) :
    machine.enabled e p s = s.enabled p e := rfl

@[simp] theorem machine_apply (e : Act) (p : Pid) (s : State) (i : Input) :
    machine.apply e p s i = s.apply p i e := rfl

abbrev MProc := Proc State Input Act Err

/-! ## The functions of the manager -/

/-- A call that can fail; `f` is what it gives otherwise. -/
def fallible {α : Type} (e : Act) (f : State → Input → α) : MProc α :=
  perform e fun _ s i =>
    match i.fail with
    | some msg => .error (.other msg)
    | none => .ok (f s i)

def find (vmId : String) (k : PortKey) : MProc (Option Entry) :=
  read (.find vmId k) fun _ s _ => s.mappings.lookup (vmId, k)

def copy (vmId : String) : MProc (List PortKey) := read (.copy vmId) fun _ s _ => s.active vmId

def listAllPortForwards : MProc (List Rule) := fallible .listAll fun s _ => s.rules

def listPortForwards (vmId : String) : MProc (List Rule) :=
  fallible (.listOf vmId) fun s _ => s.rulesOf vmId

def hasMapping (vmId : String) (k : PortKey) : MProc Bool := do
  let e ← find vmId k
  pure e.isSome

variable {vmId : String} {φ : Act → Prop}

theorem uses_hasMapping {k : PortKey} (h : φ (.find vmId k)) : Prog.Uses φ (hasMapping vmId k) :=
  uses_bind (.perform h) fun _ => trivial

def hasPersistedMapping (vmId : String) (k : PortKey) : MProc Bool := do
  match ← (listPortForwards vmId).attempt with
  | .error _ => pure false
  | .ok rules => pure (rules.any fun r => r.toPortKey = k)

theorem uses_hasPersistedMapping (h : φ (.listOf vmId)) (k : PortKey) :
    Prog.Uses φ (hasPersistedMapping vmId k) := by
  refine uses_bind (uses_attempt (.perform h)) fun rules => ?_
  cases rules <;> trivial

/-- The errors of the database are ignored. -/
def removeEntryLocked (vmId : String) (k : PortKey) (deleteDB : Bool) : MProc Unit := do
  match ← find vmId k with
  | none => pure ()
  | some _ => do
    run (.close vmId k)
    if deleteDB then run (.delete k) else pure ()

def listen (k : PortKey) : MProc Unit :=
  perform (.listen k) fun _ s i =>
    match i.fail with
    | some msg => .error (.other msg)
    | none =>
      let network := if k.protocol = "tcp" then "tcp" else "udp"
      if s.inUse k then
        .error (.other s!"listen {network} :{k.hostPort}: bind: address already in use")
      else .ok ()

/-- The last part of `addMapping`: the address of the guest, the listener, the entry, the row. -/
def establish (r : Rule) : MProc Unit := do
  let ip ← fallible (.localIP r.vmId) fun _ i => i.ip
  if ip = "" then fail (.noAddress r.vmId)
  else do
    listen r.toPortKey
    run (.append r (formatTargetAddress ip r.guestPort))
    run (.save r)

def withinLimit (vmId : String) : MProc Unit := do
  let maxPF ← read .config fun _ _ i => i.maxPortForward
  let n ← read (.count vmId) fun _ s _ => (s.active vmId).length
  if maxPF ≤ n then fail (.limitReached n maxPF) else pure ()

def checkedLimit (vmId : String) (checkLimit existing : Bool) : MProc Unit :=
  if checkLimit && !existing then withinLimit vmId else pure ()

theorem uses_checkedLimit (hconfig : φ .config) (hcount : φ (.count vmId))
    (checkLimit existing : Bool) : Prog.Uses φ (checkedLimit vmId checkLimit existing) := by
  unfold checkedLimit
  split
  · refine uses_bind (.perform hconfig) fun maxPF => uses_bind (.perform hcount) fun n => ?_
    split <;> trivial
  · trivial

def limited (r : Rule) (checkLimit existing : Bool) : MProc Unit := do
  checkedLimit r.vmId checkLimit existing
  establish r

/-- A requested port below 20000 needs a mapping that is already there. -/
def admitted (r : Rule) (checkLimit existing : Bool) : MProc Unit :=
  if checkLimit && decide (r.hostPort < minNewPort) && !existing then do
    if ← hasPersistedMapping r.vmId r.toPortKey then limited r checkLimit true
    else lift (validateHostPort r.hostPort false)
  else limited r checkLimit existing

def addLocked (r : Rule) (checkLimit : Bool) : MProc Unit := do
  match ← find r.vmId r.toPortKey with
  | none => admitted r checkLimit false
  | some e =>
    if e.Is r.toRow then pure ()
    else do
      removeEntryLocked r.vmId r.toPortKey true
      admitted r checkLimit true

def addMapping (r : Rule) (checkLimit : Bool) : MProc Unit := do
  lift (validateHostPort r.hostPort true)
  lift (validateGuestPort r.guestPort)
  bracket (.lock (.add r checkLimit)) .unlock (addLocked r checkLimit)

theorem addMapping_cases (r : Rule) (checkLimit : Bool) :
    (∃ e, addMapping r checkLimit = fail e) ∨
      validateHostPort r.hostPort true = .ok () ∧ validateGuestPort r.guestPort = .ok () ∧
        addMapping r checkLimit =
          bracket (.lock (.add r checkLimit)) .unlock (addLocked r checkLimit) := by
  unfold addMapping
  cases validateHostPort r.hostPort true with
  | error e => exact .inl ⟨e, rfl⟩
  | ok _ =>
    cases validateGuestPort r.guestPort with
    | error e => exact .inl ⟨e, rfl⟩
    | ok _ => exact .inr ⟨rfl, rfl, rfl⟩

/-- `AddMapping`. -/
def requestMapping (r : Rule) : MProc Unit := addMapping r true

def removeMapping (vmId : String) (k : PortKey) : MProc Unit :=
  bracket (.lock (.remove vmId k)) .unlock (removeEntryLocked vmId k true)

/-! ### The full synchronisation of one VM -/

/-- Ports below 20000 that the VM already has. -/
def legacy (persisted : List Rule) (current : List PortKey) : List PortKey :=
  (persisted.map (·.toPortKey) ++ current).filter fun k => k.hostPort < minNewPort

def precheck (legacy : List PortKey) : List PortKey → List DesiredRule → Except Err Unit
  | _, [] => .ok ()
  | seen, d :: ds =>
    if d.protocol ≠ "tcp" ∧ d.protocol ≠ "udp" then .error (.unsupportedProtocol d.protocol)
    else if d.toPortKey ∈ seen then .error (.duplicate d.toPortKey)
    else do
      validateHostPort d.hostPort (decide (d.toPortKey ∈ legacy))
      validateGuestPort d.guestPort
      precheck legacy (d.toPortKey :: seen) ds

def wanted (desired : List DesiredRule) (k : PortKey) : Bool :=
  desired.any fun d => d.toPortKey = k

def dropUndesired (vmId : String) (desired : List DesiredRule) (k : PortKey) : MProc Unit :=
  if wanted desired k then pure () else removeMapping vmId k

def syncForVM (vmId : String) (desired : List DesiredRule) : MProc Unit := do
  let persisted ← mapErr (fun e => .listExisting e.text) (listPortForwards vmId)
  let current ← copy vmId
  lift (precheck (legacy persisted current) [] desired)
  forEach (dropUndesired vmId desired) current
  forEach (fun d => requestMapping (d.rule vmId)) desired

def deleteVM (vmId : String) : MProc Unit := do
  let entries ← copy vmId
  forEach (removeMapping vmId) entries
  run (.deleteForVM vmId)
  run (.deleteIPLimitRow vmId)
  run (.deleteIPLimit vmId)

/-! ### Rules from the table -/

/-- An addition whose failure is only logged. -/
def tryAdd (r : Rule) : MProc Unit := do
  let _ ← (addMapping r false).attempt
  pure ()

def refreshVM (vmId : String) : MProc Unit := do
  match ← (listPortForwards vmId).attempt with
  | .error _ => pure ()
  | .ok rules =>
    if rules.isEmpty then pure ()
    else do
      bracket (.lock (.refresh vmId)) .unlock
        (forEach (fun r => removeEntryLocked vmId r.toPortKey false) rules)
      forEach tryAdd rules

def reconcileRule (r : Rule) : MProc Unit := do
  if ← hasMapping r.vmId r.toPortKey then pure () else tryAdd r

/-- One tick of the loop. -/
def reconcile : MProc Unit := do
  match ← listAllPortForwards.attempt with
  | .error _ => pure ()
  | .ok all => forEach reconcileRule all

/-- The loop, for the given number of ticks. -/
def reconcileLoop : Nat → MProc Unit
  | 0 => pure ()
  | n + 1 => do
    reconcile
    reconcileLoop n

def restoreRules : MProc Unit := do
  match ← listAllPortForwards.attempt with
  | .error _ => pure ()
  | .ok all => forEach tryAdd all

/-- `Restore`, which the agent calls when it starts. -/
def restore (n : Nat) : MProc Unit := do
  restoreRules
  reconcileLoop n

end RunmanAgent.GoAgent
