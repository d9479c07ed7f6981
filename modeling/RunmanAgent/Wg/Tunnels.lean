import RunmanAgent.Concurrency.Server
import RunmanAgent.Data.SortedMap
import RunmanAgent.Wg.Binding

/-!
# WireGuard tunnels of dedicated addresses (`src/runtime/wg.rs`)

Each binding has a slot with a number `n`: its interface is `<prefix><n>`, and its routing table
`table_base + n`. `Host` is what the agent sets up on the host for it: the interface, the default
route of the table, the rule that sends traffic from the address to the table, and the route of
the address on the bridge. Deleting an interface takes the routes through it along.

`World` adds the slots in memory and in `wg.json`, and which bindings have been applied in this
process. `tunnels` is `Tunnels` as a server: one `reconcile` after the other, any command or save
failing without effect, and the agent restarting at any time.
-/

namespace RunmanAgent.Wg

open Concurrency

/-! ## The host -/

inductive Family where
  | inet
  | inet6
  deriving DecidableEq

def familyOf : IpAddr → Family
  | .v4 _ => .inet
  | .v6 _ => .inet6

structure Host where
  links : List String := []
  /-- `from <address> lookup <table>`. -/
  rules : List (IpAddr × Nat) := []
  /-- Default routes: family, table, interface. -/
  defaults : List (Family × Nat × String) := []
  /-- Addresses with a host route on the bridge. -/
  bridge : List IpAddr := []
  deriving DecidableEq

inductive Cmd where
  | linkAdd (dev : String)
  | linkDel (dev : String)
  | wgSet (dev : String) (args : List String) (stdin : Option String)
  | linkUp (dev : String)
  | rpFilter (dev : String)
  | replaceDefault (family : Family) (dev : String) (table : Nat)
  | replaceRoute (address : IpAddr)
  | ruleDel (address : IpAddr) (table : Nat)
  | ruleAdd (address : IpAddr) (table : Nat)
  | flush (family : Family) (table : Nat)
  | routeDel (address : IpAddr)
  deriving DecidableEq

instance (x : IpAddr × Nat) (l : List (IpAddr × Nat)) : Decidable (x ∈ l) := inferInstance

/-- What a command does when the kernel accepts it. -/
def Cmd.exec (h : Host) : Cmd → Option Host
  | .linkAdd dev => if dev ∈ h.links then none else some { h with links := dev :: h.links }
  | .linkDel dev =>
    if dev ∈ h.links then
      some { h with links := h.links.filter (· ≠ dev), defaults := h.defaults.filter (·.2.2 ≠ dev) }
    else none
  | .wgSet dev _ _ | .linkUp dev | .rpFilter dev => if dev ∈ h.links then some h else none
  | .replaceDefault family dev table =>
    if dev ∈ h.links then
      some { h with defaults := (family, table, dev) ::
                      h.defaults.filter fun d => ¬(d.1 = family ∧ d.2.1 = table) }
    else none
  | .replaceRoute address => some { h with bridge := address :: h.bridge.filter (· ≠ address) }
  | .ruleDel address table =>
    if (address, table) ∈ h.rules then some { h with rules := h.rules.erase (address, table) }
    else none
  | .ruleAdd address table => some { h with rules := (address, table) :: h.rules }
  | .flush family table =>
    some { h with defaults := h.defaults.filter fun d => ¬(d.1 = family ∧ d.2.1 = table) }
  | .routeDel address =>
    if address ∈ h.bridge then some { h with bridge := h.bridge.filter (· ≠ address) } else none

/-! ## State and actions -/

/-- What is persisted per binding: enough to tear it down after a restart. -/
structure Slot where
  n : Nat
  vmId : String
  address : IpAddr
  deriving DecidableEq

abbrev Slots := SortedMap String Slot

/-- The fields of `Tunnels` that do not change, and the hash of a binding without its id. -/
structure Config where
  pfx : String
  tableBase : Nat
  fingerprint : Binding → Nat

structure World where
  slots : Slots := {}
  /-- Fingerprint and endpoint of the bindings that have been set up. -/
  applied : SortedMap String (Nat × String) := .empty
  disk : Option Slots := none
  host : Host := {}

inductive Act where
  | cmd (c : Cmd)
  | resolve (endpoint : String)
  | save
  | insertSlot (resource : String) (slot : Slot)
  /-- The resource leaves both maps. -/
  | remove (resource : String)
  | setApplied (resource : String) (fingerprint : Nat) (endpoint : String)
  | dropApplied (resource : String)
  /-- Reading of the maps and of `/sys/class/net`. -/
  | look
  deriving DecidableEq

structure Input where
  /-- A command, a save or a lookup fails, with this text. -/
  fail : Option String := none
  /-- What the endpoint resolves to. -/
  addr : String := ""

def World.apply (w : World) (i : Input) : Act → World
  | .cmd c => { w with host := if i.fail.isSome then w.host else (c.exec w.host).getD w.host }
  | .save => { w with disk := if i.fail.isSome then w.disk else some w.slots }
  | .insertSlot resource slot => { w with slots := w.slots.insert resource slot }
  | .remove resource =>
    { w with slots := w.slots.erase resource, applied := w.applied.erase resource }
  | .setApplied resource fp ep => { w with applied := w.applied.insert resource (fp, ep) }
  | .dropApplied resource => { w with applied := w.applied.erase resource }
  | .resolve _ | .look => w

def machine : Machine World Input Act where
  enabled _ _ _ := true
  apply e _ w i := w.apply i e

abbrev HostProc := Proc World Input Act String

open Proc

def look : HostProc World := read .look fun _ w _ => w

/-- `run(Command::new(..))`. -/
def command (c : Cmd) : HostProc Unit :=
  perform (.cmd c) fun _ w i =>
    match i.fail, c.exec w.host with
    | none, some _ => .ok ()
    | e, _ => .error (e.getD "command failed")

/-- A command whose failure is ignored. -/
def ignored (c : Cmd) : HostProc Unit := do
  let _ ← (command c).attempt
  pure ()

def save : HostProc Unit :=
  perform .save fun _ _ i => match i.fail with
    | some e => .error e
    | none => .ok ()

def resolveEndpoint (endpoint : String) : HostProc String :=
  perform (.resolve endpoint) fun _ _ i => match i.fail with
    | some e => .error ("resolve endpoint " ++ endpoint ++ ": " ++ e)
    | none => .ok i.addr

variable (cfg : Config)

def iface (slot : Slot) : String := cfg.pfx ++ toString slot.n

def table (slot : Slot) : Nat := cfg.tableBase + slot.n

/-- The smallest number that no slot has. -/
def freeN (slots : Slots) : Nat :=
  let used := slots.values.map (·.n)
  ((List.range (used.length + 1)).find? (· ∉ used)).getD 0

def peerArgs (b : Binding) (endpoint : String) : List String :=
  ["peer", b.peerPublicKey, "endpoint", endpoint, "allowed-ips",
    String.intercalate "," b.allowedIps, "persistent-keepalive", toString b.keepalive]

def setPeer (dev : String) (b : Binding) (endpoint : String) : HostProc Unit :=
  if b.presharedKey.isEmpty then command (.wgSet dev (peerArgs b endpoint) none)
  else command (.wgSet dev (peerArgs b endpoint ++ ["preshared-key", "/dev/stdin"])
    (some b.presharedKey))

/-- `ip link del`, if the interface is there. -/
def dropLink (dev : String) : HostProc Unit := do
  let w ← look
  if dev ∈ w.host.links then command (.linkDel dev) else pure ()

/-- `rp_filter` is switched off for an IPv4 address. -/
def relaxFilter (dev : String) (address : IpAddr) : HostProc Unit :=
  if familyOf address = .inet then ignored (.rpFilter dev) else pure ()

def setup (slot : Slot) (b : Binding) (endpoint : String) : HostProc Unit := do
  let ifc := iface cfg slot
  let tbl := table cfg slot
  dropLink ifc
  command (.linkAdd ifc)
  command (.wgSet ifc ["private-key", "/dev/stdin"] (some b.privateKey))
  setPeer ifc b endpoint
  command (.linkUp ifc)
  relaxFilter ifc b.address
  command (.replaceDefault (familyOf b.address) ifc tbl)
  command (.replaceRoute b.address)
  ignored (.ruleDel b.address tbl)
  command (.ruleAdd b.address tbl)

/-- Delete the rule as long as this succeeds: at most once for each copy. -/
def dropRules (address : IpAddr) (tbl : Nat) : HostProc Unit := do
  let w ← look
  whileOk (command (.ruleDel address tbl)) (pure ()) (w.host.rules.count (address, tbl))

def teardown (slot : Slot) : HostProc Unit := do
  dropRules slot.address (table cfg slot)
  ignored (.flush (familyOf slot.address) (table cfg slot))
  ignored (.routeDel slot.address)
  dropLink (iface cfg slot)

/-- One resource that is not wanted any more. -/
def removeStale (resource : String) : HostProc Unit := do
  let w ← look
  match w.slots.get resource with
  | none => pure ()
  | some slot =>
    match ← (teardown cfg slot).attempt with
    | .error _ => pure ()
    | .ok _ =>
      run (.remove resource)
      save

/-- The slot is stored for the binding as it is. -/
def sameSlot (b : Binding) (slot : Slot) : Bool :=
  slot.vmId == b.vmId.asStr && slot.address == b.address

/-- The tunnel is set up, with this configuration. -/
def upToDate (w : World) (b : Binding) : Bool :=
  match w.applied.get b.resourceId, w.slots.get b.resourceId with
  | some (fp, _), some slot =>
    fp == cfg.fingerprint b && sameSlot b slot && decide (iface cfg slot ∈ w.host.links)
  | _, _ => false

/-- The gateway's name may resolve elsewhere now. -/
def refreshEndpoint (w : World) (b : Binding) (endpoint : String) : HostProc Unit := do
  match w.applied.get b.resourceId, w.slots.get b.resourceId with
  | some (fp, ep), some slot =>
    if ep ≠ endpoint then
      match ← (command (.wgSet (iface cfg slot)
          ["peer", b.peerPublicKey, "endpoint", endpoint] none)).attempt with
      | .error _ => pure ()
      | .ok _ => run (.setApplied b.resourceId fp endpoint)
    else pure ()
  | _, _ => pure ()

/-- The slot to set up, or `none` if the old one cannot be torn down. -/
def nextSlot (w : World) (b : Binding) : HostProc (Option Slot) := do
  match w.slots.get b.resourceId with
  | some old =>
    if sameSlot b old then pure (some old)
    else
      match ← (teardown cfg old).attempt with
      | .error _ => pure none
      | .ok _ => pure (some ⟨old.n, b.vmId.asStr, b.address⟩)
  | none => pure (some ⟨freeN w.slots, b.vmId.asStr, b.address⟩)

def install (slot : Slot) (b : Binding) (endpoint : String) : HostProc Unit := do
  run (.insertSlot b.resourceId slot)
  save
  match ← (setup cfg slot b endpoint).attempt with
  | .ok _ => run (.setApplied b.resourceId (cfg.fingerprint b) endpoint)
  | .error _ => run (.dropApplied b.resourceId)

def reconcileBinding (b : Binding) : HostProc Unit := do
  match ← (resolveEndpoint b.endpoint).attempt with
  | .error _ => pure ()
  | .ok endpoint =>
    let w ← look
    if upToDate cfg w b then refreshEndpoint cfg w b endpoint
    else
      match ← nextSlot cfg w b with
      | none => pure ()
      | some slot => install cfg slot b endpoint

/-- The stored resources that are not desired. -/
def stale (slots : Slots) (desired : List Binding) : List String :=
  slots.keys.filter fun r => r ∉ desired.map (·.resourceId)

def reconcile (desired : List Binding) : HostProc Unit := do
  let w ← look
  forEach (removeStale cfg) (stale w.slots desired)
  forEach (reconcileBinding cfg) desired

/-! ## The server -/

/-- `Tunnels::load` after a crash. -/
def World.restart (w : World) : Option World :=
  some { w with slots := w.disk.getD {}, applied := {} }

def tunnels : Server machine (List Binding) where
  code desired := Prog.bind (reconcile cfg desired) fun _ => .ret ()
  restart := World.restart

instance : DecidablePred (tunnels cfg).others := fun _ => .isFalse id

def gateway : Config where
  pfx := "rw"
  tableBase := 20000
  fingerprint b := b.keepalive

def first : Binding where
  resourceId := "res-1"
  vmId := ⟨1⟩
  address := .v4 0xcb007105
  privateKey := "cV3ISTw2V5pbEWmVEA9jXjVy/fhwPnCO8aCNlDs2d04="
  peerPublicKey := "76HzdddhlPpRo1Vql+ZB5haF+RTURpedpQpVGkMz/9c="
  presharedKey := ""
  endpoint := "192.0.2.1:51820"
  allowedIps := ["0.0.0.0/0", "::/0"]
  keepalive := 25

def second : Binding := { first with resourceId := "res-2", vmId := ⟨2⟩, address := .v4 0xcb007106 }

/-! ## Names and numbers -/

variable {cfg} {s s' : Slot} {slots : Slots}

theorem iface_inj (h : iface cfg s = iface cfg s') : s.n = s'.n := by
  have hrepr : Nat.repr s.n = Nat.repr s'.n := (String.append_right_inj _).mp h
  exact Text.repr_injective hrepr

theorem table_inj (h : table cfg s = table cfg s') : s.n = s'.n := by
  unfold table at h
  omega

theorem freeN_notMem (slots : Slots) : freeN slots ∉ slots.values.map (·.n) := by
  unfold freeN
  generalize slots.values.map (·.n) = used
  have hfree : ∃ n ∈ List.range (used.length + 1), n ∉ used := by
    by_contra hall
    have hsub : List.range (used.length + 1) ⊆ used := fun n hn =>
      not_not.mp fun hnot => hall ⟨n, hn, hnot⟩
    have hle := List.nodup_range.length_le_of_subset hsub
    simp at hle
  obtain ⟨n, hn, hnot⟩ := hfree
  have hsome : ((List.range (used.length + 1)).find? (· ∉ used)).isSome :=
    List.find?_isSome.mpr ⟨n, hn, by simpa using hnot⟩
  obtain ⟨m, hm⟩ := Option.isSome_iff_exists.mp hsome
  have hmem := List.find?_some hm
  simp only [hm, Option.getD_some]
  simpa using hmem

theorem freeN_ne {r : String} (h : slots.get r = some s) : freeN slots ≠ s.n := by
  intro hn
  refine freeN_notMem slots ?_
  rw [hn]
  exact List.mem_map_of_mem (SortedMap.mem_values.mpr ⟨r, h⟩)

end RunmanAgent.Wg
