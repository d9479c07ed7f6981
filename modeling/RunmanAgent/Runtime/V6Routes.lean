import RunmanAgent.Concurrency.Embed
import RunmanAgent.Runtime.Ruleset
import RunmanAgent.Wg.Converge

/-!
# Host routes of instances and of dedicated addresses (`Net::apply` of `src/runtime/net.rs`)

In subnet mode an application of the network rules installs the routes of the instances'
addresses on the bridge, and removes every other host route inside the prefix. The routes of
the dedicated addresses are on the same bridge, where the WireGuard tunnels put them. A pool
has any number of reconciles of the tunnels and of applications, in any interleaving.
`apply_spares_iff` says when an application never removes the route of a bound address.
-/

namespace RunmanAgent.V6Routes

open Concurrency Proc Text

/-! ## State and actions -/

structure State where
  tunnels : Wg.World := {}
  /-- NDP proxy entries: interface and address. -/
  proxies : List (String × Nat) := []

inductive Act where
  | wg (e : Wg.Act)
  | nft (rules : String)
  | iptablesCheck (tool dir : String)
  | iptablesInsert (tool dir : String)
  | routeReplace (a : Nat)
  | routeShow
  | routeDel (a : Nat)
  | neighReplace (a : Nat) (up : String)
  | neighShow (up : String)
  | neighDel (a : Nat) (up : String)

structure Input extends Wg.Input where
  /-- What a listing prints. -/
  stdout : String := ""
  /-- Exit code of a check, if there is one. -/
  code : Option Nat := none

def State.apply (s : State) (i : Input) : Act → State
  | .wg e => { s with tunnels := s.tunnels.apply i.toInput e }
  | .routeReplace a =>
    { s with tunnels := s.tunnels.apply i.toInput (.cmd (.replaceRoute (.v6 a))) }
  | .routeDel a => { s with tunnels := s.tunnels.apply i.toInput (.cmd (.routeDel (.v6 a))) }
  | .neighReplace a up =>
    if i.fail.isSome then s
    else { s with proxies := (up, a) :: s.proxies.filter (· ≠ (up, a)) }
  | .neighDel a up =>
    if i.fail.isSome then s else { s with proxies := s.proxies.filter (· ≠ (up, a)) }
  | .nft _ | .iptablesCheck _ _ | .iptablesInsert _ _ | .routeShow | .neighShow _ => s

def machine : Machine State Input Act where
  enabled _ _ _ := true
  apply e _ s i := s.apply i e

abbrev NetProc := Proc State Input Act String

/-! ## The application of the rules -/

/-- `run(Command::new(..))`. -/
def command (e : Act) : NetProc Unit :=
  perform e fun _ _ i => match i.fail with
    | some e => .error e
    | none => .ok ()

/-- A command whose failure is ignored. -/
def ignored (e : Act) : NetProc Unit := do
  let _ ← (command e).attempt
  pure ()

def output (e : Act) : NetProc String :=
  perform e fun _ _ i => match i.fail with
    | some e => .error e
    | none => .ok i.stdout

/-- Destination of an `ip -6 route` line if it is a single-address route. -/
def hostRoute (dst : List Char) : Option Nat :=
  match splitOnce '/' dst with
  | some (addr, l) => if l = ['1', '2', '8'] then Net.parseIpv6 addr else none
  | none => Net.parseIpv6 dst

/-- What `f` reads from the first word of each line. -/
def firstWords (f : List Char → Option Nat) (text : String) : List Nat :=
  (lines text.toList).filterMap fun l => (words l).head?.bind f

def want (instances : List Port) : List Nat := instances.filterMap fun p => p.addrs.ipv6

def inPrefix (pfx len a : Nat) : Bool := len == 0 || (a ^^^ pfx) >>> (128 - len) == 0

/-- Addresses inside the prefix that no instance has. -/
def stale (pfx len : Nat) (instances : List Port) (as : List Nat) : List Nat :=
  as.filter fun a => inPrefix pfx len a && !(want instances).contains a

def addRoute (uplink : Option String) (a : Nat) : NetProc Unit := do
  command (.routeReplace a)
  match uplink with
  | some up => command (.neighReplace a up)
  | none => pure ()

def dropProxies (pfx len : Nat) (instances : List Port) : Option String → NetProc Unit
  | none => pure ()
  | some up => do
    let proxies ← output (.neighShow up)
    forEach (fun a => ignored (.neighDel a up))
      (stale pfx len instances (firstWords Net.parseIpv6 proxies))

def syncV6Routes (instances : List Port) (pfx len : Nat) (uplink : Option String) :
    NetProc Unit := do
  forEach (addRoute uplink) (want instances)
  let routes ← output .routeShow
  forEach (fun a => ignored (.routeDel a)) (stale pfx len instances (firstWords hostRoute routes))
  dropProxies pfx len instances uplink

/-- One `FORWARD` rule: inserted if the check says that it is missing. -/
def allowInForward (rule : String × String) : NetProc Unit := do
  let code ← read (.iptablesCheck rule.1 rule.2) fun _ _ i => i.code
  if code = some 1 then ignored (.iptablesInsert rule.1 rule.2) else pure ()

def allowInIptablesForward : NetProc Unit :=
  forEach allowInForward
    [("iptables", "-i"), ("iptables", "-o"), ("ip6tables", "-i"), ("ip6tables", "-o")]

def syncRoutes (net : Net) (instances : List Port) : NetProc Unit :=
  match net.v6 with
  | .subnet pfx len uplink => syncV6Routes instances pfx len uplink
  | _ => pure ()

def applyRules (net : Net) (instances : List Port) (forwards : List Forward) : NetProc Unit := do
  (command (.nft (net.ruleset instances forwards))).mapErr ("nft rejected ruleset: " ++ ·)
  allowInIptablesForward
  syncRoutes net instances

/-! ## Pools -/

inductive Call where
  | reconcile (desired : List Wg.Binding)
  | apply (instances : List Port) (forwards : List Forward)

def reconcileTunnels (cfg : Wg.Config) (desired : List Wg.Binding) : NetProc Unit :=
  ((Wg.reconcile cfg desired).feed Input.toInput).embed State.tunnels Act.wg

def Call.code (cfg : Wg.Config) (net : Net) : Call → Prog State Input Act Unit
  | reconcile desired => Prog.bind (reconcileTunnels cfg desired) fun _ => .ret ()
  | apply instances forwards => Prog.bind (applyRules net instances forwards) fun _ => .ret ()

def pool (cfg : Wg.Config) (net : Net) (calls : Pid → Option Call) (w : Wg.World) :
    Pool State Input Act :=
  ⟨{ tunnels := w }, fun p => match calls p with
    | some c => c.code cfg net
    | none => .ret ()⟩

/-- The address has a slot. -/
def State.Bound (s : State) (a : Nat) : Prop :=
  ∃ r slot, s.tunnels.slots.get r = some slot ∧ slot.address = .v6 a

/-- No application is about to remove the route of a bound address. -/
def Spared (P : Pool State Input Act) : Prop :=
  ∀ p a nx, P.procs p = .act (.routeDel a) nx → .v6 a ∈ P.mem.tunnels.host.bridge → ¬P.mem.Bound a

/-- A route that the listing has to have. -/
def Listed (text : String) : IpAddr → Prop
  | .v6 a => a < 2 ^ 128 → a ∈ firstWords hostRoute text
  | .v4 _ => True

/-- The listing has the host routes that are on the bridge, in whatever form. -/
def Truthful (_ : Pid) (e : Act) (s : State) (i : Input) : Prop :=
  match e with
  | .routeShow => (∀ a ∈ firstWords hostRoute i.stdout, .v6 a ∈ s.tunnels.host.bridge) ∧
      ∀ x ∈ s.tunnels.host.bridge, Listed i.stdout x
  | _ => True

/-- The bound IPv6 addresses are among `dedicated`, and the rules are applied for `instances`. -/
def Within (dedicated : Nat → Prop) (instances : List Port → Prop) : Call → Prop
  | .reconcile desired => ∀ b ∈ desired, ∀ a, b.address = .v6 a → dedicated a
  | .apply ports _ => instances ports

/-! ## What the calls do -/

section Uses

variable {net : Net} {instances : List Port} {forwards : List Forward} {pfx len : Nat}
  {uplink : Option String} {φ : Act → Prop}

/-- The actions of an application: it removes stale routes only. -/
def Act.OfApply (pfx len : Nat) (instances : List Port) : Act → Prop
  | .wg _ => False
  | .routeDel a => inPrefix pfx len a = true ∧ a ∉ want instances
  | _ => True

theorem mem_stale {as : List Nat} {a : Nat} :
    a ∈ stale pfx len instances as ↔ a ∈ as ∧ inPrefix pfx len a = true ∧ a ∉ want instances := by
  simp [stale]

theorem uses_ignored {e : Act} (h : φ e) : (ignored e).Uses φ :=
  uses_bind (uses_attempt (.perform h)) fun _ => trivial

theorem uses_syncV6Routes :
    (syncV6Routes instances pfx len uplink).Uses (Act.OfApply pfx len instances) := by
  refine uses_bind (uses_forEach fun a => ?_) fun _ => uses_bind (.perform trivial)
    fun routes => uses_bind (uses_forEach_mem fun a ha => ?_) fun _ => ?_
  · refine uses_bind (.perform trivial) fun _ => ?_
    cases uplink with
    | none => trivial
    | some up => exact .perform trivial
  · exact uses_ignored (mem_stale.mp ha).2
  · cases uplink with
    | none => trivial
    | some up =>
      exact uses_bind (.perform trivial) fun _ =>
        uses_forEach fun a => uses_ignored trivial

theorem uses_applyRules (hv6 : net.v6 = .subnet pfx len uplink) :
    (applyRules net instances forwards).Uses (Act.OfApply pfx len instances) := by
  refine uses_bind (uses_mapErr (.perform trivial)) fun _ => uses_bind
    (uses_forEach fun rule => uses_bind (.perform trivial) fun code => ?_) fun _ => ?_
  · split
    · exact uses_ignored trivial
    · trivial
  · rw [syncRoutes, hv6]
    exact uses_syncV6Routes

/-- New slots have these addresses. -/
def inserts (ok : IpAddr → Prop) : Wg.Act → Prop
  | .insertSlot _ slot => ok slot.address
  | _ => True

variable {cfg : Wg.Config} {b : Wg.Binding} {ok : IpAddr → Prop}

theorem inserts_command {c : Wg.Cmd} : (Wg.command c).Uses (inserts ok) := .perform trivial

theorem inserts_look : Wg.look.Uses (inserts ok) := .perform trivial

theorem inserts_ignored {c : Wg.Cmd} : (Wg.ignored c).Uses (inserts ok) :=
  uses_bind (uses_attempt inserts_command) fun _ => trivial

theorem inserts_dropLink {dev : String} : (Wg.dropLink dev).Uses (inserts ok) := by
  refine uses_bind inserts_look fun v => ?_
  split
  · exact inserts_command
  · trivial

theorem inserts_teardown {s : Wg.Slot} : (Wg.teardown cfg s).Uses (inserts ok) :=
  uses_bind (uses_bind inserts_look fun _ => uses_whileOk inserts_command trivial) fun _ =>
  uses_bind inserts_ignored fun _ => uses_bind inserts_ignored fun _ => inserts_dropLink

theorem inserts_setup {s : Wg.Slot} {ep : String} : (Wg.setup cfg s b ep).Uses (inserts ok) := by
  refine uses_bind inserts_dropLink fun _ => uses_bind inserts_command fun _ =>
    uses_bind inserts_command fun _ => uses_bind ?_ fun _ => uses_bind inserts_command fun _ =>
    uses_bind ?_ fun _ => uses_bind inserts_command fun _ => uses_bind inserts_command fun _ =>
    uses_bind inserts_ignored fun _ => inserts_command
  · unfold Wg.setPeer
    split <;> exact inserts_command
  · unfold Wg.relaxFilter
    split
    · exact inserts_ignored
    · trivial

theorem inserts_refreshEndpoint {w : Wg.World} {ep : String} :
    (Wg.refreshEndpoint cfg w b ep).Uses (inserts ok) := by
  unfold Wg.refreshEndpoint
  split
  · split
    · refine uses_bind (uses_attempt inserts_command) fun x => ?_
      cases x with
      | error e => trivial
      | ok _ => exact .perform trivial
    · trivial
  · trivial

theorem inserts_removeStale {r : String} : (Wg.removeStale cfg r).Uses (inserts ok) := by
  refine uses_bind inserts_look fun w => ?_
  split
  · trivial
  · refine uses_bind (uses_attempt inserts_teardown) fun x => ?_
    cases x with
    | error e => trivial
    | ok _ =>
      exact uses_bind (.perform trivial) fun _ => .perform trivial

theorem returns_nextSlot {w : Wg.World} :
    Returns (fun o : Option Wg.Slot => ∀ slot, o = some slot → slot.address = b.address)
      (Wg.nextSlot cfg w b) := by
  unfold Wg.nextSlot
  cases w.slots.get b.resourceId with
  | none => exact returns_pure fun slot h => by cases h; rfl
  | some old =>
    dsimp only
    have hsame : Wg.sameSlot b old = true → old.address = b.address := fun h =>
      beq_iff_eq.mp (Bool.and_eq_true_iff.mp h).2
    generalize Wg.sameSlot b old = same at hsame
    cases same with
    | true =>
      refine returns_pure fun slot h => ?_
      cases h
      exact hsame rfl
    | false =>
      refine returns_bind fun x => ?_
      cases x with
      | error e => exact returns_pure nofun
      | ok _ => exact returns_pure fun slot h => by cases h; rfl

theorem inserts_nextSlot {w : Wg.World} : (Wg.nextSlot cfg w b).Uses (inserts ok) := by
  unfold Wg.nextSlot
  cases w.slots.get b.resourceId with
  | none => trivial
  | some old =>
    dsimp only
    generalize Wg.sameSlot b old = same
    cases same with
    | true => trivial
    | false =>
      refine uses_bind (uses_attempt inserts_teardown) fun x => ?_
      cases x <;> trivial

theorem inserts_reconcileBinding (hb : ok b.address) :
    (Wg.reconcileBinding cfg b).Uses (inserts ok) := by
  refine uses_bind (uses_attempt (.perform trivial)) fun x => ?_
  cases x with
  | error e => trivial
  | ok ep =>
    refine uses_bind inserts_look fun w => ?_
    split
    · exact inserts_refreshEndpoint
    · refine uses_bind_returns inserts_nextSlot returns_nextSlot fun o ho => ?_
      cases o with
      | none => trivial
      | some slot =>
        have hslot : ok slot.address := by
          rwa [ho slot rfl]
        refine uses_bind (.perform hslot) fun _ =>
          uses_bind (.perform trivial) fun _ =>
          uses_bind (uses_attempt inserts_setup) fun x => ?_
        cases x <;> exact .perform trivial

theorem inserts_reconcile {desired : List Wg.Binding} (hd : ∀ b ∈ desired, ok b.address) :
    (Wg.reconcile cfg desired).Uses (inserts ok) :=
  uses_bind inserts_look fun _ =>
    uses_bind (uses_forEach fun _ => inserts_removeStale) fun _ =>
    uses_forEach_mem fun b hb => inserts_reconcileBinding (hd b hb)

end Uses

/-! ## When nothing is lost -/

section Spared

variable {cfg : Wg.Config} {net : Net} {pfx len : Nat} {uplink : Option String}
  {dedicated : Nat → Prop} {ports : List Port → Prop} {calls : Pid → Option Call} {w : Wg.World}

/-- The slots have dedicated addresses, and no route of such an address is removed. -/
def discipline (dedicated : Nat → Prop) : Discipline machine where
  inv s := ∀ a, s.Bound a → dedicated a
  may _ e _ := match e with
    | .wg e => inserts (fun x => ∀ a, x = .v6 a → dedicated a) e
    | .routeDel a => ¬dedicated a
    | _ => True
  ok := Truthful
  keeps {p e s i} hs _ hmay _ a := by
    rintro ⟨r, slot, hget, ha⟩
    cases e with
    | wg e =>
      cases e with
      | insertSlot r' slot' =>
        by_cases hr : r = r'
        · subst hr
          cases SortedMap.get_insert_self.symm.trans hget
          exact hmay a ha
        · exact hs a ⟨r, slot, (SortedMap.get_insert_ne hr).symm.trans hget, ha⟩
      | remove r' =>
        by_cases hr : r = r'
        · subst hr
          cases SortedMap.get_erase_self.symm.trans hget
        · exact hs a ⟨r, slot, (SortedMap.get_erase_ne hr).symm.trans hget, ha⟩
      | cmd c => exact hs a ⟨r, slot, hget, ha⟩
      | resolve ep => exact hs a ⟨r, slot, hget, ha⟩
      | save => exact hs a ⟨r, slot, hget, ha⟩
      | setApplied r' fp ep => exact hs a ⟨r, slot, hget, ha⟩
      | dropApplied r' => exact hs a ⟨r, slot, hget, ha⟩
      | look => exact hs a ⟨r, slot, hget, ha⟩
    | neighReplace b up =>
      refine hs a ⟨r, slot, ?_, ha⟩
      simp only [machine, State.apply] at hget
      split at hget <;> exact hget
    | neighDel b up =>
      refine hs a ⟨r, slot, ?_, ha⟩
      simp only [machine, State.apply] at hget
      split at hget <;> exact hget
    | _ => exact hs a ⟨r, slot, hget, ha⟩

theorem safe_of_uses {p : Pid} {x : Prog State Input Act Unit} {s : State}
    (hx : x.Uses fun e => (discipline dedicated).may p e s) :
    Safe (discipline dedicated) (discipline dedicated).may p (fun _ _ => True) x s :=
  Triple.of_uses (hx.mono fun _ he _ _ _ _ _ _ => ⟨he, trivial⟩) s trivial

theorem pool_safe (hv6 : net.v6 = .subnet pfx len uplink)
    (hown : ∀ a, dedicated a → inPrefix pfx len a = true → ∀ ps, ports ps → a ∈ want ps)
    (hcalls : ∀ p c, calls p = some c → Within dedicated ports c)
    (hw : ∀ a, State.Bound { tunnels := w } a → dedicated a) :
    (pool cfg net calls w).Safe (discipline dedicated) (fun _ _ _ => True) := by
  refine ⟨hw, fun p => ?_⟩
  cases hp : calls p with
  | none =>
    simp only [pool, hp]
    exact safe_of_uses trivial
  | some c =>
    simp only [pool, hp]
    have hc := hcalls p c hp
    refine safe_of_uses ?_
    cases c with
    | reconcile desired =>
      have hinserts : (Wg.reconcile cfg desired).Uses
          (inserts fun x => ∀ a, x = .v6 a → dedicated a) := inserts_reconcile hc
      have hembed : (reconcileTunnels cfg desired).Uses
          fun e => (discipline dedicated).may p e { tunnels := w } :=
        .embed_of hinserts.feed
      exact .bind hembed fun _ => trivial
    | apply ps forwards =>
      refine .bind ((uses_applyRules hv6).mono fun e he => ?_) fun _ => trivial
      cases e with
      | wg e => exact he.elim
      | routeDel a => exact fun ha => he.2 (hown a ha he.1 ps hc)
      | _ => trivial

theorem spared_of_safe {P : Pool State Input Act}
    (hP : P.Safe (discipline dedicated) (fun _ _ _ => True)) : Spared P := by
  intro p a nx hnext _ hbound
  have hsafe := hP.safe p
  rw [hnext] at hsafe
  have hmay := (hsafe P.mem .refl hP.inv {} rfl trivial).1
  exact hmay (hP.inv a hbound)

end Spared

/-! ## When a route is lost -/

section Lost

variable {cfg : Wg.Config} {net : Net} {pfx len a : Nat} {uplink : Option String}
  {instances : List Port} {forwards : List Forward}

/-- No command fails. -/
def Smooth (p : Pid) (e : Act) (s : State) (i : Input) : Prop := i.fail = none ∧ Truthful p e s i

theorem hostRoute_toText (ha : a < 2 ^ 128) :
    (words (IpAddr.v6 a).toText.toList).head?.bind hostRoute = some a := by
  have hread : readV6 (showV6 a) = some (a, []) := readV6_show ha
  have hne : showV6 a ≠ [] := by
    intro h
    rw [h] at hread
    cases hread
  have hword : words (showV6 a) = [showV6 a] :=
    words_of_forall hne fun c hc => ipChar_not_whitespace (showV6_chars hc)
  have hslash : splitOnce '/' (showV6 a) = none :=
    splitOnce_eq_none fun hc => ipChar_ne_slash (showV6_chars hc) rfl
  simp [IpAddr.toText, hword, hostRoute, hslash, Net.parseIpv6, hread]

/-- The lines of the host routes that are IPv6 addresses. -/
def routeLine : IpAddr → Option String
  | .v6 a => if a < 2 ^ 128 then some (IpAddr.v6 a).toText else none
  | .v4 _ => none

theorem firstWords_unlines (bridge : List IpAddr) :
    firstWords hostRoute (unlines (bridge.filterMap routeLine)) = bridge.filterMap fun
      | .v6 a => if a < 2 ^ 128 then some a else none
      | .v4 _ => none := by
  have hline : ∀ l ∈ bridge.filterMap routeLine, OneLine l := by
    intro l hl
    obtain ⟨x, -, hx⟩ := List.mem_filterMap.mp hl
    refine OneLine.of_blank fun c hc => ipChar_not_whitespace ?_
    cases x with
    | v4 a => cases hx
    | v6 a =>
      simp only [routeLine] at hx
      split at hx
      · cases hx
        exact IpAddr.toText_chars hc
      · cases hx
  have hlines := lines_unlines hline []
  rw [List.append_nil] at hlines
  rw [firstWords, hlines]
  simp only [lines, List.append_nil, List.filterMap_map, List.filterMap_filterMap]
  refine List.filterMap_congr fun x _ => ?_
  cases x with
  | v4 a => rfl
  | v6 a =>
    by_cases ha : a < 2 ^ 128
    · simp only [routeLine, if_pos ha]
      exact hostRoute_toText ha
    · simp only [routeLine, if_neg ha]
      rfl

theorem exists_smooth (p : Pid) (e : Act) (s : State) : ∃ i, Smooth p e s i := by
  cases e with
  | routeShow =>
    refine ⟨{ stdout := unlines (s.tunnels.host.bridge.filterMap routeLine) }, rfl, ?_, ?_⟩
    · intro a ha
      rw [firstWords_unlines] at ha
      obtain ⟨x, hx, hxa⟩ := List.mem_filterMap.mp ha
      cases x with
      | v4 b => cases hxa
      | v6 b =>
        simp only at hxa
        split at hxa
        · cases hxa
          exact hx
        · cases hxa
    · intro x hx
      cases x with
      | v4 b => trivial
      | v6 b =>
        intro hb
        rw [firstWords_unlines]
        exact List.mem_filterMap.mpr ⟨.v6 b, hx, if_pos hb⟩
  | _ => exact ⟨{}, rfl, trivial⟩

abbrev Runs {α : Type} (P : State → Prop) (p : Prog State Input Act α)
    (Q : α → State → Prop) : Prop :=
  Total machine Smooth 1 True P p Q

variable {e : Act} {s : State} {i : Input} {b : Nat} {P : State → Prop}

theorem runs_command {Q : State → Prop} (h : ∀ s i, P s → Smooth 1 e s i → Q (s.apply i e)) :
    Runs P (command e) (succeedsWith fun _ => Q) := by
  refine .perform (fun s _ _ => ⟨rfl, exists_smooth 1 e s⟩) fun s i hs hi => ?_
  rw [hi.1]
  exact h s i hs hi

theorem runs_ignored {Q : State → Prop} (h : ∀ s i, P s → Smooth 1 e s i → Q (s.apply i e)) :
    Runs P (ignored e) (succeedsWith fun _ => Q) := by
  refine .attemptBind (runs_command h) fun r => ?_
  cases r with
  | ok _ => exact .ret fun _ hs => hs
  | error e => exact .ret fun _ hs => hs.elim

theorem notMem_routeDel (hi : i.fail = none) :
    .v6 a ∉ (s.apply i (.routeDel a)).tunnels.host.bridge := by
  simp only [State.apply, Wg.World.apply, hi, Option.isSome_none, Bool.false_eq_true, if_false,
    Wg.Cmd.exec]
  split
  · simp
  · assumption

theorem mem_routeDel (h : .v6 a ∈ (s.apply i (.routeDel b)).tunnels.host.bridge) :
    .v6 a ∈ s.tunnels.host.bridge := by
  simp only [State.apply, Wg.World.apply, Wg.Cmd.exec] at h
  split at h
  · exact h
  · split at h
    · exact (List.mem_filter.mp h).1
    · exact h

theorem runs_addRoute : Runs (fun _ => True) (addRoute uplink b)
    (succeedsWith fun _ _ => True) := by
  refine .step (runs_command (Q := fun _ => True) fun _ _ _ _ => trivial) fun _ => ?_
  cases uplink with
  | none => exact .ret fun _ _ => trivial
  | some up => exact runs_command fun _ _ _ _ => trivial

theorem runs_dropProxies (hP : ∀ s i b up, P s → P (s.apply i (.neighDel b up))) :
    Runs P (dropProxies pfx len instances uplink) (succeedsWith fun _ => P) := by
  cases uplink with
  | none => exact .ret fun _ hs => hs
  | some up =>
    refine .step (R := fun _ => P) (Total.perform (fun s _ _ => ⟨rfl, exists_smooth 1 _ s⟩)
      fun s i hs hi => ?_) fun proxies => ?_
    · rwa [hi.1]
    · exact .forEach (P := fun _ => P) fun b _ => runs_ignored fun s i hs _ => hP s i b up hs

/-- An application without a failure removes the route of an address inside the prefix that no
instance has. -/
theorem runs_syncV6Routes (hpfx : inPrefix pfx len a = true) (ha : a ∉ want instances)
    (hvalid : a < 2 ^ 128) :
    Runs (fun _ => True) (syncV6Routes instances pfx len uplink)
      (succeedsWith fun _ s => .v6 a ∉ s.tunnels.host.bridge) := by
  refine .step (Total.forEach (P := fun _ _ => True) fun b _ => runs_addRoute) fun _ => ?_
  -- the listing has the route if it is there, and so has the rest of the loop until it is removed
  refine .step (R := fun text s =>
    .v6 a ∈ s.tunnels.host.bridge → a ∈ firstWords hostRoute text)
    (Total.perform (fun s _ _ => ⟨rfl, exists_smooth 1 _ s⟩) fun s i _ hi => ?_) fun text => ?_
  · rw [hi.1]
    exact fun hmem => hi.2.2 _ hmem hvalid
  refine .step (R := fun _ s => .v6 a ∉ s.tunnels.host.bridge) ?_ fun _ =>
    runs_dropProxies fun s i b up hs => ?_
  · refine .post (Total.pre (Total.forEach
      (P := fun rest s => .v6 a ∈ s.tunnels.host.bridge → a ∈ rest) fun b rest => ?_) ?_) ?_
    · refine runs_ignored fun s i hs hi hmem => ?_
      have hold := hs (mem_routeDel hmem)
      rcases hold with _ | ⟨_, hrest⟩
      · exact absurd hmem (notMem_routeDel hi.1)
      · exact hrest
    · exact fun s hs hmem => mem_stale.mpr ⟨hs hmem, hpfx, ha⟩
    · intro r s hs
      cases r with
      | ok _ => exact fun hmem => by cases hs hmem
      | error e => exact hs
  · simp only [State.apply]
    split <;> exact hs

theorem runs_applyRules (hv6 : net.v6 = .subnet pfx len uplink) (hpfx : inPrefix pfx len a = true)
    (ha : a ∉ want instances) (hvalid : a < 2 ^ 128) :
    Runs (fun _ => True) (applyRules net instances forwards)
      (succeedsWith fun _ s => .v6 a ∉ s.tunnels.host.bridge) := by
  refine .step (Total.mapErr (runs_command (Q := fun _ => True) fun _ _ _ _ => trivial)) fun _ => ?_
  refine .step (Total.forEach (P := fun _ _ => True) fun rule _ => ?_) fun _ => ?_
  · refine .step (R := fun _ _ => True)
      (Total.perform (fun s _ _ => ⟨rfl, exists_smooth 1 _ s⟩) fun _ _ _ _ => trivial)
        fun code => ?_
    split
    · exact runs_ignored fun _ _ _ _ => trivial
    · exact .ret fun _ _ => trivial
  · rw [syncRoutes, hv6]
    exact runs_syncV6Routes hpfx ha hvalid

/-- A dedicated address with its slot and its route. -/
def withAddress (a : Nat) : Wg.World where
  slots := ({} : Wg.Slots).insert "res-1" ⟨0, "", .v6 a⟩
  host := { bridge := [.v6 a] }

theorem bound_withAddress : State.Bound { tunnels := withAddress a } b ↔ b = a := by
  constructor
  · rintro ⟨r, slot, hget, hb⟩
    by_cases hr : r = "res-1"
    · subst hr
      cases SortedMap.get_insert_self.symm.trans hget
      exact (IpAddr.v6.inj hb).symm
    · cases (SortedMap.get_insert_ne hr).symm.trans hget
  · rintro rfl
    exact ⟨"res-1", _, SortedMap.get_insert_self, rfl⟩

theorem routeDel_of_loss (he : e.OfApply pfx len instances)
    (hs : .v6 a ∈ s.tunnels.host.bridge ∧ s.tunnels.slots = (withAddress a).slots)
    (hloss : ¬(.v6 a ∈ (s.apply i e).tunnels.host.bridge ∧
      (s.apply i e).tunnels.slots = (withAddress a).slots)) : e = .routeDel a := by
  cases e with
  | wg e => exact he.elim
  | routeReplace b =>
    refine absurd ⟨?_, hs.2⟩ hloss
    simp only [State.apply, Wg.World.apply, Wg.Cmd.exec]
    split
    · exact hs.1
    · by_cases hb : IpAddr.v6 a = .v6 b
      · simp [hb]
      · simp [hb, hs.1]
  | routeDel b =>
    by_cases hb : a = b
    · rw [hb]
    · refine absurd ⟨?_, hs.2⟩ hloss
      have hne : IpAddr.v6 a ≠ .v6 b := fun h => hb (IpAddr.v6.inj h)
      simp only [State.apply, Wg.World.apply, Wg.Cmd.exec]
      split
      · exact hs.1
      · split
        · simp [hs.1, hne]
        · exact hs.1
  | neighReplace b up =>
    refine absurd ?_ hloss
    simp only [State.apply]
    split <;> exact hs
  | neighDel b up =>
    refine absurd ?_ hloss
    simp only [State.apply]
    split <;> exact hs
  | _ => exact absurd hs hloss

theorem not_spared (hv6 : net.v6 = .subnet pfx len uplink) (hpfx : inPrefix pfx len a = true)
    (ha : a ∉ want instances) (hvalid : a < 2 ^ 128) : ∃ P,
    Pool.Run machine Truthful
      (pool cfg net (fun p => if p = 1 then some (.apply instances []) else none)
        (withAddress a)) P ∧
    ¬Spared P := by
  have hruns : Runs (fun _ => True) ((Call.apply instances []).code cfg net)
      (fun _ s => .v6 a ∉ s.tunnels.host.bridge) := by
    refine .bind (runs_applyRules hv6 hpfx ha hvalid) fun r => .ret fun s hs => ?_
    cases r with
    | ok _ => exact hs
    | error e => exact hs.elim
  have huses : ((Call.apply instances []).code cfg net).Uses (Act.OfApply pfx len instances) :=
    .bind (uses_applyRules hv6) fun _ => trivial
  obtain ⟨u, s', hrun⟩ := (hruns.runs (s := { tunnels := withAddress a }) trivial).1 trivial
  have hgone := (hruns.runs trivial).2 u s' hrun
  obtain ⟨P, e, nx, i, hP, hnext, he, hI, hloss⟩ := Pool.exists_loss
    (I := fun s : State => .v6 a ∈ s.tunnels.host.bridge ∧ s.tunnels.slots = (withAddress a).slots)
    (hrun.mono fun _ _ _ _ h => h.2) huses ⟨.head _, rfl⟩ (fun h => hgone h.1)
    (P := pool cfg net (fun p => if p = 1 then some (.apply instances []) else none)
      (withAddress a))
    rfl rfl
  cases routeDel_of_loss he hI hloss
  refine ⟨P, hP, fun hspared => hspared 1 a nx hnext hI.1 ?_⟩
  refine ⟨"res-1", ⟨0, "", .v6 a⟩, ?_, rfl⟩
  rw [hI.2]
  exact SortedMap.get_insert_self

end Lost

/-! ## The condition -/

/-- In subnet mode, with the bound addresses among `dedicated` and the rules applied for
`ports`: no application ever removes the route of a bound address exactly if every
dedicated address in the prefix is an instance's own address, whenever the rules are applied. -/
theorem apply_spares_iff (cfg : Wg.Config) {net : Net} {pfx len : Nat} {uplink : Option String}
    (hv6 : net.v6 = .subnet pfx len uplink) (dedicated : Nat → Prop)
    (hvalid : ∀ a, dedicated a → a < 2 ^ 128) (ports : List Port → Prop) :
    (∀ calls w P, (∀ p c, calls p = some c → Within dedicated ports c) →
      (∀ a, State.Bound { tunnels := w } a → dedicated a) →
      Pool.Run machine Truthful (pool cfg net calls w) P → Spared P) ↔
    ∀ a, dedicated a → inPrefix pfx len a = true → ∀ ps, ports ps → a ∈ want ps := by
  constructor
  · intro h a ha hpfx ps hps
    by_contra hnot
    obtain ⟨P, hrun, hlost⟩ := not_spared hv6 hpfx hnot (hvalid a ha)
    refine hlost (h _ _ P (fun p c hc => ?_) (fun b hb => ?_) hrun)
    · split at hc
      · cases hc
        exact hps
      · cases hc
    · rwa [bound_withAddress.mp hb]
  · intro h calls w P hcalls hw hrun
    exact spared_of_safe (Pool.run_safe (pool_safe hv6 h hcalls hw) hrun)

instance (text : String) : DecidablePred (Listed text)
  | .v6 a => inferInstanceAs (Decidable (a < 2 ^ 128 → _))
  | .v4 _ => .isTrue trivial

instance (p : Pid) (e : Act) (s : State) (i : Input) : Decidable (Truthful p e s i) :=
  match e with
  | .routeShow => inferInstanceAs (Decidable (_ ∧ ∀ x ∈ s.tunnels.host.bridge, Listed i.stdout x))
  | .wg _ | .nft _ | .iptablesCheck _ _ | .iptablesInsert _ _ | .routeReplace _ | .routeDel _
  | .neighReplace _ _ | .neighShow _ | .neighDel _ _ => .isTrue trivial

/-- A network in subnet mode. -/
def subnetConfig : NetworkConfig where
  ipv6Mode := "subnet"
  ipv6Prefix := "2001:db8:1:2::/64"

def subnetNet : Net where
  bridge := "rmbr0"
  vethPrefix := "rv"
  wgPrefix := "rw"
  table := "runman"
  v4Base := 0x0a5b0000
  v4Len := 20
  snat6Prefix := Net.DEFAULT_SNAT6_PREFIX
  v6 := .subnet 0x20010db8000100020000000000000000 64 none
  dns := ["1.1.1.1", "8.8.8.8"]

/-- A reconcile for one address, then an application for one instance. -/
def bindThenApply (a : Nat) : Pid → Option Call
  | 0 => some (.reconcile [{ Wg.first with address := .v6 a }])
  | 1 => some (.apply [⟨0, ⟨0x0a5b0002, some 0x20010db8000100020000000000010000⟩, []⟩] [])
  | _ => none

/-- A dedicated address of another network keeps its route. -/
theorem apply_spares_other : ∃ P, Net.fromConfig subnetConfig = .ok subnetNet ∧
    Pool.Run machine Truthful
      (pool Wg.gateway subnetNet (bindThenApply 0x20010db8000900000000000000000005) {}) P ∧
    P.mem.tunnels.host.bridge = [.v6 0x20010db8000100020000000000010000,
      .v6 0x20010db8000900000000000000000005] ∧ Spared P := by
  obtain ⟨P, hrun, hbridge⟩ : ∃ P, Pool.Run machine Truthful
      (pool Wg.gateway subnetNet (bindThenApply 0x20010db8000900000000000000000005) {}) P ∧
      P.mem.tunnels.host.bridge = [.v6 0x20010db8000100020000000000010000,
        .v6 0x20010db8000900000000000000000005] :=
    Pool.exists_run
      (List.replicate 15 (0, { stdout := "" }) ++ List.replicate 6 (1, { stdout := "" }) ++
        [(1, { stdout := "2001:db8:1:2::1:0 metric 1024\n2001:db8:9::5 metric 1024\n" })])
      (by decide +kernel)
  have hiff := apply_spares_iff Wg.gateway (rfl : subnetNet.v6 = _)
    (fun a => a = 0x20010db8000900000000000000000005) (fun a ha => by subst ha; decide)
    (fun _ => True)
  refine ⟨P, rfl, hrun, hbridge, hiff.mpr ?_ _ _ P ?_ ?_ hrun⟩
  · rintro a rfl hpfx
    cases hpfx
  · intro p c hc
    match p, hc with
    | 0, hc =>
      cases hc
      intro b hb a hba
      cases List.mem_singleton.mp hb
      cases hba
      rfl
    | 1, hc =>
      cases hc
      trivial
  · rintro a ⟨r, slot, hget, -⟩
    cases hget

/-- The bound address of a resource. -/
def State.addressOf (s : State) (r : String) : Option IpAddr :=
  (s.tunnels.slots.get r).map (·.address)

/-- A dedicated address inside the prefix: the reconcile has installed its route, and the next
application removes it. -/
theorem dedicated_route_removed : Net.fromConfig subnetConfig = .ok subnetNet ∧ ∃ P Q,
    Pool.Run machine Truthful
      (pool Wg.gateway subnetNet (bindThenApply 0x20010db8000100020000000000000005) {}) P ∧
    Pool.Run machine Truthful P Q ∧
    P.mem.addressOf "res-1" = some (.v6 0x20010db8000100020000000000000005) ∧
    P.mem.tunnels.host.bridge = [.v6 0x20010db8000100020000000000000005] ∧
    Q.mem.addressOf "res-1" = some (.v6 0x20010db8000100020000000000000005) ∧
    Q.mem.tunnels.host.bridge = [.v6 0x20010db8000100020000000000010000] :=
  ⟨rfl, Pool.exists_run_run (List.replicate 15 (0, { stdout := "" }))
    (List.replicate 6 (1, { stdout := "" }) ++ [(1, { stdout :=
      "2001:db8:1:2::1:0 metric 1024\n2001:db8:1:2::5 metric 1024\n" }), (1, { stdout := "" })])
    (by decide +kernel)⟩

end RunmanAgent.V6Routes
