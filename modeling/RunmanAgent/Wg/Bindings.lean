import RunmanAgent.Concurrency.Embed
import RunmanAgent.Data.SortedSet
import RunmanAgent.Wg.Pass

/-!
# Dedicated addresses inside the instances (`WgBindings` of `src/runtime/mod.rs`)

After the tunnels have been reconciled, every instance whose dedicated addresses have changed gets
a new network configuration. `State` has the snapshot of the addresses that the changes are found
with, the instances that are still to be updated, and `configured`, which the code does not have:
what each instance was last configured with. The calls come one after the other.

The snapshot is replaced and the pending instances are taken before the network rules are applied
and the records are read. When one of these two fails, the changes of the call are forgotten
(`change_forgotten`). Otherwise no change is lost (`reconcile_configures`).
-/

namespace RunmanAgent.WgBindings

open Concurrency Server Proc Wg

/-! ## State and actions -/

abbrev Addresses := SortedMap String (List IpAddr)

structure State where
  tunnels : Wg.World := {}
  /-- Snapshot of the addresses of `tunnels`. -/
  dedicated : Addresses := {}
  /-- Instances that are still to be updated. -/
  netPending : List String := []
  /-- Instances with a record on this host. -/
  hosted : List String := []
  /-- The addresses that each instance was last configured with. -/
  configured : String → List IpAddr := fun _ => []

/-- Dedicated addresses per instance, from the slots. -/
def addressesByVm (slots : Slots) : Addresses :=
  slots.values.foldl (fun m s => m.insert s.vmId ((m.get s.vmId).getD [] ++ [s.address])) {}

inductive Act where
  | wg (e : Wg.Act)
  | enableV6
  | replaceDedicated
  | takePending
  | applyNetwork
  | load (id : String)
  | updateInstance (id : String)
  | pend (vm : String)

def State.dedicatedFor (s : State) (id : String) : List IpAddr := (s.dedicated.get id).getD []

def State.apply (s : State) (i : Input) : Act → State
  | .wg e => { s with tunnels := s.tunnels.apply i e }
  | .replaceDedicated => { s with dedicated := addressesByVm s.tunnels.slots }
  | .takePending => { s with netPending := [] }
  | .updateInstance id =>
    if i.fail.isSome then s
    else { s with configured := Function.update s.configured id (s.dedicatedFor id) }
  | .pend vm => { s with netPending := sortedSet (vm :: s.netPending) }
  | .enableV6 | .applyNetwork | .load _ => s

def machine : Machine State Input Act where
  enabled _ _ _ := true
  apply e _ s i := s.apply i e

abbrev BindProc := Proc State Input Act String

/-- A step that may fail. -/
def fallible (e : Act) : BindProc Unit :=
  perform e fun _ _ i => match i.fail with
    | some e => .error e
    | none => .ok ()

/-- `load`: is there a record? -/
def load (id : String) : BindProc Bool :=
  perform (.load id) fun _ s i => match i.fail with
    | some e => .error e
    | none => .ok (id ∈ s.hosted)

/-! ## The call -/

variable (uuid : UuidReader) (cfg : Config)

def isIpv6 (b : Binding) : Bool := familyOf b.address = .inet6

def enableV6 (bindings : List Binding) : BindProc Unit :=
  if bindings.any isIpv6 then fallible .enableV6 else pure ()

def reconcileTunnels (bindings : List Binding) : BindProc Unit :=
  (Wg.reconcile cfg bindings).embed State.tunnels Act.wg

/-- Instances with other addresses than before. -/
def changed (before after : Addresses) : List String :=
  (before.keys ++ after.keys).filter fun vm => before.get vm ≠ after.get vm

def updateInstance (vm : String) : BindProc Unit := do
  match VmId.parse uuid vm with
  | .error _ => pure ()
  | .ok id =>
    if ← load id.asStr then
      match ← (fallible (.updateInstance id.asStr)).attempt with
      | .ok _ => pure ()
      | .error _ => run (.pend vm)
    else pure ()

/-- Anti-spoofing sets must allow the new source addresses first. -/
def updateInstances (todo : List String) : BindProc Unit :=
  if todo = [] then pure ()
  else do
    fallible .applyNetwork
    forEach (updateInstance uuid) todo

def reconcile (desired : List WgBindDesired) : BindProc Unit := do
  let bindings := desired.filterMap fun d => (Binding.fromProto uuid d).toOption
  enableV6 bindings
  reconcileTunnels cfg bindings
  let (before, after) ← read .replaceDedicated fun _ s _ =>
    (s.dedicated, addressesByVm s.tunnels.slots)
  let pending ← read .takePending fun _ s _ => s.netPending
  updateInstances uuid (sortedSet (pending ++ changed before after))

def bindings : Server machine (List WgBindDesired) where
  code desired := Prog.bind (reconcile uuid cfg desired) fun _ => .ret ()
  restart _ := none

instance : DecidablePred (bindings uuid cfg).others := fun _ => .isFalse id

/-! ## No change is lost -/

/-- An instance on this host: records are stored under the canonical form of the id. -/
def State.Has (s : State) (vm : String) : Prop := vm ∈ s.hosted ∧ ∃ id : VmId, id.asStr = vm

/-- Every instance has its addresses, or is still to be updated. -/
def Owed (todo : List String) (s : State) : Prop :=
  ∀ vm, s.Has vm → s.configured vm = s.dedicatedFor vm ∨ vm ∈ todo ∨ vm ∈ s.netPending

/-- The network rules are applied and the records are read without failure. -/
def Reliable (_ : Pid) (e : Act) (_ : State) (i : Input) : Prop :=
  match e with
  | .applyNetwork | .load _ => i.fail = none
  | _ => True

instance (p : Pid) (e : Act) (s : State) (i : Input) : Decidable (Reliable p e s i) :=
  match e with
  | .applyNetwork | .load _ => inferInstanceAs (Decidable (i.fail = none))
  | .wg _ | .enableV6 | .replaceDedicated | .takePending | .updateInstance _ | .pend _ =>
    .isTrue trivial

def NoFailure (_ : Pid) (_ : Act) (_ : State) (i : Input) : Prop := i.fail = none

abbrev Calls (ok : Pid → Act → State → Input → Prop) {α : Type} (P : State → Prop)
    (p : Prog State Input Act α) (Q : α → State → Prop) : Prop :=
  Hoare machine ok self (fun _ => True) P p Q

variable {uuid} {cfg} {ok : Pid → Act → State → Input → Prop} {s : State} {todo : List String}

variable {vm : String} {rest : List String}

theorem State.Has.parse {id : VmId} (hvm : s.Has vm) (hparse : VmId.parse uuid vm = .ok id) :
    id.asStr = vm := by
  obtain ⟨-, id', rfl⟩ := hvm
  rw [VmId.parse_asStr] at hparse
  rw [Except.ok.inj hparse]

theorem Owed.updated {name : String} (hs : Owed (vm :: rest) s) (hname : s.Has vm → name = vm) :
    Owed rest { s with configured := Function.update s.configured name (s.dedicatedFor name) } := by
  intro vm' hvm'
  by_cases heq : vm' = name
  · subst heq
    exact .inl (Function.update_self ..)
  · rcases hs vm' hvm' with h | h | h
    · exact .inl ((Function.update_of_ne heq _ _).trans h)
    · rcases h with _ | ⟨_, h⟩
      · exact absurd (hname hvm').symm heq
      · exact .inr (.inl h)
    · exact .inr (.inr h)

theorem Owed.pended (hs : Owed (vm :: rest) s) :
    Owed rest { s with netPending := sortedSet (vm :: s.netPending) } := by
  intro vm' hvm'
  rcases hs vm' hvm' with h | h | h
  · exact .inl h
  · rcases h with _ | ⟨_, h⟩
    · exact .inr (.inr (mem_sortedSet.mpr (.head _)))
    · exact .inr (.inl h)
  · exact .inr (.inr (mem_sortedSet.mpr (.tail _ h)))

theorem Owed.skipped (hs : Owed (vm :: rest) s) (hnone : ¬s.Has vm) : Owed rest s := by
  intro vm' hvm'
  rcases hs vm' hvm' with h | h | h
  · exact .inl h
  · rcases h with _ | ⟨_, h⟩
    · exact absurd hvm' hnone
    · exact .inr (.inl h)
  · exact .inr (.inr h)

theorem mem_changed {before after : Addresses} :
    vm ∈ changed before after ↔ before.get vm ≠ after.get vm := by
  simp only [changed, List.mem_filter, List.mem_append, SortedMap.mem_keys, decide_eq_true_eq,
    and_iff_right_iff_imp]
  intro hne
  cases hb : before.get vm with
  | some v => exact .inl ⟨v, rfl⟩
  | none =>
    cases ha : after.get vm with
    | some v => exact .inr ⟨v, rfl⟩
    | none => exact absurd (hb.trans ha.symm) hne

section Reliable

variable (hok : ∀ e s i, ok self e s i → Reliable self e s i)

include hok

theorem calls_load {P : State → Prop} {id : String} :
    Calls ok P (load id) (ends (fun found s => P s ∧ (found = true ↔ id ∈ s.hosted))
      (fun _ _ => False)) := by
  refine .perform fun s i _ hs hi => ⟨trivial, ?_⟩
  have hfail : i.fail = none := hok _ s i hi
  simp only [hfail]
  exact ⟨hs, decide_eq_true_iff⟩

theorem calls_updateInstance {vm : String} {rest : List String} :
    Calls ok (Owed (vm :: rest)) (updateInstance uuid vm)
      (ends (fun _ => Owed rest) (fun _ _ => False)) := by
  unfold updateInstance
  cases hparse : VmId.parse uuid vm with
  | error e =>
    refine .ret fun s _ hs => hs.skipped fun hvm => ?_
    obtain ⟨-, id, rfl⟩ := hvm
    rw [VmId.parse_asStr] at hparse
    cases hparse
  | ok id =>
    refine .step (calls_load hok) fun found => ?_
    cases found with
    | false =>
      refine .ret fun s _ hs => hs.1.skipped fun hvm => ?_
      rw [hvm.parse hparse] at hs
      exact absurd (hs.2.mpr hvm.1) (by decide)
    | true =>
      refine .attemptBind (R := ends (fun _ => Owed rest) (fun _ => Owed (vm :: rest)))
        (Hoare.perform fun s i _ hs _ => ⟨trivial, ?_⟩) fun x => ?_
      · cases hfail : i.fail with
        | some e => simpa [ends, machine, State.apply, hfail] using hs.1
        | none =>
          have hupdated := hs.1.updated fun hvm => hvm.parse hparse
          simpa [ends, machine, State.apply, hfail] using hupdated
      · cases x with
        | ok _ => exact .ret fun _ _ hs => hs
        | error e => exact Hoare.perform fun s i _ hs _ => ⟨trivial, hs.pended⟩

theorem calls_updateInstances :
    Calls ok (Owed todo) (updateInstances uuid todo)
      (ends (fun _ => Owed []) (fun _ _ => False)) := by
  unfold updateInstances
  split
  · rename_i hnil
    exact .ret fun _ _ hs => hnil ▸ hs
  · refine .chain (R := fun _ => Owed todo) (E := fun _ _ => False)
      (Hoare.perform fun s i _ hs hi => ⟨trivial, ?_⟩) (fun _ _ _ h => h) fun _ => ?_
    · have hfail : i.fail = none := hok _ s i hi
      simpa [ends, machine, State.apply, hfail] using hs
    · exact .forEachRest (P := Owed) fun vm rest => calls_updateInstance hok

end Reliable

/-- A step that does not touch what the instances are owed. -/
def Act.Apart : Act → Prop
  | .wg _ | .enableV6 => True
  | _ => False

theorem calls_apart {α : Type} {P : State → Prop} {p : Prog State Input Act α}
    (hp : p.Uses Act.Apart) (hP : ∀ s t, P s → P { s with tunnels := t }) :
    Calls ok P p (fun _ => P) := by
  refine .of_uses (hp.mono fun e he s i _ hs _ => ⟨trivial, ?_⟩)
  cases e with
  | wg e => exact hP s _ hs
  | enableV6 => exact hs
  | _ => exact he.elim

theorem apart_enableV6 {bindings : List Binding} : (enableV6 bindings).Uses Act.Apart := by
  unfold enableV6
  split
  · exact .perform trivial
  · trivial

theorem apart_reconcileTunnels {bindings : List Binding} :
    (reconcileTunnels cfg bindings).Uses Act.Apart :=
  .embed (fun _ => trivial) _

theorem calls_reconcile (hok : ∀ e s i, ok self e s i → Reliable self e s i)
    (desired : List WgBindDesired) :
    Calls ok (Owed []) (reconcile uuid cfg desired) (fun _ => Owed []) := by
  have hends : ∀ {p : BindProc Unit}, p.Uses Act.Apart →
      Calls ok (Owed []) p (ends (fun _ => Owed []) (fun _ => Owed [])) := fun hp =>
    (calls_apart hp fun _ _ hs => hs).post fun x _ _ hs => by cases x <;> exact hs
  refine .chain (hends apart_enableV6) (fun _ _ _ hs => hs) fun _ => ?_
  refine .chain (hends apart_reconcileTunnels) (fun _ _ _ hs => hs) fun _ => ?_
  refine .step (R := fun x s => s.dedicated = x.2 ∧ ∀ vm, s.Has vm →
      s.configured vm = (x.1.get vm).getD [] ∨ vm ∈ s.netPending)
    (Hoare.perform fun s i _ hs _ => ⟨trivial, rfl, fun vm hvm => ?_⟩) fun x => ?_
  · exact (hs vm hvm).imp_right fun h => h.resolve_left (by simp)
  obtain ⟨before, after⟩ := x
  refine .step (R := fun pending s => Owed (sortedSet (pending ++ changed before after)) s)
    (Hoare.perform fun s i _ hs _ => ⟨trivial, fun vm hvm => ?_⟩) fun pending => ?_
  · have hdedicated : s.dedicated = after := hs.1
    rw [mem_sortedSet, List.mem_append, mem_changed]
    by_cases hchanged : before.get vm = after.get vm
    · rcases hs.2 vm hvm with h | h
      · refine .inl (h.trans ?_)
        rw [hchanged, ← hdedicated]
        rfl
      · exact .inr (.inl (.inl h))
    · exact .inr (.inl (.inr hchanged))
  · exact (calls_updateInstances hok).post fun x _ _ hs => by
      cases x with
      | ok _ => exact hs
      | error _ => exact hs.elim

/-! ## A call without failures -/

section Tunnels

/-- The tunnels do not report an error. -/
abbrev Succeeds {α : Type} (p : HostProc α) : Prop :=
  Hoare Wg.machine Smooth self (fun _ => True) (fun _ => True) p
    (ends (fun _ _ => True) (fun _ _ => False))

variable {α : Type}

theorem succeeds_bind {β : Type} {p : HostProc α} {f : α → HostProc β} (hp : Succeeds p)
    (hf : ∀ a, Succeeds (f a)) : Succeeds (p >>= f : HostProc β) :=
  .chain hp (fun _ _ _ h => h) hf

theorem succeeds_attempt {β : Type} {p : HostProc α} {f : Except String α → HostProc β}
    (hf : ∀ x, Succeeds (f x)) : Succeeds (p.attempt >>= f : HostProc β) :=
  .attemptBind (R := fun _ _ => True)
    (Hoare.of_uses ((Prog.uses_true p).mono fun _ _ _ _ _ _ _ => ⟨trivial, trivial⟩)) hf

theorem succeeds_pure {a : α} : Succeeds (pure a) := .ret fun _ _ _ => trivial

theorem succeeds_read {e : Wg.Act} {f : Pid → Wg.World → Input → α} : Succeeds (Proc.read e f) :=
    .perform fun _ _ _ _ _ => ⟨trivial, trivial⟩

theorem succeeds_save : Succeeds save := by
  refine .perform fun w i _ _ hi => ⟨trivial, ?_⟩
  have hfail : i.fail = none := hi
  simp only [hfail]
  trivial

theorem succeeds_removeStale {r : String} : Succeeds (removeStale cfg r) := by
  refine succeeds_bind succeeds_read fun v => ?_
  split
  · exact succeeds_pure
  · refine succeeds_attempt fun x => ?_
    cases x with
    | error e => exact succeeds_pure
    | ok _ => exact succeeds_bind succeeds_read fun _ => succeeds_save

theorem succeeds_nextSlot {v : Wg.World} {b : Binding} : Succeeds (nextSlot cfg v b) := by
  unfold nextSlot
  split
  · split
    · exact succeeds_pure
    · refine succeeds_attempt fun x => ?_
      cases x <;> exact succeeds_pure
  · exact succeeds_pure

theorem succeeds_reconcileBinding {b : Binding} : Succeeds (reconcileBinding cfg b) := by
  refine succeeds_attempt fun x => ?_
  cases x with
  | error e => exact succeeds_pure
  | ok ep =>
    refine succeeds_bind succeeds_read fun v => ?_
    split
    · unfold refreshEndpoint
      split
      · split
        · refine succeeds_attempt fun x => ?_
          cases x with
          | error e => exact succeeds_pure
          | ok _ => exact succeeds_read
        · exact succeeds_pure
      · exact succeeds_pure
    · refine succeeds_bind succeeds_nextSlot fun o => ?_
      cases o with
      | none => exact succeeds_pure
      | some slot =>
        refine succeeds_bind succeeds_read fun _ => succeeds_bind succeeds_save fun _ =>
          succeeds_attempt fun x => ?_
        cases x <;> exact succeeds_read

theorem succeeds_reconcile (cfg : Config) (bs : List Binding) : Succeeds (Wg.reconcile cfg bs) :=
  succeeds_bind succeeds_read fun _ =>
    succeeds_bind (Triple.forEach fun _ _ => succeeds_removeStale)
    fun _ => .forEach fun _ _ => succeeds_reconcileBinding

end Tunnels

theorem NoFailure.reliable {p : Pid} {e : Act} {i : Input} (h : NoFailure p e s i) :
    Reliable p e s i := by
  cases e with
  | applyNetwork => exact h
  | load id => exact h
  | _ => trivial

/-- The snapshot is up to date, and nothing is pending. -/
def Current (s : State) : Prop :=
  s.dedicated = addressesByVm s.tunnels.slots ∧ s.netPending = []

theorem Current.updateInstance {i : Input} {name : String} (hs : Current s) (hi : i.fail = none) :
    Current (s.apply i (.updateInstance name)) := by
  simp only [State.apply, hi]
  exact hs

theorem smooth_fallible {P : State → Prop} {e : Act}
    (hP : ∀ s i, i.fail = none → P s → P (s.apply i e)) :
    Calls NoFailure P (fallible e) (ends (fun _ => P) (fun _ _ => False)) := by
  refine .perform fun s i _ hs hi => ⟨trivial, ?_⟩
  have hfail : i.fail = none := hi
  simp only [hfail]
  exact hP s i hfail hs

theorem smooth_updateInstances :
    Calls NoFailure Current (updateInstances uuid todo)
      (ends (fun _ => Current) (fun _ _ => False)) := by
  unfold updateInstances
  split
  · exact .ret fun _ _ hs => hs
  · refine .chain (smooth_fallible fun _ _ _ hs => hs) (fun _ _ _ h => h) fun _ => ?_
    refine .forEach fun vm _ => ?_
    unfold updateInstance
    split
    · exact .ret fun _ _ hs => hs
    · refine .step (calls_load fun e s i hi => hi.reliable) fun found => ?_
      cases found with
      | false => exact .ret fun _ _ hs => hs.1
      | true =>
        refine .attemptBind ((smooth_fallible fun s i hi hs => ?_).pre fun _ _ hs => hs.1)
          fun x => ?_
        · exact hs.updateInstance hi
        · cases x with
          | ok _ => exact Triple.ret fun _ _ hs => hs
          | error _ => exact fun _ h => h.elim

theorem smooth_reconcileTunnels {bs : List Binding} :
    Calls NoFailure (fun _ => True) (reconcileTunnels cfg bs)
      (ends (fun _ _ => True) (fun _ _ => False)) := by
  have hembed := Hoare.embed (N := machine) (k := NoFailure) State.tunnels Act.wg
    (fun _ _ _ => rfl) (fun _ _ h => h) (fun _ _ _ h => h) (succeeds_reconcile cfg bs)
  exact hembed.post fun x _ _ h => by cases x <;> exact h

theorem smooth_reconcile (desired : List WgBindDesired) :
    Calls NoFailure (fun _ => True) (reconcile uuid cfg desired)
      (ends (fun _ => Current) (fun _ _ => False)) := by
  refine .chain (R := fun _ _ => True) (E := fun _ _ => False) ?_
    (fun _ _ _ h => h) fun _ => ?_
  · unfold enableV6
    split
    · exact smooth_fallible fun _ _ _ _ => trivial
    · exact .ret fun _ _ _ => trivial
  refine .chain smooth_reconcileTunnels (fun _ _ _ h => h) fun _ => ?_
  refine .chain (R := fun _ (s : State) => s.dedicated = addressesByVm s.tunnels.slots)
    (E := fun _ _ => False) (Hoare.perform fun s i _ _ _ => ⟨trivial, rfl⟩) (fun _ _ _ h => h)
    fun x => ?_
  refine .chain (R := fun _ => Current) (E := fun _ _ => False)
    (Hoare.perform fun s i _ hs _ => ⟨trivial, hs, rfl⟩) (fun _ _ _ h => h) fun pending => ?_
  exact smooth_updateInstances

theorem calls_hosted {α : Type} {p : Prog State Input Act α} {hosted : List String} :
    Calls ok (fun s => s.hosted = hosted) p (fun _ s => s.hosted = hosted) := by
  refine .of_uses (p.uses_true.mono fun e _ s i _ hs _ => ⟨trivial, ?_⟩)
  refine Eq.trans ?_ hs
  cases e with
  | updateInstance id =>
    simp only [machine, State.apply]
    split <;> rfl
  | _ => rfl

/-- After any sequence of calls in which every step may fail but the application of the network
rules and the reading of records, a call in which nothing fails is possible, and it leaves every
instance on this host configured with its dedicated addresses. -/
theorem reconcile_configures {s : State} {c : Conf State Input Act} (hstart : Owed [] s)
    (h : Run (bindings uuid cfg) (fun _ _ => True) Reliable ⟨s, none⟩ c) (hidle : c.run = none)
    (desired : List WgBindDesired) :
    (∃ x v, Prog.Runs machine NoFailure self (reconcile uuid cfg desired) c.mem x v) ∧
    ∀ x v, Prog.Runs machine NoFailure self (reconcile uuid cfg desired) c.mem x v →
      ∀ vm, c.mem.Has vm → v.configured vm = ((addressesByVm v.tunnels.slots).get vm).getD [] := by
  have howed : Owed [] c.mem := (run_alone (S := bindings uuid cfg) (I := fun _ => True)
    (f := reconcile uuid cfg) (fun _ => rfl) (fun _ he => he)
    (fun desired => (calls_reconcile (fun _ _ _ hi => hi) desired).pre fun _ _ hs => hs.1)
    nofun trivial hstart h).idle hidle
  refine ⟨Prog.exists_runs (I := fun _ => True) (fun _ _ _ => rfl)
    (fun e s _ => ⟨{}, rfl, trivial⟩) _ trivial, fun x v hrun vm hvm => ?_⟩
  have hdone : Owed [] v :=
    (calls_reconcile (fun _ _ _ hi => hi.reliable) desired).runs trivial howed hrun
  have hcurrent := (smooth_reconcile desired).runs trivial trivial hrun
  have hhosted : v.hosted = c.mem.hosted := calls_hosted.runs trivial rfl hrun
  cases x with
  | error e => exact hcurrent.elim
  | ok _ =>
    obtain ⟨hdedicated, hpending⟩ : Current v := hcurrent
    have hvm : v.Has vm := ⟨hhosted ▸ hvm.1, hvm.2⟩
    rw [← hdedicated]
    simpa [hpending, State.dedicatedFor] using hdone vm hvm

/-- A desired binding for `first`. -/
def wanted : WgBindDesired where
  vmId := first.vmId.asStr
  resourceId := "res-1"
  privateKey := "AAAAAAAAAAAAAAAAAAAAAAAAAAAAAAAAAAAAAAAAAAA="
  address := "203.0.113.5"
  peerPublicKey := "AAAAAAAAAAAAAAAAAAAAAAAAAAAAAAAAAAAAAAAAAAA="
  presharedKey := ""
  endpoint := "192.0.2.1:51820"
  allowedIps := []
  keepaliveSec := 25

/-- The instance is on this host. -/
def present : State := { hosted := [first.vmId.asStr] }

theorem present_has : present.Has first.vmId.asStr := ⟨.head _, first.vmId, rfl⟩

theorem owed_present : Owed [] present := fun _ _ => .inl rfl

instance (p : Pid) (e : Act) (s : State) (i : Input) : Decidable (NoFailure p e s i) :=
  inferInstanceAs (Decidable (i.fail = none))

theorem reconcile_configures_retried : ∃ c x v,
    Run (bindings .canonical gateway) (fun _ _ => True) Reliable ⟨present, none⟩ c ∧
    c.mem.netPending = [first.vmId.asStr] ∧
    Prog.Runs machine NoFailure self (reconcile .canonical gateway [wanted]) c.mem x v ∧
    v.configured first.vmId.asStr =
      ((addressesByVm v.tunnels.slots).get first.vmId.asStr).getD [] := by
  obtain ⟨c, hrun, hidle, hpending, hhosted⟩ : ∃ c,
      Run (bindings .canonical gateway) (fun _ _ => True) Reliable ⟨present, none⟩ c ∧
      c.run = none ∧ c.mem.netPending = [first.vmId.asStr] ∧ c.mem.hosted = [first.vmId.asStr] :=
    exists_run ([.call [wanted]] ++ List.replicate 20 (.act {}) ++
      [.act { fail := some "exit status: 1" }, .act {}, .done]) (by decide +kernel)
  obtain ⟨⟨x, v, hpass⟩, hall⟩ := reconcile_configures owed_present hrun hidle [wanted]
  have hhas : c.mem.Has first.vmId.asStr := ⟨hhosted ▸ present_has.1, present_has.2⟩
  exact ⟨c, x, v, hrun, hpending, hpass, hall x v hpass _ hhas⟩

/-- The network rules cannot be applied after the snapshot has been replaced. The next call finds no
change and does not update the instance. -/
theorem change_forgotten : ∃ c x v,
    Run (bindings .canonical gateway) (fun _ _ => True) anyStep ⟨present, none⟩ c ∧ c.run = none ∧
    c.mem.Has first.vmId.asStr ∧
    Prog.Runs machine NoFailure self (reconcile .canonical gateway [wanted]) c.mem x v ∧
    (addressesByVm v.tunnels.slots).get first.vmId.asStr = some [first.address] ∧
    v.configured first.vmId.asStr = [] := by
  obtain ⟨c, hrun, hidle, hhosted, halone⟩ : ∃ c,
      Run (bindings .canonical gateway) (fun _ _ => True) anyStep ⟨present, none⟩ c ∧ c.run = none ∧
      c.mem.hosted = [first.vmId.asStr] ∧ (Prog.alone machine NoFailure self
        (reconcile .canonical gateway [wanted]) c.mem (List.replicate 20 {})).any fun x =>
          (addressesByVm x.2.tunnels.slots).get first.vmId.asStr = some [first.address] ∧
            x.2.configured first.vmId.asStr = [] :=
    exists_run ([.call [wanted]] ++ List.replicate 18 (.act {}) ++
      [.act { fail := some "nft: Resource temporarily unavailable" }, .done]) (by decide +kernel)
  obtain ⟨x, v, hpass, hlast⟩ := Prog.runs_of_any halone
  exact ⟨c, x, v, hrun, hidle, ⟨hhosted ▸ present_has.1, present_has.2⟩, hpass,
    of_decide_eq_true hlast⟩

end RunmanAgent.WgBindings
