import RunmanAgent.Runtime.Watch

/-!
# Which actions the agent's code takes

For each piece of code, the actions it is made of: `uses_halt` says that a halt of `id`
only reads, kills and stops the unit of `id`. The hypotheses on `φ` are grouped in
structures, so that a proof about code that runs under a lock checks each action once.

The last part says what code fails with that only passes on the errors of system calls.
-/

namespace RunmanAgent

open Concurrency Proc

/-- `φ` contains the reads and the updates of the ruleset. -/
structure RulesetActs (φ : Act → Prop) : Prop where
  query : ∀ q, φ (.query q)
  nft : ∀ rules, φ (.nft rules)

/-- `φ` also contains the operations of the forwards lock. -/
structure NetActs (φ : Act → Prop) : Prop extends RulesetActs φ where
  acquire : φ (.acquire .forwards)
  release : φ (.release .forwards)

/-- `φ` contains the reads and the actions on the unit of `id`. -/
structure UnitActs (φ : Act → Prop) (id : VmId) : Prop where
  query : ∀ q, φ (.query q)
  killCt : φ (.killCt id)
  terminate : φ (.terminate id)
  removePid : φ (.removePid id)
  systemdRun : φ (.systemdRun id)

/-- `φ` contains the reads and the removal of the directory of `id`. -/
structure DirActs (φ : Act → Prop) (id : VmId) : Prop where
  query : ∀ q, φ (.query q)
  unlink : ∀ f, φ (.unlink id f)
  rmdir : φ (.rmdir id)

/-- `φ` contains what a delete of `id` does. -/
structure RemovalActs (φ : Act → Prop) (id : VmId) : Prop
    extends NetActs φ, UnitActs φ id, DirActs φ id

/-- `φ` also contains what fills the directory of `id`, apart from its record. -/
structure InstallActs (φ : Act → Prop) (id : VmId) : Prop extends RemovalActs φ id where
  mkdir : φ (.mkdir id)
  makeDisk : ∀ n, φ (.makeDisk id n)
  prepareRoot : ∀ pw, φ (.prepareRoot id pw)

variable {φ : Act → Prop} {α : Type} {id : VmId}

theorem uses_act {e : Act} (h : φ e) : Prog.Uses φ (act e) := .perform h

theorem uses_ignore {x : Agent α} (h : Prog.Uses φ x) : Prog.Uses φ (ignore x) :=
  uses_bind (uses_attempt h) fun _ => trivial

theorem uses_ensure (c : Bool) (e : Err) : Prog.Uses φ (ensure c e) := by
  unfold ensure
  split <;> trivial

theorem uses_doIf {c : Bool} {x : Agent Unit} (h : Prog.Uses φ x) : Prog.Uses φ (doIf c x) := by
  unfold doIf
  split
  · exact h
  · trivial

/-! ## Reading -/

section Reading

variable (hq : ∀ q, φ (.query q))
include hq

theorem uses_helper (what : String) : Prog.Uses φ (helper what) := .perform (hq _)

theorem uses_load (id : VmId) : Prog.Uses φ (load id) := .perform (hq _)

theorem uses_require (id : VmId) : Prog.Uses φ (require id) := by
  refine uses_bind (uses_load hq id) fun r => ?_
  cases r <;> trivial

theorem uses_loadAll (ids : List VmId) : Prog.Uses φ (loadAll ids) := by
  induction ids with
  | nil => trivial
  | cons id ids ih =>
    refine uses_bind (uses_attempt (uses_load hq id)) fun r => ?_
    refine uses_bind ih fun rest => ?_
    split <;> trivial

theorem uses_records : Prog.Uses φ records :=
  uses_bind (.perform (hq _)) fun names => uses_loadAll hq names

theorem uses_allocateIdx (rt : Runtime) : Prog.Uses φ (allocateIdx rt) :=
  uses_bind (uses_records hq) fun _ => trivial

theorem uses_isActive (id : VmId) : Prog.Uses φ (isActive id) := .perform (hq _)

theorem uses_hostLinkUp (hif : String) : Prog.Uses φ (Runtime.hostLinkUp hif) :=
  uses_bind (uses_ensure _ _) fun _ => .perform (hq _)

theorem uses_recordsOrDefault : Prog.Uses φ Runtime.recordsOrDefault := by
  refine uses_bind (uses_attempt (uses_records hq)) fun r => ?_
  cases r <;> trivial

end Reading

/-! ## Ruleset -/

section Network

theorem uses_netApply (h : RulesetActs φ) (rt : Runtime) (ps : List Port) (fs : List Forward) :
    Prog.Uses φ (rt.netApply ps fs) := by
  refine uses_bind (uses_act (h.nft _)) fun _ => ?_
  split
  · exact uses_helper h.query _
  · trivial

theorem uses_applyNetwork (h : RulesetActs φ) (rt : Runtime) (fs : List PortForward) :
    Prog.Uses φ (rt.applyNetwork fs) :=
  uses_bind (uses_records h.query) fun _ => uses_bind (.perform (h.query _)) fun _ =>
    uses_netApply h rt _ _

variable (h : NetActs φ)
include h

theorem uses_withForwards {f : List PortForward → Agent α} (hf : ∀ fs, Prog.Uses φ (f fs)) :
    Prog.Uses φ (Runtime.withForwards f) :=
  uses_bracket h.acquire h.release (uses_bind (.perform (h.query _)) hf)

theorem uses_reconcileNetwork (rt : Runtime) : Prog.Uses φ rt.reconcileNetwork :=
  uses_withForwards h (uses_applyNetwork h.toRulesetActs rt)

end Network

/-! ## Units -/

section Units

variable (h : UnitActs φ id)
include h

theorem uses_stopUnit : Prog.Uses φ (stopUnit id) :=
  uses_bind (uses_act h.terminate) fun _ => .perform (h.query _)

theorem uses_stopOrGone : Prog.Uses φ (stopOrGone id) := by
  refine uses_bind (uses_attempt (uses_stopUnit h)) fun r => ?_
  cases r with
  | ok a => trivial
  | error e =>
    refine uses_bind (uses_isActive h.query id) fun still => ?_
    split <;> trivial

theorem uses_halt (force : Bool) : Prog.Uses φ (halt id force) := by
  have hkill : Prog.Uses φ (killInstance id) :=
    uses_bind (uses_ignore (uses_act h.killCt)) fun _ => .perform (h.query _)
  exact uses_bind (uses_isActive h.query id) fun active =>
    uses_doIf (uses_bind (uses_doIf hkill) fun _ => uses_stopOrGone h)

theorem uses_launch {rec : Record} (hid : rec.id = id) : Prog.Uses φ (launch rec) := by
  subst hid
  exact uses_bind (uses_ignore (uses_act h.removePid)) fun _ =>
    uses_bind (uses_mapErr (uses_act h.systemdRun)) fun _ => .perform (h.query _)

end Units

/-! ## Directories -/

section Directories

theorem uses_removeDirAll (h : DirActs φ id) : Prog.Uses φ (removeDirAll id) :=
  uses_bind (.perform (h.query _)) fun _ =>
    uses_bind (uses_forEach fun f => uses_act (h.unlink f)) fun _ => uses_act h.rmdir

theorem uses_deleteLocked (h : RemovalActs φ id) (rt : Runtime) :
    Prog.Uses φ (rt.deleteLocked id) := by
  refine uses_bind (uses_halt h.toUnitActs true) fun _ => ?_
  refine uses_bind (uses_load h.query id) fun old => ?_
  refine uses_bind (uses_doIf (uses_ignore (uses_helper h.query _))) fun _ => ?_
  refine uses_bind (.perform (h.query _)) fun present => ?_
  refine uses_bind (uses_doIf ?_) fun _ =>
    uses_bind (uses_act h.removePid) fun _ => uses_reconcileNetwork h.toNetActs rt
  exact uses_bind (.perform (h.query _)) fun _ =>
    uses_bind (.perform (h.query _)) fun _ => uses_mapErr (uses_removeDirAll h.toDirActs)

theorem uses_provision (h : InstallActs φ id) {rec : Record} (hid : rec.id = id)
    (pw : String) : Prog.Uses φ (Runtime.provision rec pw) := by
  subst hid
  exact uses_bind (uses_act h.mkdir) fun _ =>
    uses_bind (uses_act (h.makeDisk _)) fun _ => uses_act (h.prepareRoot _)

theorem uses_install (h : InstallActs φ id) (rt : Runtime) {rec : Record} (hid : rec.id = id)
    (pw : String) : Prog.Uses φ (rt.install rec pw) := by
  refine uses_bind (uses_attempt (uses_provision h hid pw)) fun r => ?_
  cases r with
  | ok a =>
    exact uses_bind (uses_reconcileNetwork h.toNetActs rt) fun _ =>
      uses_launch h.toUnitActs hid
  | error e =>
    subst hid
    exact uses_bind (uses_ignore (uses_removeDirAll h.toDirActs)) fun _ => trivial

theorem uses_replaceOld (h : RemovalActs φ id) (hc : ∀ old, φ (.carry id old)) (rt : Runtime) :
    Prog.Uses φ (rt.replaceOld id) := by
  refine uses_bind (uses_load h.query id) fun old => ?_
  refine uses_bind (.perform (hc old)) fun carried => ?_
  refine uses_bind (.perform (h.query _)) fun present => ?_
  exact uses_bind (uses_doIf (uses_deleteLocked h rt)) fun _ => trivial

/-- `φ` also contains what a create adds, apart from the counters it carried. -/
structure CreateActs (φ : Act → Prop) (id : VmId) : Prop extends InstallActs φ id where
  carry : ∀ old, φ (.carry id old)
  acquireAlloc : φ (.acquire .alloc)
  releaseAlloc : φ (.release .alloc)
  writeRecord : ∀ {rec : Record}, rec.id = id → φ (.writeRecord .create rec)
  writeRuntime : ∀ spec, φ (.writeRuntime id spec)

theorem uses_restoreTraffic {traffic : Option Traffic}
    (h : ∀ t ∈ traffic, φ (.writeTraffic .restore id t)) :
    Prog.Uses φ (Runtime.restoreTraffic id traffic) := by
  cases traffic with
  | none => trivial
  | some t => exact uses_ignore (uses_act (h t rfl))

theorem uses_claim {spec : InstanceSpec} (h : CreateActs φ spec.vmId) (rt : Runtime)
    (builder : Bool) (created : Nat) {traffic : Option Traffic}
    (ht : ∀ t ∈ traffic, φ (.writeTraffic .restore spec.vmId t)) :
    Prog.Uses φ (rt.claim spec builder created traffic) := by
  refine uses_bracket h.acquireAlloc h.releaseAlloc ?_
  refine uses_bind (.perform (h.query _)) fun image => ?_
  refine uses_bind (uses_allocateIdx h.query rt) fun idx => ?_
  refine uses_bind (.perform (h.query _)) fun generation => ?_
  refine uses_bind trivial fun addrs => ?_
  refine uses_bind (uses_act h.mkdir) fun _ => ?_
  refine uses_bind (uses_bind (uses_act (h.writeRecord rfl)) fun _ =>
    uses_act (h.writeRuntime _)) fun _ => ?_
  exact uses_bind (uses_restoreTraffic ht) fun _ => trivial

theorem returns_claim (rt : Runtime) (spec : InstanceSpec) (builder : Bool) (created : Nat)
    (traffic : Option Traffic) :
    Proc.Returns (fun rec : Record => rec.id = spec.vmId)
      (rt.claim spec builder created traffic) := by
  refine returns_bracket ?_
  refine returns_bind fun image => returns_bind fun idx => ?_
  refine returns_bind fun generation => returns_bind fun addrs => ?_
  refine returns_bind fun _ => returns_bind fun _ => returns_bind fun _ => ?_
  exact returns_pure rfl

theorem uses_createLocked {spec : InstanceSpec} (h : CreateActs φ spec.vmId)
    (ht : ∀ t, φ (.writeTraffic .restore spec.vmId t)) (rt : Runtime) (builder : Bool) :
    Prog.Uses φ (rt.createLocked spec builder) := by
  refine uses_bind (.perform (h.query _)) fun enabled => ?_
  split
  · trivial
  · refine uses_bind (uses_replaceOld h.toRemovalActs h.carry rt) fun carried => ?_
    refine uses_bind (.perform (h.query _)) fun now => ?_
    exact uses_bind_returns (uses_claim h rt builder _ fun t _ => ht t)
      (returns_claim rt spec builder _ _)
      fun record hid => uses_install h.toInstallActs rt hid _

end Directories

/-! ## Periodic work -/

section Periodic

/-- `φ` contains what sampling does under the schedule lock. -/
structure SampleActs (φ : Act → Prop) : Prop where
  query : ∀ q, φ (.query q)
  sample : ∀ rolled id t, φ (.writeTraffic (.sample rolled) id t)
  relabel : ∀ id t, φ (.writeTraffic .relabel id t)
  setSchedule : ∀ s, φ (.setSchedule s)

theorem uses_relabel (h : SampleActs φ) (seen wanted : Schedule) (now : Nat) (rec : Record) :
    Prog.Uses φ (Runtime.relabel seen wanted now rec) := by
  refine uses_bind (.perform (h.query _)) fun t => ?_
  split
  · exact uses_ignore (uses_act (h.relabel _ _))
  · trivial

theorem uses_switchSchedule (h : SampleActs φ) : Prog.Uses φ Runtime.switchSchedule := by
  refine uses_bind (.perform (h.query _)) fun seen => ?_
  refine uses_bind (.perform (h.query _)) fun config => ?_
  cases config with
  | none => trivial
  | some wanted =>
    by_cases hw : wanted ≠ seen
    · simp only [if_pos hw]
      refine uses_bind (.perform (h.query _)) fun now => ?_
      refine uses_bind (uses_recordsOrDefault h.query) fun recs => ?_
      exact uses_bind (uses_forEach fun rec => uses_relabel h _ _ _ rec) fun _ =>
        uses_bind (uses_act (h.setSchedule _)) fun _ => trivial
    · simp only [if_neg hw]
      trivial

theorem uses_sampleOne (h : SampleActs φ) (rt : Runtime) (schedule : Schedule) (now : Nat)
    (rec : Record) : Prog.Uses φ (rt.sampleOne schedule now rec) := by
  refine uses_bind (.perform (h.query _)) fun counters => ?_
  cases counters with
  | none => trivial
  | some c =>
    exact uses_bind (.perform (h.query _)) fun t =>
      uses_ignore (uses_act (h.sample _ _ _))

theorem uses_setHostLinkUp (hq : ∀ q, φ (.query q)) {who : Caller} {hif : String} {up : Bool}
    (hc : φ (.command who (.setLink hif up))) :
    Prog.Uses φ (Runtime.setHostLinkUp who hif up) := by
  refine uses_bind (uses_ensure _ _) fun _ => ?_
  refine uses_bind (uses_act hc) fun _ => ?_
  exact uses_bind (uses_hostLinkUp hq hif) fun now => uses_ensure _ _

theorem uses_runCommands {cs : List (NetCmd × Bool)}
    (hc : ∀ c ign, (c, ign) ∈ cs → φ (.command .heal c)) :
    Prog.Uses φ (Runtime.runCommands cs) := by
  induction cs with
  | nil => trivial
  | cons c cs ih =>
    obtain ⟨c, ign⟩ := c
    refine uses_bind ?_ fun _ => ih fun c' ign' h => hc c' ign' (.tail _ h)
    have hφ := hc c ign (.head _)
    unfold Runtime.runCommand
    split
    · exact uses_ignore (uses_act hφ)
    · exact uses_act hφ

/-- A command of the repair of an instance with this record. -/
def Runtime.HealCmd (rt : Runtime) (rec : Record) (c : NetCmd) : Prop :=
  ∃ net ign, (rt.runSpec rec).net = some net ∧ (c, ign) ∈ attachCmds net

theorem uses_healRecord (hq : ∀ q, φ (.query q)) (rt : Runtime) {rec : Record}
    (hc : ∀ c, rt.HealCmd rec c → φ (.command .heal c)) : Prog.Uses φ (rt.healRecord rec) := by
  have hlink : rt.HealCmd rec (.setLink (rt.net.hostIf rec.idx) (!rec.networkQuarantined)) :=
    ⟨_, false, rfl, by simp [attachCmds]⟩
  refine uses_bind (.perform (hq _)) fun attached => ?_
  refine uses_bind (uses_isActive hq _) fun active => ?_
  split
  · split
    · refine uses_bind (uses_attempt (uses_hostLinkUp hq _)) fun up => ?_
      split
      · split
        · trivial
        · exact uses_ignore (uses_setHostLinkUp hq (hc _ hlink))
      · trivial
    · refine uses_bind (.perform (hq _)) fun pid => ?_
      split
      · rename_i net hnet
        refine uses_bind (uses_attempt (uses_runCommands fun c ign h => ?_)) fun r => ?_
        · exact hc c ⟨net, ign, hnet, h⟩
        · split
          · exact uses_ignore (uses_helper hq _)
          · trivial
      · trivial
  · trivial

end Periodic

/-! ## Port forwards -/

section Forwards

/-- `φ` also contains changes of the table of port forwards. -/
structure ForwardActs (φ : Act → Prop) : Prop extends NetActs φ where
  writeForwards : ∀ stored, φ (.writeForwards stored)
  setForwards : ∀ next, φ (.setForwards next)

variable (h : ForwardActs φ)
include h

theorem uses_replaceForwards (rt : Runtime) (next : List PortForward) :
    Prog.Uses φ (rt.replaceForwards next) :=
  uses_bind (uses_applyNetwork h.toRulesetActs rt next) fun _ =>
    uses_bind (uses_act (h.writeForwards _)) fun _ => uses_act (h.setForwards _)

theorem uses_retainLocked (rt : Runtime) (keep : PortForward → Bool) (fs : List PortForward) :
    Prog.Uses φ (rt.retainLocked keep fs) := by
  unfold Runtime.retainLocked
  dsimp only
  split
  · trivial
  · exact uses_replaceForwards h rt _

theorem uses_add (rt : Runtime) (rule : PortForward) : Prog.Uses φ (rt.add rule) := by
  refine uses_bind (uses_require h.query _) fun _ => uses_withForwards h.toNetActs fun fs => ?_
  unfold Runtime.addLocked
  split
  · split <;> trivial
  · refine uses_bind (.perform (h.query _)) fun listening => ?_
    split
    · trivial
    · exact uses_replaceForwards h rt _

theorem uses_limitedAdd (ha : φ (.acquire .adding)) (hr : φ (.release .adding)) (rt : Runtime)
    (rule : PortForward) : Prog.Uses φ (limitedAdd rt rule) := by
  refine uses_bracket ha hr ?_
  refine uses_bind (uses_withForwards h.toNetActs fun _ => trivial) fun existing => ?_
  refine uses_bind (.perform (h.query _)) fun max => ?_
  exact uses_bind trivial fun _ => uses_add h rt rule

end Forwards

/-! ## Errors of system calls -/

section Errors

variable {ψ : Err → Prop} (hio : ∀ text, ψ (.io text))
include hio

theorem Oracle.check_error {i : Oracle} {r : Err} (h : i.check = .error r) : ψ r := by
  unfold Oracle.check at h
  split at h
  · cases h
    exact hio _
  · cases h

theorem World.checkWrite_error {w : World} {id : VmId} {i : Oracle} {r : Err}
    (h : w.checkWrite id i = .error r) : ψ r := by
  unfold World.checkWrite at h
  split at h
  · exact Oracle.check_error hio h
  · cases h
    exact hio _

theorem Act.check_error {e : Act} {w : World} {i : Oracle} {r : Err}
    (h : e.check w i = .error r) : ψ r := by
  cases e with
  | writeRecord _ _ | writeRuntime _ _ | writeTraffic _ _ _ => exact World.checkWrite_error hio h
  | mkdir _ | makeDisk _ _ | prepareRoot _ _ | unlink _ _ | nft _ | writeForwards _ =>
    exact Oracle.check_error hio h
  | rmdir id =>
    simp only [Act.check] at h
    split at h
    · cases h
      exact hio _
    · split at h
      · exact Oracle.check_error hio h
      · cases h
        exact hio _
  | systemdRun id | terminate id | command _ c =>
    simp only [Act.check] at h
    split at h
    · first
      | exact Oracle.check_error hio h
      | (cases h; exact hio _)
    · first
      | exact Oracle.check_error hio h
      | (cases h; exact hio _)
  | _ => cases h

theorem fails_act (e : Act) : Proc.Fails ψ (act e) :=
  fails_perform fun _ _ _ _ h => Act.check_error hio h

theorem fails_check (q : Query) :
    Proc.Fails ψ (Proc.perform (.query q) fun _ _ i => i.check : Agent Unit) :=
  fails_perform fun _ _ _ _ h => Oracle.check_error hio h

theorem fails_load (id : VmId) : Proc.Fails ψ (load id) := by
  refine fails_perform fun _ w i r h => ?_
  unfold World.readRecord at h
  split at h
  · cases h
    exact hio _
  · cases h
  · split at h
    · cases h
    · cases h
      exact hio _

theorem fails_records : Proc.Fails ψ records := by
  refine fails_bind (fails_perform fun _ w i r h => ?_) fun names => ?_
  · cases hc : i.check with
    | ok u =>
      rw [hc] at h
      cases h
    | error e =>
      rw [hc] at h
      cases h
      exact Oracle.check_error hio hc
  · induction names with
    | nil => exact fails_pure []
    | cons n names ih =>
      refine fails_bind (fails_attempt _) fun r => fails_bind ih fun rest => ?_
      split <;> exact fails_pure _

theorem fails_applyNetwork (rt : Runtime) (fs : List PortForward) :
    Proc.Fails ψ (rt.applyNetwork fs) := by
  refine fails_bind (fails_records hio) fun recs => fails_bind fails_read fun d => ?_
  refine fails_bind (fails_act hio _) fun _ => ?_
  split
  · exact fails_check hio _
  · exact fails_pure ()

theorem fails_replaceForwards (rt : Runtime) (next : List PortForward) :
    Proc.Fails ψ (rt.replaceForwards next) :=
  fails_bind (fails_applyNetwork hio rt next) fun _ =>
    fails_bind (fails_act hio _) fun _ => fails_act hio _

end Errors

end RunmanAgent
