import RunmanAgent.Runtime.IndexUnique

/-!
# Network quarantine

The flag of a quarantined instance exists three times: in its record, in `runtime.json`,
and in the copy its supervisor made when it was started. `quarantine_holds`: in every
interleaving of watcher calls, starts, stops and restarts, heal passes and the steps of
the supervisors, while the record says that the instance is quarantined no step sets its
interface up, and only the save of a release clears the flag, as long as

* a boot begins to attach the network with a copy that says isolated if the record does,
* the flag is not set while a boot has yet to set the interface up.

The first condition is needed: a supervisor that was started before the isolation boots
the instance again with the old copy (`reboot_lifts_quarantine`).

Invariant: the interface names in `runtime.json` and in the copies are those of the
record, and a boot has a command left that sets the interface up only if the record
allows it.
-/

namespace RunmanAgent

open Concurrency

/-- The record of `id` lets the interface `hif` be up. -/
def LinkAllowed (rt : Runtime) (w : World) (id : VmId) (hif : String) : Prop :=
  ∃ rec, w.record id = some rec ∧ hif = rt.net.hostIf rec.idx ∧ rec.networkQuarantined = false

/-- The description names the interface of the record of `id`. -/
def Names (rt : Runtime) (w : World) (id : VmId) (net : NetSpec) : Prop :=
  ∃ rec, w.record id = some rec ∧ net.hostIf = rt.net.hostIf rec.idx

structure Wired (rt : Runtime) (w : World) : Prop where
  stored : w.Stored
  distinct : ∀ id id' rec rec', w.record id = some rec → w.record id' = some rec' →
    rec.idx = rec'.idx → id = id'
  runtime : ∀ id spec net, w.runtimeJson id = some spec → spec.net = some net → Names rt w id net
  copies : ∀ id u spec net, w.units id = some u → u.spec = some spec → spec.net = some net →
    Names rt w id net
  attaching : ∀ id u hif ign, w.units id = some u → (.setLink hif true, ign) ∈ u.phase.left →
    LinkAllowed rt w id hif

/-- The next step of the boot begins to attach the network. -/
def Phase.beginsAttach : Phase → Bool
  | .booting .inCt => true
  | _ => false

def NetCmd.setsUp : NetCmd → Bool
  | .setLink _ up => up
  | _ => false

/-- A boot attaches the network as the record says, and an isolation does not happen
meanwhile. -/
def CopiesCurrent (_ : Pid) (e : Act) (w : World) (_ : Oracle) : Prop :=
  match e with
  | .host (.supervisor id .advance) =>
    ∀ u ∈ w.units id, u.phase.beginsAttach = true → ∀ net ∈ u.spec.bind (·.net),
      ∀ rec ∈ w.record id, rec.networkQuarantined = true → net.isolated = true
  | .writeRecord (.quarantine true) rec =>
    ∀ u ∈ w.units rec.id, ∀ x ∈ u.phase.left, x.1.setsUp = false
  | _ => True

instance (p : Pid) (e : Act) (w : World) (i : Oracle) : Decidable (CopiesCurrent p e w i) := by
  unfold CopiesCurrent
  split <;> infer_instance

/-- The operations that are interleaved: those that neither create nor remove an
instance. -/
def Op.keepsInstances : Op → Bool
  | .create _ | .delete _ | .build _ | .init | .deleteVm _ => false
  | _ => true

def QuarantineDuty (rt : Runtime) (_ : Pid) (e : Act) (w : World) : Prop :=
  match e with
  | .writeRecord ch rec => ∃ old, w.record rec.id = some old ∧ ch.Updates old rec
  | .unlink _ .record => False
  | .writeRuntime id spec => ∀ net, spec.net = some net → Names rt w id net
  | .command _ (.setLink hif true) => ∃ id, LinkAllowed rt w id hif
  | _ => True

section Steps

variable {rt : Runtime} {w : World} {e : Act} {p : Pid} {i : Oracle}

variable {id : VmId} {rec : Record} {hif : String}

theorem record_apply (hd : QuarantineDuty rt p e w) (h : w.record id = some rec) :
    (e.apply p w i).record id = some rec ∨
      ∃ ch rec', e = .writeRecord ch rec' ∧ rec'.id = id ∧ ch.Updates rec rec' ∧
        (e.apply p w i).record id = some rec' := by
  rcases e.apply_record p w i id with hr | ⟨ch, rec', rfl, rfl, hr⟩ | ⟨rfl, -⟩
  · exact .inl (hr.trans h)
  · obtain ⟨old, hold, hch⟩ := hd
    rw [h, Option.some.injEq] at hold
    subst hold
    exact .inr ⟨ch, rec', rfl, rfl, hch, hr⟩
  · exact hd.elim

theorem Names.apply (hd : QuarantineDuty rt p e w) {net : NetSpec} (h : Names rt w id net) :
    Names rt (e.apply p w i) id net := by
  obtain ⟨rec, hrec, hif⟩ := h
  rcases record_apply (i := i) hd hrec with h | ⟨ch, rec', -, -, hch, h⟩
  · exact ⟨rec, h, hif⟩
  · exact ⟨rec', h, by rw [hif, hch.idx]⟩

theorem LinkAllowed.apply (hd : QuarantineDuty rt p e w)
    (he : ∀ rec, e = .writeRecord (.quarantine true) rec → rec.id ≠ id)
    (h : LinkAllowed rt w id hif) : LinkAllowed rt (e.apply p w i) id hif := by
  obtain ⟨rec, hrec, hhif, hq⟩ := h
  rcases record_apply (i := i) hd hrec with h | ⟨ch, rec', hew, hid, hch, h⟩
  · exact ⟨rec, h, hhif, hq⟩
  · refine ⟨rec', h, by rw [hhif, hch.idx], ?_⟩
    cases ch with
    | desired d | refresh => subst hch; exact hq
    | quarantine on =>
      cases on with
      | true => exact absurd hid (he rec' hew)
      | false => subst hch; rfl
    | create | fillGeneration | fillCreated => cases hch

theorem LinkAllowed.of_attaching (h : Wired rt w) {u : Supervisor} (hu : w.units id = some u)
    {se : SupEvent} (hok : CopiesCurrent p (.host (.supervisor id se)) w i) {ign : Bool}
    (hmem : (.setLink hif true, ign) ∈ (u.step (w.runtimeJson id) se).1.phase.left) :
    LinkAllowed rt w id hif := by
  rcases Supervisor.left_step hmem with hleft | ⟨rfl, hphase, net, hnet, hcmd⟩
  · exact h.attaching id u hif ign hu hleft
  · -- `attach` begins: its command follows the copy, and the copy the record
    obtain ⟨rfl, hisolated⟩ := attachCmds_setLink hcmd
    obtain ⟨spec, hspec, hnet'⟩ := Option.bind_eq_some_iff.mp hnet
    obtain ⟨rec, hrec, hif⟩ := h.copies id u spec net hu hspec hnet'
    refine ⟨rec, hrec, hif, ?_⟩
    by_contra hq
    have hiso := hok u hu (by rw [hphase]; rfl) net hnet rec hrec (by simpa using hq)
    simp [hiso] at hisolated

theorem Wired.apply (h : Wired rt w) (hd : QuarantineDuty rt p e w)
    (hok : CopiesCurrent p e w i) : Wired rt (e.apply p w i) where
  stored := h.stored.apply e p i
  distinct := by
    -- the directory of a record that is written has a record with that index already
    have hold : ∀ id rec, (e.apply p w i).record id = some rec →
        ∃ old, w.record id = some old ∧ old.idx = rec.idx := by
      intro id rec hrec
      rcases e.apply_record p w i id with hr | ⟨ch, rec', rfl, rfl, hr⟩ | ⟨rfl, -⟩
      · exact ⟨rec, hr ▸ hrec, rfl⟩
      · obtain ⟨old, hold, hch⟩ := hd
        rw [hr, Option.some.injEq] at hrec
        exact ⟨old, hold, hrec ▸ hch.idx.symm⟩
      · exact hd.elim
    intro id id' rec rec' hrec hrec' hidx
    obtain ⟨old, ho, hi⟩ := hold id rec hrec
    obtain ⟨old', ho', hi'⟩ := hold id' rec' hrec'
    exact h.distinct id id' old old' ho ho' (hi.trans (hidx.trans hi'.symm))
  runtime := by
    intro id spec net hspec hnet
    rcases e.apply_runtimeJson p w i id with hr | ⟨spec', rfl, hr⟩ | hr
    · exact (h.runtime id spec net (hr ▸ hspec) hnet).apply hd
    · rw [hr, Option.some.injEq] at hspec
      subst hspec
      exact Names.apply hd (hd net hnet)
    · rw [hr] at hspec
      cases hspec
  copies := by
    intro id u spec net hu hspec hnet
    rcases e.apply_units p w i id with hsame | hchange
    · exact (h.copies id u spec net (hsame ▸ hu) hspec hnet).apply hd
    · rw [hu] at hchange
      cases hchange with
      | systemdRun _ => cases hspec
      | killCt u₀ hu₀ =>
        rw [Supervisor.killCt_spec] at hspec
        exact (h.copies id u₀ spec net hu₀ hspec hnet).apply hd
      | terminate u₀ hu₀ => exact (h.copies id u₀ spec net hu₀ hspec hnet).apply hd
      | step u₀ hu₀ se =>
        rcases Supervisor.step_spec with hs | hs
        · exact (h.copies id u₀ spec net hu₀ (hs.symm.trans hspec) hnet).apply hd
        · exact (h.runtime id spec net (hs.symm.trans hspec) hnet).apply hd
  attaching := by
    intro id u hif ign hu hmem
    have hallowed : LinkAllowed rt w id hif := by
      rcases e.apply_units p w i id with hsame | hchange
      · exact h.attaching id u hif ign (hsame ▸ hu) hmem
      · rw [hu] at hchange
        cases hchange with
        | systemdRun _ => cases hmem
        | killCt u₀ hu₀ =>
          rw [Supervisor.killCt_phase] at hmem
          exact h.attaching id u₀ hif ign hu₀ hmem
        | terminate u₀ hu₀ => exact h.attaching id u₀ hif ign hu₀ hmem
        | step u₀ hu₀ se => exact LinkAllowed.of_attaching h hu₀ hok hmem
    refine hallowed.apply hd fun rec he hid => ?_
    subst he hid
    -- the flag is set only while no boot has this command left
    rcases (Act.writeRecord (.quarantine true) rec).apply_units p w i rec.id with hsame | hchange
    · have hleft := hok u (hsame ▸ hu) _ hmem
      cases hleft
    · cases hchange

theorem Wired.linkUp (h : Wired rt w) (hd : QuarantineDuty rt p e w)
    (hup : (e.apply p w i).LinkUp hif) : w.LinkUp hif ∨ ∃ id, LinkAllowed rt w id hif := by
  rcases e.apply_linkUp p w i hup with hw | ⟨who, rfl⟩ | ⟨id, se, u, rfl, hu, hcmd⟩
  · exact .inl hw
  · exact .inr hd
  · obtain ⟨ign, hmem⟩ := Supervisor.step_command hcmd
    exact .inr ⟨id, h.attaching id u hif ign hu hmem⟩

theorem Wired.stays_down (h : Wired rt w) (hd : QuarantineDuty rt p e w)
    (hrec : w.record id = some rec) (hq : rec.networkQuarantined = true)
    (hup : (e.apply p w i).LinkUp (rt.net.hostIf rec.idx)) : w.LinkUp (rt.net.hostIf rec.idx) := by
  rcases h.linkUp hd hup with hw | ⟨id', rec', hrec', hif, hq'⟩
  · exact hw
  · have hidx : rec.idx = rec'.idx := rt.net.hostIf_injective hif
    have hid : id = id' := h.distinct id id' rec rec' hrec hrec' hidx
    subst hid
    rw [hrec, Option.some.injEq] at hrec'
    rw [hrec', hq'] at hq
    cases hq

theorem flag_apply (hd : QuarantineDuty rt p e w) (hrec : w.record id = some rec)
    (hq : rec.networkQuarantined = true) :
    ∃ rec', (e.apply p w i).record id = some rec' ∧ (rec'.networkQuarantined = false →
      (e.apply p w i).log = .saved p (.quarantine false) rec' :: w.log) := by
  rcases record_apply (i := i) hd hrec with h | ⟨ch, rec', rfl, rfl, hch, h⟩
  · refine ⟨rec, h, fun hf => ?_⟩
    rw [hq] at hf
    cases hf
  · refine ⟨rec', h, fun hf => ?_⟩
    cases ch with
    | quarantine on =>
      subst hch
      have hon : on = false := hf
      subst hon
      rcases Act.apply_cases (.writeRecord (.quarantine false)
        { rec with networkQuarantined := false }) p w i with ⟨-, hw⟩ | hw
      · rw [hw]
        rfl
      · rw [hw, hrec, Option.some.injEq] at h
        rw [h] at hq
        cases hq
    | desired d | refresh =>
      subst hch
      rw [hq] at hf
      cases hf
    | create | fillGeneration | fillCreated => cases hch

end Steps

/-! ## The duty, task by task -/

def quarantineDiscipline (rt : Runtime) : Discipline agent where
  inv := Wired rt
  may p e w := e.guarded p w ∧ QuarantineDuty rt p e w
  ok := CopiesCurrent
  keeps hi _ hm hok := hi.apply hm.2 hok

section Tasks

variable {rt : Runtime} {me : Pid}

theorem freeDuty_quarantine : FreeDuty (QuarantineDuty rt) me := by
  intro e w he
  cases e with
  | query q | acquire k | release k | nft rules | reply r => trivial
  | _ => exact he.elim

theorem saveDuty_quarantine (id : VmId) :
    SaveDuty (quarantineDiscipline rt) (QuarantineDuty rt) rt me id where
  write {ch rec rec' w} hi hown hch := by
    have hid := hch.id.trans (hi.stored _ _ hown.2)
    exact ⟨rec, hid ▸ hown.2, hch⟩
  runtime {rec w} _ hown := by
    rintro net ⟨⟩
    exact ⟨rec, hown.2, rfl⟩

theorem unitActs_quarantine (id : VmId) :
    UnitActs (Fine (quarantineDiscipline rt) (QuarantineDuty rt) me (Holds me (.vm id))) id where
  query _ := fine_query freeDuty_quarantine _
  killCt := fine_holds (by simp) fun _ _ _ => trivial
  terminate := fine_holds (by simp) fun _ _ _ => trivial
  removePid := fine_holds (by simp) fun _ _ _ => trivial
  systemdRun := fine_holds (by simp) fun _ _ _ => trivial

theorem sampleActs_quarantine :
    SampleActs (Fine (quarantineDiscipline rt) (QuarantineDuty rt) me (Holds me .schedule)) where
  query _ := fine_query freeDuty_quarantine _
  sample _ _ _ := fine_holds (by simp) fun _ _ _ => trivial
  relabel _ _ := fine_holds (by simp) fun _ _ _ => trivial
  setSchedule _ := fine_holds (by simp) fun _ _ _ => trivial

theorem healCmd_duty {id : VmId} {rec : Record} {w : World} (hown : Owns me id rec w)
    {c : NetCmd} (hc : rt.HealCmd rec c) (who : Caller) :
    QuarantineDuty rt me (.command who c) w := by
  cases c with
  | setLink hif up =>
    cases up with
    | true =>
      obtain ⟨net, ign, hnet, hmem⟩ := hc
      obtain ⟨rfl, hisolated⟩ := attachCmds_setLink hmem
      cases hnet
      exact ⟨id, rec, hown.2, rfl, by simpa using hisolated⟩
    | false => trivial
  | _ => trivial

theorem triple_op_quarantine {op : Op} (hop : op.keepsInstances = true) :
    Dutiful (quarantineDiscipline rt) (QuarantineDuty rt) me (op.prog rt) := by
  have : FollowsLocks (quarantineDiscipline rt) := ⟨fun _ _ _ h => h.1⟩
  have hI : ∀ w, (quarantineDiscipline rt).inv w → w.Stored := fun _ h => h.stored
  have hF : FreeDuty (QuarantineDuty rt) me := freeDuty_quarantine
  have hS := fun id => @saveDuty_quarantine rt me id
  have hU := fun id => @unitActs_quarantine rt me id
  have hT := @sampleActs_quarantine rt me
  have hfw : ∀ {e : Act} {w : World},
      (∃ l, e = .writeForwards l) ∨ (∃ l, e = .setForwards l) → (quarantineDiscipline rt).inv w →
      QuarantineDuty rt me e w := by
    rintro _ w (⟨l, rfl⟩ | ⟨l, rfl⟩) _ <;> trivial
  cases op with
  | idle => exact .ret
  | start id => exact triple_replying hF (triple_start hI hF (hS id) (hU id))
  | stop id force => exact triple_replying hF (triple_stop hI hF (hS id) (hU id) force)
  | restart id => exact triple_replying hF (triple_restart hI hF (hS id) (hU id))
  | heal =>
    exact triple_replying hF (triple_heal hF rt fun _ _ c hc =>
      fine_owns (by simp) (by simp) (by simp) fun w _ hown => healCmd_duty hown hc .heal)
  | sampleTraffic => exact triple_replying hF (triple_sampleTraffic hF hT rt)
  | noticeSchedule => exact triple_replying hF (triple_withSchedule hF hT fun _ => trivial)
  | quarantine id generation project action =>
    refine triple_replying hF (.seq (triple_quarantine hF (hS id) ?_ ?_ hI generation
      project action) fun _ => .ret)
    · exact fun _ => fine_holds (by simp) fun _ _ _ => trivial
    · exact fun rec hq => fine_owns (by simp) (by simp) (by simp) fun w _ hown =>
        ⟨id, rec, hown.2, rfl, hq⟩
  | setPortFwd rule => exact triple_replying hF (triple_setPortFwd hF hfw rt rule)
  | delPortFwd id proto hostPort => exact triple_replying hF (triple_retain hF hfw rt _)
  | host es => exact triple_host (fun _ => trivial) es
  | create _ | delete _ | build _ | init | deleteVm _ => cases hop

end Tasks

/-! ## Every run -/

/-- A step of a run from a state whose record says that the instance is quarantined. -/
theorem quarantine_holds (rt : Runtime) (w : World) (ops : Pid → Op) (hw : Wired rt w)
    (hops : ∀ p, (ops p).keepsInstances = true) {P P' : Pool World Oracle Act}
    (hrun : Pool.Run agent CopiesCurrent (agentPool rt w ops) P)
    (hstep : Pool.Step agent CopiesCurrent P P') {id : VmId} {rec : Record}
    (hrec : P.mem.record id = some rec) (hq : rec.networkQuarantined = true) :
    (P'.mem.LinkUp (rt.net.hostIf rec.idx) → P.mem.LinkUp (rt.net.hostIf rec.idx)) ∧
      ∃ rec', P'.mem.record id = some rec' ∧ (rec'.networkQuarantined = false →
        ∃ p, P'.mem.log = .saved p (.quarantine false) rec' :: P.mem.log) := by
  have hsafe := agentPool_safe (D := quarantineDiscipline rt) rfl (fun _ h => h.stored) hw
    (fun p h => by have hp := hops p; rw [h] at hp; cases hp)
    fun p => triple_op_quarantine (hops p)
  have hP := Pool.run_safe hsafe hrun
  obtain ⟨⟨p, e, i, -, ⟨-, hd⟩, -, hmem⟩, -⟩ := hP.step hstep
  rw [hmem]
  obtain ⟨rec', hrec', hflag⟩ := flag_apply (i := i) hd hrec hq
  exact ⟨fun hup => hP.inv.stays_down hd hrec hq hup, rec', hrec', fun hf => ⟨p, hflag hf⟩⟩

namespace SmallNode

/-- The instance is quarantined. -/
def recordQ : Record := { recordA with networkQuarantined := true }

/-- The supervisor boots the instance up to the command that sets the link; there is no
old interface to remove. -/
def attachEvents : List SupEvent :=
  [.advance, .advance, .fail "Cannot find device"] ++ List.replicate 4 .advance

theorem runtimeJson_world (rec : Record) (id : VmId) (spec : RunSpec)
    (h : (world rec true).runtimeJson id = some spec) : id = vmA ∧ spec = rt.runSpec rec := by
  simp only [World.runtimeJson, world, AList.singleton, AList.lookup] at h
  by_cases hid : id = vmA
  · subst hid
    refine ⟨rfl, ?_⟩
    simp only [List.dlookup_cons_eq, Option.bind_some, dirA, Option.some.injEq] at h
    exact h.symm
  · rw [List.dlookup_cons_ne _ _ hid] at h
    cases h

theorem wired_world {rec : Record} (hid : rec.id = vmA) : Wired rt (world rec true) where
  stored := stored_world hid true
  distinct _ _ _ _ h h' := distinctIdx_world rec true _ _ _ _ (World.lastRecord_of_record h)
    (World.lastRecord_of_record h')
  runtime id spec net hspec hnet := by
    obtain ⟨rfl, rfl⟩ := runtimeJson_world rec id spec hspec
    cases hnet
    exact ⟨rec, by rw [record_world]; rfl, rfl⟩
  copies _ _ _ _ hu := by cases hu
  attaching _ _ _ _ hu := by cases hu

/-- A quarantined instance is started. -/
def startQ : Pool World Oracle Act :=
  agentPool rt (world recordQ true)
    (two (.start vmA) (.host ((.start false :: attachEvents).map (.supervisor vmA))))

/-- The last command of the boot leaves the interface of the instance down. -/
theorem start_stays_down : ∃ P P' : Pool World Oracle Act,
    Pool.Run agent CopiesCurrent startQ P ∧ Pool.Step agent CopiesCurrent P P' ∧
    P.mem.record vmA = some recordQ ∧ (P'.mem.links (rt.net.hostIf 0)).isSome ∧
    ¬ P'.mem.LinkUp (rt.net.hostIf 0) := by
  obtain ⟨P, P', hrun, hstep, hrec, hlink, hsome⟩ : ∃ P P', Pool.Run agent CopiesCurrent startQ P ∧
      Pool.Step agent CopiesCurrent P P' ∧ P.mem.record vmA = some recordQ ∧
      P.mem.links (rt.net.hostIf 0) = some { master := some "runman0", isolated := true } ∧
      (P'.mem.links (rt.net.hostIf 0)).isSome :=
    Pool.exists_run_step (steps 0 7 ++ steps 1 7) (1, calm) (by decide +kernel)
  have hops : ∀ p, (two (.start vmA) (.host ((.start false :: attachEvents).map
      (.supervisor vmA))) p).keepsInstances = true
    | 0 | 1 | _ + 2 => rfl
  refine ⟨P, P', hrun, hstep, hrec, hsome, fun hup => ?_⟩
  obtain ⟨l, hl, hlup⟩ := (quarantine_holds rt (world recordQ true) _ (wired_world rfl) hops
    hrun hstep hrec rfl).1 hup
  cases hlink.symm.trans hl
  cases hlup

/-- The guest reboots, and is booted up to the command that sets the link. -/
def rebootEvents : List SupEvent :=
  [.initExits 129, .signal, .decide true] ++ List.replicate 7 .advance

/-- The instance runs, with its interface up, while the watcher isolates it and the guest
reboots. -/
def isolateAndReboot : Pool World Oracle Act :=
  agentPool rt { supervised .polling with
      links := fun hif =>
        if hif = rt.net.hostIf 0 then some { master := some "runman0", up := true } else none }
    (two (.quarantine vmA "g" "default" .isolate) (.host (rebootEvents.map (.supervisor vmA))))

/-- The isolation has succeeded, and the boot sets the interface up. -/
theorem reboot_lifts_quarantine : ∃ P P' : Pool World Oracle Act,
    Pool.Run agent anyStep isolateAndReboot P ∧ Pool.Step agent anyStep P P' ∧
    succeeded P.mem = [0] ∧ P.mem.record vmA = some recordQ ∧
    ¬ P.mem.LinkUp (rt.net.hostIf 0) ∧ P'.mem.record vmA = some recordQ ∧
    P'.mem.LinkUp (rt.net.hostIf 0) := by
  obtain ⟨P, P', hrun, hstep, hdone, hrec, hlink, hrec', hlink'⟩ : ∃ P P',
      Pool.Run agent anyStep isolateAndReboot P ∧ Pool.Step agent anyStep P P' ∧
      succeeded P.mem = [0] ∧ P.mem.record vmA = some recordQ ∧
      P.mem.links (rt.net.hostIf 0) = some { master := some "runman0", isolated := true } ∧
      P'.mem.record vmA = some recordQ ∧ P'.mem.links (rt.net.hostIf 0) =
        some { master := some "runman0", isolated := true, up := true } :=
    Pool.exists_run_step (steps 0 11 ++ steps 1 9) (1, calm) (by decide +kernel)
  refine ⟨P, P', hrun, hstep, hdone, hrec, ?_, hrec', _, hlink', rfl⟩
  rintro ⟨l, hl, hup⟩
  cases hlink.symm.trans hl
  cases hup

end SmallNode

end RunmanAgent
