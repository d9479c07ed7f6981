import RunmanAgent.Runtime.Footprint
import RunmanAgent.Runtime.Locking

/-!
# Triples for the agent's code

What the operations on one instance do, for any discipline that includes the locking
rules. The hypotheses say what a particular discipline has to check about an action:
`FreeDuty` covers the actions no rule restricts, `SaveDuty` the writes of a record that
was read under the lock, and the structures of `Footprint` the rest.
-/

namespace RunmanAgent

open Concurrency Proc

/-- Every record is stored in the directory of its instance. -/
def World.Stored (w : World) : Prop := ∀ id rec, w.record id = some rec → rec.id = id

theorem World.Stored.apply {w : World} (h : w.Stored) (e : Act) (p : Pid) (i : Oracle) :
    (e.apply p w i).Stored := by
  intro id rec hrec
  rcases e.apply_record p w i id with hr | ⟨ch, rec', -, hid, hr⟩ | ⟨-, hr⟩
  · exact h id rec (hr ▸ hrec)
  · rw [hr, Option.some.injEq] at hrec
    exact hrec ▸ hid
  · rw [hr] at hrec
    cases hrec

/-- `me` holds the lock. -/
def Holds (me : Pid) (k : LockId) (w : World) : Prop := w.locks k = some me

/-- `me` holds the lock of `id`, and `rec` is its record. -/
def Owns (me : Pid) (id : VmId) (rec : Record) (w : World) : Prop :=
  Holds me (.vm id) w ∧ w.record id = some rec

/-- `rec'` is `rec` after a change of that kind. -/
def Change.Updates (rec rec' : Record) : Change → Prop
  | .desired d => rec' = { rec with desired := d }
  | .refresh => rec' = rec
  | .quarantine on => rec' = { rec with networkQuarantined := on }
  | _ => False

theorem Change.Updates.id {ch : Change} {rec rec' : Record} (h : ch.Updates rec rec') :
    rec'.id = rec.id := by
  cases ch with
  | desired d | refresh | quarantine on => subst h; rfl
  | create | fillGeneration | fillCreated => cases h

/-- Actions that no rule restricts. -/
def Act.free : Act → Prop
  | .query _ | .acquire _ | .release _ | .nft _ | .reply _ => True
  | _ => False

section

variable {D : Discipline agent} {duty : Pid → Act → World → Prop} {me : Pid} {id : VmId} {α : Type}

/-- The duty says nothing about free actions. -/
def FreeDuty (duty : Pid → Act → World → Prop) (me : Pid) : Prop :=
  ∀ e w, e.free → duty me e w

/-- The duty allows writing back a record that was read under the lock. -/
structure SaveDuty (D : Discipline agent) (duty : Pid → Act → World → Prop) (rt : Runtime)
    (me : Pid) (id : VmId) : Prop where
  write : ∀ {ch rec rec' w}, D.inv w → Owns me id rec w → ch.Updates rec rec' →
    duty me (.writeRecord ch rec') w
  runtime : ∀ {rec w}, D.inv w → Owns me id rec w → duty me (.writeRuntime id (rt.runSpec rec)) w

instance stable_holds (k : LockId) : Stable D me (Holds me k) := stable_lock k

instance stable_read [FollowsLocks D] (id : VmId) (r : Option Record) :
    Stable D me (fun w => Holds me (.vm id) w ∧ w.record id = r) := stable_record id r

instance stable_owns [FollowsLocks D] (id : VmId) (rec : Record) :
    Stable D me (Owns me id rec) := stable_read id (some rec)

variable {e : Act} {w : World} {i : Oracle} {k : LockId} {rec : Record} {ch : Change}
  {rec' : Record} {rt : Runtime} {spec : InstanceSpec} {P : World → Prop} {x : Agent α}

theorem holds_apply (he : e ≠ .release k) (h : Holds me k w) : Holds me k (e.apply me w i) := by
  rcases e.apply_locks me w i k with hk | ⟨-, hk⟩ | ⟨hr, -⟩
  · exact hk.trans h
  · exact hk
  · exact absurd hr he

theorem owns_apply (hr : e ≠ .release (.vm id))
    (hw : ∀ ch rec, e = .writeRecord ch rec → rec.id ≠ id) (hu : e ≠ .unlink id .record)
    (h : Owns me id rec w) : Owns me id rec (e.apply me w i) := by
  refine ⟨holds_apply hr h.1, ?_⟩
  rcases e.apply_record me w i id with hk | ⟨ch, rec', he, hid, -⟩ | ⟨he, -⟩
  · exact hk.trans h.2
  · exact absurd hid (hw _ _ he)
  · exact absurd he hu

theorem fine_holds (he : e ≠ .release k) (h : ∀ w, D.inv w → Holds me k w → duty me e w) :
    Fine D duty me (Holds me k) e :=
  fun w _ hi hk _ _ => ⟨h w hi hk, holds_apply he hk⟩

theorem fine_owns (hr : e ≠ .release (.vm id))
    (hw : ∀ ch rec, e = .writeRecord ch rec → rec.id ≠ id) (hu : e ≠ .unlink id .record)
    (h : ∀ w, D.inv w → Owns me id rec w → duty me e w) : Fine D duty me (Owns me id rec) e :=
  fun w _ hi hk _ _ => ⟨h w hi hk, owns_apply hr hw hu hk⟩

theorem fine_free_holds (hF : FreeDuty duty me) (hf : e.free) (he : e ≠ .release k) :
    Fine D duty me (Holds me k) e :=
  fine_holds he fun w _ _ => hF e w hf

theorem netActs_holds (hF : FreeDuty duty me) : NetActs (Fine D duty me (Holds me (.vm id))) where
  query _ := fine_free_holds hF (by trivial) (by simp)
  acquire := fine_free_holds hF (by trivial) (by simp)
  release := fine_free_holds hF (by trivial) (by simp)
  nft _ := fine_free_holds hF (by trivial) (by simp)

theorem fine_query (hF : FreeDuty duty me) (q : Query) : Fine D duty me P (.query q) :=
  fun w _ _ hP _ _ => ⟨hF _ w trivial, hP⟩

theorem triple_locked (hF : FreeDuty duty me) {k : LockId}
    (hx : Triple D duty me (Holds me k) x (fun _ => Holds me k)) :
    Dutiful D duty me (Proc.bracket (.acquire k) (.release k) x) := by
  refine .bracket (B := Holds me k) ?_ hx (fun _ => ?_)
  · refine .perform fun w i _ _ _ _ => ?_
    refine ⟨hF _ w trivial, ?_⟩
    simp [agent, Act.apply, Act.check, Act.perform, Holds]
  · exact .perform fun w i _ _ _ _ => ⟨hF _ w trivial, trivial⟩

theorem triple_bracket (hF : FreeDuty duty me) {k : LockId} (hx : Dutiful D duty me x) :
    Dutiful D duty me (Proc.bracket (.acquire k) (.release k) x) := by
  refine .bracket (B := fun _ => True) ?_ hx (fun _ => ?_)
  · exact .perform fun w i _ _ _ _ => ⟨hF _ w trivial, trivial⟩
  · exact .perform fun w i _ _ _ _ => ⟨hF _ w trivial, trivial⟩

/-! ## Records -/

theorem readRecord_some (h : w.readRecord id i = .ok (some rec)) : w.record id = some rec := by
  unfold World.readRecord at h
  split at h
  · cases h
  · cases h
  · rename_i f hf
    split at h
    · cases h
      simp [World.record, hf]
    · cases h

theorem readRecord_none (h : w.readRecord id i = .ok none) : w.record id = none := by
  unfold World.readRecord at h
  split at h
  · cases h
  · rename_i hf
    simp [World.record, hf]
  · split at h <;> cases h

theorem mem_listDir (h : w.lastRecord id = some rec) (i : Oracle) : id ∈ w.listDir i := by
  have hkey : id ∈ w.dirs.keys := by
    obtain ⟨d, hd, -⟩ := Option.bind_eq_some_iff.mp h
    exact AList.mem_keys.mp (AList.lookup_isSome.mp (Option.isSome_of_mem hd))
  unfold World.listDir
  split
  · rename_i hperm
    exact (List.isPerm_iff.mp hperm).mem_iff.mpr hkey
  · exact hkey

theorem triple_load [FollowsLocks D] (hF : FreeDuty duty me) :
    Triple D duty me (Holds me (.vm id)) (load id)
      (ends (fun r w => Holds me (.vm id) w ∧ w.record id = r) (fun _ => Holds me (.vm id))) := by
  refine .perform fun w i _ hk _ _ => ?_
  refine ⟨hF _ w trivial, ?_⟩
  show ends _ _ (w.readRecord id i) w
  cases h : w.readRecord id i with
  | error e => exact hk
  | ok r =>
    refine ⟨hk, ?_⟩
    cases r with
    | none => exact readRecord_none h
    | some rec => exact readRecord_some h

theorem triple_require [FollowsLocks D] (hF : FreeDuty duty me) :
    Triple D duty me (Holds me (.vm id)) (require id)
      (ends (Owns me id) (fun _ => Holds me (.vm id))) := by
  refine .procBind (triple_load hF) fun r => ?_
  cases r with
  | none => exact .ret fun _ _ h => h.1
  | some rec => exact .ret fun _ _ h => h

theorem record_writeRecord {p : Pid} (hc : (Act.writeRecord ch rec).check w i = .ok ()) :
    ((Act.writeRecord ch rec).apply p w i).record rec.id = some rec := by
  have hd : (w.dirs.lookup rec.id).isSome := by
    by_contra hd
    simp [Act.check, World.checkWrite, hd] at hc
  obtain ⟨d, hd⟩ := Option.isSome_iff_exists.mp hd
  simp [Act.apply, hc, Act.perform, World.addLog, World.record, World.recordFile,
    World.lookup_modifyDir, hd]

theorem triple_writeRecord [FollowsLocks D] (hid : rec'.id = id)
    (hduty : ∀ w, D.inv w → Owns me id rec w → duty me (.writeRecord ch rec') w) :
    Triple D duty me (Owns me id rec) (act (.writeRecord ch rec'))
      (ends (fun _ => Owns me id rec') (fun _ => Owns me id rec)) := by
  refine .perform fun w i hi hw _ _ => ⟨hduty w hi hw, ?_⟩
  subst hid
  cases hc : (Act.writeRecord ch rec').check w i with
  | ok u => exact ⟨holds_apply (by simp) hw.1, record_writeRecord hc⟩
  | error e =>
    simp only [ends_error, agent, Act.apply, hc]
    exact hw

theorem triple_save [FollowsLocks D] (hid : rec'.id = id) (hS : SaveDuty D duty rt me id)
    (hch : ch.Updates rec rec') :
    Triple D duty me (Owns me id rec) (rt.save ch rec')
      (ends (fun _ => Owns me id rec') (fun _ => Holds me (.vm id))) := by
  refine .procBind (R := fun _ => Owns me id rec') ?_ fun _ => ?_
  · refine (triple_writeRecord hid fun w hi hw => hS.write hi hw hch).post ?_
    intro r w _ h
    cases r with
    | ok u => exact h
    | error e => exact h.1
  · subst hid
    refine .perform fun w i hi hw _ _ => ?_
    refine ⟨hS.runtime hi hw, ?_⟩
    have hown : Owns me rec'.id rec' ((Act.writeRuntime rec'.id (rt.runSpec rec')).apply me w i) :=
      owns_apply (by simp) (by simp) (by simp) hw
    cases hc : (Act.writeRuntime rec'.id (rt.runSpec rec')).check w i with
    | ok u => exact hown
    | error e => exact hown.1

theorem triple_save_holds [FollowsLocks D] (hid : rec'.id = id) (hS : SaveDuty D duty rt me id)
    (hch : ch.Updates rec rec') :
    Triple D duty me (Owns me id rec) (rt.save ch rec') (fun _ => Holds me (.vm id)) := by
  refine (triple_save hid hS hch).post fun r w _ h => ?_
  cases r with
  | ok u => exact h.1
  | error e => exact h

/-! ## Start and stop -/

section Lifecycle

variable {rt : Runtime} [FollowsLocks D] (hI : ∀ w, D.inv w → w.Stored)
  (hF : FreeDuty duty me) (hS : SaveDuty D duty rt me id)
include hI hF hS

theorem triple_setDesired (d : Desired) :
    Triple D duty me (Holds me (.vm id)) (rt.setDesired id d)
      (ends (fun rec w => Owns me id rec w ∧ rec.id = id ∧ rec.desired = d)
        (fun _ => Holds me (.vm id))) := by
  refine .procBind (R := fun rec w => Owns me id rec w ∧ rec.id = id)
    ((triple_require hF).imp (fun rec w hi h => ⟨h, hI w hi id rec h.2⟩) fun _ _ _ h => h)
    fun old => ?_
  · by_cases hd : old.desired ≠ d
    · rw [if_pos hd]
      intro w hw
      have hsave : Triple D duty me (Owns me id old)
          (rt.save (.desired d) { old with desired := d })
          (ends (fun _ => Owns me id { old with desired := d }) (fun _ => Holds me (.vm id))) :=
        triple_save hw.2 hS rfl
      refine Triple.procBind hsave (fun _ => ?_) w hw.1
      exact Triple.ret fun _ _ h => ⟨h, hw.2, rfl⟩
    · rw [if_neg hd]
      exact .ret fun _ _ h => ⟨h.1, h.2, not_not.mp hd⟩

variable (hU : UnitActs (Fine D duty me (Holds me (.vm id))) id)
include hU

theorem triple_start : Dutiful D duty me (rt.start id) := by
  refine triple_locked hF (Triple.procBind (triple_setDesired hI hF hS .running) fun record => ?_)
  intro w hw
  have hid := hw.2.1
  refine Triple.seq (P := Owns me id record) (R := Owns me id record)
    (Triple.of_uses (uses_isActive (fine_query hF) id))
    (fun _ _ _ h => h.1) (fun active => ?_) w hw.1
  split
  · exact .ret fun _ _ h => h.1
  · refine .procBind (triple_save hid hS rfl) fun _ => ?_
    exact (Triple.of_uses (uses_launch hU hid)).pre fun _ h => h.1

theorem triple_stop (force : Bool) : Dutiful D duty me (rt.stop id force) := by
  refine triple_locked hF (Triple.procBind (triple_setDesired hI hF hS .stopped) fun record => ?_)
  exact (Triple.of_uses (uses_halt hU force)).pre fun _ h => h.1.1

theorem triple_restart : Dutiful D duty me (rt.restart id) := by
  refine triple_locked hF (Triple.procBind (triple_setDesired hI hF hS .running) fun record => ?_)
  intro w hw
  refine Triple.seq (R := Holds me (.vm id))
    (Triple.of_uses (uses_halt hU false)) (fun _ _ _ h => h) (fun _ => ?_) w hw.1.1
  exact Triple.of_uses (uses_launch hU hw.2.1)

end Lifecycle

/-! ## Create and delete -/

theorem triple_delete (hF : FreeDuty duty me)
    (hR : RemovalActs (Fine D duty me (Holds me (.vm id))) id) (rt : Runtime) :
    Dutiful D duty me (rt.delete id) :=
  triple_locked hF (Triple.of_uses
    (uses_bind (uses_deleteLocked hR rt) fun _ => uses_ignore (uses_helper hR.query _)))

theorem triple_createLocked (hF : FreeDuty duty me)
    (hC : CreateActs (Fine D duty me (Holds me (.vm spec.vmId))) spec.vmId)
    (ht : ∀ t, Fine D duty me (Holds me (.vm spec.vmId)) (.writeTraffic .restore spec.vmId t))
    (rt : Runtime) (builder : Bool) :
    Dutiful D duty me (withVm spec.vmId (rt.createLocked spec builder)) :=
  triple_locked hF (Triple.of_uses (uses_createLocked hC ht rt builder))

theorem triple_create_of_claim (hF : FreeDuty duty me)
    (hC : InstallActs (Fine D duty me (Holds me (.vm spec.vmId))) spec.vmId)
    (hcarry : ∀ old, Fine D duty me (Holds me (.vm spec.vmId)) (.carry spec.vmId old))
    (rt : Runtime) (builder : Bool)
    (hclaim : ∀ created traffic, Triple D duty me (Holds me (.vm spec.vmId))
      (rt.claim spec builder created traffic) (fun _ => Holds me (.vm spec.vmId))) :
    Dutiful D duty me (withVm spec.vmId (rt.createLocked spec builder)) := by
  refine triple_locked hF ?_
  refine .seq (Triple.of_uses (.perform (fine_query hF _))) (fun _ _ _ h => h) fun enabled => ?_
  split
  · exact .ret fun _ _ h => h
  · refine .seq (Triple.of_uses (uses_replaceOld hC.toRemovalActs hcarry rt))
      (fun _ _ _ h => h) fun carried => ?_
    refine .seq (Triple.of_uses (.perform (fine_query hF _))) (fun _ _ _ h => h) fun now => ?_
    exact .seqReturns (hclaim _ _) (returns_claim rt spec builder _ _)
      (fun _ _ _ h => h) fun record hid => .of_uses (uses_install hC rt hid _)

/-! ## Code without restrictions -/

theorem fine_true (h : ∀ w, D.inv w → duty me e w) : Fine D duty me (fun _ => True) e :=
  fun w _ hi _ _ _ => ⟨h w hi, trivial⟩

theorem triple_of_uses_free (hF : FreeDuty duty me) {p : Prog World Oracle Act α}
    (hp : p.Uses Act.free) : Dutiful D duty me p :=
  .of_uses (hp.mono fun e he => fine_true fun w _ => hF e w he)

theorem triple_ignore (hx : Dutiful D duty me x) : Dutiful D duty me (ignore x) :=
  hx.attempt.seq fun _ => .ret

theorem triple_context {text : String} (hx : Dutiful D duty me x) :
    Dutiful D duty me (context text x) := by
  refine .bind hx fun r => ?_
  cases r <;> exact Dutiful.ret

/-! ## Builds -/

theorem triple_build [FollowsLocks D] (hI : ∀ w, D.inv w → w.Stored) (hF : FreeDuty duty me)
    (hS : SaveDuty D duty rt me spec.vmId)
    (hR : RemovalActs (Fine D duty me (Holds me (.vm spec.vmId))) spec.vmId)
    (hcreate : Dutiful D duty me (withVm spec.vmId (rt.createLocked spec true))) :
    Dutiful D duty me (rt.runBuild spec) := by
  refine .seq (triple_context hcreate) fun _ => ?_
  have hfree : ∀ {β : Type} {x : Agent β}, Prog.Uses Act.free x →
      Dutiful D duty me x := fun h => triple_of_uses_free hF h
  have hbuild : Dutiful D duty me (rt.buildIn spec.vmId) := by
    refine .seq (hfree (uses_helper (fun _ => trivial) _)) fun _ => ?_
    refine .seq (hfree (uses_helper (fun _ => trivial) _)) fun _ => ?_
    refine .seq (triple_context (triple_stop hI hF hS hR.toUnitActs false)) fun _ => ?_
    refine .seq (hfree (uses_require (fun _ => trivial) _)) fun _ => ?_
    exact hfree (uses_helper (fun _ => trivial) _)
  refine hbuild.attempt.seq fun result => ?_
  refine .seq (triple_ignore (triple_delete hF hR rt)) fun _ => ?_
  exact .ret

/-! ## Periodic work -/

theorem triple_withSchedule (hF : FreeDuty duty me)
    (hT : SampleActs (Fine D duty me (Holds me .schedule))) {f : Schedule → Agent α}
    (hf : ∀ s, Prog.Uses (Fine D duty me (Holds me .schedule)) (f s)) :
    Dutiful D duty me (Runtime.withSchedule f) := by
  exact triple_locked hF (Triple.of_uses (uses_bind (uses_switchSchedule hT) hf))

theorem triple_sampleTraffic (hF : FreeDuty duty me)
    (hT : SampleActs (Fine D duty me (Holds me .schedule))) (rt : Runtime) :
    Dutiful D duty me rt.sampleTraffic :=
  triple_withSchedule hF hT fun schedule => uses_bind (.perform (hT.query _)) fun now =>
    uses_bind (uses_records hT.query) fun _ =>
      uses_forEach fun rec => uses_sampleOne hT rt schedule now rec

theorem triple_heal [FollowsLocks D] (hF : FreeDuty duty me) (rt : Runtime)
    (hC : ∀ id rec c, rt.HealCmd rec c → Fine D duty me (Owns me id rec) (.command .heal c)) :
    Dutiful D duty me rt.heal := by
  have hnet : NetActs Act.free := ⟨⟨fun _ => trivial, fun _ => trivial⟩, trivial, trivial⟩
  refine .seq (triple_of_uses_free hF (uses_ignore (uses_reconcileNetwork hnet rt))) fun _ => ?_
  refine .seq (triple_of_uses_free hF (uses_attempt (uses_records fun _ => trivial))) fun r => ?_
  cases r with
  | error e => exact .ret
  | ok recs =>
    refine .forEach fun snapshot _ => triple_locked hF ?_
    refine .attemptBind (triple_load hF) fun r => ?_
    split
    · rename_i rec
      exact (Triple.of_uses (uses_healRecord (fine_query hF) rt (hC _ rec))).post fun _ _ _ h => h.1
    · refine .pre (Triple.ret fun _ _ h => h) fun w h => ?_
      cases r with
      | ok r => exact h.1
      | error e => exact h

/-! ## Quarantine -/

theorem triple_ensure {β : Type} {Q : Except Err β → World → Prop} {c : Bool} {e : Err}
    {f : Unit → Agent β} [Stable D me P] (hQ : ∀ w, P w → Q (.error e) w)
    (hf : c = true → Triple D duty me P (f ()) Q) :
    Triple D duty me P (ensure c e >>= f : Agent β) Q := by
  unfold ensure
  cases c with
  | true => exact hf rfl
  | false => exact .ret fun w _ h => hQ w h

theorem triple_doIf {Q : Except Err Unit → World → Prop} {c : Bool} {x : Agent Unit}
    [Stable D me P] (hQ : ∀ w, P w → Q (.ok ()) w) (hx : c = true → Triple D duty me P x Q) :
    Triple D duty me P (doIf c x) Q := by
  unfold doIf
  cases c with
  | true => exact hx rfl
  | false => exact .ret fun w _ h => hQ w h

section Quarantine

variable {rt : Runtime} [FollowsLocks D] (hF : FreeDuty duty me)
  (hS : SaveDuty D duty rt me id)
  (hdown : ∀ hif, Fine D duty me (Holds me (.vm id)) (.command .watcher (.setLink hif false)))
  (hup : ∀ rec, rec.networkQuarantined = false → Fine D duty me (Owns me id rec)
    (.command .watcher (.setLink (rt.net.hostIf rec.idx) true)))
include hF hS hdown hup

theorem triple_quarantineStep (action : Runtime.QuarantineAction)
    {rec : Record} (hid : rec.id = id) (running up : Bool) :
    Triple D duty me (Owns me id rec) (rt.quarantineStep action rec running up)
      (fun _ => Holds me (.vm id)) := by
  -- code after the record has been written only needs the lock
  have hrest : ∀ {β : Type} {r : Record} {x : Agent β},
      Prog.Uses (Fine D duty me (Holds me (.vm id))) x →
      Triple D duty me (Owns me id r) x (fun _ => Holds me (.vm id)) :=
    fun h => (Triple.of_uses h).pre fun _ h => h.1
  cases action with
  | inspect | replacement =>
    exact hrest (uses_bind (uses_doIf (uses_ensure _ _)) fun _ => trivial)
  | isolate =>
    refine triple_ensure (fun _ h => h.1) fun _ => ?_
    refine .seq (R := Holds me (.vm id)) ?_ (fun _ _ _ h => h) fun _ => .of_uses
        (uses_bind (uses_doIf (uses_setHostLinkUp (fine_query hF) (hdown _))) fun _ => trivial)
    refine triple_doIf (fun _ h => h.1) fun _ => ?_
    refine triple_ensure (fun _ h => h.1) fun _ => ?_
    exact triple_save_holds hid hS rfl
  | release =>
    refine triple_ensure (fun _ h => h.1) fun _ => ?_
    refine .seq (R := Owns me id rec) (Triple.of_uses (uses_doIf (uses_ensure _ _)))
      (fun _ _ _ h => h.1) fun _ => ?_
    refine .procBind (triple_save hid hS rfl) fun _ => ?_
    have hlink := hup { rec with networkQuarantined := false } rfl
    refine .post (Triple.of_uses ?_) fun _ _ _ h => h.1
    exact uses_bind (uses_doIf (uses_setHostLinkUp (fine_query hF) hlink)) fun _ => trivial

theorem triple_quarantine (hI : ∀ w, D.inv w → w.Stored)
    (generation project : String) (action : Runtime.QuarantineAction) :
    Dutiful D duty me (rt.watcherNetworkQuarantine id generation project action) := by
  refine triple_ensure (fun _ _ => trivial) fun _ => ?_
  refine triple_ensure (fun _ _ => trivial) fun _ => ?_
  refine triple_locked hF ?_
  refine .procBind (R := fun r w => (Holds me (.vm id) w ∧ w.record id = r) ∧
    ∀ rec, r = some rec → rec.id = id) ?_ fun r => .given fun hr => ?_
  · exact (triple_load hF).imp (fun r w hi h => ⟨h, fun rec hr => hI w hi id rec (h.2.trans hr)⟩)
      fun _ _ _ h => h
  cases r with
  | none => exact .ret fun _ _ h => h.1
  | some rec =>
    show Triple D duty me (Owns me id rec) _ (fun _ => Holds me (.vm id))
    refine triple_ensure (fun _ h => h.1) fun _ => ?_
    refine triple_ensure (fun _ h => h.1) fun _ => ?_
    refine .seq (Triple.of_uses
      (uses_bind (uses_isActive (fine_query hF) _) fun _ => trivial))
      (fun _ _ _ h => h.1) fun running => ?_
    refine .seq (R := Owns me id rec) (Triple.of_uses ?_) (fun _ _ _ h => h.1) fun up => ?_
    · unfold Runtime.linkUpIf
      split
      · exact uses_hostLinkUp (fine_query hF) _
      · trivial
    refine .seq (triple_quarantineStep hF hS hdown hup action (hr rec rfl) _ _)
      (fun _ _ _ h => h) fun r => ?_
    exact .of_uses (uses_bind (.perform (fine_query hF _)) fun _ => trivial)

end Quarantine

/-! ## Port forwards and commands -/

section Forwards

variable (hF : FreeDuty duty me)
  (hW : ∀ {e : Act} {w : World}, (∃ l, e = .writeForwards l) ∨ (∃ l, e = .setForwards l) →
    D.inv w → duty me e w)
include hF hW

theorem forwardActs_true : ForwardActs (Fine D duty me (fun _ => True)) where
  query _ := fine_true fun w _ => hF _ w trivial
  acquire := fine_true fun w _ => hF _ w trivial
  release := fine_true fun w _ => hF _ w trivial
  nft _ := fine_true fun w _ => hF _ w trivial
  writeForwards l := fine_true fun _ hi => hW (.inl ⟨l, rfl⟩) hi
  setForwards l := fine_true fun _ hi => hW (.inr ⟨l, rfl⟩) hi

theorem triple_setPortFwd (rt : Runtime) (rule : PortForward) :
    Dutiful D duty me (limitedAdd rt rule) :=
  .of_uses (uses_limitedAdd (forwardActs_true hF hW)
    (fine_true fun w _ => hF _ w trivial) (fine_true fun w _ => hF _ w trivial) rt rule)

theorem triple_retain (rt : Runtime) (keep : PortForward → Bool) :
    Dutiful D duty me (Runtime.withForwards (rt.retainLocked keep)) :=
  .of_uses (uses_withForwards (forwardActs_true hF hW).toNetActs
    (uses_retainLocked (forwardActs_true hF hW) rt keep))

theorem triple_deleteVm (hR : RemovalActs (Fine D duty me (Holds me (.vm id))) id)
    (rt : Runtime) : Dutiful D duty me (rt.deleteVm id) := by
  refine triple_bracket hF ?_
  exact .seq (triple_delete hF hR rt) fun _ => triple_retain hF hW rt _

end Forwards

theorem triple_replying (hF : FreeDuty duty me) {x : Agent Unit}
    (hx : Dutiful D duty me x) : Dutiful D duty me (replying x) :=
  .bind hx fun _ => .of_uses (.perform (fine_true fun w _ => hF _ w trivial))

theorem triple_host_mem {es : List HostEvent}
    (h : ∀ e ∈ es, ∀ {w : World}, D.inv w → duty me (.host e) w) :
    Dutiful D duty me (hostEvents es) := by
  refine .of_uses ?_
  induction es with
  | nil => trivial
  | cons e es ih =>
    exact ⟨fine_true fun _ hi => h e (by simp) hi,
      fun _ _ _ => ih fun e' he' => h e' (by simp [he'])⟩

theorem triple_host (h : ∀ {e : HostEvent} {w : World}, D.inv w → duty me (.host e) w)
    (es : List HostEvent) : Dutiful D duty me (hostEvents es) :=
  triple_host_mem fun _ _ => h

/-! ## All tasks -/

/-- What a discipline has to check about the tasks of the agent, the recovery and the events
of the host apart. -/
structure TaskDuties (D : Discipline agent) (duty : Pid → Act → World → Prop) (rt : Runtime)
    (me : Pid) : Prop where
  locks : FollowsLocks D
  stored : ∀ w, D.inv w → w.Stored
  free : FreeDuty duty me
  save : ∀ id, SaveDuty D duty rt me id
  removal : ∀ id, RemovalActs (Fine D duty me (Holds me (.vm id))) id
  create : ∀ (spec : InstanceSpec) (builder : Bool), Dutiful D duty me
    (withVm spec.vmId (rt.createLocked spec builder))
  sample : SampleActs (Fine D duty me (Holds me .schedule))
  heal : ∀ id rec c, rt.HealCmd rec c → Fine D duty me (Owns me id rec) (.command .heal c)
  isolate : ∀ id hif, Fine D duty me (Holds me (.vm id)) (.command .watcher (.setLink hif false))
  reconnect : ∀ id rec, rec.networkQuarantined = false → Fine D duty me (Owns me id rec)
    (.command .watcher (.setLink (rt.net.hostIf rec.idx) true))
  forwards : ∀ {e : Act} {w : World},
    (∃ l, e = .writeForwards l) ∨ (∃ l, e = .setForwards l) → D.inv w → duty me e w

theorem triple_op (h : TaskDuties D duty rt me) {op : Op} (hop : op ≠ .init)
    (hhost : ∀ es, op = .host es →
      Dutiful D duty me (hostEvents es)) : Dutiful D duty me (op.prog rt) := by
  have hF := h.free
  have := h.locks
  have hunit := fun id => (h.removal id).toUnitActs
  cases op with
  | idle => exact .ret
  | create spec => exact triple_replying hF (h.create spec false)
  | start id => exact triple_replying hF (triple_start h.stored hF (h.save id) (hunit id))
  | stop id force =>
    exact triple_replying hF (triple_stop h.stored hF (h.save id) (hunit id) force)
  | restart id =>
    exact triple_replying hF (triple_restart h.stored hF (h.save id) (hunit id))
  | delete id => exact triple_replying hF (triple_delete hF (h.removal id) rt)
  | build spec =>
    exact triple_replying hF (triple_build h.stored hF (h.save _) (h.removal _)
      (h.create spec true))
  | init => exact absurd rfl hop
  | heal => exact triple_replying hF (triple_heal hF rt h.heal)
  | sampleTraffic => exact triple_replying hF (triple_sampleTraffic hF h.sample rt)
  | noticeSchedule => exact triple_replying hF (triple_withSchedule hF h.sample fun _ => trivial)
  | quarantine id generation project action =>
    exact triple_replying hF (.seq (triple_quarantine hF (h.save id) (h.isolate id)
      (h.reconnect id) h.stored generation project action)
      fun _ => .ret)
  | deleteVm id => exact triple_replying hF (triple_deleteVm hF h.forwards (h.removal id) rt)
  | setPortFwd rule => exact triple_replying hF (triple_setPortFwd hF h.forwards rt rule)
  | delPortFwd id proto hostPort => exact triple_replying hF (triple_retain hF h.forwards rt _)
  | host es => exact hhost es rfl

end

/-! ## All tasks follow the locking rules -/

/-- The locking rules alone. -/
def lockDiscipline : Discipline agent where
  inv := World.Stored
  may p e w := e.guarded p w
  ok _ _ _ _ := True
  keeps hs _ _ _ := hs.apply _ _ _

section FollowLocks

variable (me : Pid) (id : VmId)

abbrev lockDuty : Pid → Act → World → Prop := fun p e w => e.guarded p w

theorem freeDuty_locks : FreeDuty lockDuty me := by
  intro e w he
  cases e <;> trivial

theorem saveDuty_locks (rt : Runtime) : SaveDuty lockDiscipline lockDuty rt me id where
  write hi hown hch := by
    have hid := hch.id.trans (hi _ _ hown.2)
    simpa only [lockDuty, Act.guarded, hid, Holds] using hown.1
  runtime _ hown := hown.1

theorem createActs_locks : CreateActs (Fine lockDiscipline lockDuty me (Holds me (.vm id))) id where
  toNetActs := netActs_holds (freeDuty_locks me)
  killCt := fine_holds (by simp) fun _ _ h => h
  terminate := fine_holds (by simp) fun _ _ h => h
  removePid := fine_holds (by simp) fun _ _ h => h
  systemdRun := fine_holds (by simp) fun _ _ h => h
  unlink _ := fine_holds (by simp) fun _ _ h => h
  rmdir := fine_holds (by simp) fun _ _ h => h
  mkdir := fine_holds (by simp) fun _ _ h => h
  makeDisk _ := fine_holds (by simp) fun _ _ h => h
  prepareRoot _ := fine_holds (by simp) fun _ _ h => h
  carry _ := fine_holds (by simp) fun _ _ h => h
  acquireAlloc := fine_holds (by simp) fun _ _ _ => trivial
  releaseAlloc := fine_holds (by simp) fun _ _ _ => trivial
  writeRecord hid := fine_holds (by simp) fun _ _ h => by
    simpa only [lockDuty, Act.guarded, hid, Holds] using h
  writeRuntime _ := fine_holds (by simp) fun _ _ h => h

theorem restore_locks (t : Traffic) :
    Fine lockDiscipline lockDuty me (Holds me (.vm id)) (.writeTraffic .restore id t) :=
  fine_holds (by simp) fun _ _ h => h

theorem sampleActs_locks : SampleActs (Fine lockDiscipline lockDuty me (Holds me .schedule)) where
  query _ := fine_query (freeDuty_locks me) _
  sample _ _ _ := fine_holds (by simp) fun _ _ h => h
  relabel _ _ := fine_holds (by simp) fun _ _ h => h
  setSchedule _ := fine_holds (by simp) fun _ _ h => h

theorem taskDuties_locks (rt : Runtime) : TaskDuties lockDiscipline lockDuty rt me where
  locks := ⟨fun _ _ _ h => h⟩
  stored _ h := h
  free := freeDuty_locks me
  save id := saveDuty_locks me id rt
  removal id := (createActs_locks me id).toRemovalActs
  create _ builder := triple_createLocked (freeDuty_locks me) (createActs_locks me _)
    (restore_locks me _) rt builder
  sample := sampleActs_locks me
  heal _ _ _ _ := fine_owns (by simp) (by simp) (by simp) fun _ _ _ => trivial
  isolate _ _ := fine_holds (by simp) fun _ _ _ => trivial
  reconnect _ _ _ := fine_owns (by simp) (by simp) (by simp) fun _ _ _ => trivial
  forwards := by rintro _ _ (⟨l, rfl⟩ | ⟨l, rfl⟩) _ <;> trivial

theorem Op.follows_locks (rt : Runtime) {op : Op} (hop : op ≠ .init) :
    Dutiful lockDiscipline lockDuty me (op.prog rt) :=
  triple_op (taskDuties_locks me rt) hop fun es _ => triple_host (fun _ => trivial) es

end FollowLocks

/-- A program that follows the locking rules and does the duty keeps to a discipline made of
the two. -/
theorem safe_of_locks {D : Discipline agent} {duty : Pid → Act → World → Prop}
    (hmay : D.may = fun p e w => e.guarded p w ∧ duty p e w) (hI : ∀ w, D.inv w → w.Stored)
    {p : Pid} {x : Prog World Oracle Act Unit}
    (hlocks : Dutiful lockDiscipline lockDuty p x)
    (h : Dutiful D duty p x) (w : World) : Safe D D.may p (fun _ _ => True) x w := by
  have hsafe : Safe D lockDuty p (fun _ _ => True) x w :=
    Safe.stricter hI (fun q e s hm => (hmay ▸ hm : _ ∧ _).1) (fun _ _ _ _ _ => trivial)
      (hlocks w trivial)
  rw [hmay]
  exact (hsafe.and (h w trivial)).mono fun _ _ _ _ => trivial

/-- A pool without the recovery is safe for the locking rules and a duty, once its tasks
do the duty. -/
theorem agentPool_safe {D : Discipline agent} {duty : Pid → Act → World → Prop}
    (hmay : D.may = fun p e w => e.guarded p w ∧ duty p e w) (hI : ∀ w, D.inv w → w.Stored)
    {rt : Runtime} {w : World} {ops : Pid → Op} (hw : D.inv w) (hops : ∀ p, ops p ≠ .init)
    (h : ∀ p, Dutiful D duty p ((ops p).prog rt)) :
    (agentPool rt w ops).Safe D (fun _ _ _ => True) :=
  ⟨hw, fun p => safe_of_locks hmay hI (Op.follows_locks p rt (hops p)) (h p) w⟩

namespace SmallNode

end SmallNode

end RunmanAgent
