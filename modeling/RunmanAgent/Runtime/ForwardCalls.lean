import RunmanAgent.Runtime.Triples

/-!
# Port forwards change as a whole

`add`, `remove` and `remove_all` change three copies of the table: the host's ruleset,
then `portforwards.json`, then the table in memory. They change together (`calls_atomic`),
as long as no step fails once the ruleset has been replaced and the scans can read the
records. The condition on what follows the ruleset is needed: when the file cannot be
written the call fails, and the host has the new rules (`failed_save_keeps_rule`).
-/

namespace RunmanAgent

open Concurrency

inductive ForwardCall where
  | add (rule : PortForward)
  | remove (id : VmId) (proto : L4Proto) (hostPort : Nat)
  | removeAll (id : VmId)

def ForwardCall.prog (rt : Runtime) : ForwardCall → Agent Unit
  | .add rule => rt.add rule
  | .remove id proto hostPort => rt.remove id proto hostPort
  | .removeAll id => rt.removeAll id

/-- A rule of the table, with the address of its instance. -/
def PortForward.shape (w : World) (f : PortForward) : L4Proto × Nat × Option Nat × Nat :=
  (f.proto, f.hostPort, (w.record f.vmId).map (·.addrs.ipv4), f.guestPort)

/-- A rule of the host. -/
def Forward.shape (r : Forward) : L4Proto × Nat × Option Nat × Nat :=
  (r.proto, r.hostPort, some r.target, r.guestPort)

/-- Memory, file and ruleset describe the same forwards. A missing file is an empty
table. -/
structure Agree (w : World) : Prop where
  file : w.forwardsJson.getD [] = w.forwards.map .ofForward
  rules : ∃ rs, w.ruleset = some rs ∧ rs.forwards.map Forward.shape = w.forwards.map (·.shape w)

def UniquePorts (fs : List PortForward) : Prop := (fs.map fun f => (f.proto, f.hostPort)).Nodup

structure SameForwards (w w' : World) : Prop where
  memory : w'.forwards = w.forwards
  file : w'.forwardsJson = w.forwardsJson
  rules : w'.ruleset = w.ruleset

/-- A helper process, or the write of the list of forwards. -/
def Act.helps : Act → Bool
  | .query (.helper _) | .writeForwards _ => true
  | _ => false

/-- Reads of records succeed, and so do the steps that come after the ruleset has been
replaced: the routes and the file. -/
def CallOk (_ : Pid) (e : Act) (w : World) (i : Oracle) : Prop :=
  match e with
  | .query (.load id) => ∀ rec ∈ w.record id, w.readRecord id i = .ok (some rec)
  | .query (.helper _) => i.fail = none
  | .writeForwards _ => i.fail = none
  | _ => True

instance (p : Pid) (e : Act) (w : World) (i : Oracle) : Decidable (CallOk p e w i) :=
  decidable_of_iff ((∀ id ∈ e.loads, ∀ rec ∈ w.record id, w.readRecord id i = .ok (some rec)) ∧
    (e.helps = true → i.fail = none)) <| by
      cases e with
      | query q => cases q <;> simp [CallOk, Act.loads, Act.helps]
      | _ => simp [CallOk, Act.loads, Act.helps]

/-! ## Scans and resolution -/

/-- The records on disk, all of them. -/
structure Complete (w : World) (recs : List Record) : Prop where
  sound : ∀ r ∈ recs, w.record r.id = some r
  full : ∀ id r, w.record id = some r → r ∈ recs

variable {w w' : World}

theorem shape_resolve {recs : List Record} (hstored : w.Stored) (h : Complete w recs)
    {fs : List PortForward} (hfs : ∀ f ∈ fs, (w.record f.vmId).isSome) :
    (Runtime.resolve recs fs).map Forward.shape = fs.map (·.shape w) := by
  induction fs with
  | nil => rfl
  | cons f fs ih =>
    obtain ⟨r, hr⟩ := Option.isSome_iff_exists.mp (hfs f (by simp))
    have hid : r.id = f.vmId := hstored _ _ hr
    -- the record found for the rule is the record of its instance
    have hfind : recs.reverse.find? (·.id = f.vmId) = some r := by
      cases hf : recs.reverse.find? (·.id = f.vmId) with
      | none =>
        have hmem : r ∈ recs.reverse := List.mem_reverse.mpr (h.full _ _ hr)
        have := List.find?_eq_none.mp hf r hmem
        simp [hid] at this
      | some r' =>
        have hid' : r'.id = f.vmId := by simpa using List.find?_some hf
        have hmem : r' ∈ recs := List.mem_reverse.mp (List.mem_of_find?_eq_some hf)
        have hrec := h.sound r' hmem
        rw [hid', hr] at hrec
        exact hrec.symm
    have hrest := ih fun g hg => hfs g (.tail _ hg)
    simp only [Runtime.resolve, List.filterMap_cons, hfind, Option.map_some, List.map_cons]
    rw [← hrest]
    simp [Runtime.resolve, Forward.shape, PortForward.shape, hr]

/-! ## One call -/

section Call

variable {me : Pid} {α β : Type} {w₀ : World}

/-- A call that runs alone and whose steps satisfy `CallOk`. -/
abbrev Calls (me : Pid) (P : World → Prop) (x : Prog World Oracle Act α)
    (Q : α → World → Prop) : Prop :=
  Triple (Discipline.alone agent CallOk me) (fun _ _ _ => True) me P x Q

/-- Nothing has been changed yet. -/
structure Before (w₀ w : World) : Prop extends SameForwards w₀ w where
  dirs : w.dirs = w₀.dirs

variable {w : World}

theorem Before.record (h : Before w₀ w) (id : VmId) : w.record id = w₀.record id := by
  rw [World.record, World.recordFile, h.dirs]
  rfl

theorem Before.release (h : Before w₀ w) (k : LockId) (i : Oracle) :
    Before w₀ ((Act.release k).apply me w i) := by
  simp only [Act.apply, Act.check, Act.perform]
  split
  · exact ⟨⟨h.memory, h.file, h.rules⟩, h.dirs⟩
  · exact h

theorem calls_bind {R : α → World → Prop} {Q : β → World → Prop} {P : World → Prop}
    {x : Agent α} {f : α → Agent β} (hx : Calls me P x (ends R (fun _ => Before w₀)))
    (hf : ∀ a, Calls me (R a) (f a) (ends Q (fun _ => Before w₀))) :
    Calls me P (x >>= f : Agent β) (ends Q (fun _ => Before w₀)) :=
  .procBind hx hf

theorem calls_query {q : Query} {f : Pid → World → Oracle → Except Err α}
    {Q : α → World → Prop}
    (h : ∀ w i a, Before w₀ w → CallOk me (.query q) w i → f me w i = .ok a → Q a w) :
    Calls me (Before w₀) (Proc.perform (.query q) f) (ends Q (fun _ => Before w₀)) := by
  refine .perform fun w i _ hw _ hok => ?_
  refine ⟨trivial, ?_⟩
  show ends _ _ (f me w i) w
  cases hr : f me w i with
  | ok a => exact h w i a hw hok hr
  | error e => exact hw

theorem calls_loadAll (hstored : w₀.Stored) (names : List VmId) :
    Calls me (Before w₀) (loadAll names)
      (ends (fun recs w => Before w₀ w ∧ (∀ r ∈ recs, w₀.record r.id = some r) ∧
        ∀ id ∈ names, ∀ r, w₀.record id = some r → r ∈ recs) (fun _ => Before w₀)) := by
  induction names with
  | nil => exact .ret fun _ _ h => ⟨h, by simp, by simp⟩
  | cons n names ih =>
    have hload : Calls me (Before w₀) (load n) (fun r w => Before w₀ w ∧
        (∀ rec, r = .ok (some rec) → w₀.record n = some rec) ∧
        ∀ rec, w₀.record n = some rec → r = .ok (some rec)) := by
      refine .perform ?_
      intro w i _ hw _ hok
      refine ⟨trivial, hw, fun rec hr => ?_, fun rec hr => ?_⟩
      · rw [← hw.record]
        exact readRecord_some hr
      · exact hok rec (by rw [hw.record]; exact hr)
    refine .attemptBind hload fun r => ?_
    rintro w ⟨hbefore, hfound, hread⟩
    refine (show Calls me (Before w₀) _ _ from ?_) w hbefore
    refine calls_bind ih fun rest => ?_
    have hskip : (∀ rec, r ≠ .ok (some rec)) →
        ∀ w, (Before w₀ w ∧ (∀ r ∈ rest, w₀.record r.id = some r) ∧
          ∀ id ∈ names, ∀ r, w₀.record id = some r → r ∈ rest) →
        Before w₀ w ∧ (∀ r ∈ rest, w₀.record r.id = some r) ∧
          ∀ id ∈ n :: names, ∀ r, w₀.record id = some r → r ∈ rest := by
      intro hr w h
      refine ⟨h.1, h.2.1, fun id hid rec hrec => ?_⟩
      rcases hid with _ | ⟨_, hid⟩
      · exact absurd (hread rec hrec) (hr rec)
      · exact h.2.2 id hid rec hrec
    split
    · rename_i rec
      have hrec := hfound rec rfl
      refine .ret fun w _ h => ⟨h.1, ?_, fun id hid r hr => ?_⟩
      · intro r hr
        rcases hr with _ | ⟨_, hr⟩
        · rwa [hstored _ _ hrec]
        · exact h.2.1 r hr
      · rcases hid with _ | ⟨_, hid⟩
        · rw [hrec, Option.some.injEq] at hr
          exact hr ▸ (.head _)
        · exact .tail _ (h.2.2 id hid r hr)
    · exact .ret fun w _ h => hskip (by simp) w h
    · exact .ret fun w _ h => hskip (by simp) w h

theorem calls_records (hstored : w₀.Stored) :
    Calls me (Before w₀) records
      (ends (fun recs w => Before w₀ w ∧ Complete w₀ recs) (fun _ => Before w₀)) := by
  refine calls_bind (R := fun names w => Before w₀ w ∧ ∀ id rec, w₀.record id = some rec →
    id ∈ names) ?_ fun names => ?_
  · refine calls_query fun w i names hw _ hr => ⟨hw, fun id rec hrec => ?_⟩
    cases hc : i.check with
    | error e =>
      rw [hc] at hr
      cases hr
    | ok u =>
      rw [hc] at hr
      cases hr
      exact mem_listDir (World.lastRecord_of_record (by rw [hw.record]; exact hrec)) i
  · rintro w ⟨hbefore, hnames⟩
    refine (show Calls me (Before w₀) _ _ from ?_) w hbefore
    refine (calls_loadAll hstored names).post fun r w _ h => ?_
    cases r with
    | ok recs => exact ⟨h.1, h.2.1, fun id r hr => h.2.2 id (hnames id r hr) r hr⟩
    | error e => exact h

/-- The ruleset has been replaced by one for the table `next`. -/
structure Applied (w₀ : World) (next : List PortForward) (w : World) : Prop where
  dirs : w.dirs = w₀.dirs
  rules : ∃ rs, w.ruleset = some rs ∧ rs.forwards.map Forward.shape = next.map (·.shape w₀)

/-- All three copies have been replaced. -/
structure Replaced (w₀ : World) (next : List PortForward) (w : World) : Prop
    extends Applied w₀ next w where
  file : w.forwardsJson = some (next.map .ofForward)
  memory : w.forwards = next

theorem calls_applyNetwork (rt : Runtime) (hstored : w₀.Stored) {next : List PortForward}
    (hnext : ∀ f ∈ next, (w₀.record f.vmId).isSome) :
    Calls me (Before w₀) (rt.applyNetwork next)
      (ends (fun _ => Applied w₀ next) (fun _ => Before w₀)) := by
  refine calls_bind (calls_records hstored) fun recs => ?_
  rintro w ⟨hbefore, hcomplete⟩
  refine (show Calls me (Before w₀) _ _ from ?_) w hbefore
  refine calls_bind (R := fun _ => Before w₀) ?_ fun dedicated => ?_
  · exact .perform fun w i _ hw _ _ => ⟨trivial, hw⟩
  refine calls_bind (R := fun _ => Applied w₀ next) ?_ fun _ => ?_
  · refine .perform fun w i _ hw _ _ => ?_
    refine ⟨trivial, ?_⟩
    cases hc : (Act.nft ⟨Runtime.ports recs dedicated, Runtime.resolve recs next⟩).check w i with
    | ok u =>
      simp only [ends_ok, agent_apply, Act.apply, hc, Act.perform]
      exact ⟨hw.dirs, _, rfl, shape_resolve hstored hcomplete hnext⟩
    | error e =>
      simp only [ends_error, agent_apply, Act.apply, hc]
      exact hw
  · split
    · refine .perform ?_
      intro w i _ hw _ hok
      have hnofail : i.fail = none := hok
      refine ⟨trivial, ?_⟩
      simp only [Oracle.check, hnofail, ends_ok]
      exact hw
    · exact .ret fun _ _ h => h

theorem calls_replaceForwards (rt : Runtime) (hstored : w₀.Stored) {next : List PortForward}
    (hnext : ∀ f ∈ next, (w₀.record f.vmId).isSome) :
    Calls me (Before w₀) (rt.replaceForwards next)
      (ends (fun _ => Replaced w₀ next) (fun _ => Before w₀)) := by
  refine calls_bind (calls_applyNetwork rt hstored hnext) fun _ => ?_
  refine calls_bind (R := fun _ w => Applied w₀ next w ∧
    w.forwardsJson = some (next.map .ofForward)) ?_ fun _ => ?_
  · refine .perform ?_
    intro w i _ hw _ hok
    have hnofail : i.fail = none := hok
    refine ⟨trivial, ?_⟩
    simp only [agent_apply, Act.apply, Act.check, Oracle.check, hnofail, ends_ok, Act.perform]
    exact ⟨⟨hw.dirs, hw.rules⟩, trivial⟩
  · refine .perform fun w i _ hw _ _ => ?_
    exact ⟨trivial, ⟨hw.1.dirs, hw.1.rules⟩, hw.2, rfl⟩

/-- What a call may end with when it succeeds. -/
def Committed (w₀ w : World) : Prop :=
  Before w₀ w ∨ ∃ next, Replaced w₀ next w ∧ UniquePorts next

theorem Committed.release (h : Committed w₀ w) (k : LockId) (i : Oracle) :
    Committed w₀ ((Act.release k).apply me w i) := by
  rcases h with h | ⟨next, h, hu⟩
  · exact .inl (h.release k i)
  · refine .inr ⟨next, ?_, hu⟩
    simp only [Act.apply, Act.check, Act.perform]
    split
    · exact ⟨⟨h.dirs, h.rules⟩, h.file, h.memory⟩
    · exact h

theorem calls_withForwards {f : List PortForward → Agent Unit}
    (hf : Calls me (Before w₀) (f w₀.forwards)
      (ends (fun _ => Committed w₀) (fun _ => Before w₀))) :
    Calls me (Before w₀) (Runtime.withForwards f)
      (ends (fun _ => Committed w₀) (fun _ => Before w₀)) := by
  refine .bracket (B := Before w₀) ?_ (R := ends (fun _ => Committed w₀) (fun _ => Before w₀))
    ?_ (fun r => ?_)
  · refine .perform fun w i _ hw _ _ => ?_
    exact ⟨trivial, ⟨hw.memory, hw.file, hw.rules⟩, hw.dirs⟩
  · refine calls_bind (R := fun fs w => Before w₀ w ∧ fs = w₀.forwards) ?_ fun fs => ?_
    · exact .perform fun w i _ hw _ _ => ⟨trivial, hw, hw.memory⟩
    · rintro w ⟨hbefore, rfl⟩
      exact hf w hbefore
  · refine .perform fun w i _ hw _ _ => ?_
    refine ⟨trivial, ?_⟩
    cases r with
    | ok u => exact Committed.release hw .forwards i
    | error e => exact Before.release hw .forwards i

theorem calls_retain (rt : Runtime) (hstored : w₀.Stored)
    (hrecs : ∀ f ∈ w₀.forwards, (w₀.record f.vmId).isSome) (huniq : UniquePorts w₀.forwards)
    (keep : PortForward → Bool) :
    Calls me (Before w₀) (rt.retainLocked keep w₀.forwards)
      (ends (fun _ => Committed w₀) (fun _ => Before w₀)) := by
  unfold Runtime.retainLocked
  dsimp only
  split
  · exact .ret fun _ _ h => .inl h
  · have hnext : ∀ f ∈ w₀.forwards.filter keep, (w₀.record f.vmId).isSome :=
      fun f hf => hrecs f (List.mem_of_mem_filter hf)
    refine (calls_replaceForwards rt hstored hnext).post fun r w _ h => ?_
    cases r with
    | ok u => exact .inr ⟨_, h, List.Nodup.sublist (List.filter_sublist.map _) huniq⟩
    | error e => exact h

theorem calls_add (rt : Runtime) (hstored : w₀.Stored)
    (hrecs : ∀ f ∈ w₀.forwards, (w₀.record f.vmId).isSome) (huniq : UniquePorts w₀.forwards)
    (rule : PortForward) :
    Calls me (Before w₀) (rt.add rule) (ends (fun _ => Committed w₀) (fun _ => Before w₀)) := by
  refine calls_bind (R := fun _ w => Before w₀ w ∧ (w₀.record rule.vmId).isSome) ?_ fun rec => ?_
  · refine calls_bind (R := fun r w => Before w₀ w ∧ w₀.record rule.vmId = r) ?_ fun r => ?_
    · refine calls_query fun w i r hw _ hr => ⟨hw, ?_⟩
      rw [← hw.record]
      cases r with
      | none => exact readRecord_none hr
      | some rec => exact readRecord_some hr
    · cases r with
      | none => exact .ret fun _ _ h => h.1
      | some rec => exact .ret fun _ _ h => ⟨h.1, by rw [h.2]; rfl⟩
  rintro w ⟨hbefore, hrule⟩
  refine (show Calls me (Before w₀) _ _ from ?_) w hbefore
  refine calls_withForwards ?_
  unfold Runtime.addLocked
  split
  · split
    · exact .ret fun _ _ h => .inl h
    · exact .ret fun _ _ h => h
  · rename_i hfree
    refine calls_bind (R := fun _ => Before w₀) ?_ fun listening => ?_
    · exact .perform fun w i _ hw _ _ => ⟨trivial, hw⟩
    split
    · exact .ret fun _ _ h => h
    · have hnext : ∀ f ∈ w₀.forwards ++ [rule], (w₀.record f.vmId).isSome := by
        intro f hf
        rcases List.mem_append.mp hf with hf | hf
        · exact hrecs f hf
        · rwa [List.mem_singleton.mp hf]
      have hunique : UniquePorts (w₀.forwards ++ [rule]) := by
        unfold UniquePorts at huniq ⊢
        rw [List.map_append, List.map_singleton]
        refine huniq.append (List.nodup_singleton _) fun a ha hb => ?_
        obtain ⟨f, hf, rfl⟩ := List.mem_map.mp ha
        have := List.find?_eq_none.mp hfree f hf
        simp only [List.mem_singleton, Prod.mk.injEq] at hb
        simp [hb] at this
      refine (calls_replaceForwards rt hstored hnext).post fun r w _ h => ?_
      cases r with
      | ok u => exact .inr ⟨_, h, hunique⟩
      | error e => exact h

end Call

/-! ## Sequences of calls -/

theorem record_of_dirs (h : w'.dirs = w.dirs) (id : VmId) : w'.record id = w.record id := by
  rw [World.record, World.recordFile, h]
  rfl

theorem shape_of_dirs (h : w'.dirs = w.dirs) (f : PortForward) : f.shape w' = f.shape w := by
  rw [PortForward.shape, record_of_dirs h]
  rfl

/-- The table and its copies, between two calls. -/
structure Settled (w : World) : Prop where
  stored : w.Stored
  agree : Agree w
  unique : UniquePorts w.forwards

theorem Agree.records (h : Agree w) (f : PortForward) (hf : f ∈ w.forwards) :
    (w.record f.vmId).isSome := by
  obtain ⟨rs, -, hrules⟩ := h.rules
  have hmem : f.shape w ∈ rs.forwards.map Forward.shape := by
    rw [hrules]
    exact List.mem_map_of_mem hf
  obtain ⟨r, -, hr⟩ := List.mem_map.mp hmem
  have htarget : some r.target = (w.record f.vmId).map (·.addrs.ipv4) := congrArg (·.2.2.1) hr
  cases hrec : w.record f.vmId with
  | none => simp [hrec] at htarget
  | some rec => rfl

theorem Committed.settled (hs : Settled w) (h : Committed w w') : Settled w' := by
  rcases h with h | ⟨next, h, hunique⟩
  · refine ⟨fun id rec hrec => hs.stored id rec ?_, ⟨?_, ?_⟩, ?_⟩
    · rwa [← record_of_dirs h.dirs]
    · rw [h.file, h.memory]
      exact hs.agree.file
    · obtain ⟨rs, hrs, hrules⟩ := hs.agree.rules
      refine ⟨rs, h.rules.trans hrs, ?_⟩
      simp only [h.memory, shape_of_dirs h.dirs]
      exact hrules
    · rw [h.memory]
      exact hs.unique
  · refine ⟨fun id rec hrec => hs.stored id rec ?_, ⟨?_, ?_⟩, ?_⟩
    · rwa [← record_of_dirs h.dirs]
    · rw [h.file, h.memory]
      rfl
    · obtain ⟨rs, hrs, hrules⟩ := h.rules
      refine ⟨rs, hrs, ?_⟩
      simp only [h.memory, shape_of_dirs h.dirs]
      exact hrules
    · rwa [h.memory]

theorem ForwardCall.triple (rt : Runtime) {me : Pid} (hs : Settled w) (c : ForwardCall) :
    Calls me (Before w) (c.prog rt) (ends (fun _ => Committed w) (fun _ => Before w)) := by
  cases c with
  | add rule => exact calls_add rt hs.stored hs.agree.records hs.unique rule
  | remove id proto hostPort | removeAll id =>
    exact calls_withForwards (calls_retain rt hs.stored hs.agree.records hs.unique _)

/-- One call after another. -/
def CallStep (rt : Runtime) (me : Pid) (w w' : World) : Prop :=
  ∃ (c : ForwardCall) (r : Except Err Unit), Prog.Runs agent CallOk me (c.prog rt) w r w'

theorem CallStep.settled {rt : Runtime} {me : Pid} (hs : Settled w) (h : CallStep rt me w w') :
    Settled w' := by
  obtain ⟨c, r, hrun⟩ := h
  have hpost := hrun.post (c.triple rt hs) ⟨⟨rfl, rfl, rfl⟩, rfl⟩
  cases r with
  | ok u => exact Committed.settled hs hpost
  | error e => exact Committed.settled hs (.inl hpost)

/-- After any sequence of calls, the next one keeps the ports unique; if it succeeds,
memory, file and ruleset agree; if it fails, they are what they were. -/
theorem calls_atomic (rt : Runtime) {me : Pid} {w₀ w w' : World} (h₀ : Settled w₀)
    (hcalls : Relation.ReflTransGen (CallStep rt me) w₀ w) (c : ForwardCall)
    {r : Except Err Unit} (hrun : Prog.Runs agent CallOk me (c.prog rt) w r w') :
    UniquePorts w'.forwards ∧ (r = .ok () → Agree w') ∧ ∀ e, r = .error e → SameForwards w w' := by
  have hs : Settled w := by
    clear hrun
    induction hcalls with
    | refl => exact h₀
    | tail _ hstep ih => exact hstep.settled ih
  have hpost := hrun.post (c.triple rt hs) ⟨⟨rfl, rfl, rfl⟩, rfl⟩
  have hs' : Settled w' := CallStep.settled hs ⟨c, r, hrun⟩
  refine ⟨hs'.unique, fun _ => hs'.agree, fun e he => ?_⟩
  subst he
  exact hpost.toSameForwards

namespace SmallNode

theorem settled_unforwarded : Settled unforwarded where
  stored := stored_world rfl true
  agree := ⟨rfl, ⟨[], []⟩, rfl, rfl⟩
  unique := List.nodup_nil

/-- A rule is added, and all three copies have it. -/
theorem add_agrees : ∃ w', Prog.Runs agent CallOk 0 ((ForwardCall.add ssh).prog rt)
      unforwarded (.ok ()) w' ∧ w'.forwards = [ssh] ∧ Agree w' := by
  have hrun : ∃ w', Prog.Runs agent CallOk 0 ((ForwardCall.add ssh).prog rt)
      unforwarded (.ok ()) w' ∧ w'.forwards = [ssh] :=
    ⟨_, Prog.runs_of_alone (List.replicate 11 calm) rfl, rfl⟩
  obtain ⟨w', hrun, hfs⟩ := hrun
  exact ⟨w', hrun, hfs, (calls_atomic rt settled_unforwarded .refl _ hrun).2.1 rfl⟩

/-- The ninth step, the write of the file, fails. -/
def fullDisk : List Oracle :=
  List.replicate 8 calm ++ [failing "No space left on device (os error 28)", calm]

/-- The call fails, and the host forwards the port. -/
theorem failed_save_keeps_rule : Settled unforwarded ∧
    ∃ w', Prog.Runs agent anyStep 0 ((ForwardCall.add ssh).prog rt) unforwarded
      (.error (.io "No space left on device (os error 28)")) w' ∧
    w'.ruleset.map (·.forwards) = some [⟨.tcp, 2222, recordA.addrs.ipv4, 22⟩] ∧
    ¬ SameForwards unforwarded w' := by
  refine ⟨settled_unforwarded, _, Prog.runs_of_alone fullDisk rfl, rfl, fun h => ?_⟩
  have hrules := h.rules
  cases hrules

end SmallNode

end RunmanAgent
