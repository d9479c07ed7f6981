import RunmanAgent.Runtime.Effects
import RunmanAgent.Runtime.Ops

/-!
# A forced halt and the supervisor

A forced halt kills the processes of the instance and leaves it to the supervisor to see
that and to end the unit. The instance is not booted again (`forced_halt_no_boot`), as long
as each kill meets a supervisor that has nothing left to boot (`Supervisor.EndsByKill`): one
that is leaving, whose init has halted by itself, that was asked to stop, or whose setup
process dies with the instance. The condition is needed: a supervisor that waits for a
running init takes the kill for a crash, and restarts the instance after the crash delay
(`kill_restarts_guest`).
-/

namespace RunmanAgent

open Concurrency

/-! ## Supervisors that do not boot again -/

namespace Supervisor

/-- Whatever happens, this supervisor does not release another init. -/
def Doomed (u : Supervisor) : Prop :=
  match u.phase with
  | .starting | .sleeping _ => False
  | .booting _ => u.child = false
  | .polling => u.stopRequested = true ∨ u.exit.map outcome = some .halted
  | .cleaning (.ok o) => u.stopRequested = true ∨ o = .halted
  | .cleaning (.error _) | .leaving => True

/-- A kill of the instance leaves nothing to boot. -/
def EndsByKill (u : Supervisor) : Bool :=
  match u.phase with
  | .starting | .sleeping _ | .booting .setup | .booting .moved => false
  | .booting _ => true
  | .polling => u.stopRequested || decide (u.exit.map outcome = some .halted)
  | .cleaning (.ok o) => u.stopRequested || decide (o = .halted)
  | .cleaning (.error _) | .leaving => true

variable {u : Supervisor}

theorem doomed_killCt (h : u.EndsByKill = true) : u.killCt.Doomed := by
  cases hphase : u.phase with
  | starting | sleeping d => simp [EndsByKill, hphase] at h
  | booting s => cases s <;> simp_all [EndsByKill, killCt, Doomed]
  | polling =>
    have hends : u.stopRequested = true ∨ u.exit.map outcome = some .halted := by
      simpa [EndsByKill, hphase] using h
    cases hexit : u.exit with
    | none =>
      have hstop : u.stopRequested = true := by simpa [hexit] using hends
      simp [killCt, hphase, hexit, Doomed, hstop]
    | some code =>
      simp only [killCt, hphase, hexit, Option.isNone_some, Bool.false_eq_true, if_false, Doomed]
      simpa [hexit] using hends
  | cleaning r =>
    cases r with
    | ok o => simpa [EndsByKill, killCt, Doomed, hphase] using h
    | error e => simp [killCt, Doomed, hphase]
  | leaving => simp [killCt, Doomed, hphase]

theorem doomed_boot {s : Stage} (hphase : u.phase = .booting s) (hchild : u.child = false) :
    ((u.advanceBoot s).1.Doomed ∧ (u.advanceBoot s).2 ≠ .boot) ∧
      ∀ text, (u.failBoot text s).Doomed := by
  refine ⟨?_, fun text => ?_⟩
  · cases s with
    | inCt => cases hnet : u.spec.bind (·.net) <;> simp [advanceBoot, hnet, Doomed, hchild]
    | attaching left => cases left <;> simp [advanceBoot, Doomed, hchild]
    | setup | attached | moved => simp [advanceBoot, Doomed, hchild, hphase]
  · unfold failBoot
    split
    · simpa [Doomed] using hchild
    · simp [bootFailed, Doomed]

theorem doomed_readSignal (hphase : u.phase = .polling)
    (hends : u.stopRequested = true ∨ u.exit.map outcome = some .halted) :
    u.readSignal.Doomed := by
  unfold readSignal
  split
  · split
    · simpa [Doomed, hphase] using hends
    · simp [Doomed, hphase]
  · split
    · split
      · rename_i code hexit
        simpa [Doomed, hexit] using hends
      · simpa [Doomed, hphase] using hends
    · simpa [Doomed, hphase] using hends

theorem doomed_decideNext {r : Except Err Outcome} (hphase : u.phase = .cleaning r)
    (h : u.Doomed) (stable : Bool) : (u.decideNext r stable).phase = .leaving := by
  cases r with
  | error e => rfl
  | ok o =>
    have hends : u.stopRequested = true ∨ o = .halted := by simpa [Doomed, hphase] using h
    cases o with
    | halted => rfl
    | reboot | other why =>
      have hstop : u.stopRequested = true := by simpa using hends
      simp [decideNext, hstop]

theorem Doomed.step (h : u.Doomed) (json : Option RunSpec) (e : SupEvent) :
    (u.step json e).1.Doomed ∧ (u.step json e).2 ≠ .boot := by
  cases hphase : u.phase with
  | starting | sleeping d => simp [Doomed, hphase] at h
  | booting s =>
    have hchild : u.child = false := by simpa [Doomed, hphase] using h
    have hboot := doomed_boot hphase hchild
    cases e with
    | advance => simpa only [Supervisor.step, hphase] using hboot.1
    | fail text => simpa [Supervisor.step, hphase] using hboot.2 text
    | _ => simpa [Supervisor.step, hphase] using h
  | polling =>
    have hends : u.stopRequested = true ∨ u.exit.map outcome = some .halted := by
      simpa [Doomed, hphase] using h
    have hkill : u.killCt.Doomed := doomed_killCt (by simpa [EndsByKill, hphase] using hends)
    cases e with
    | initExits code =>
      cases hexit : u.exit with
      | none =>
        have hstop : u.stopRequested = true := by simpa [hexit] using hends
        simp [Supervisor.step, hphase, hexit, Doomed, hstop]
      | some c => simpa [Supervisor.step, hphase, hexit] using h
    | signal => simpa [Supervisor.step, hphase] using doomed_readSignal hphase hends
    | stopTimeout =>
      cases hdl : u.deadline with
      | true =>
        simp only [Supervisor.step, hphase, hdl, if_true]
        exact ⟨hkill, by simp⟩
      | false => simpa [Supervisor.step, hphase, hdl] using h
    | pollError text => simp [Supervisor.step, hphase, Doomed]
    | _ => simpa [Supervisor.step, hphase] using h
  | cleaning r =>
    cases e with
    | clean failed =>
      cases failed with
      | none => simpa [Supervisor.step, hphase] using h
      | some text => simp [Supervisor.step, hphase, Doomed]
    | decide stable =>
      simp [Supervisor.step, hphase, Doomed, doomed_decideNext hphase h stable]
    | _ => simpa [Supervisor.step, hphase] using h
  | leaving => cases e <;> simp [Supervisor.step, hphase, Doomed]

end Supervisor

/-! ## Histories -/

/-- The instance was killed, and its unit has not been launched since. -/
def Killed (id : VmId) : List Event → Prop
  | [] => False
  | .killed id' :: log => id' = id ∨ Killed id log
  | .launched _ id' :: log => id' ≠ id ∧ Killed id log
  | _ :: log => Killed id log

/-- No boot of the instance comes after a kill, before the next launch. -/
def NoBootAfterKill (id : VmId) (log : List Event) : Prop :=
  ∀ newer older, log = newer ++ .booted id :: older → ¬ Killed id older

variable {id : VmId} {p : Pid} {w : World} {i : Oracle}

theorem NoBootAfterKill.cons {ev : Event} {log : List Event} (h : NoBootAfterKill id log)
    (hev : ev = .booted id → ¬ Killed id log) : NoBootAfterKill id (ev :: log) := by
  intro newer older heq
  cases newer with
  | nil =>
    obtain ⟨rfl, rfl⟩ := List.cons.inj heq
    exact hev rfl
  | cons a newer =>
    obtain ⟨-, htail⟩ := List.cons.inj heq
    exact h newer older htail

/-- Every kill meets a supervisor that has nothing left to boot. -/
def KillsForGood (_ : Pid) (e : Act) (w : World) (_ : Oracle) : Prop :=
  match e with
  | .killCt id => ∀ u ∈ w.units id, u.EndsByKill = true
  | _ => True

instance (p : Pid) (e : Act) (w : World) (i : Oracle) : Decidable (KillsForGood p e w i) := by
  unfold KillsForGood
  split <;> infer_instance

/-- A killed instance has no supervisor that could boot it. -/
structure StaysDown (id : VmId) (w : World) : Prop where
  doomed : Killed id w.log → ∀ u, w.units id = some u → u.Doomed
  noBoot : NoBootAfterKill id w.log

theorem killed_apply {e : Act} (h : Killed id (e.apply p w i).log) :
    Killed id w.log ∨ e = .killCt id := by
  rcases e.apply_log p w i with hl | ⟨ev, hev, -, hl⟩
  · exact .inl (hl ▸ h)
  · rw [hl] at h
    cases hev with
    | killCt id' =>
      rcases h with rfl | h
      · exact .inr rfl
      · exact .inl h
    | systemdRun id' => exact .inl h.2
    | _ => exact .inl h

theorem not_killed_systemdRun {u : Supervisor} (hnone : w.units id = none)
    (hu : ((Act.systemdRun id).apply p w i).units id = some u) :
    ¬ Killed id ((Act.systemdRun id).apply p w i).log := by
  rcases (Act.systemdRun id).apply_cases p w i with ⟨-, h⟩ | h
  · rw [h]
    exact fun hk => hk.1 rfl
  · rw [h, hnone] at hu
    cases hu

theorem StaysDown.apply {e : Act} (h : StaysDown id w) (hok : KillsForGood p e w i) :
    StaysDown id (e.apply p w i) := by
  constructor
  · intro hk u hu
    by_cases he : e = .killCt id
    · subst he
      have hmap : (w.units id).map Supervisor.killCt = some u := by
        simpa [Act.apply, Act.check, Act.perform, World.setUnit] using hu
      obtain ⟨u₀, hu₀, rfl⟩ := Option.map_eq_some_iff.mp hmap
      exact Supervisor.doomed_killCt (hok u₀ hu₀)
    · have hk₀ : Killed id w.log := (killed_apply hk).resolve_right he
      rcases e.apply_units p w i id with hsame | hchange
      · exact h.doomed hk₀ u (hsame.symm.trans hu)
      · rw [hu] at hchange
        cases hchange with
        | systemdRun hnone => exact absurd hk (not_killed_systemdRun hnone hu)
        | killCt u₀ hu₀ => exact absurd rfl he
        | terminate u₀ hu₀ => exact h.doomed hk₀ u₀ hu₀
        | step u₀ hu₀ se => exact ((h.doomed hk₀ u₀ hu₀).step _ se).1
  · rcases e.apply_log p w i with hl | ⟨ev, hev, -, hl⟩
    · exact hl ▸ h.noBoot
    · rw [hl]
      refine h.noBoot.cons fun hboot hk => ?_
      subst hboot
      cases hev with
      | boot _ se u hu hb => exact ((h.doomed hk u hu).step _ se).2 hb

/-! ## Every run -/

theorem forced_halt_no_boot (rt : Runtime) (w : World) (ops : Pid → Op) (hlog : w.log = [])
    {P : Pool World Oracle Act} (hrun : Pool.Run agent KillsForGood (agentPool rt w ops) P)
    (id : VmId) : NoBootAfterKill id P.mem.log := by
  have hstart : StaysDown id w := by
    refine ⟨fun hk => ?_, fun newer older heq => ?_⟩
    · rw [hlog] at hk
      exact hk.elim
    · rw [hlog] at heq
      cases newer <;> cases heq
  exact (hrun.invariant hstart fun h hok => h.apply hok).noBoot

namespace SmallNode

/-- A forced stop, while the supervisor takes these steps. -/
def stopWhile (es : List SupEvent) : Pid → Op :=
  two (.stop vmA true) (.host (es.map (.supervisor vmA)))

/-- The history after the kill of a forced stop, and `newer` events. -/
def killedLog (newer : List Event) : List Event :=
  newer ++ [.killed vmA, .saved 0 (.desired .stopped) { recordA with desired := .stopped },
    .acquired 0 (.vm vmA)]

/-- The kill meets a boot whose setup process dies with the instance: the boot fails, and
the supervisor quits. -/
theorem kill_ends_boot : ∃ P : Pool World Oracle Act,
    Pool.Run agent KillsForGood (agentPool rt (supervised (.booting .attached))
      (stopWhile [.fail "container setup process exited unexpectedly", .decide false, .quit])) P ∧
    P.mem.log = killedLog [.replied 0 (.ok ())] ∧ NoBootAfterKill vmA P.mem.log := by
  obtain ⟨P, hrun, hlog⟩ : ∃ P : Pool World Oracle Act,
      Pool.Run agent KillsForGood (agentPool rt (supervised (.booting .attached)) (stopWhile
        [.fail "container setup process exited unexpectedly", .decide false, .quit])) P ∧
      P.mem.log = killedLog [.replied 0 (.ok ())] :=
    Pool.exists_run_eq (steps 0 6 ++ steps 1 3 ++ steps 0 5) rfl
  exact ⟨P, hrun, hlog, forced_halt_no_boot rt _ _ rfl hrun vmA⟩

/-- What the supervisor of a running instance does after the kill: it sees init die, waits
for the crash delay and boots again; there is no old interface to remove. -/
def crashRestart : List SupEvent :=
  [.signal, .decide false, .wake, .advance, .advance, .fail "Cannot find device"] ++
    List.replicate 7 .advance

/-- The guest boots again while the forced stop waits for the unit to end. -/
theorem kill_restarts_guest : ∃ P : Pool World Oracle Act,
    Pool.Run agent anyStep (agentPool rt (supervised .polling) (stopWhile crashRestart)) P ∧
    P.mem.log = killedLog [.booted vmA] ∧ ¬ NoBootAfterKill vmA P.mem.log := by
  obtain ⟨P, hrun, hlog⟩ : ∃ P : Pool World Oracle Act,
      Pool.Run agent anyStep (agentPool rt (supervised .polling) (stopWhile crashRestart)) P ∧
      P.mem.log = killedLog [.booted vmA] := Pool.exists_run_eq (steps 0 6 ++ steps 1 13) rfl
  exact ⟨P, hrun, hlog, fun h => h [] _ hlog (.inl rfl)⟩

end SmallNode

end RunmanAgent
