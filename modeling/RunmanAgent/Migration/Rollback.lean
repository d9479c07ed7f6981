import Mathlib

/-!
# Starting the legacy guests again (`scripts/migrate-go-state.py`)

`lifecycle start` goes through the saved rows and starts the guests that ran before. A `Round` is a
row together with what the commands about it come to, so the theorem is about every way in which
they can fail.
-/

namespace RunmanAgent.Migration

/-- What the script takes from the Python library. -/
structure Python where
  strip : String → String
  lower : String → String
  upper : String → String
  repr : String → String
  int : String → Option Int
  csv : String → Except String (List (List String))

variable (py : Python)

/-- The exceptions other than `SystemExit`, with their texts. -/
inductive Raised
  | osError (text : String)
  | timeoutExpired (text : String)
  deriving DecidableEq

def Raised.text : Raised → String
  | .osError text | .timeoutExpired text => text

/-- What comes of `subprocess.run`. -/
inductive Exec
  | done (returncode : Int) (stdout stderr : String)
  | raises (exc : Raised)

/-- Raises `SystemExit`. -/
def fail {α : Type} (message : String) : Except String α := .error message

def Exec.failed : Exec → Bool
  | .done code _ _ => code != 0
  | .raises _ => true

def lastChars (n : Nat) (s : String) : String := String.ofList (s.toList.drop (s.length - n))

/-- The end of what a failed command has printed. -/
def detail (n : Nat) (stdout stderr : String) : String :=
  lastChars n (py.strip (if stderr = "" then stdout else stderr))

def checkedRun (program : String) : Exec → Except String String
  | .done 0 stdout _ => pure (py.strip stdout)
  | .done code stdout stderr => fail s!"{program} failed ({code}): {detail py 500 stdout stderr}"
  | .raises exc => fail s!"cannot run {program}: {exc.text}"

/-- The names that `[A-Za-z0-9_.+-]{1,200}` matches. -/
def validName (name : String) : Bool :=
  1 ≤ name.length && name.length ≤ 200 &&
    name.toList.all fun c => c.isAlphanum || "_.+-".toList.contains c

def podmanRunningState (name : String) (inspect : Exec) : Except String Bool :=
  if !validName name then fail s!"unsupported legacy container name {py.repr name}"
  else do
    let result ← checkedRun py "podman" inspect
    if result = "true" then pure true
    else if result = "false" then pure false
    else fail s!"Podman returned an unrecognized state for {name}"

def incusInstanceState (name : String) (list : Exec) : Except String (String × String) :=
  if !validName name then fail s!"unsupported legacy container name {py.repr name}"
  else do
    let ambiguous := s!"Incus did not return one unambiguous instance state for {name}"
    match py.csv (← checkedRun py "incus" list) with
    | .error exc => fail s!"Incus returned invalid state data for {name}: {exc}"
    | .ok [[found, status, pid]] =>
      if found = name then pure (py.lower (py.strip status), py.strip pid) else fail ambiguous
    | .ok _ => fail ambiguous

def incusStateNeedsRebuild (status initPid : String) : Bool :=
  if status = "error" then true
  else if status ≠ "running" then false
  else (py.int initPid).elim true (· ≤ 1)

def incusRunningFromState (status initPid name : String) : Except String Bool :=
  if status ≠ "running" ∧ status ≠ "stopped" then
    fail (s!"Incus instance {name} is in {py.upper status} state; " ++
      "migration supports only Running or Stopped instances")
  else if status = "stopped" then pure false
  else match py.int initPid with
    | none => fail s!"Incus reports {name} as Running but returned an invalid init PID"
    | some pid =>
      if pid ≤ 1 then fail s!"Incus reports {name} as Running with invalid init PID {pid}"
      else pure true

inductive Backend
  | podman
  | incus

/-- A saved row. Of a flag only matters whether it is `True`. -/
structure Row where
  name : String
  wasRunning : Bool
  predeletedForSpace : Bool := false
  rebuildFallback : Bool := false
  rollbackWasRunning : Option Bool := none
  fallbackStatus : Option String := none
  fallbackInitPid : Option String := none
  lastStatePower : Bool := false

def rollbackShouldStart (row : Row) : Bool :=
  if row.predeletedForSpace then false
  else row.rollbackWasRunning.getD (!row.rebuildFallback && row.wasRunning)

/-- What comes of `write_state_file`: only `os.replace` is called inside a `try`. -/
inductive Stored
  | stored
  | notWritten (exc : Raised)
  | notReplaced (exc : Raised)

/-- A row, what the commands about it come to, and whether the file of the rows can be replaced. -/
structure Round where
  row : Row
  query : Exec
  start : Exec
  power : Exec := .done 0 "" ""
  file : Stored := .stored

def incusLastPowerState : Exec → String
  | .done 0 stdout _ =>
    let state := py.lower (py.strip stdout)
    if state = "running" ∨ state = "stopped" then state else ""
  | _ => ""

/-- Whether the row does not say yet that the guest is unusable in this way. -/
def fallbackChanged (r : Round) (status initPid : String) : Bool :=
  !r.row.rebuildFallback || r.row.fallbackStatus != some status ||
    r.row.fallbackInitPid != some initPid ||
    !r.row.lastStatePower && incusLastPowerState py r.power != ""

def markRebuildFallback (r : Round) (status initPid : String) : Stored :=
  if fallbackChanged py r status initPid then r.file else .stored

/-- A guest as its backend shows it. -/
inductive Guest
  | running
  | stopped
  | unusable (status initPid : String)

def Guest.ofRunning (running : Bool) : Guest := if running then .running else .stopped

variable (backend : Backend)

def guest (r : Round) : Except String Guest :=
  match backend with
  | .podman => Guest.ofRunning <$> podmanRunningState py r.row.name r.query
  | .incus => do
    let (status, initPid) ← incusInstanceState py r.row.name r.query
    if incusStateNeedsRebuild py status initPid then pure (.unusable status initPid)
    else Guest.ofRunning <$> incusRunningFromState py status initPid r.row.name

def shouldRun (row : Row) : Bool :=
  match backend with
  | .podman => row.wasRunning
  | .incus => rollbackShouldStart row

/-- What a round adds to the lists of the loop, or how it ends the loop. -/
structure Outcome where
  error : Option String := none
  skipped : Bool := false
  started : Bool := false
  raised : Option Raised := none

def startRound (r : Round) : Outcome :=
  if !validName r.row.name then { error := some s!"invalid saved name {py.repr r.row.name}" }
  else if !shouldRun backend r.row then {}
  else match guest py backend r with
    | .error exc => { error := some s!"{r.row.name}: {exc}" }
    | .ok .running => {}
    | .ok (.unusable status initPid) =>
      match markRebuildFallback py r status initPid with
      | .stored => { skipped := true }
      | .notWritten exc => { raised := some exc }
      | .notReplaced exc => { error := some (s!"{r.row.name}: " ++
          s!"cannot update saved legacy container state: {exc.text}") }
    | .ok .stopped =>
      -- the start command is run after the `try`, with a time limit
      match r.start with
      | .done code stdout stderr =>
        { started := true
          error := if code = 0 then none else some s!"{r.row.name}: {detail py 300 stdout stderr}" }
      | .raises exc => { started := true, raised := some exc }

structure Tally where
  errors : List String := []
  skipped : List String := []
  started : List String := []

def Tally.add (t : Tally) (name : String) (o : Outcome) : Tally where
  errors := t.errors ++ o.error.toList
  skipped := t.skipped ++ if o.skipped then [name] else []
  started := t.started ++ if o.started then [name] else []

def startRounds (t : Tally) : List Round → Tally × Option Raised
  | [] => (t, none)
  | r :: rounds =>
    let o := startRound py backend r
    match o.raised with
    | some exc => (t.add r.row.name o, some exc)
    | none => startRounds (t.add r.row.name o) rounds

inductive Exit
  | returned (printed : Option String)
  | systemExit (message : String)
  | raised (exc : Raised)
  deriving DecidableEq

def conclude (t : Tally) : Exit :=
  if t.errors ≠ [] then
    .systemExit ("could not restore all previously running Go containers: " ++
      "; ".intercalate t.errors)
  else if t.skipped ≠ [] then
    .returned (some ("left unusable Incus instance(s) untouched during rollback: " ++
      ", ".intercalate t.skipped))
  else .returned none

def lifecycleStart (rounds : List Round) : Tally × Exit :=
  match startRounds py backend {} rounds with
  | (t, some exc) => (t, .raised exc)
  | (t, none) => (t, conclude t)

/-! ## Every guest is tried -/

/-- The guest should be running, and the backend shows that it is not. -/
def Round.wanted (r : Round) : Bool :=
  validName r.row.name && shouldRun backend r.row && (guest py backend r matches .ok .stopped)

/-- The guest cannot be restored: its name, its query, its start or the note that it is unusable
fails. -/
def Round.failed (r : Round) : Bool :=
  !validName r.row.name || shouldRun backend r.row &&
    match guest py backend r with
    | .error _ => true
    | .ok .running => false
    | .ok .stopped => r.start.failed
    | .ok (.unusable status initPid) =>
      !(markRebuildFallback py r status initPid matches .stored)

/-- The guest should be started and the command cannot be run or takes too long, or it should be
noted as unusable and the file cannot be written. -/
def Round.breaks (r : Round) : Bool :=
  validName r.row.name && shouldRun backend r.row &&
    match guest py backend r with
    | .ok .stopped => (r.start matches .raises _)
    | .ok (.unusable status initPid) =>
      fallbackChanged py r status initPid && (r.file matches .notWritten _)
    | _ => false

/-- The message is about the guest. -/
def Reports (r : Round) (message : String) : Prop :=
  message = s!"invalid saved name {py.repr r.row.name}" ∨
    ∃ text : String, message = s!"{r.row.name}: " ++ text

/-- Every guest that should run and does not is started, and the command ends with a report of
every guest that cannot be restored. -/
structure TriesAll (rounds : List Round) : Prop where
  started : (lifecycleStart py backend rounds).1.started =
    (rounds.filter (Round.wanted py backend)).map (·.row.name)
  errors : ∀ r ∈ rounds, r.failed py backend = true →
    ∃ message ∈ (lifecycleStart py backend rounds).1.errors, Reports py r message
  ends : (lifecycleStart py backend rounds).2 = conclude (lifecycleStart py backend rounds).1

variable {py backend} {t : Tally} {r : Round} {rounds : List Round}

theorem started_startRound : (startRound py backend r).started = r.wanted py backend := by
  unfold startRound Round.wanted
  grind

theorem isSome_raised_startRound :
    (startRound py backend r).raised.isSome = r.breaks py backend := by
  unfold startRound Round.breaks markRebuildFallback
  grind

theorem error_startRound (h : r.breaks py backend = false) (hfailed : r.failed py backend = true) :
    ∃ message, (startRound py backend r).error = some message ∧ Reports py r message := by
  unfold Round.breaks at h
  unfold Round.failed markRebuildFallback at hfailed
  unfold startRound markRebuildFallback
  cases hname : validName r.row.name with
  | false => exact ⟨_, rfl, .inl rfl⟩
  | true =>
  cases hshould : shouldRun backend r.row with
  | false => simp [hname, hshould] at hfailed
  | true =>
  rcases hguest : guest py backend r with exc | (_ | _ | ⟨status, initPid⟩)
  · exact ⟨_, rfl, .inr ⟨exc, rfl⟩⟩
  · simp [hname, hguest] at hfailed
  · cases hstart : r.start with
    | raises exc => simp [hname, hshould, hguest, hstart] at h
    | done code stdout stderr =>
      have hcode : code ≠ 0 := by simpa [hname, hshould, hguest, hstart, Exec.failed] using hfailed
      exact ⟨_, if_neg hcode, .inr ⟨_, rfl⟩⟩
  · cases hchanged : fallbackChanged py r status initPid with
    | false => simp [hname, hguest, hchanged] at hfailed
    | true =>
      cases hfile : r.file with
      | stored => simp [hname, hguest, hchanged, hfile] at hfailed
      | notWritten exc => simp [hname, hshould, hguest, hchanged, hfile] at h
      | notReplaced exc => exact ⟨_, by simp [hchanged]; rfl, .inr ⟨_, rfl⟩⟩

theorem startRounds_of_not_breaks (h : ∀ r ∈ rounds, r.breaks py backend = false) :
    (startRounds py backend t rounds).2 = none ∧
    (startRounds py backend t rounds).1.started =
      t.started ++ (rounds.filter (Round.wanted py backend)).map (·.row.name) ∧
    (startRounds py backend t rounds).1.errors =
      t.errors ++ rounds.filterMap fun r => (startRound py backend r).error := by
  induction rounds generalizing t with
  | nil => simp [startRounds]
  | cons r rounds ih =>
    have hraised : (startRound py backend r).raised = none := by
      rw [← Option.not_isSome_iff_eq_none, isSome_raised_startRound, h r (by simp)]
      nofun
    simp only [startRounds, hraised]
    obtain ⟨hnone, hstarted, herrors⟩ := ih fun r hr => h r (by simp [hr])
    refine ⟨hnone, ?_, ?_⟩
    · rw [hstarted, Tally.add, started_startRound]
      cases hwanted : r.wanted py backend <;> simp [hwanted]
    · rw [herrors, Tally.add]
      cases herror : (startRound py backend r).error <;> simp [herror]

theorem startRounds_of_breaks (hr : r ∈ rounds) (h : r.breaks py backend = true) :
    ∃ exc, (startRounds py backend t rounds).2 = some exc := by
  induction rounds generalizing t with
  | nil => cases hr
  | cons first rounds ih =>
    simp only [startRounds]
    cases hraised : (startRound py backend first).raised with
    | some exc => exact ⟨exc, rfl⟩
    | none =>
      refine ih ((List.mem_cons.mp hr).resolve_left ?_)
      rintro rfl
      rw [← isSome_raised_startRound, hraised] at h
      cases h

theorem conclude_ne_raised {exc : Raised} : .raised exc ≠ conclude t := by
  unfold conclude
  split
  · nofun
  · split <;> nofun

/-- For every saved state and whatever the commands come to: every guest is tried and every failure
is reported exactly if no start command of a stopped guest that should run times out or cannot be
run, and no unusable guest is met while the file of the rows cannot be written. -/
theorem lifecycleStart_tries_all_iff :
    TriesAll py backend rounds ↔ ∀ r ∈ rounds, r.breaks py backend = false := by
  have hsplit := (startRounds py backend {} rounds).eta
  constructor
  · intro htries r hr
    by_contra hbreaks
    obtain ⟨exc, hexc⟩ := startRounds_of_breaks (t := {}) hr (by simpa using hbreaks)
    have hends := htries.ends
    rw [lifecycleStart, ← hsplit, hexc] at hends
    exact conclude_ne_raised hends
  · intro h
    obtain ⟨hnone, hstarted, herrors⟩ := startRounds_of_not_breaks (t := {}) h
    have hresult : lifecycleStart py backend rounds =
        ((startRounds py backend {} rounds).1, conclude (startRounds py backend {} rounds).1) := by
      rw [lifecycleStart, ← hsplit, hnone]
    refine ⟨?_, fun r hr hfailed => ?_, ?_⟩ <;> rw [hresult]
    · exact hstarted
    · obtain ⟨message, hmessage, hreports⟩ := error_startRound (h r hr) hfailed
      refine ⟨message, ?_, hreports⟩
      rw [herrors]
      exact List.mem_append_right _ (List.mem_filterMap.mpr ⟨r, hr, hmessage⟩)

def plain : Python where
  strip := id
  lower := id
  upper := id
  repr := id
  int _ := none
  csv text := .ok [[text]]

/-- A guest that ran and is stopped now. -/
def stoppedGuest (name : String) (start : Exec) : Round where
  row := { name, wasRunning := true }
  query := .done 0 "false" ""
  start := start

/-- The start of the first guest takes too long: the second one is never started, and the command
ends with the exception. -/
theorem second_guest_is_not_tried :
    let rounds := [stoppedGuest "one" (.raises (.timeoutExpired "45 seconds")),
      stoppedGuest "two" (.done 0 "" "")]
    (rounds.filter (Round.wanted plain .podman)).map (·.row.name) = ["one", "two"] ∧
    (lifecycleStart plain .podman rounds).1.started = ["one"] ∧
    (lifecycleStart plain .podman rounds).2 = .raised (.timeoutExpired "45 seconds") := by
  decide

end RunmanAgent.Migration
