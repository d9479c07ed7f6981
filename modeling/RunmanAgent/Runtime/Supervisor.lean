import RunmanAgent.Runtime.Spec

/-!
# The supervisor of an instance (`src/runtime/supervisor.rs`, `src/runtime/attach.rs`)

The supervisor is the main process of an instance's systemd unit. It reads
`runtime.json` once, then boots the instance, waits for its init to end, and decides
whether to boot it again. `Supervisor.step` is one step of that process; what it does to
the host is returned as an `Effect`.

The stages of a boot follow the launch handshake: until `inCt` the setup process is not
in the instance's cgroup `ct`, from `inCt` to `attached` it is, and in `moved` it has been
moved out again, while the future init stays in `ct`.
-/

namespace RunmanAgent

/-! ## Plugging an instance into the bridge -/

/-- A command `attach` runs on the host end of the veth pair. `other` has no effect on
what is modelled of the interface (traffic shaping, the IFB device). -/
inductive NetCmd where
  | linkDel (hif : String)
  | linkAdd (hif mac : String)
  | setMaster (hif bridge : String)
  | setIsolated (hif : String)
  | setLink (hif : String) (up : Bool)
  | other (argv : List String)
  deriving DecidableEq

def ifbName (hostIf : String) : String := hostIf ++ "i"

/-- The commands that shape an interface, in both directions. -/
def shapeCmds (net : NetSpec) : List (NetCmd × Bool) :=
  let hif := net.hostIf
  let ifb := ifbName hif
  let rate := toString net.bandwidthMbps ++ "mbit"
  [ (.other ["tc", "qdisc", "replace", "dev", hif, "root", "cake", "bandwidth", rate], false),
    (.other ["ip", "link", "del", ifb], true),
    (.other ["ip", "link", "add", ifb, "type", "ifb"], false),
    (.other ["ip", "link", "set", ifb, "up"], false),
    (.other ["tc", "qdisc", "replace", "dev", ifb, "root", "cake", "bandwidth", rate], false),
    (.other ["tc", "qdisc", "replace", "dev", hif, "handle", "ffff:", "ingress"], false),
    (.other ["tc", "filter", "replace", "dev", hif, "parent", "ffff:", "matchall", "action",
      "mirred", "egress", "redirect", "dev", ifb], false) ]

/-- `attach`: its commands in order, each with whether its failure is ignored. -/
def attachCmds (net : NetSpec) : List (NetCmd × Bool) :=
  [ (.linkDel net.hostIf, true),
    (.linkAdd net.hostIf net.mac, false),
    (.setMaster net.hostIf net.bridge, false),
    (.setIsolated net.hostIf, false),
    (.setLink net.hostIf (!net.isolated), false) ] ++
  (if 0 < net.bandwidthMbps then shapeCmds net else [])

/-- The only command of `attach` that changes the link state follows the `isolated`
flag. -/
theorem attachCmds_setLink {net : NetSpec} {hif : String} {up ign : Bool}
    (h : (NetCmd.setLink hif up, ign) ∈ attachCmds net) :
    hif = net.hostIf ∧ up = !net.isolated := by
  unfold attachCmds shapeCmds at h
  split at h <;> simp at h <;> exact h.1

/-! ## Outcome of a boot -/

inductive Outcome where
  | reboot
  | halted
  | other (why : String)
  deriving DecidableEq

/-- The intermediate exits with init's status: 128 + signal when init was killed. -/
def outcome (code : Int) : Outcome :=
  if code - 128 = 1 then .reboot
  else if code - 128 = 2 then .halted
  else if code = 0 then .halted
  else if 0 < code - 128 then .other ("init killed by signal " ++ toString (code - 128))
  else .other ("init exited with " ++ toString code)

def CRASH_RESTARTS : Nat := 5

/-- Seconds. -/
def CRASH_DELAY : Nat := 1

def CRASH_DELAY_MAX : Nat := 30

/-- Delay before restart number `n` (from 1) after init died on its own. -/
def crashDelay (n : Nat) : Option Nat :=
  if n ≤ CRASH_RESTARTS then some (min (CRASH_DELAY * 2 ^ (n - 1)) CRASH_DELAY_MAX) else none

def GLIBC_SIGRTMIN : Int := 34

/-- `parse_signal`; `off.parse()` of the text after `SIGRTMIN+`. -/
def parseSignal (name : String) : Except Err Int :=
  if "SIGRTMIN+".toList.isPrefixOf name.toList then
    match (String.ofList (name.toList.drop 9)).toInt? with
    | some off => .ok (GLIBC_SIGRTMIN + off)
    | none => .error (.io "invalid digit found in string")
  else if name = "SIGTERM" then .ok 15
  else if name = "SIGINT" then .ok 2
  else if name = "SIGUSR1" then .ok 10
  else if name = "SIGUSR2" then .ok 12
  else if name = "SIGPWR" then .ok 30
  else .error (.unsupportedStopSignal name)

/-! ## The process -/

/-- How far a boot has come. -/
inductive Stage where
  /-- Mounts, console, cgroup `ct`, fork and id maps; the setup process is not in `ct`. -/
  | setup
  /-- The setup process is in `ct`; its namespaces are being created. -/
  | inCt
  /-- `attach` is running; the commands that are left. -/
  | attaching (left : List (NetCmd × Bool))
  /-- The network is attached; the setup process mounts the root and forks init. -/
  | attached
  /-- The setup process has been moved out of `ct`; init waits to be released. -/
  | moved
  deriving DecidableEq

inductive Phase where
  /-- Started by systemd; `runtime.json` not read yet. -/
  | starting
  /-- In `boot_once`, before its wait loop. -/
  | booting (stage : Stage)
  /-- In the wait loop of `boot_once`. -/
  | polling
  /-- `boot_once` has returned. -/
  | cleaning (result : Except Err Outcome)
  /-- In `sleep_unless_stopped`. -/
  | sleeping (delay : Nat)
  /-- Left the loop of `run`. -/
  | leaving

/-- The commands of `attach` that are left. -/
def Phase.left : Phase → List (NetCmd × Bool)
  | .booting (.attaching left) => left
  | _ => []

/-- State of a supervisor process and of the processes below it. -/
structure Supervisor where
  /-- The copy of `runtime.json` it was started with. -/
  spec : Option RunSpec := none
  phase : Phase := .starting
  stopRequested : Bool := false
  crashes : Nat := 0
  /-- A graceful stop is under way (`deadline` of the wait loop). -/
  deadline : Bool := false
  /-- SIGTERM or SIGINT is pending. -/
  term : Bool := false
  /-- SIGCHLD is pending. -/
  chld : Bool := false
  /-- The setup process (later: the intermediate) is alive. -/
  child : Bool := true
  /-- Exit code of the intermediate, once it has ended in the wait loop. -/
  exit : Option Int := none
  /-- systemd has been asked to stop the unit. -/
  stopping : Bool := false

inductive SupEvent where
  /-- Read and parse `runtime.json`, set up signals, cgroups and the disk. -/
  | start (failed : Bool)
  /-- The next step of the boot succeeds, or fails. -/
  | advance
  | fail (text : String)
  /-- Init ends by itself. -/
  | initExits (code : Int)
  /-- Read the next pending signal. -/
  | signal
  /-- The time for a graceful stop is over. -/
  | stopTimeout
  | pollError (text : String)
  /-- Clean up after the boot: `ct`, IFB device, layer mounts. -/
  | clean (failed : Option String)
  /-- `match outcome`; `stable` is `booted.elapsed() >= CRASH_STABLE`. -/
  | decide (stable : Bool)
  /-- The crash delay is over. -/
  | wake
  /-- The process exits. -/
  | quit

/-- What a step does outside the supervisor. -/
inductive Effect where
  | none
  | command (c : NetCmd)
  /-- Init is released to execute `/sbin/init`, and `init.pid` is written. -/
  | boot
  | removePid
  | exit

namespace Supervisor

/-- The boot has failed: the setup process is killed and reaped. -/
def bootFailed (u : Supervisor) (text : String) : Supervisor :=
  { u with
    phase := .cleaning (.error (.context "launch container" (.io text))), child := false }

/-- Enter `boot_once`. -/
def enterBoot (u : Supervisor) : Supervisor :=
  { u with
    phase := .booting .setup, child := true, exit := none, deadline := false }

/-- The next step of the boot, when it succeeds. A step that needs the setup process
alive cannot succeed without it: the pipes to it are closed. -/
def advanceBoot (u : Supervisor) : Stage → Supervisor × Effect
  | .setup => ({ u with phase := .booting .inCt }, .none)
  | .inCt =>
    match u.spec.bind (·.net) with
    | some net => ({ u with phase := .booting (.attaching (attachCmds net)) }, .none)
    | none => ({ u with phase := .booting .attached }, .none)
  | .attaching ((c, _) :: left) =>
    ({ u with phase := .booting (.attaching left) }, .command c)
  | .attaching [] => ({ u with phase := .booting .attached }, .none)
  | .attached => ({ u with phase := .booting .moved }, .none)
  | .moved => if u.child then ({ u with phase := .polling }, .boot) else (u, .none)

/-- The next step of the boot, when it fails. -/
def failBoot (u : Supervisor) (text : String) : Stage → Supervisor
  | .attaching ((_, true) :: left) => { u with phase := .booting (.attaching left) }
  | _ => u.bootFailed text

/-- Read one pending signal in the wait loop; pending signals are delivered lowest number
first, SIGINT and SIGTERM before SIGCHLD. -/
def readSignal (u : Supervisor) : Supervisor :=
  if u.term then
    if u.deadline then { u with term := false }
    else { u with term := false, stopRequested := true, deadline := true }
  else if u.chld then
    match u.exit with
    | some code => { u with chld := false, phase := .cleaning (.ok (outcome code)) }
    | none => { u with chld := false }
  else u

/-- Every process of `ct` is killed. -/
def killCt (u : Supervisor) : Supervisor :=
  match u.phase with
  | .booting .inCt | .booting (.attaching _) | .booting .attached => { u with child := false }
  | .booting .moved => { u with exit := some 137, chld := true }
  | .polling => if u.exit.isNone then { u with exit := some 137, chld := true } else u
  | _ => u

/-- The decision of `run` after a boot. -/
def decideNext (u : Supervisor) (r : Except Err Outcome) (stable : Bool) : Supervisor :=
  match r with
  | .error _ => { u with phase := .leaving }
  | .ok .reboot => if u.stopRequested then { u with phase := .leaving } else u.enterBoot
  | .ok (.other _) =>
    if u.stopRequested then { u with phase := .leaving }
    else
      let crashes := (if stable then 0 else u.crashes) + 1
      match crashDelay crashes with
      | some delay => { u with crashes := crashes, phase := .sleeping delay }
      | none => { u with crashes := crashes, phase := .leaving }
  | .ok .halted => { u with phase := .leaving }

/-- Before the first boot; `json` is the content of `runtime.json`. -/
def start (u : Supervisor) (json : Option RunSpec) (failed : Bool) : Supervisor :=
  match json with
  | some spec =>
    if failed || (parseSignal spec.stopSignal).toOption.isNone then { u with phase := .leaving }
    else { u with spec := some spec }.enterBoot
  | none => { u with phase := .leaving }

/-- One step of the supervisor. An event that does not apply changes nothing. -/
def step (json : Option RunSpec) (u : Supervisor) : SupEvent → Supervisor × Effect
  | .start failed =>
    match u.phase with
    | .starting => (u.start json failed, .none)
    | _ => (u, .none)
  | .advance =>
    match u.phase with
    | .booting s => u.advanceBoot s
    | _ => (u, .none)
  | .fail text =>
    match u.phase with
    | .booting s => (u.failBoot text s, .none)
    | _ => (u, .none)
  | .initExits code =>
    match u.phase with
    | .polling =>
      if u.exit.isNone then ({ u with exit := some code, chld := true }, .none) else (u, .none)
    | _ => (u, .none)
  | .signal =>
    match u.phase with
    | .starting => if u.term then ({ u with phase := .leaving }, .none) else (u, .none)
    | .polling => (u.readSignal, .none)
    | .sleeping _ =>
      if u.term then ({ u with term := false, phase := .leaving }, .none)
      else ({ u with chld := false }, .none)
    | _ => (u, .none)
  | .stopTimeout =>
    match u.phase with
    | .polling => if u.deadline then ({ u.killCt with deadline := false }, .none) else (u, .none)
    | _ => (u, .none)
  | .pollError text =>
    match u.phase with
    | .polling => ({ u with phase := .cleaning (.error (.io text)) }, .none)
    | _ => (u, .none)
  | .clean failed =>
    match u.phase with
    | .cleaning _ =>
      match failed with
      | none => (u, .removePid)
      | some text => ({ u with phase := .cleaning (.error (.io text)) }, .removePid)
    | _ => (u, .none)
  | .decide stable =>
    match u.phase with
    | .cleaning r => (u.decideNext r stable, .none)
    | _ => (u, .none)
  | .wake =>
    match u.phase with
    | .sleeping _ => (u.enterBoot, .none)
    | _ => (u, .none)
  | .quit =>
    match u.phase with
    | .leaving => (u, .exit)
    | _ => (u, .none)

/-! ## Copies and commands

What a step does to the copy of `runtime.json`, and to the commands of `attach` that are
left. -/

variable {u : Supervisor} {json : Option RunSpec} {e : SupEvent}

/-- A step that keeps the copy, runs no command of `attach` and adds none. -/
structure Keeps (u u' : Supervisor) (eff : Effect) : Prop where
  spec : u'.spec = u.spec
  left : u'.phase.left = [] ∨ u'.phase = u.phase
  quiet : ∀ c, eff ≠ .command c

theorem keeps_refl (u : Supervisor) : Keeps u u .none := ⟨rfl, .inr rfl, nofun⟩

theorem killCt_spec (u : Supervisor) : u.killCt.spec = u.spec := by
  unfold killCt
  split
  · rfl
  · rfl
  · rfl
  · rfl
  · split <;> rfl
  · rfl

theorem killCt_phase (u : Supervisor) : u.killCt.phase = u.phase := by
  unfold killCt
  split
  · rfl
  · rfl
  · rfl
  · rfl
  · split <;> rfl
  · rfl

theorem keeps_readSignal (u : Supervisor) : Keeps u u.readSignal .none := by
  unfold readSignal
  split
  · split <;> exact ⟨rfl, .inr rfl, nofun⟩
  · split
    · split
      · exact ⟨rfl, .inl rfl, nofun⟩
      · exact ⟨rfl, .inr rfl, nofun⟩
    · exact keeps_refl u

theorem keeps_decideNext (u : Supervisor) (r : Except Err Outcome) (stable : Bool) :
    Keeps u (u.decideNext r stable) .none := by
  refine ⟨?_, .inl ?_, nofun⟩ <;>
  · unfold decideNext enterBoot
    split
    · rfl
    · split <;> rfl
    · split
      · rfl
      · dsimp only
        split <;> rfl
    · rfl

theorem keeps_step (hs : ∀ failed, e ≠ .start failed) (ha : e ≠ .advance)
    (hf : ∀ text, e ≠ .fail text) : Keeps u (u.step json e).1 (u.step json e).2 := by
  cases e with
  | start failed => exact absurd rfl (hs failed)
  | advance => exact absurd rfl ha
  | fail text => exact absurd rfl (hf text)
  | initExits code =>
    simp only [step]
    split
    · split <;> exact ⟨rfl, .inr rfl, by simp⟩
    · exact keeps_refl u
  | signal =>
    simp only [step]
    split
    · split
      · exact ⟨rfl, .inl rfl, by simp⟩
      · exact keeps_refl u
    · exact keeps_readSignal u
    · split
      · exact ⟨rfl, .inl rfl, by simp⟩
      · exact ⟨rfl, .inr rfl, by simp⟩
    · exact keeps_refl u
  | stopTimeout =>
    simp only [step]
    split
    · split
      · exact ⟨u.killCt_spec, .inr u.killCt_phase, by simp⟩
      · exact keeps_refl u
    · exact keeps_refl u
  | clean failed =>
    simp only [step]
    split
    · split
      · exact ⟨rfl, .inr rfl, by simp⟩
      · exact ⟨rfl, .inl rfl, by simp⟩
    · exact keeps_refl u
  | decide stable =>
    simp only [step]
    split
    · exact keeps_decideNext u _ stable
    · exact keeps_refl u
  | pollError text | wake =>
    simp only [step]
    split
    · exact ⟨rfl, .inl rfl, by simp⟩
    · exact keeps_refl u
  | quit =>
    simp only [step]
    split
    · exact ⟨rfl, .inr rfl, by simp⟩
    · exact keeps_refl u

theorem advanceBoot_spec (u : Supervisor) (s : Stage) : (u.advanceBoot s).1.spec = u.spec := by
  unfold advanceBoot
  split
  · rfl
  · split <;> rfl
  · rfl
  · rfl
  · rfl
  · split <;> rfl

theorem failBoot_spec (u : Supervisor) (text : String) (s : Stage) :
    (u.failBoot text s).spec = u.spec := by
  unfold failBoot
  split <;> rfl

theorem step_spec : (u.step json e).1.spec = u.spec ∨ (u.step json e).1.spec = json := by
  cases e with
  | start failed =>
    simp only [step]
    split
    · unfold start
      split
      · split
        · exact .inl rfl
        · exact .inr rfl
      · exact .inl rfl
    · exact .inl rfl
  | advance =>
    simp only [step]
    split
    · exact .inl (u.advanceBoot_spec _)
    · exact .inl rfl
  | fail text =>
    simp only [step]
    split
    · exact .inl (u.failBoot_spec text _)
    · exact .inl rfl
  | _ => exact .inl (keeps_step (by simp) (by simp) (by simp)).spec

theorem left_step {x : NetCmd × Bool} (h : x ∈ (u.step json e).1.phase.left) :
    x ∈ u.phase.left ∨ (e = .advance ∧ u.phase = .booting .inCt ∧
      ∃ net, u.spec.bind (·.net) = some net ∧ x ∈ attachCmds net) := by
  have hkeeps : ∀ {u' : Supervisor}, u'.phase.left = [] ∨ u'.phase = u.phase →
      x ∈ u'.phase.left → x ∈ u.phase.left := by
    rintro u' (hl | hl) hx
    · rw [hl] at hx
      cases hx
    · exact hl ▸ hx
  cases e with
  | start failed =>
    refine .inl (hkeeps ?_ h)
    simp only [step]
    split
    · unfold start enterBoot
      split
      · split <;> exact .inl rfl
      · exact .inl rfl
    · exact .inr rfl
  | advance =>
    cases hphase : u.phase with
    | booting s =>
      simp only [step, hphase] at h
      cases s with
      | inCt =>
        cases hnet : u.spec.bind (·.net) with
        | none => simp [advanceBoot, hnet, Phase.left] at h
        | some net =>
          simp only [advanceBoot, hnet, Phase.left] at h
          exact .inr ⟨rfl, rfl, net, rfl, h⟩
      | attaching left =>
        cases left with
        | nil => simp [advanceBoot, Phase.left] at h
        | cons y left =>
          simp only [advanceBoot, Phase.left] at h
          exact .inl (.tail _ h)
      | moved => cases hchild : u.child <;> simp [advanceBoot, hchild, hphase, Phase.left] at h
      | setup | attached => simp [advanceBoot, Phase.left] at h
    | _ => simp [step, hphase, Phase.left] at h
  | fail text =>
    left
    cases hphase : u.phase with
    | booting s =>
      simp only [step, hphase, failBoot] at h
      split at h
      · exact .tail _ h
      · simp [bootFailed, Phase.left] at h
    | _ => simp [step, hphase, Phase.left] at h
  | _ => exact .inl (hkeeps (keeps_step (by simp) (by simp) (by simp)).left h)

theorem step_command {c : NetCmd} (h : (u.step json e).2 = .command c) :
    ∃ ign, (c, ign) ∈ u.phase.left := by
  cases e with
  | start failed =>
    simp only [step] at h
    split at h <;> cases h
  | advance =>
    cases hphase : u.phase with
    | booting s =>
      simp only [step, hphase] at h
      cases s with
      | inCt => cases hnet : u.spec.bind (·.net) <;> simp [advanceBoot, hnet] at h
      | attaching left =>
        cases left with
        | nil => simp [advanceBoot] at h
        | cons x left =>
          simp only [advanceBoot, Effect.command.injEq] at h
          exact ⟨x.2, by simp [Phase.left, ← h]⟩
      | moved => cases hchild : u.child <;> simp [advanceBoot, hchild] at h
      | setup | attached => simp [advanceBoot] at h
    | _ => simp [step, hphase] at h
  | fail text =>
    simp only [step] at h
    split at h <;> cases h
  | _ => exact absurd h ((keeps_step (by simp) (by simp) (by simp)).quiet c)

end Supervisor

end RunmanAgent
