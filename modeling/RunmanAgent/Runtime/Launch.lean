import RunmanAgent.Concurrency.Discipline

/-!
# The launch handshake (`boot_once`, `intermediate`, `pid1` of `src/runtime/supervisor.rs`)

One boot: the supervisor forks the intermediate, which forks the future pid 1. The child
side reports over one pipe (`U`, `N`, `P` and the pid, or `E` and a message), the
supervisor releases it over another (`1`, `2`, `3`). The three are programs over one
state, so that they interleave freely; further programs kill any of them at any point.

Both pipes are kept as the whole of what was written, with the number of bytes read.
-/

namespace RunmanAgent.Launch

open Concurrency Proc

/-- A step of the boot other than the handshake itself. -/
inductive HostStep where
  -- the supervisor
  | uidMap
  | gidMap
  | openUserns
  | idmapImage
  | idmapDisk
  | moveToCt
  | attach
  | moveToSupervisor
  | writeInitPid
  -- the intermediate
  | unshareUser
  | setresgid
  | setresuid
  | setgroups
  | unshareNamespaces
  | makePrivate
  | mountOverlay
  | setupDev
  | sethostname
  -- pid 1
  | mountProc
  | mountSys
  | mountCgroup
  | maskHostInfo
  | chdirRootfs
  | pivotRoot
  | chdirRoot
  | setsid
  | dupConsole
  | unblockSignals
  | seccomp
  deriving DecidableEq

/-- The context of its error. -/
def HostStep.context : HostStep → Option String
  | .uidMap => some "write uid_map"
  | .gidMap => some "write gid_map"
  | .idmapImage => some "idmap image"
  | .idmapDisk => some "idmap disk"
  | .attach => some "attach network"
  | .unshareUser => some "unshare user ns"
  | .unshareNamespaces => some "unshare namespaces"
  | .mountOverlay => some "mount rootfs overlay"
  | .setupDev => some "populate /dev"
  | .mountProc => some "mount /proc"
  | .mountSys => some "mount /sys"
  | .mountCgroup => some "mount cgroup2"
  | .maskHostInfo => some "mask /proc and /sys"
  | .pivotRoot => some "pivot_root"
  | .seccomp => some "install seccomp filter"
  | _ => none

inductive Pipe where
  | toChild
  | fromChild
  deriving DecidableEq

/-- What is written by one `write_all`. -/
inductive Msg where
  | byte (c : Char)
  | pid
  | report (text : String)
  deriving DecidableEq

inductive Act where
  | fork (child : Pid)
  | host (h : HostStep)
  | write (pipe : Pipe) (m : Msg)
  /-- Read one byte. -/
  | read (pipe : Pipe)
  /-- `read_to_string` of the supervisor. -/
  | readToEnd
  | exec
  | kill (p : Pid)
  | waitFor (p : Pid)
  /-- The process ends, or the supervisor drops its ends of the pipes. -/
  | exit
  deriving DecidableEq

/-- Whether a call fails, and how many bytes a failing `write_all` has written. -/
structure Fate where
  error : Option String := none
  written : Nat := 0
  deriving DecidableEq

structure Mem where
  alive : List Pid
  /-- Written to the child, and read by it. -/
  go : List UInt8 := []
  goRead : Nat := 0
  /-- Written to the supervisor, and read by it. -/
  sent : List UInt8 := []
  sentRead : Nat := 0
  /-- The steps that have succeeded, and those that have failed. -/
  done : List HostStep := []
  failed : List HostStep := []
  /-- `/sbin/init` is executed. -/
  execed : Bool := false
  deriving DecidableEq

/-- `to_le_bytes`. -/
def leBytes (pid : UInt32) : List UInt8 :=
  [pid.toUInt8, (pid >>> 8).toUInt8, (pid >>> 16).toUInt8, (pid >>> 24).toUInt8]

def Msg.bytes (pid : UInt32) : Msg → List UInt8
  | .byte c => [c.toUInt8]
  | .pid => leBytes pid
  | .report text => 'E'.toUInt8 :: text.toUTF8.data.toList

namespace Mem

def next (s : Mem) : Pipe → Option UInt8
  | .toChild => s.go[s.goRead]?
  | .fromChild => s.sent[s.sentRead]?

def append (s : Mem) (bytes : List UInt8) : Pipe → Mem
  | .toChild => { s with go := s.go ++ bytes }
  | .fromChild => { s with sent := s.sent ++ bytes }

def advance (s : Mem) : Pipe → Mem
  | .toChild => { s with goRead := s.goRead + 1 }
  | .fromChild => { s with sentRead := s.sentRead + 1 }

/-- Someone holds the write end of the pipe. -/
def writer (s : Mem) : Pipe → Bool
  | .toChild => s.alive.contains 0
  | .fromChild => s.alive.contains 1 || s.alive.contains 2

end Mem

/-- The bytes of a `write_all` that are written. -/
def written (bytes : List UInt8) (i : Fate) : List UInt8 :=
  if i.error.isSome then bytes.dropLast.take i.written else bytes

def machine (pid : UInt32) : Machine Mem Fate Act where
  enabled e p s := s.alive.contains p &&
    match e with
    | .read pipe => (s.next pipe).isSome || !s.writer pipe
    | .readToEnd => !s.writer .fromChild
    | .waitFor q => !s.alive.contains q
    | _ => true
  apply e p s i :=
    match e with
    | .fork child => if i.error.isSome then s else { s with alive := child :: s.alive }
    | .host h =>
      if i.error.isSome then { s with failed := h :: s.failed }
      else { s with done := h :: s.done }
    | .write pipe m => s.append (written (m.bytes pid) i) pipe
    | .read pipe => if i.error.isSome || (s.next pipe).isNone then s else s.advance pipe
    | .readToEnd => { s with sentRead := s.sent.length }
    | .exec => if i.error.isSome then s else { s with execed := true }
    | .kill q => { s with alive := s.alive.filter (· ≠ q) }
    | .waitFor _ => s
    | .exit => { s with alive := s.alive.filter (· ≠ p) }

/-! ## The programs -/

abbrev Call := Proc Mem Fate Act String

/-- A call that fails with the error of the system. -/
def call (e : Act) : Call Unit :=
  Proc.perform e fun _ _ i =>
    match i.error with
    | none => .ok ()
    | some text => .error text

def host (h : HostStep) : Call Unit :=
  (call (.host h)).mapErr fun text =>
    match h.context with
    | some context => context ++ ": " ++ text
    | none => text

def readByte (pipe : Pipe) : Call (Option UInt8) :=
  Proc.perform (.read pipe) fun _ s i =>
    match i.error with
    | none => .ok (s.next pipe)
    | some text => .error text

/-- `rx.read_exact` of the supervisor. -/
def readExact : Nat → Call (List UInt8)
  | 0 => pure []
  | n + 1 => do
    match ← readByte .fromChild with
    | none => Proc.fail "failed to fill whole buffer"
    | some b =>
      let rest ← readExact n
      pure (b :: rest)

def quoted (b : UInt8) : String := reprStr (Char.ofNat b.toNat)

def expectTag (want : Char) : Call Unit := do
  match ← readByte .fromChild with
  | none => Proc.fail "container setup process exited unexpectedly"
  | some tag =>
    if tag = 'E'.toUInt8 then do
      let msg ← Proc.read .readToEnd fun _ s _ =>
        String.ofList ((s.sent.drop s.sentRead).map fun b => Char.ofNat b.toNat)
      Proc.fail ("container setup failed: " ++ msg)
    else if tag ≠ want.toUInt8 then
      Proc.fail ("protocol error: expected " ++ quoted want.toUInt8 ++ ", got " ++ quoted tag)
    else pure ()

/-- The buffer of `read_exact` is one byte long here. -/
def expectGo (want : Char) : Call Unit := do
  match ← (readByte .toChild).mapErr ("supervisor went away: " ++ ·) with
  | none => Proc.fail "supervisor went away: failed to fill whole buffer"
  | some b =>
    if b ≠ want.toUInt8 then Proc.fail ("unexpected go byte " ++ quoted b) else pure ()

/-- `if let Some(net) = &spec.net`. -/
def attachNetwork (net : Bool) : Call Unit := if net then host .attach else pure ()

/-- The closure of `boot_once` that launches the instance; `net` says whether the instance
has a network. It returns the bytes of the pid. -/
def launched (net : Bool) : Call (List UInt8) := do
  expectTag 'U'
  host .uidMap
  host .gidMap
  host .openUserns
  host .idmapImage
  host .idmapDisk
  host .moveToCt
  call (.write .toChild (.byte '1'))
  expectTag 'N'
  attachNetwork net
  call (.write .toChild (.byte '2'))
  expectTag 'P'
  let init ← readExact 4
  host .moveToSupervisor
  call (.write .toChild (.byte '3'))
  pure init

/-- `boot_once` up to its wait loop. -/
def bootOnce (net : Bool) : Call Unit := do
  call (.fork 1)
  match ← (launched net).attempt with
  | .ok _ => host .writeInitPid
  | .error e =>
    Proc.run (.kill 1)
    Proc.run (.waitFor 1)
    Proc.fail ("launch container: " ++ e)

def supervisor (net : Bool) : Prog Mem Fate Act Unit :=
  Prog.bind (bootOnce net) fun r =>
    match r with
    | .ok _ => .ret ()
    | .error _ => .run .exit

def intermediateSteps : Call Unit := do
  host .unshareUser
  call (.write .fromChild (.byte 'U'))
  expectGo '1'
  host .setresgid
  host .setresuid
  host .setgroups
  host .unshareNamespaces
  call (.write .fromChild (.byte 'N'))
  expectGo '2'
  host .makePrivate
  host .mountOverlay
  host .setupDev
  host .sethostname
  call (.fork 2)
  call (.write .fromChild (.byte 'P'))
  call (.write .fromChild .pid)
  Proc.run (.waitFor 2)

def intermediate : Prog Mem Fate Act Unit :=
  Prog.bind intermediateSteps fun r =>
    match r with
    | .ok _ => .run .exit
    | .error e => Prog.bind (.run (.write .fromChild (.report e))) fun _ => .run .exit

def pid1Steps : Call Unit := do
  host .mountProc
  host .mountSys
  host .mountCgroup
  host .maskHostInfo
  host .chdirRootfs
  host .pivotRoot
  host .chdirRoot
  expectGo '3'
  host .setsid
  host .dupConsole
  host .unblockSignals
  host .seccomp
  (call .exec).mapErr ("exec /sbin/init: " ++ ·)

def pid1 : Prog Mem Fate Act Unit :=
  Prog.bind pid1Steps fun r =>
    match r with
    | .ok _ => .ret ()
    | .error _ => .run .exit

/-- Someone else, who kills these processes. -/
def killer : List Pid → Prog Mem Fate Act Unit
  | [] => .ret ()
  | p :: ps => Prog.bind (.run (.kill p)) fun _ => killer ps

/-- A boot begins. -/
def start (net : Bool) (victims : List Pid) : Pool Mem Fate Act where
  mem := { alive := [0, 3] }
  procs
    | 0 => supervisor net
    | 1 => intermediate
    | 2 => pid1
    | 3 => killer victims
    | _ => .ret ()

/-! ## What has to precede `/sbin/init` -/

def required (net : Bool) : List HostStep :=
  [.uidMap, .gidMap, .idmapImage, .idmapDisk, .moveToCt] ++ (if net then [.attach] else []) ++
    [.moveToSupervisor]

def tags : List UInt8 := ['U'.toUInt8, 'N'.toUInt8, 'P'.toUInt8]

/-- What the intermediate writes when all goes well. -/
def report (pid : UInt32) : List UInt8 := tags ++ leBytes pid

/-- Every step that has to precede `/sbin/init` has succeeded, and the pid is reported. -/
structure Ready (net : Bool) (pid : UInt32) (s : Mem) : Prop where
  done : ∀ h ∈ required net, h ∈ s.done
  failed : ∀ h ∈ required net, h ∉ s.failed
  reported : report pid <+: s.sent

/-- A failure that is reported after the tag `P` does not make up for the bytes of the pid. -/
def NoFalsePid (pid : UInt32) (e : Act) (s : Mem) (i : Fate) : Prop :=
  match e with
  | .write .fromChild (.report text) => 3 ≤ s.sent.length →
    (s.sent ++ written ((Msg.report text).bytes pid) i).length < 7
  | _ => True

instance (pid : UInt32) (e : Act) (s : Mem) (i : Fate) : Decidable (NoFalsePid pid e s i) :=
  match e with
  | .write .fromChild (.report text) => inferInstanceAs (Decidable (3 ≤ s.sent.length →
      (s.sent ++ written ((Msg.report text).bytes pid) i).length < 7))
  | .write .fromChild (.byte _) | .write .fromChild .pid | .write .toChild _ | .fork _ | .host _
  | .read _ | .readToEnd | .exec | .kill _ | .waitFor _ | .exit => .isTrue trivial

section Order

variable {net : Bool} {pid : UInt32} {s s' : Mem}

/-! ### Permissions -/

/-- What holds at every point of a boot. -/
structure Ordered (net : Bool) (pid : UInt32) (s : Mem) : Prop where
  /-- Seven bytes that begin with the three tags are the whole report. -/
  sent : tags <+: s.sent → 7 ≤ s.sent.length → report pid <+: s.sent
  go : '3'.toUInt8 ∈ s.go → Ready net pid s
  exec : s.execed = true → '3'.toUInt8 ∈ s.go

/-- The part of its report that the intermediate has written when it writes `m`. -/
def Before (m : Msg) (sent : List UInt8) : Prop :=
  match m with
  | .byte c => sent ++ [c.toUInt8] <+: tags
  | .pid => sent = tags
  | .report _ => True

/-- What each process may do. -/
def May (net : Bool) (pid : UInt32) (p : Pid) (e : Act) (s : Mem) : Prop :=
  match e with
  | .write .toChild m => p = 0 ∧ ('3'.toUInt8 ∈ m.bytes pid → Ready net pid s)
  | .write .fromChild m => p = 1 ∧ Before m s.sent
  | .read .fromChild | .readToEnd => p = 0
  | .host h => h ∈ required net → p = 0 ∧ '3'.toUInt8 ∉ s.go
  | .exec => '3'.toUInt8 ∈ s.go
  | _ => True

theorem written_eq (bytes : List UInt8) (i : Fate) :
    written bytes i = bytes ∨ (written bytes i).length ≤ bytes.length - 1 := by
  unfold written
  split
  · right
    rw [List.length_take, List.length_dropLast]
    omega
  · exact .inl rfl

theorem written_initial (bytes : List UInt8) (i : Fate) : written bytes i <+: bytes := by
  unfold written
  split
  · exact (List.take_prefix _ _).trans (List.dropLast_prefix bytes)
  · exact List.prefix_rfl

theorem not_tags_prefix {sent rest : List UInt8} (h : sent.length < 3) :
    ¬ tags <+: sent ++ 'E'.toUInt8 :: rest := by
  intro htags
  have hE : sent ++ ['E'.toUInt8] <+: sent ++ 'E'.toUInt8 :: rest := by simp
  have hle : (sent ++ ['E'.toUInt8]).length ≤ tags.length := by
    rwa [List.length_append, List.length_singleton]
  have hmem := (List.prefix_of_prefix_length_le hE htags hle).subset
    (List.mem_append_right sent (.head _))
  revert hmem
  decide

variable {i : Fate} {x : HostStep} {me : Pid} {α : Type} {l : List UInt8}

theorem sent_append {m : Msg} (h : Before m s.sent) (hok : NoFalsePid pid (.write .fromChild m) s i)
    (hs : tags <+: s.sent ++ written (m.bytes pid) i)
    (hlen : 7 ≤ (s.sent ++ written (m.bytes pid) i).length) :
    report pid <+: s.sent ++ written (m.bytes pid) i := by
  have hw := written_initial (m.bytes pid) i
  cases m with
  | byte c =>
    have hle : s.sent.length + 1 ≤ 3 := by simpa [tags] using h.length_le
    have hone : (written ((Msg.byte c).bytes pid) i).length ≤ 1 := hw.length_le
    rw [List.length_append] at hlen
    omega
  | pid =>
    have hsent : s.sent = tags := h
    rcases written_eq (Msg.pid.bytes pid) i with hall | hless
    · rw [hall, hsent]
      exact List.prefix_rfl
    · have hthree : s.sent.length = 3 := by rw [hsent]; rfl
      have hfour : (Msg.pid.bytes pid).length = 4 := rfl
      rw [List.length_append] at hlen
      omega
  | report text =>
    exfalso
    by_cases hthree : 3 ≤ s.sent.length
    · have := hok hthree
      omega
    · cases hcase : written ((Msg.report text).bytes pid) i with
      | nil =>
        rw [hcase, List.append_nil] at hlen
        omega
      | cons b rest =>
        rw [hcase] at hw hs
        rw [(List.cons_prefix_cons.mp hw).1] at hs
        exact not_tags_prefix (by omega) hs

theorem Ready.mono (h : Ready net pid s) (hdone : ∀ x ∈ s.done, x ∈ s'.done)
    (hfailed : ∀ x ∈ required net, x ∈ s'.failed → x ∈ s.failed) (hsent : s.sent <+: s'.sent) :
    Ready net pid s' where
  done x hx := hdone x (h.done x hx)
  failed x hx hf := h.failed x hx (hfailed x hx hf)
  reported := h.reported.trans hsent

/-- What one action does. -/
structure Effect (pid : UInt32) (s : Mem) (i : Fate) (e : Act) (s' : Mem) : Prop where
  go : s'.go = s.go ∨ ∃ m, e = .write .toChild m ∧ s'.go = s.go ++ written (m.bytes pid) i
  sent : s'.sent = s.sent ∨
    ∃ m, e = .write .fromChild m ∧ s'.sent = s.sent ++ written (m.bytes pid) i
  read : s'.sentRead = s.sentRead ∨ e = .read .fromChild ∨ e = .readToEnd
  done : ∀ x ∈ s.done, x ∈ s'.done
  failed : ∀ x ∈ s'.failed, x ∈ s.failed ∨ e = .host x
  exec : s'.execed = true → s.execed = true ∨ e = .exec

theorem effect_apply (p : Pid) (e : Act) (s : Mem) (i : Fate) :
    Effect pid s i e ((machine pid).apply e p s i) := by
  have hsame : Effect pid s i e s :=
    ⟨.inl rfl, .inl rfl, .inl rfl, fun _ hx => hx, fun _ hx => .inl hx, .inl⟩
  cases e with
  | fork child =>
    simp only [machine]
    split
    · exact hsame
    · exact { hsame with }
  | host h =>
    simp only [machine]
    split
    · refine { hsame with failed := fun x hx => ?_ }
      rcases hx with _ | ⟨_, hx⟩
      · exact .inr rfl
      · exact .inl hx
    · exact { hsame with done := fun _ hx => .tail _ hx }
  | write pipe m =>
    cases pipe with
    | toChild => exact { hsame with go := .inr ⟨m, rfl, rfl⟩ }
    | fromChild => exact { hsame with sent := .inr ⟨m, rfl, rfl⟩ }
  | read pipe =>
    simp only [machine]
    split
    · exact hsame
    · cases pipe with
      | toChild => exact { hsame with }
      | fromChild => exact { hsame with read := .inr (.inl rfl) }
  | readToEnd => exact { hsame with read := .inr (.inr rfl) }
  | exec =>
    simp only [machine]
    split
    · exact hsame
    · exact { hsame with exec := fun _ => .inr rfl }
  | waitFor q => exact hsame
  | kill q | exit => exact { hsame with }

/-- What one step does for those who look on. -/
structure Grows (s s' : Mem) : Prop where
  go : s.go <+: s'.go
  sent : s.sent <+: s'.sent
  done : ∀ x ∈ s.done, x ∈ s'.done

theorem Effect.grows {e : Act} (h : Effect pid s i e s') : Grows s s' := by
  refine ⟨?_, ?_, h.done⟩
  · rcases h.go with hgo | ⟨m, -, hgo⟩ <;> simp [hgo]
  · rcases h.sent with hsent | ⟨m, -, hsent⟩ <;> simp [hsent]

theorem ordered_apply {p : Pid} {e : Act} (h : Ordered net pid s) (hmay : May net pid p e s)
    (hok : NoFalsePid pid e s i) : Ordered net pid ((machine pid).apply e p s i) := by
  have heffect := @effect_apply pid p e s i
  generalize (machine pid).apply e p s i = s' at heffect ⊢
  refine ⟨fun hs hlen => ?_, fun hmem => ?_, fun hx => heffect.grows.go.subset ?_⟩
  · rcases heffect.sent with hsent | ⟨m, rfl, hsent⟩
    · rw [hsent] at hs hlen ⊢
      exact h.sent hs hlen
    · rw [hsent] at hs hlen ⊢
      exact sent_append hmay.2 hok hs hlen
  · have hready : Ready net pid s := by
      rcases heffect.go with hgo | ⟨m, rfl, hgo⟩
      · exact h.go (hgo ▸ hmem)
      · rw [hgo] at hmem
        rcases List.mem_append.mp hmem with hmem | hmem
        · exact h.go hmem
        · exact hmay.2 ((written_initial _ i).subset hmem)
    refine hready.mono heffect.done (fun x hx hf => ?_) heffect.grows.sent
    rcases heffect.failed x hf with hf | rfl
    · exact hf
    · rcases heffect.go with hgo | ⟨m, he, -⟩
      · exact absurd (hgo ▸ hmem) (hmay hx).2
      · cases he
  · rcases heffect.exec hx with hx | rfl
    · exact h.exec hx
    · exact hmay

def discipline (net : Bool) (pid : UInt32) : Discipline (machine pid) where
  inv := Ordered net pid
  may := May net pid
  ok _ e s i := NoFalsePid pid e s i
  keeps hinv _ hmay hok := ordered_apply hinv hmay hok

/-! ### What the others leave alone -/

/-- The supervisor is the only one that writes to the child, reads from it, and takes the
steps that `/sbin/init` has to wait for. -/
theorem other_supervisor (h : (discipline net pid).Other 0 s s') :
    s'.sentRead = s.sentRead ∧ s'.go = s.go ∧ ∀ x ∈ required net, x ∈ s'.failed → x ∈ s.failed := by
  obtain ⟨p, e, i, hne, -, -, hmay, -⟩ := h
  have heffect := @effect_apply pid p e s i
  refine ⟨?_, ?_, fun x hx hf => ?_⟩
  · rcases heffect.read with hread | rfl | rfl
    · exact hread
    · exact absurd hmay hne
    · exact absurd hmay hne
  · rcases heffect.go with hgo | ⟨m, rfl, -⟩
    · exact hgo
    · exact absurd hmay.1 hne
  · rcases heffect.failed x hf with hf | rfl
    · exact hf
    · exact absurd (hmay hx).1 hne

theorem sent_apply {p : Pid} {e : Act} (h : ∀ m, e ≠ .write .fromChild m) :
    ((machine pid).apply e p s i).sent = s.sent :=
  (effect_apply p e s i).sent.resolve_right fun ⟨m, he, _⟩ => h m he

theorem other_intermediate (h : (discipline net pid).Other 1 s s') : s'.sent = s.sent := by
  obtain ⟨p, e, i, hne, -, -, hmay, -⟩ := h
  refine sent_apply fun m he => ?_
  subst he
  exact hne hmay.1

theorem other_grows (h : (discipline net pid).Other me s s') : Grows s s' := by
  obtain ⟨p, e, i, -, -, -, -, -⟩ := h
  exact (effect_apply p e s i).grows

variable (net pid) in
/-- Hoare triples of the three processes. -/
abbrev Keeps (me : Pid) (P : Mem → Prop) (p : Prog Mem Fate Act α) (Q : α → Mem → Prop) : Prop :=
  Triple (discipline net pid) (May net pid) me P p Q

variable (net pid) in
/-- Nothing is said about a call that fails. -/
abbrev Reaches (me : Pid) (P : Mem → Prop) (x : Call α) (Q : α → Mem → Prop) : Prop :=
  Keeps net pid me P x (ends Q fun _ _ => True)

variable (net pid) in
/-- The process does what it may do. -/
abbrev Obeys (me : Pid) (P : Mem → Prop) (p : Prog Mem Fate Act α) : Prop :=
  Keeps net pid me P p fun _ _ => True

variable {P : Mem → Prop}

theorem andThen {β : Type} {R : α → Mem → Prop} {x : Call α} {f : α → Call β}
    (hx : Reaches net pid me P x R) (hf : ∀ a, Obeys net pid me (R a) (f a)) :
    Obeys net pid me P (x >>= f : Call β) :=
  .procBind hx hf

theorem reaches_call {Q : Mem → Prop} {e : Act} [Stable (discipline net pid) me P]
    [Stable (discipline net pid) me Q] (h : ∀ s i, Ordered net pid s → P s →
      May net pid me e s ∧ (i.error = none → Q ((machine pid).apply e me s i))) :
    Reaches net pid me P (call e) fun _ => Q := by
  refine .perform fun s i hinv hs _ _ => ?_
  refine ⟨(h s i hinv hs).1, ?_⟩
  cases he : i.error with
  | some text => trivial
  | none => exact (h s i hinv hs).2 he

theorem reaches_of_keeps {x : Call α} (h : Keeps net pid me P x fun _ => P) :
    Reaches net pid me P x fun _ => P := by
  refine h.post fun r s _ hs => ?_
  cases r with
  | ok a => exact hs
  | error e => trivial

/-! ### The supervisor -/

/-- The supervisor has read `n` bytes, which begin with `ts`, and taken the steps `hs`; none
that is required has failed. -/
structure Progress (net : Bool) (n : Nat) (ts : List UInt8) (hs : List HostStep) (s : Mem) :
    Prop where
  read : s.sentRead = n
  sent : ts <+: s.sent
  enough : n ≤ s.sent.length
  go : '3'.toUInt8 ∉ s.go
  failed : ∀ x ∈ required net, x ∉ s.failed
  done : ∀ x ∈ hs, x ∈ s.done

variable {n : Nat} {ts : List UInt8} {hs : List HostStep}

instance stable_progress : Stable (discipline net pid) 0 (Progress net n ts hs) where
  keep s s' h hother := by
    obtain ⟨hread, hgo, hfailed⟩ := other_supervisor hother
    have hgrows := other_grows hother
    exact
      { read := hread.trans h.read
        sent := h.sent.trans hgrows.sent
        enough := h.enough.trans hgrows.sent.length_le
        go := hgo ▸ h.go
        failed := fun x hx hf => h.failed x hx (hfailed x hx hf)
        done := fun x hx => hgrows.done x (h.done x hx) }

theorem progress_host (x : HostStep) :
    Reaches net pid 0 (Progress net n ts hs) (host x) fun _ => Progress net n ts (x :: hs) := by
  refine .mapErr ?_
  refine reaches_call fun s i _ h => ?_
  refine ⟨fun _ => ⟨rfl, h.go⟩, fun he => ?_⟩
  simp only [machine, he]
  exact
    { h with
      done := fun y hy => by
        rcases hy with _ | ⟨_, hy⟩
        · exact .head _
        · exact .tail _ (h.done y hy) }

theorem progress_go {c : Char} (hc : '3'.toUInt8 ≠ c.toUInt8) :
    Reaches net pid 0 (Progress net n ts hs) (call (.write .toChild (.byte c)))
      fun _ => Progress net n ts hs := by
  refine reaches_call fun s i _ h => ?_
  have hbyte : '3'.toUInt8 ∉ (Msg.byte c).bytes pid := by simpa [Msg.bytes] using hc
  refine ⟨⟨rfl, fun hmem => absurd hmem hbyte⟩, fun _ => { h with go := fun hmem => ?_ }⟩
  rcases List.mem_append.mp hmem with hmem | hmem
  · exact h.go hmem
  · exact hbyte ((written_initial _ i).subset hmem)

/-- What the supervisor knows of a byte it has read, if there was one. -/
def Got (net : Bool) (n : Nat) (ts : List UInt8) (hs : List HostStep) (r : Option UInt8)
    (s : Mem) : Prop :=
  ∀ b, r = some b → Progress net (n + 1) ts hs s ∧ s.sent[n]? = some b

instance stable_got {r : Option UInt8} : Stable (discipline net pid) 0 (Got net n ts hs r) where
  keep s s' h hother b hb := by
    obtain ⟨hprogress, hbyte⟩ := h b hb
    refine ⟨stable_progress.keep s s' hprogress hother, ?_⟩
    obtain ⟨more, hmore⟩ := (other_grows hother).sent
    have hlt : n < s.sent.length := (List.getElem?_eq_some_iff.mp hbyte).1
    rw [← hmore, List.getElem?_append_left hlt, hbyte]

theorem progress_readByte :
    Reaches net pid 0 (Progress net n ts hs) (readByte .fromChild) (Got net n ts hs) := by
  refine .perform fun s i _ h _ _ => ?_
  refine ⟨rfl, ?_⟩
  cases he : i.error with
  | some text => trivial
  | none =>
    intro b hb
    have hbyte : s.sent[n]? = some b := by
      rwa [← h.read]
    have hlt : n < s.sent.length := (List.getElem?_eq_some_iff.mp hbyte).1
    simp only [machine, he, hb]
    exact ⟨{ h with read := congrArg (· + 1) h.read, enough := hlt }, hbyte⟩

theorem append_prefix {b : UInt8} (h : ts <+: l) (hb : l[ts.length]? = some b) :
    ts ++ [b] <+: l := by
  obtain ⟨rest, rfl⟩ := h
  rw [List.getElem?_append_right le_rfl, Nat.sub_self] at hb
  cases rest with
  | nil => cases hb
  | cons c rest =>
    cases hb
    exact ⟨rest, by simp⟩

theorem progress_tag {want : Char} (hts : ts.length = n) :
    Reaches net pid 0 (Progress net n ts hs) (expectTag want)
      fun _ => Progress net (n + 1) (ts ++ [want.toUInt8]) hs := by
  refine .procBind progress_readByte fun r => ?_
  cases r with
  | none => exact .ret fun _ _ _ => trivial
  | some tag =>
    dsimp only
    split
    · refine .procBind (R := fun _ _ => True)
        (Triple.perform fun _ _ _ _ _ _ => ⟨rfl, trivial⟩) fun _ => ?_
      exact .ret fun _ _ _ => trivial
    · split
      · exact .ret fun _ _ _ => trivial
      · rename_i htag
        refine .ret fun s _ h => ?_
        obtain ⟨hprogress, hbyte⟩ := h tag rfl
        rw [not_not.mp htag, ← hts] at hbyte
        exact { hprogress with sent := append_prefix hprogress.sent hbyte }

theorem progress_readExact : ∀ k n : Nat,
    Reaches net pid 0 (Progress net n ts hs) (readExact k) fun _ => Progress net (n + k) ts hs
  | 0, _ => .ret fun _ _ h => h
  | k + 1, n => by
    refine .procBind progress_readByte fun r => ?_
    cases r with
    | none => exact .ret fun _ _ _ => trivial
    | some b =>
      have hrest := (progress_readExact k (n + 1)).pre fun s
        (h : Got net n ts hs (some b) s) => (h b rfl).1
      refine .procBind hrest fun _ => ?_
      refine .ret fun s _ h => ?_
      have hn : n + (k + 1) = n + 1 + k := by omega
      rwa [hn]

theorem progress_release (hhs : ∀ x ∈ required net, x ∈ hs) :
    Obeys net pid 0 (Progress net 7 tags hs) (call (.write .toChild (.byte '3'))) := by
  refine .perform fun s i hinv h _ _ => ?_
  refine ⟨⟨rfl, fun _ => ?_⟩, trivial⟩
  exact ⟨fun x hx => h.done x (hhs x hx), h.failed, hinv.sent h.sent h.enough⟩

theorem safe_launched : Obeys net pid 0 (Progress net 0 [] []) (launched net) := by
  refine andThen (progress_tag rfl) fun _ => ?_
  refine andThen (progress_host .uidMap) fun _ => ?_
  refine andThen (progress_host .gidMap) fun _ => ?_
  refine andThen (progress_host .openUserns) fun _ => ?_
  refine andThen (progress_host .idmapImage) fun _ => ?_
  refine andThen (progress_host .idmapDisk) fun _ => ?_
  refine andThen (progress_host .moveToCt) fun _ => ?_
  refine andThen (progress_go (by decide)) fun _ => ?_
  refine andThen (progress_tag rfl) fun _ => ?_
  have hattach : ∀ {ts hs}, Reaches net pid 0 (Progress net 2 ts hs) (attachNetwork net)
      fun _ => Progress net 2 ts ((if net then [.attach] else []) ++ hs) := by
    intro ts hs
    cases net with
    | true => exact progress_host .attach
    | false => exact .ret fun _ _ h => h
  refine andThen hattach fun _ => ?_
  refine andThen (progress_go (by decide)) fun _ => ?_
  refine andThen (progress_tag rfl) fun _ => ?_
  refine andThen (progress_readExact 4 3) fun _ => ?_
  refine andThen (progress_host .moveToSupervisor) fun _ => ?_
  refine .seq (R := fun _ => True) (progress_release ?_) (fun _ _ _ _ => trivial)
    fun _ => Dutiful.ret
  cases net <;> decide

theorem safe_free {p : Prog Mem Fate Act α} (h : p.Uses fun e => ∀ s, May net pid me e s) :
    Obeys net pid me (fun _ => True) p :=
  .of_uses (h.mono fun _ he s _ _ _ _ _ => ⟨he s, trivial⟩)

theorem uses_host {φ : Act → Prop} (h : φ (.host x)) : Prog.Uses φ (host x) :=
  uses_mapErr (.perform h)

theorem notMem_required (h : x ∉ required true) : x ∉ required net := by
  cases net with
  | true => exact h
  | false =>
    intro hx
    apply h
    simp only [required, List.mem_append, List.mem_cons] at hx ⊢
    tauto

theorem may_host (h : x ∉ required true) (s : Mem) : May net pid me (.host x) s :=
  fun hx => absurd hx (notMem_required h)

theorem safe_bootOnce : Obeys net pid 0 (Progress net 0 [] []) (bootOnce net) := by
  have hfork : Keeps net pid 0 (Progress net 0 [] []) (call (.fork 1))
      fun _ => Progress net 0 [] [] := by
    refine .perform fun s i _ h _ _ => ?_
    refine ⟨trivial, ?_⟩
    simp only [machine]
    split
    · exact h
    · exact { h with }
  refine .seq hfork (fun _ _ _ _ => trivial) fun _ => ?_
  refine .attemptBind safe_launched fun r => ?_
  cases r with
  | ok init => exact safe_free (uses_host (may_host (by decide)))
  | error e =>
    refine safe_free (uses_bind (.perform fun _ => trivial) fun _ => ?_)
    exact uses_bind (.perform fun _ => trivial) fun _ => trivial

theorem safe_supervisor : Obeys net pid 0 (Progress net 0 [] []) (supervisor net) := by
  refine .bind safe_bootOnce fun r => safe_free ?_
  cases r with
  | ok _ => trivial
  | error e => exact .perform fun _ => trivial

/-! ### The child side -/

instance stable_sent : Stable (discipline net pid) 1 (fun s => s.sent = l) :=
  ⟨fun _ _ h hother => (other_intermediate hother).trans h⟩

theorem sent_quiet {p : Call α}
    (h : Prog.Uses (fun e => (∀ s, May net pid 1 e s) ∧ ∀ m, e ≠ .write .fromChild m) p) :
    Reaches net pid 1 (fun s => s.sent = l) p fun _ s => s.sent = l := by
  refine reaches_of_keeps (Triple.of_uses (h.mono ?_))
  intro e he s i _ hs _ _
  exact ⟨he.1 s, (sent_apply he.2).trans hs⟩

theorem sent_host (x : HostStep) (h : x ∉ required true) :
    Reaches net pid 1 (fun s => s.sent = l) (host x) fun _ s => s.sent = l :=
  sent_quiet (uses_host ⟨may_host h, by simp⟩)

theorem sent_expectGo (want : Char) :
    Reaches net pid 1 (fun s => s.sent = l) (expectGo want) fun _ s => s.sent = l := by
  refine sent_quiet (uses_bind (uses_mapErr (.perform ⟨fun _ => trivial, by simp⟩)) ?_)
  intro r
  cases r with
  | none => trivial
  | some b =>
    dsimp only
    split <;> trivial

theorem sent_write {m : Msg} (h : Before m l) :
    Reaches net pid 1 (fun s => s.sent = l) (call (.write .fromChild m))
      fun _ s => s.sent = l ++ m.bytes pid := by
  refine reaches_call fun s i _ hs => ?_
  exact ⟨⟨rfl, hs ▸ h⟩, fun he => by simp [machine, Mem.append, written, he, hs]⟩

theorem safe_intermediateSteps : Obeys net pid 1 (fun s => s.sent = []) intermediateSteps := by
  refine andThen (sent_host .unshareUser (by decide)) fun _ => ?_
  refine andThen (sent_write (m := .byte 'U') ⟨_, rfl⟩) fun _ => ?_
  refine andThen (sent_expectGo '1') fun _ => ?_
  refine andThen (sent_host .setresgid (by decide)) fun _ => ?_
  refine andThen (sent_host .setresuid (by decide)) fun _ => ?_
  refine andThen (sent_host .setgroups (by decide)) fun _ => ?_
  refine andThen (sent_host .unshareNamespaces (by decide)) fun _ => ?_
  refine andThen (sent_write (m := .byte 'N') ⟨_, rfl⟩) fun _ => ?_
  refine andThen (sent_expectGo '2') fun _ => ?_
  refine andThen (sent_host .makePrivate (by decide)) fun _ => ?_
  refine andThen (sent_host .mountOverlay (by decide)) fun _ => ?_
  refine andThen (sent_host .setupDev (by decide)) fun _ => ?_
  refine andThen (sent_host .sethostname (by decide)) fun _ => ?_
  refine andThen (sent_quiet (p := call (.fork 2))
    (.perform ⟨fun _ => trivial, by simp⟩)) fun _ => ?_
  refine andThen (sent_write (m := .byte 'P') ⟨_, rfl⟩) fun _ => ?_
  refine andThen (sent_write (m := .pid) rfl) fun _ => ?_
  have hwait : Obeys net pid 1 (fun _ => True) (Proc.run (.waitFor 2) : Call Unit) :=
    safe_free (.perform fun _ => trivial)
  exact hwait.pre fun _ _ => trivial

theorem safe_intermediate : Obeys net pid 1 (fun s => s.sent = []) intermediate := by
  refine .bind safe_intermediateSteps fun r => safe_free ?_
  cases r with
  | ok _ => exact .perform fun _ => trivial
  | error e => exact .bind (.perform fun _ => ⟨rfl, trivial⟩) fun _ => .perform fun _ => trivial

instance stable_go {b : UInt8} : Stable (discipline net pid) me (fun s => b ∈ s.go) :=
  ⟨fun _ _ h hother => (other_grows hother).go.subset h⟩

theorem go_expectGo (want : Char) :
    Reaches net pid me (fun _ => True) (expectGo want) fun _ s => want.toUInt8 ∈ s.go := by
  refine .procBind (R := fun r s => ∀ b, r = some b → b ∈ s.go)
    (Triple.mapErr ?_) fun r => ?_
  · refine .perform fun s i _ _ _ _ => ?_
    refine ⟨trivial, ?_⟩
    cases he : i.error with
    | some text => trivial
    | none =>
      intro b hb
      exact (effect_apply me _ s i).grows.go.subset (List.mem_of_getElem? hb)
  · cases r with
    | none => exact .ret fun _ _ _ => trivial
    | some b =>
      dsimp only
      split
      · exact .ret fun _ _ _ => trivial
      · rename_i hb
        refine .ret fun s _ h => ?_
        rw [← not_not.mp hb]
        exact h b rfl

theorem go_host (hkeep : ∀ s s', P s → s.go <+: s'.go → P s') (x : HostStep)
    (h : x ∉ required true) : Reaches net pid 2 P (host x) fun _ => P := by
  have hP : Stable (discipline net pid) 2 P :=
    ⟨fun s s' hs hother => hkeep s s' hs (other_grows hother).go⟩
  refine reaches_of_keeps (Triple.of_uses (uses_host fun s i _ hs _ _ => ?_))
  exact ⟨may_host h s, hkeep _ _ hs (effect_apply 2 _ s i).grows.go⟩

theorem safe_pid1Steps : Obeys net pid 2 (fun _ => True) pid1Steps := by
  have hbefore : ∀ s s' : Mem, True → s.go <+: s'.go → True := fun _ _ _ _ => trivial
  have hreleased : ∀ s s' : Mem, '3'.toUInt8 ∈ s.go → s.go <+: s'.go → '3'.toUInt8 ∈ s'.go :=
    fun _ _ h hgo => hgo.subset h
  refine andThen (go_host hbefore .mountProc (by decide)) fun _ => ?_
  refine andThen (go_host hbefore .mountSys (by decide)) fun _ => ?_
  refine andThen (go_host hbefore .mountCgroup (by decide)) fun _ => ?_
  refine andThen (go_host hbefore .maskHostInfo (by decide)) fun _ => ?_
  refine andThen (go_host hbefore .chdirRootfs (by decide)) fun _ => ?_
  refine andThen (go_host hbefore .pivotRoot (by decide)) fun _ => ?_
  refine andThen (go_host hbefore .chdirRoot (by decide)) fun _ => ?_
  refine andThen (go_expectGo '3') fun _ => ?_
  refine andThen (go_host hreleased .setsid (by decide)) fun _ => ?_
  refine andThen (go_host hreleased .dupConsole (by decide)) fun _ => ?_
  refine andThen (go_host hreleased .unblockSignals (by decide)) fun _ => ?_
  refine andThen (go_host hreleased .seccomp (by decide)) fun _ => ?_
  refine .post (Triple.mapErr (Q := fun _ _ => True) (E := fun _ => True) ?_) fun _ _ _ _ => trivial
  refine .perform fun s i _ hgo _ _ => ?_
  refine ⟨hgo, ?_⟩
  cases i.error <;> trivial

theorem safe_pid1 : Obeys net pid 2 (fun _ => True) pid1 := by
  refine .bind safe_pid1Steps fun r => safe_free ?_
  cases r with
  | ok _ => trivial
  | error e => exact .perform fun _ => trivial

theorem uses_killer (victims : List Pid) :
    (killer victims).Uses fun e => ∀ s, May net pid 3 e s := by
  induction victims with
  | nil => trivial
  | cons p victims ih => exact .bind (.perform fun _ => trivial) fun _ => ih

theorem safe_start (net : Bool) (pid : UInt32) (victims : List Pid) :
    (start net victims).Safe (discipline net pid) (fun _ _ _ => True) := by
  constructor
  · exact ⟨fun h => by simp [start, tags] at h, fun h => by simp [start] at h,
      fun h => by simp [start] at h⟩
  · intro p
    match p with
    | 0 =>
      refine safe_supervisor _ ⟨rfl, List.nil_prefix, Nat.zero_le _, ?_, ?_, ?_⟩ <;> simp [start]
    | 1 => exact safe_intermediate _ rfl
    | 2 => exact safe_pid1 _ trivial
    | 3 => exact safe_free (uses_killer victims) _ trivial
    | _ + 4 => exact fun _ _ _ => trivial

end Order

/-- `/sbin/init` is executed only when every step that has to precede it has succeeded, none
of them has failed, and the pid is reported. -/
theorem exec_after_handshake {net : Bool} {pid : UInt32} {victims : List Pid}
    {P : Pool Mem Fate Act}
    (hrun : Pool.Run (machine pid) (fun _ => NoFalsePid pid) (start net victims) P)
    (hexec : P.mem.execed = true) : Ready net pid P.mem := by
  have hsafe := Pool.run_safe (safe_start net pid victims) hrun
  exact hsafe.inv.go (hsafe.inv.exec hexec)

/-- `n` steps of one process, none of which fails. -/
def steps (p : Pid) (n : Nat) : List (Pid × Fate) := List.replicate n (p, {})

/-- A boot up to the release `2`. -/
def untilAttached : List (Pid × Fate) :=
  steps 0 1 ++ steps 1 2 ++ steps 0 8 ++ steps 1 6 ++ steps 0 3

theorem exec_after_handshake_booted :
    ∃ P, Pool.Run (machine 4711) (fun _ => NoFalsePid 4711) (start true []) P ∧
      P.mem.execed = true ∧ Ready true 4711 P.mem :=
  Pool.exists_run_imp (p := fun P => P.mem.execed = true)
    (untilAttached ++ steps 1 8 ++ steps 0 7 ++ steps 2 13) (by decide +kernel) fun _ hrun hexec =>
    ⟨hexec, exec_after_handshake hrun hexec⟩

/-- The write of the pid fails after the tag `P` was read: the supervisor takes the beginning
of the error message for the pid and releases pid 1. -/
theorem exec_without_pid :
    ∃ P, Pool.Run (machine 4711) anyStep (start true []) P ∧
      P.mem.execed = true ∧ ¬ Ready true 4711 P.mem := by
  refine Pool.exists_run_imp (p := fun P => P.mem.execed = true ∧ ¬report 4711 <+: P.mem.sent)
    (untilAttached ++ steps 1 7 ++ steps 0 1 ++
      [(1, { error := some "Cannot allocate memory (os error 12)" })] ++ steps 1 1 ++
      steps 0 6 ++ steps 2 13) (by decide +kernel) fun P _ ⟨hexec, hsent⟩ => ⟨hexec, fun h => ?_⟩
  exact hsent h.reported

end RunmanAgent.Launch
