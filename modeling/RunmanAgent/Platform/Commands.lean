import RunmanAgent.Data.AList

/-!
# Execution of platform commands (`src/platform/commands.rs`)

The platform may replay a `command_id`. `CommandRunner` keeps a cache of the commands it
has seen: a replay of a running command is ignored, a replay of a finished one gets the
cached reply. The cache is pruned when it is large.

* `Input` lists what happens to a runner: commands arrive, executions end, time passes,
  the link to the platform comes and goes. An execution may end with any reply.
* A reply counts as sent when a task hands it to `Link::send` and there is a link that
  takes it. No task waits between looking at the cache and handing over the reply.
* `Lawful` says which histories of one id are allowed. It names neither the cache nor
  the tasks; `Tracks` connects it with them.
-/

namespace RunmanAgent.Platform

/-- In nanoseconds, as every `Instant` below. -/
def RESULT_TTL : Nat := 3600 * 10 ^ 9

def CACHE_SOFT_LIMIT : Nat := 1024

variable {Up : Type}

inductive Entry (Up : Type) where
  | running
  | done (reply : Up) (stamp : Nat)

inductive Event (Up : Type) where
  | submitted (id : String)
  | started (id : String) (t : Nat)
  | finished (id : String) (reply : Up) (t : Nat)
  | sent (id : String) (reply : Up)

abbrev Cache (Up : Type) := AList fun _ : String => Entry Up

structure CommandRunner (Up : Type) where
  cache : Cache Up := ∅
  /-- Ids of the executions in progress. -/
  tasks : List String := []
  linked : Bool := false
  now : Nat := 0
  /-- Newest event first. -/
  log : List (Event Up) := []

def prune (now : Nat) (cache : Cache Up) : Cache Up :=
  if CACHE_SOFT_LIMIT ≤ cache.keys.length then
    cache.retain fun _ e => match e with
      | .running => true
      | .done _ stamp => now - stamp < RESULT_TTL
  else cache

inductive Input (Up : Type) where
  /-- A command arrives; `takes` says whether the link takes a reply. -/
  | submit (commandId : String) (takes : Bool)
  /-- An execution ends. -/
  | complete (commandId : String) (reply : Up) (takes : Bool)
  | tick (d : Nat)
  | connect
  | disconnect

namespace CommandRunner

/-- `Link::send`. -/
def send (r : CommandRunner Up) (id : String) (reply : Up) (takes : Bool) : CommandRunner Up :=
  if r.linked && takes then { r with log := .sent id reply :: r.log } else r

/-- `tokio::spawn` of an execution. -/
def spawn (r : CommandRunner Up) (id : String) : CommandRunner Up :=
  { r with tasks := id :: r.tasks, log := .started id r.now :: r.log }

def submit (r : CommandRunner Up) (commandId : String) (takes : Bool) : CommandRunner Up :=
  let r := { r with log := .submitted commandId :: r.log }
  if commandId = "" then r.spawn commandId
  else
    match r.cache.lookup commandId with
    | some .running => r
    | some (.done reply _) => r.send commandId reply takes
    | none =>
      { r with cache := (prune r.now r.cache).insert commandId .running }.spawn commandId

/-- The end of the task that `submit` spawns. -/
def complete (r : CommandRunner Up) (commandId : String) (reply : Up) (takes : Bool) :
    CommandRunner Up :=
  if commandId ∈ r.tasks then
    let r := { r with
      tasks := r.tasks.erase commandId
      log := .finished commandId reply r.now :: r.log
      cache := if commandId = "" then r.cache else r.cache.insert commandId (.done reply r.now) }
    r.send commandId reply takes
  else r

def step (r : CommandRunner Up) : Input Up → CommandRunner Up
  | .submit id takes => r.submit id takes
  | .complete id reply takes => r.complete id reply takes
  | .tick d => { r with now := r.now + d }
  | .connect => { r with linked := true }
  | .disconnect => { r with linked := false }

/-- A runner after a sequence of inputs. -/
def run (inputs : List (Input Up)) : CommandRunner Up := inputs.foldl step {}

end CommandRunner

/-! ## Lawful histories -/

/-- What the history of an id amounts to. -/
inductive Status (Up : Type) where
  | idle
  | running (start : Nat)
  | done (reply : Up) (t : Nat)

/-- The history `l`, newest event first, is allowed for `id` and leads to a status: an
execution starts when none is running and the result of the last one has expired; a
reply is the result of the last execution. -/
inductive Lawful (id : String) : List (Event Up) → Status Up → Prop where
  | nil : Lawful id [] .idle
  | submitted {l st} (i : String) : Lawful id l st → Lawful id (.submitted i :: l) st
  | startedOther {l st i t} : i ≠ id → Lawful id l st → Lawful id (.started i t :: l) st
  | finishedOther {l st i r t} : i ≠ id → Lawful id l st → Lawful id (.finished i r t :: l) st
  | sentOther {l st i r} : i ≠ id → Lawful id l st → Lawful id (.sent i r :: l) st
  | first {l t} : Lawful id l .idle → Lawful id (.started id t :: l) (.running t)
  | again {l r t₀ t} : Lawful id l (.done r t₀) → t₀ + RESULT_TTL ≤ t →
      Lawful id (.started id t :: l) (.running t)
  | finish {l r t₀ t} : Lawful id l (.running t₀) → t₀ ≤ t →
      Lawful id (.finished id r t :: l) (.done r t)
  | reply {l r t} : Lawful id l (.done r t) → Lawful id (.sent id r :: l) (.done r t)

namespace Lawful

variable {id : String} {l l₁ l₂ : List (Event Up)} {st : Status Up} {r : Up} {t t₁ : Nat}

theorem of_append (h : Lawful id (l₂ ++ l₁) st) : ∃ st', Lawful id l₁ st' := by
  induction l₂ generalizing st with
  | nil => exact ⟨st, h⟩
  | cons e l ih =>
    cases h with
    | submitted _ h | startedOther _ h | finishedOther _ h | sentOther _ h | first h | again h _
    | finish h _ | reply h => exact ih h

theorem since_start (h : Lawful id (l₂ ++ .started id t₁ :: l₁) st) :
    st ≠ .idle ∧ ∀ r t, st = .done r t → .finished id r t ∈ l₂ := by
  induction l₂ generalizing st with
  | nil =>
    cases h with
    | startedOther hne _ => exact absurd rfl hne
    | first _ | again _ _ => exact ⟨by simp, by simp⟩
  | cons e l ih =>
    cases h with
    | submitted _ h | startedOther _ h | finishedOther _ h | sentOther _ h | reply h =>
      obtain ⟨hidle, hdone⟩ := ih h
      exact ⟨hidle, fun r t hst => .tail _ (hdone r t hst)⟩
    | first h => exact absurd rfl (ih h).1
    | again _ _ => exact ⟨by simp, by simp⟩
    | finish h _ =>
      refine ⟨by simp, fun r t hst => ?_⟩
      cases hst
      exact .head _

/-- No execution finished later than the status says; a running one started when the
earlier results had expired. -/
theorem finished_le (h : Lawful id l st) (hmem : .finished id r t ∈ l) :
    (∀ t₀, st = .running t₀ → t + RESULT_TTL ≤ t₀) ∧ (∀ r' t', st = .done r' t' → t ≤ t') ∧
      st ≠ .idle := by
  induction h with
  | nil => cases hmem
  | submitted _ _ ih | startedOther _ _ ih | sentOther _ _ ih =>
    exact ih ((List.mem_cons.mp hmem).resolve_left (by simp))
  | finishedOther hne _ ih =>
    refine ih ((List.mem_cons.mp hmem).resolve_left fun he => ?_)
    cases he
    exact hne rfl
  | first _ ih =>
    have := (ih ((List.mem_cons.mp hmem).resolve_left (by simp))).2.2
    exact absurd rfl this
  | again _ hexp ih =>
    have hle := (ih ((List.mem_cons.mp hmem).resolve_left (by simp))).2.1 _ _ rfl
    refine ⟨fun t₀ hst => ?_, by simp, by simp⟩
    cases hst
    omega
  | finish _ hle ih =>
    refine ⟨by simp, fun r' t' hst => ?_, by simp⟩
    cases hst
    rcases List.mem_cons.mp hmem with he | hmem
    · cases he
      exact le_rfl
    · have := (ih hmem).1 _ rfl
      omega
  | reply _ ih => exact ih ((List.mem_cons.mp hmem).resolve_left (by simp))

/-- What stands between the last start of `id` and now. -/
def SinceStart (id : String) (l m : List (Event Up)) (t₀ : Nat) : Prop :=
  ∃ l', l = m ++ .started id t₀ :: l' ∧ ∀ t, .started id t ∉ m

theorem SinceStart.cons {m : List (Event Up)} {t₀ : Nat} (h : SinceStart id l m t₀)
    {e : Event Up} (he : ∀ t, e ≠ .started id t) : SinceStart id (e :: l) (e :: m) t₀ := by
  obtain ⟨l', rfl, hm⟩ := h
  refine ⟨l', rfl, fun t hmem => ?_⟩
  rcases List.mem_cons.mp hmem with heq | hmem
  · exact he t heq.symm
  · exact hm t hmem

theorem sinceStart_started (id : String) (l : List (Event Up)) (t : Nat) :
    SinceStart id (.started id t :: l) [] t :=
  ⟨l, rfl, by simp⟩

/-- Since the last start nothing has finished, or one result has come. -/
structure LastStart (id : String) (l : List (Event Up)) (st : Status Up) : Prop where
  running : ∀ t₀, st = .running t₀ → ∃ m, SinceStart id l m t₀ ∧ ∀ r t, .finished id r t ∉ m
  done : ∀ r t, st = .done r t → ∃ m t₀, SinceStart id l m t₀ ∧ .finished id r t ∈ m ∧
    ∀ r' t', .finished id r' t' ∈ m → r' = r

theorem LastStart.cons (h : LastStart id l st) {e : Event Up} (hs : ∀ t, e ≠ .started id t)
    (hf : ∀ r t, e ≠ .finished id r t) : LastStart id (e :: l) st := by
  have hmem : ∀ {m : List (Event Up)} {r t}, .finished id r t ∈ e :: m →
      .finished id r t ∈ m := by
    intro m r t h
    exact (List.mem_cons.mp h).resolve_left fun he => hf r t he.symm
  refine ⟨fun t₀ hst => ?_, fun r t hst => ?_⟩
  · obtain ⟨m, hm, hno⟩ := h.running t₀ hst
    exact ⟨e :: m, hm.cons hs, fun r t h => hno r t (hmem h)⟩
  · obtain ⟨m, t₀, hm, hin, hall⟩ := h.done r t hst
    exact ⟨e :: m, t₀, hm.cons hs, .tail _ hin, fun r' t' h => hall r' t' (hmem h)⟩

theorem lastStart (h : Lawful id l st) : LastStart id l st := by
  induction h with
  | nil => exact ⟨by simp, by simp⟩
  | submitted _ _ ih => exact ih.cons (by simp) (by simp)
  | startedOther hne _ ih => exact ih.cons (fun t he => by cases he; exact hne rfl) (by simp)
  | finishedOther hne _ ih => exact ih.cons (by simp) fun r t he => by cases he; exact hne rfl
  | sentOther _ _ ih | reply _ ih => exact ih.cons (by simp) (by simp)
  | first _ _ | again _ _ _ =>
    refine ⟨fun t₀ hst => ?_, by simp⟩
    cases hst
    exact ⟨[], sinceStart_started id _ _, by simp⟩
  | @finish l r t₀ t _ _ ih =>
    refine ⟨by simp, fun r' t' hst => ?_⟩
    cases hst
    obtain ⟨m, hm, hno⟩ := ih.running t₀ rfl
    refine ⟨_, t₀, hm.cons (by simp), .head _, fun r' t' h => ?_⟩
    rcases List.mem_cons.mp h with he | h
    · cases he
      rfl
    · exact absurd h (hno r' t')

end Lawful

/-! ## The runner keeps to lawful histories -/

/-- Cache and tasks of a runner, given what the history of `id` amounts to. A result may
be missing from the cache once it has expired. -/
def Agrees (r : CommandRunner Up) (id : String) : Status Up → Prop
  | .idle => r.cache.lookup id = none ∧ r.tasks.count id = 0
  | .running t₀ => r.cache.lookup id = some .running ∧ r.tasks.count id = 1 ∧ t₀ ≤ r.now
  | .done reply t => (r.cache.lookup id = some (.done reply t) ∨
      r.cache.lookup id = none ∧ t + RESULT_TTL ≤ r.now) ∧ r.tasks.count id = 0

/-- The history of `id` is lawful, and cache and tasks agree with it. -/
def Tracks (r : CommandRunner Up) (id : String) : Prop :=
  ∃ st, Lawful id r.log st ∧ Agrees r id st

theorem lookup_prune (now : Nat) (cache : Cache Up) (id : String) :
    (prune now cache).lookup id = cache.lookup id ∨
      ∃ reply t, cache.lookup id = some (.done reply t) ∧ t + RESULT_TTL ≤ now ∧
        (prune now cache).lookup id = none := by
  unfold prune
  split
  · rw [AList.lookup_retain]
    cases h : cache.lookup id with
    | none => exact .inl rfl
    | some e =>
      cases e with
      | running => exact .inl rfl
      | done reply t =>
        by_cases hage : now - t < RESULT_TTL
        · exact .inl (by simp [Option.filter, hage])
        · refine .inr ⟨reply, t, rfl, ?_, by simp [Option.filter, hage]⟩
          have : 0 < RESULT_TTL := by decide
          omega
  · exact .inl rfl

namespace Tracks

variable {r r' : CommandRunner Up} {id : String}

theorem congr (h : Tracks r id) (hcache : r'.cache.lookup id = r.cache.lookup id)
    (htasks : r'.tasks.count id = r.tasks.count id) (hnow : r.now ≤ r'.now)
    (hlog : ∀ st, Lawful id r.log st → Lawful id r'.log st) : Tracks r' id := by
  obtain ⟨st, hl, ha⟩ := h
  refine ⟨st, hlog st hl, ?_⟩
  cases st with
  | idle => exact ⟨hcache.trans ha.1, htasks.trans ha.2⟩
  | running t₀ => exact ⟨hcache.trans ha.1, htasks.trans ha.2.1, le_trans ha.2.2 hnow⟩
  | done reply t =>
    refine ⟨?_, htasks.trans ha.2⟩
    rcases ha.1 with hc | ⟨hc, ht⟩
    · exact .inl (hcache.trans hc)
    · exact .inr ⟨hcache.trans hc, le_trans ht hnow⟩

theorem of_done (h : Tracks r id) {reply : Up} {t : Nat}
    (hc : r.cache.lookup id = some (.done reply t)) :
    Lawful id r.log (.done reply t) ∧ Agrees r id (.done reply t) := by
  obtain ⟨st, hl, ha⟩ := h
  cases st with
  | idle => simp [Agrees, hc] at ha
  | running t₀ => simp [Agrees, hc] at ha
  | done reply' t' =>
    have heq : reply = reply' ∧ t = t' := by simpa [Agrees, hc] using ha.1
    obtain ⟨rfl, rfl⟩ := heq
    exact ⟨hl, ha⟩

theorem prune (h : Tracks r id) :
    Tracks { r with cache := Platform.prune r.now r.cache } id := by
  rcases lookup_prune r.now r.cache id with hc | ⟨reply, t, hc, ht, hc'⟩
  · exact h.congr hc rfl le_rfl fun _ hl => hl
  · obtain ⟨hl, ha⟩ := h.of_done hc
    exact ⟨_, hl, .inr ⟨hc', ht⟩, ha.2⟩

theorem send_other (h : Tracks r id) {i : String} (hne : i ≠ id) (reply : Up) (takes : Bool) :
    Tracks (r.send i reply takes) id := by
  unfold CommandRunner.send
  split
  · exact h.congr rfl rfl le_rfl fun _ hl => .sentOther hne hl
  · exact h

theorem send (h : Tracks r id) {reply : Up} {t : Nat}
    (hc : r.cache.lookup id = some (.done reply t)) (takes : Bool) :
    Tracks (r.send id reply takes) id := by
  unfold CommandRunner.send
  split
  · obtain ⟨hl, ha⟩ := h.of_done hc
    exact ⟨_, .reply hl, ha⟩
  · exact h

theorem spawn_other (h : Tracks r id) {i : String} (hne : i ≠ id) : Tracks (r.spawn i) id :=
  h.congr rfl (List.count_cons_of_ne hne) le_rfl fun _ hl => .startedOther hne hl

theorem spawn (h : Tracks r id) (hc : r.cache.lookup id = none) :
    Tracks ({ r with cache := r.cache.insert id .running }.spawn id) id := by
  obtain ⟨st, hl, ha⟩ := h
  refine ⟨.running r.now, ?_, AList.lookup_insert _, ?_, le_rfl⟩
  · cases st with
    | idle => exact .first hl
    | running t₀ => simp [Agrees, hc] at ha
    | done reply t =>
      have hexp : t + RESULT_TTL ≤ r.now := by simpa [Agrees, hc] using ha.1
      exact .again hl hexp
  · have hcount : r.tasks.count id = 0 := by
      cases st with
      | idle | done _ _ => exact ha.2
      | running t₀ => simp [Agrees, hc] at ha
    simp [CommandRunner.spawn, hcount]

theorem submit (h : Tracks r id) (hid : id ≠ "") (i : String) (takes : Bool) :
    Tracks (r.submit i takes) id := by
  have hlog : Tracks { r with log := .submitted i :: r.log } id :=
    h.congr rfl rfl le_rfl fun _ hl => .submitted i hl
  unfold CommandRunner.submit
  by_cases hi : i = ""
  · rw [if_pos hi]
    exact hlog.spawn_other (fun he => hid (he.symm.trans hi))
  · rw [if_neg hi]
    split
    · exact hlog
    · rename_i reply t hc
      by_cases hne : i = id
      · subst hne
        exact hlog.send hc takes
      · exact hlog.send_other hne reply takes
    · rename_i hc
      by_cases hne : i = id
      · subst hne
        refine hlog.prune.spawn ?_
        rcases lookup_prune r.now r.cache i with hp | ⟨reply, t, hp, -, -⟩
        · exact hp.trans hc
        · simp [hc] at hp
      · refine Tracks.spawn_other ?_ hne
        exact hlog.prune.congr (AList.lookup_insert_ne (Ne.symm hne)) rfl le_rfl fun _ hl => hl

theorem complete (h : Tracks r id) (hid : id ≠ "") (i : String) (reply : Up) (takes : Bool) :
    Tracks (r.complete i reply takes) id := by
  unfold CommandRunner.complete
  split
  · rename_i hmem
    by_cases hne : i = id
    · subst hne
      have hdone : Tracks { r with
          tasks := r.tasks.erase i
          log := .finished i reply r.now :: r.log
          cache := r.cache.insert i (.done reply r.now) } i := by
        obtain ⟨st, hl, ha⟩ := h
        cases st with
        | idle | done _ _ =>
          have := List.count_pos_iff.mpr hmem
          have := ha.2
          omega
        | running t₀ =>
          refine ⟨_, .finish hl ha.2.2, .inl (AList.lookup_insert _), ?_⟩
          have := ha.2.1
          simp only [List.count_erase_self]
          omega
      rw [if_neg hid]
      exact hdone.send (AList.lookup_insert _) takes
    · refine Tracks.send_other ?_ hne _ _
      refine h.congr ?_ ?_ le_rfl fun _ hl => .finishedOther hne hl
      · simp only
        split
        · rfl
        · exact AList.lookup_insert_ne (Ne.symm hne)
      · exact List.count_erase_of_ne (Ne.symm hne)
  · exact h

theorem step (h : Tracks r id) (hid : id ≠ "") (input : Input Up) : Tracks (r.step input) id := by
  cases input with
  | submit i takes => exact h.submit hid i takes
  | complete i reply takes => exact h.complete hid i reply takes
  | tick d => exact h.congr rfl rfl (Nat.le_add_right _ _) fun _ hl => hl
  | connect | disconnect => exact h.congr rfl rfl le_rfl fun _ hl => hl

end Tracks

/-! ## Replies and submits -/

def Event.isSent (id : String) : Event Up → Bool
  | .sent i _ => i = id
  | _ => false

def Event.isSubmitted (id : String) : Event Up → Bool
  | .submitted i => i = id
  | _ => false

/-- How many replies for `id` were sent. -/
def sends (id : String) (log : List (Event Up)) : Nat := log.countP (·.isSent id)

/-- How often `id` was submitted. -/
def submits (id : String) (log : List (Event Up)) : Nat := log.countP (·.isSubmitted id)

theorem sends_cons (id : String) (e : Event Up) (log : List (Event Up)) :
    sends id (e :: log) = sends id log + if e.isSent id then 1 else 0 :=
  List.countP_cons

theorem submits_cons (id : String) (e : Event Up) (log : List (Event Up)) :
    submits id (e :: log) = submits id log + if e.isSubmitted id then 1 else 0 :=
  List.countP_cons

/-- Every reply sent and every execution in progress is due to a submit of its own; with
`due`, one submit has not been answered yet. -/
def Accounts (r : CommandRunner Up) (id : String) (due : Nat) : Prop :=
  sends id r.log + r.tasks.count id + due ≤ submits id r.log

namespace Accounts

variable {r : CommandRunner Up} {id i : String}

theorem send (h : Accounts r id (if i = id then 1 else 0)) (reply : Up) (takes : Bool) :
    Accounts (r.send i reply takes) id 0 := by
  unfold Accounts at h ⊢
  unfold CommandRunner.send
  split
  · simp only [sends_cons, submits_cons, Event.isSent, Event.isSubmitted, decide_eq_true_eq,
      Bool.false_eq_true, if_false]
    omega
  · omega

theorem spawn (h : Accounts r id (if i = id then 1 else 0)) : Accounts (r.spawn i) id 0 := by
  unfold Accounts at h ⊢
  simp only [CommandRunner.spawn, sends_cons, submits_cons, List.count_cons, Event.isSent,
    Event.isSubmitted, beq_iff_eq, Bool.false_eq_true, if_false]
  omega

theorem submit (h : Accounts r id 0) (i : String) (takes : Bool) :
    Accounts (r.submit i takes) id 0 := by
  have hdue : Accounts { r with log := .submitted i :: r.log } id (if i = id then 1 else 0) := by
    unfold Accounts at h ⊢
    simp only [sends_cons, submits_cons, Event.isSent, Event.isSubmitted, decide_eq_true_eq,
      Bool.false_eq_true, if_false]
    omega
  unfold CommandRunner.submit
  by_cases hi : i = ""
  · rw [if_pos hi]
    exact hdue.spawn
  · rw [if_neg hi]
    split
    · exact le_trans (Nat.le_add_right _ _) hdue
    · exact hdue.send _ takes
    · refine Accounts.spawn ?_
      exact hdue

theorem complete (h : Accounts r id 0) (i : String) (reply : Up) (takes : Bool) :
    Accounts (r.complete i reply takes) id 0 := by
  unfold CommandRunner.complete
  split
  · rename_i hmem
    refine Accounts.send ?_ reply takes
    unfold Accounts at h ⊢
    simp only [sends_cons, submits_cons, Event.isSent, Event.isSubmitted, Bool.false_eq_true,
      if_false]
    by_cases hne : i = id
    · subst hne
      have hpos := List.count_pos_iff.mpr hmem
      simp only [if_true, List.count_erase_self]
      omega
    · simp only [if_neg hne, List.count_erase_of_ne (Ne.symm hne)]
      omega
  · exact h

theorem step (h : Accounts r id 0) (input : Input Up) : Accounts (r.step input) id 0 := by
  cases input with
  | submit i takes => exact h.submit i takes
  | complete i reply takes => exact h.complete i reply takes
  | tick d => exact h
  | connect | disconnect => exact h

end Accounts

/-! ## Every run -/

theorem CommandRunner.run_induction {P : CommandRunner Up → Prop} (h₀ : P {})
    (hstep : ∀ r input, P r → P (r.step input)) (inputs : List (Input Up)) : P (run inputs) := by
  have hgen : ∀ (l : List (Input Up)) r, P r → P (l.foldl step r) := by
    intro l
    induction l with
    | nil => exact fun r h => h
    | cons input l ih => exact fun r h => ih _ (hstep r input h)
  exact hgen inputs _ h₀

theorem run_tracks (inputs : List (Input Up)) {id : String} (hid : id ≠ "") :
    Tracks (CommandRunner.run inputs) id :=
  CommandRunner.run_induction (P := fun r => Tracks r id) ⟨.idle, .nil, rfl, rfl⟩
    (fun _ input h => h.step hid input) inputs

theorem run_accounts (inputs : List (Input Up)) (id : String) :
    Accounts (CommandRunner.run inputs) id 0 :=
  CommandRunner.run_induction (P := fun r => Accounts r id 0) le_rfl
    (fun _ input h => h.step input) inputs

/-- A command is executed at most once while its result is kept. In every run, for every
id: between two starts the first execution has finished, and every result that has come
in between is older than `RESULT_TTL` at the second start; a reply is the one result that
has come since the last start; there are no more replies than submits; and an execution
in progress is in the cache, and the only one. -/
theorem run_at_most_once (inputs : List (Input Up)) {id : String} (hid : id ≠ "") :
    let r := CommandRunner.run inputs
    (∀ l₁ l₂ l₃ t₁ t₂, r.log = l₃ ++ .started id t₂ :: (l₂ ++ .started id t₁ :: l₁) →
      (∃ reply t, .finished id reply t ∈ l₂) ∧
      ∀ reply t, .finished id reply t ∈ l₂ → t + RESULT_TTL ≤ t₂) ∧
    (∀ l₁ l₂ reply, r.log = l₂ ++ .sent id reply :: l₁ →
      ∃ m l t₁ t, l₁ = m ++ .started id t₁ :: l ∧ (∀ t, .started id t ∉ m) ∧
        .finished id reply t ∈ m ∧ ∀ reply' t', .finished id reply' t' ∈ m → reply' = reply) ∧
    sends id r.log ≤ submits id r.log ∧
    (id ∈ r.tasks → r.cache.lookup id = some .running ∧ r.tasks.count id = 1) := by
  intro r
  have htracks : Tracks r id := run_tracks inputs hid
  have hacc : Accounts r id 0 := run_accounts inputs id
  obtain ⟨st, hl, ha⟩ := htracks
  refine ⟨fun l₁ l₂ l₃ t₁ t₂ hlog => ?_, fun l₁ l₂ reply hlog => ?_, ?_, fun hmem => ?_⟩
  · obtain ⟨st', hl'⟩ := Lawful.of_append (hlog ▸ hl)
    cases hl' with
    | startedOther hne _ => exact absurd rfl hne
    | first hl' => exact absurd rfl hl'.since_start.1
    | @again _ reply t _ hl' hexp =>
      refine ⟨⟨reply, t, hl'.since_start.2 reply t rfl⟩, fun reply' t' hmem => ?_⟩
      have := (hl'.finished_le (List.mem_append_left _ hmem)).2.1 reply t rfl
      omega
  · obtain ⟨st', hl'⟩ := Lawful.of_append (hlog ▸ hl)
    cases hl' with
    | sentOther hne _ => exact absurd rfl hne
    | @reply _ _ t hl' =>
      obtain ⟨m, t₁, ⟨l, hl₁, hm⟩, hin, hall⟩ := hl'.lastStart.done reply t rfl
      exact ⟨m, l, t₁, t, hl₁, hm, hin, hall⟩
  · unfold Accounts at hacc
    omega
  · have hpos := List.count_pos_iff.mpr hmem
    cases st with
    | idle | done _ _ =>
      have := ha.2
      omega
    | running t₀ => exact ⟨ha.1, ha.2.1⟩

/-- A command, its end, and a replay: one execution, two replies. -/
theorem replay_gets_result :
    let r := CommandRunner.run
      [.connect, .submit "c" true, .submit "c" true, .complete "c" "ok" true, .submit "c" true]
    r.log = [.sent "c" "ok", .submitted "c", .sent "c" "ok", .finished "c" "ok" 0,
      .submitted "c", .started "c" 0, .submitted "c"] ∧
    sends "c" r.log ≤ submits "c" r.log :=
  ⟨rfl, (run_at_most_once _ (by decide)).2.2.1⟩

end RunmanAgent.Platform
