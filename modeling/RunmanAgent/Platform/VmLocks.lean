import RunmanAgent.Model
import RunmanAgent.Platform.Commands

/-!
# Locks of instances (`src/platform/commands.rs`)

`lock_vm` hands out one mutex for each VM id, from a table that is pruned when it is
large: an entry goes when nobody but the table refers to its mutex. A mutex is a number
here; `strong` is its `Arc::strong_count`.

One task at a time is in the table: it visits the entries it may prune one by one, then
it clones the reference for its id. The other tasks go on meanwhile. From then on a task
has a reference until its guard is gone: it waits for the mutex, holds it, and has
unlocked it before it drops the reference. A task that waits may also be dropped.

The invariant `Counted` says that `strong` counts the entries and the tasks that refer to
a mutex, and that every task refers to the mutex the table has for its id.
-/

namespace RunmanAgent.Platform

inductive Stage where
  | waiting
  | holding
  /-- Unlocked; the reference is still there. -/
  | leaving
  deriving DecidableEq

structure Task where
  id : VmId
  lock : Nat
  stage : Stage
  deriving DecidableEq

structure VmLocks where
  table : AList fun _ : VmId => Nat := ∅
  /-- The task in the table: the id it wants, and the entries it has yet to visit. -/
  visitor : Option (VmId × List VmId) := none
  strong : Nat → Nat := fun _ => 0
  locked : Nat → Bool := fun _ => false
  /-- The next mutex to be allocated. -/
  fresh : Nat := 0
  tasks : List Task := []

namespace VmLocks

/-- The entries that `lock_vm` visits before it looks up its id. -/
def toVisit (s : VmLocks) : List VmId :=
  if CACHE_SOFT_LIMIT < s.table.keys.length then s.table.keys else []

/-- `retain(|_, l| Arc::strong_count(l) > 1)` at one entry; an entry that goes drops its
reference. -/
def retainOne (s : VmLocks) (id : VmId) : VmLocks :=
  match s.table.lookup id with
  | some m =>
    if 1 < s.strong m then s
    else { s with
      table := s.table.erase id
      strong := Function.update s.strong m (s.strong m - 1) }
  | none => s

/-- `entry(id).or_default()`. -/
def entry (s : VmLocks) (id : VmId) : VmLocks × Nat :=
  match s.table.lookup id with
  | some m => (s, m)
  | none =>
    ({ s with
      table := s.table.insert id s.fresh
      strong := Function.update s.strong s.fresh 1
      locked := Function.update s.locked s.fresh false
      fresh := s.fresh + 1 }, s.fresh)

/-- The new task has a clone of the reference, and waits. -/
def enter (s : VmLocks) (id : VmId) (m : Nat) : VmLocks :=
  { s with
    strong := Function.update s.strong m (s.strong m + 1)
    tasks := ⟨id, m, .waiting⟩ :: s.tasks }

/-- `locks.entry(id.clone()).or_default().clone()`. -/
def clone (s : VmLocks) (id : VmId) : VmLocks :=
  let (s, m) := s.entry id
  s.enter id m

inductive Step : VmLocks → VmLocks → Prop where
  | lockVm {s : VmLocks} (id : VmId) (hnone : s.visitor = none) :
      Step s { s with visitor := some (id, s.toVisit) }
  | visit {s : VmLocks} {id k : VmId} {ks : List VmId} (hin : s.visitor = some (id, k :: ks)) :
      Step s { s.retainOne k with visitor := some (id, ks) }
  | clone {s : VmLocks} {id : VmId} (hin : s.visitor = some (id, [])) :
      Step s { s.clone id with visitor := none }
  | acquire {s : VmLocks} {l₁ l₂ : List Task} {id : VmId} {m : Nat}
      (htask : s.tasks = l₁ ++ ⟨id, m, .waiting⟩ :: l₂) (hfree : s.locked m = false) :
      Step s { s with
        tasks := l₁ ++ ⟨id, m, .holding⟩ :: l₂
        locked := Function.update s.locked m true }
  | unlock {s : VmLocks} {l₁ l₂ : List Task} {id : VmId} {m : Nat}
      (htask : s.tasks = l₁ ++ ⟨id, m, .holding⟩ :: l₂) :
      Step s { s with
        tasks := l₁ ++ ⟨id, m, .leaving⟩ :: l₂
        locked := Function.update s.locked m false }
  | drop {s : VmLocks} {l₁ l₂ : List Task} {t : Task} (htask : s.tasks = l₁ ++ t :: l₂)
      (hstage : t.stage ≠ .holding) :
      Step s { s with
        tasks := l₁ ++ l₂
        strong := Function.update s.strong t.lock (s.strong t.lock - 1) }

/-- Every state that any number of tasks can lead to. -/
def Reachable : VmLocks → Prop := Relation.ReflTransGen Step {}

/-! ## Reference counts -/

/-- Entries of the table that refer to `m`. -/
def entryRefs (table : AList fun _ : VmId => Nat) (m : Nat) : Nat :=
  table.entries.countP fun e => e.2 = m

/-- Tasks that refer to `m`. -/
def taskRefs (tasks : List Task) (m : Nat) : Nat := tasks.countP fun t => t.lock = m

/-- Tasks that hold `m`. -/
def holders (tasks : List Task) (m : Nat) : Nat :=
  tasks.countP fun t => t.lock = m ∧ t.stage = .holding

structure Counted (s : VmLocks) : Prop where
  strong : ∀ m, s.strong m = entryRefs s.table m + taskRefs s.tasks m
  locked : ∀ m, holders s.tasks m = if s.locked m then 1 else 0
  listed : ∀ t ∈ s.tasks, s.table.lookup t.id = some t.lock
  fresh : ∀ id m, s.table.lookup id = some m → m < s.fresh

theorem taskRefs_append (l₁ l₂ : List Task) (m : Nat) :
    taskRefs (l₁ ++ l₂) m = taskRefs l₁ m + taskRefs l₂ m :=
  List.countP_append

theorem taskRefs_cons (t : Task) (l : List Task) (m : Nat) :
    taskRefs (t :: l) m = taskRefs l m + if t.lock = m then 1 else 0 := by
  simp [taskRefs, List.countP_cons]

theorem holders_append (l₁ l₂ : List Task) (m : Nat) :
    holders (l₁ ++ l₂) m = holders l₁ m + holders l₂ m :=
  List.countP_append

theorem holders_cons (t : Task) (l : List Task) (m : Nat) :
    holders (t :: l) m = holders l m + if t.lock = m ∧ t.stage = .holding then 1 else 0 := by
  simp [holders, List.countP_cons]

variable {id : VmId} {m : Nat} {s : VmLocks}

theorem entryRefs_erase {table : AList fun _ : VmId => Nat} (h : table.lookup id = some m)
    (m' : Nat) : entryRefs table m' = entryRefs (table.erase id) m' + if m = m' then 1 else 0 := by
  have hkey : id ∈ table.entries.keys := List.dlookup_isSome.mp (by rw [← AList.lookup, h]; rfl)
  obtain ⟨b, l₁, l₂, -, hentries, herase⟩ := List.exists_of_kerase hkey
  have hb : b = m := by
    have hmem : ⟨id, b⟩ ∈ table.entries := by
      rw [hentries]
      simp
    have := AList.mem_lookup_iff.mpr hmem
    rw [h] at this
    exact (Option.some.inj this).symm
  subst hb
  have hkept : (table.erase id).entries = l₁ ++ l₂ := herase
  rw [entryRefs, entryRefs, hentries, hkept, List.countP_append, List.countP_append,
    List.countP_cons]
  simp only [decide_eq_true_eq]
  omega

theorem Counted.retainOne (hs : Counted s) (id : VmId) : Counted (s.retainOne id) := by
  unfold VmLocks.retainOne
  split
  · rename_i m hm
    split
    · exact hs
    · rename_i hfew
      have hrefs := entryRefs_erase hm
      have hnone : taskRefs s.tasks m = 0 := by
        have hstrong := hs.strong m
        have := hrefs m
        rw [if_pos rfl] at this
        omega
      have hother : ∀ t ∈ s.tasks, t.id ≠ id := by
        rintro t ht rfl
        have hlook := hs.listed t ht
        rw [hm, Option.some.injEq] at hlook
        have := List.countP_eq_zero.mp hnone t ht
        simp [hlook] at this
      refine ⟨fun m' => ?_, hs.locked, fun t ht => ?_, fun id' m' h => ?_⟩
      · have hstrong := hs.strong m'
        have := hrefs m'
        by_cases heq : m' = m
        · subst heq
          simp only [Function.update_self, if_true] at this ⊢
          omega
        · simp only [Function.update_of_ne heq, if_neg (Ne.symm heq)] at this ⊢
          omega
      · exact (AList.lookup_erase_ne (hother t ht)).trans (hs.listed t ht)
      · by_cases hid : id' = id
        · subst hid
          rw [AList.lookup_erase] at h
          cases h
        · rw [AList.lookup_erase_ne hid] at h
          exact hs.fresh id' m' h
  · exact hs

theorem lookup_entry (s : VmLocks) (id : VmId) :
    (s.entry id).1.table.lookup id = some (s.entry id).2 := by
  unfold entry
  split
  · rename_i m hm
    exact hm
  · exact AList.lookup_insert _

theorem Counted.entry (hs : Counted s) (id : VmId) : Counted (s.entry id).1 := by
  unfold VmLocks.entry
  split
  · exact hs
  · rename_i hnone
    -- nobody refers to the new mutex
    have hfresh : ∀ t ∈ s.tasks, t.lock ≠ s.fresh := by
      intro t ht heq
      have := hs.fresh t.id t.lock (hs.listed t ht)
      omega
    have hentries : entryRefs s.table s.fresh = 0 := by
      refine List.countP_eq_zero.mpr fun e he => ?_
      have := hs.fresh e.1 e.2 (AList.mem_lookup_iff.mpr he)
      simp only [decide_eq_true_eq]
      omega
    have hrefs : taskRefs s.tasks s.fresh = 0 :=
      List.countP_eq_zero.mpr fun t ht => by simpa using hfresh t ht
    have hheld : holders s.tasks s.fresh = 0 :=
      List.countP_eq_zero.mpr fun t ht => by simp [hfresh t ht]
    have hnotin : id ∉ s.table := AList.lookup_eq_none.mp hnone
    have hcount : ∀ m, entryRefs (s.table.insert id s.fresh) m =
        entryRefs s.table m + if s.fresh = m then 1 else 0 := by
      intro m
      rw [entryRefs, AList.entries_insert_of_notMem hnotin, List.countP_cons]
      simp [entryRefs]
    refine ⟨fun m => ?_, fun m => ?_, fun t ht => ?_, fun id' m h => ?_⟩
    · rw [hcount]
      by_cases hm : m = s.fresh
      · subst hm
        simp only [Function.update_self, if_true]
        omega
      · simp only [Function.update_of_ne hm, if_neg (Ne.symm hm)]
        exact hs.strong m
    · by_cases hm : m = s.fresh
      · subst hm
        simpa using hheld
      · simp only [Function.update_of_ne hm]
        exact hs.locked m
    · have hne : t.id ≠ id := by
        rintro rfl
        have := hs.listed t ht
        rw [hnone] at this
        cases this
      exact (AList.lookup_insert_ne hne).trans (hs.listed t ht)
    · show m < s.fresh + 1
      by_cases hid : id' = id
      · subst hid
        rw [AList.lookup_insert, Option.some.injEq] at h
        omega
      · rw [AList.lookup_insert_ne hid] at h
        exact Nat.lt_succ_of_lt (hs.fresh id' m h)

theorem Counted.enter (hs : Counted s) (hm : s.table.lookup id = some m) :
    Counted (s.enter id m) := by
  refine ⟨fun m' => ?_, fun m' => ?_, fun t ht => ?_, hs.fresh⟩
  · have hstrong := hs.strong m'
    simp only [VmLocks.enter, taskRefs_cons]
    by_cases heq : m' = m
    · subst heq
      simp only [Function.update_self, if_true]
      omega
    · simp only [Function.update_of_ne heq, if_neg (Ne.symm heq)]
      exact hstrong
  · refine Eq.trans ?_ (hs.locked m')
    simp [VmLocks.enter, holders_cons]
  · rcases ht with _ | ⟨_, ht⟩
    · exact hm
    · exact hs.listed t ht

theorem Counted.clone {s : VmLocks} (hs : Counted s) (id : VmId) : Counted (s.clone id) :=
  (hs.entry id).enter (lookup_entry s id)

theorem Counted.visitor (hs : Counted s) (v : Option (VmId × List VmId)) :
    Counted { s with visitor := v } :=
  ⟨hs.strong, hs.locked, hs.listed, hs.fresh⟩

/-- What a step of one task among the others needs: its id and mutex stay, and the
counts change with its stage. -/
theorem Counted.restage (hs : Counted s) {l₁ l₂ : List Task} {st st' : Stage}
    (htask : s.tasks = l₁ ++ ⟨id, m, st⟩ :: l₂) {b : Bool}
    (hb : holders (l₁ ++ ⟨id, m, st'⟩ :: l₂) m = if b then 1 else 0) :
    Counted { s with
      tasks := l₁ ++ ⟨id, m, st'⟩ :: l₂
      locked := Function.update s.locked m b } := by
  refine ⟨fun m' => ?_, fun m' => ?_, fun t ht => ?_, hs.fresh⟩
  · have hstrong := hs.strong m'
    rw [htask, taskRefs_append, taskRefs_cons] at hstrong
    rwa [taskRefs_append, taskRefs_cons]
  · by_cases heq : m' = m
    · subst heq
      simpa using hb
    · have hlocked := hs.locked m'
      have hother : ∀ st : Stage, ¬ (m = m' ∧ st = .holding) := fun _ h => heq h.1.symm
      rw [htask, holders_append, holders_cons, if_neg (hother st)] at hlocked
      rw [holders_append, holders_cons, if_neg (hother st')]
      simp only [Function.update_of_ne heq]
      exact hlocked
  · have hold : ∀ t ∈ l₁ ++ ⟨id, m, st⟩ :: l₂, s.table.lookup t.id = some t.lock :=
      fun t ht => hs.listed t (htask ▸ ht)
    simp only [List.mem_append, List.mem_cons] at ht hold
    rcases ht with ht | rfl | ht
    · exact hold t (.inl ht)
    · exact hold ⟨id, m, st⟩ (.inr (.inl rfl))
    · exact hold t (.inr (.inr ht))

theorem Counted.step {s' : VmLocks} (hs : Counted s) (h : Step s s') : Counted s' := by
  cases h with
  | lockVm id _ => exact hs.visitor _
  | @visit id k ks _ => exact (hs.retainOne k).visitor _
  | @clone id _ => exact (hs.clone id).visitor _
  | @acquire l₁ l₂ id m htask hfree =>
    refine hs.restage htask ?_
    have hlocked := hs.locked m
    rw [htask, hfree, holders_append, holders_cons, if_neg (by simp)] at hlocked
    rw [holders_append, holders_cons, if_pos ⟨rfl, rfl⟩]
    simp only [Bool.false_eq_true, if_false, if_true] at hlocked ⊢
    omega
  | @unlock l₁ l₂ id m htask =>
    refine hs.restage htask ?_
    -- at most one task holds it: this one
    have hlocked := hs.locked m
    rw [htask, holders_append, holders_cons, if_pos ⟨rfl, rfl⟩] at hlocked
    have hone : (if s.locked m = true then 1 else 0) ≤ 1 := by split <;> omega
    rw [holders_append, holders_cons, if_neg (by simp)]
    simp only [Bool.false_eq_true, if_false]
    omega
  | @drop l₁ l₂ t htask hstage =>
    refine ⟨fun m => ?_, fun m => ?_, fun t' ht => ?_, hs.fresh⟩
    · have hstrong := hs.strong m
      rw [htask, taskRefs_append, taskRefs_cons] at hstrong
      rw [taskRefs_append]
      by_cases hm : m = t.lock
      · subst hm
        simp only [Function.update_self, if_true] at hstrong ⊢
        omega
      · simp only [Function.update_of_ne hm, if_neg (Ne.symm hm)] at hstrong ⊢
        omega
    · have hlocked := hs.locked m
      rw [htask, holders_append, holders_cons, if_neg (fun h => hstage h.2)] at hlocked
      rwa [holders_append]
    · refine hs.listed t' ?_
      rw [htask]
      rcases List.mem_append.mp ht with ht | ht
      · exact List.mem_append_left _ ht
      · exact List.mem_append_right _ (.tail _ ht)

theorem Counted.reachable (h : Reachable s) : Counted s := by
  induction h with
  | refl =>
    refine ⟨fun _ => rfl, fun _ => rfl, fun t ht => ?_, fun id m h => ?_⟩
    · cases ht
    · cases h
  | tail _ hstep ih => exact ih.step hstep

/-! ## Exclusion -/

/-- In every reachable state at most one task holds the lock of an id, and the table has
the lock that a task waits for or holds. The states in the middle of a prune are among
them. -/
theorem lockVm_exclusive {s : VmLocks} (h : Reachable s) :
    (∀ id, s.tasks.countP (fun t => t.id = id ∧ t.stage = .holding) ≤ 1) ∧
    ∀ t ∈ s.tasks, s.table.lookup t.id = some t.lock := by
  have hs := Counted.reachable h
  refine ⟨fun id => ?_, hs.listed⟩
  by_cases hnone : s.tasks.countP (fun t => t.id = id ∧ t.stage = .holding) = 0
  · omega
  · obtain ⟨t, ht, hid⟩ := List.countP_pos_iff.mp (Nat.pos_of_ne_zero hnone)
    simp only [decide_eq_true_eq] at hid
    -- every holder of the id holds the mutex the table has for it
    have hle : s.tasks.countP (fun t => t.id = id ∧ t.stage = .holding) ≤
        holders s.tasks t.lock := by
      refine List.countP_mono_left fun t' ht' hid' => ?_
      simp only [decide_eq_true_eq] at hid' ⊢
      have hlook := hs.listed t' ht'
      rw [hid'.1, ← hid.1, hs.listed t ht, Option.some.injEq] at hlook
      exact ⟨hlook.symm, hid'.2⟩
    have hone : (if s.locked t.lock = true then 1 else 0) ≤ 1 := by split <;> omega
    have hlocked := hs.locked t.lock
    omega

/-- Two commands for one instance: one holds the lock, the other waits for it. -/
theorem second_command_waits : ∃ s : VmLocks, Reachable s ∧
    s.tasks = [⟨⟨1⟩, 0, .waiting⟩, ⟨⟨1⟩, 0, .holding⟩] ∧
    s.tasks.countP (fun t => t.id = ⟨1⟩ ∧ t.stage = .holding) ≤ 1 := by
  have h₀ : Reachable {} := .refl
  have h₁ := h₀.tail (.lockVm ⟨1⟩ rfl)
  have h₂ := h₁.tail (.clone rfl)
  have h₃ := h₂.tail (@Step.acquire _ [] [] ⟨1⟩ 0 rfl rfl)
  have h₄ := h₃.tail (.lockVm ⟨1⟩ rfl)
  have h₅ := h₄.tail (.clone rfl)
  exact ⟨_, h₅, rfl, (lockVm_exclusive h₅).1 ⟨1⟩⟩

end VmLocks

end RunmanAgent.Platform
