import RunmanAgent.GoAgent.OtherVms

/-!
# A removal beside the reconcile loops

One call of `RemoveMapping`, `DeleteVM` or `SyncForVM` runs beside any number of reconcile loops,
in any interleaving. `LoopStep` says what a step of a loop can do in a run that satisfies `Fits`;
`triple_removeMapping` and `triple_requestMapping` say what the critical sections of the call
do, as if each were one step.
-/

namespace RunmanAgent.GoAgent

open Concurrency

inductive Call where
  | remove (vmId : String) (k : PortKey)
  | delete (vmId : String)
  | sync (vmId : String) (desired : List DesiredRule)

namespace Call

def code : Call → MProc Unit
  | remove vmId k => removeMapping vmId k
  | delete vmId => deleteVM vmId
  | sync vmId desired => syncForVM vmId desired

def vm : Call → String
  | remove vmId _ | delete vmId | sync vmId _ => vmId

/-- The rules of the VM that the call removes. -/
def Drops : Call → PortKey → Prop
  | remove _ k, k' => k' = k
  | delete _, _ => True
  | sync _ desired, k => wanted desired k = false

end Call

/-- The call, with the answer to its caller. -/
def answered (x : MProc Unit) : Prog State Input Act Unit :=
  Prog.bind x fun
    | .ok _ => Prog.run (.answer none)
    | .error e => Prog.run (.answer (some e))

/-- The call is program 0; every other program is a reconcile loop. -/
def pool (c : Call) (ticks : Pid → Nat) (s : State) : Pool State Input Act where
  mem := s
  procs p := if p = 0 then answered c.code else Prog.bind (reconcileLoop (ticks p)) fun _ => .ret ()

/-- The active mappings of the VM and its rows are the same rules. -/
structure Agree (vmId : String) (s : State) : Prop where
  row : ∀ k e, s.mappings.lookup (vmId, k) = some e →
    ∃ row, s.rows.lookup k = some row ∧ row.vmId = vmId ∧ e.Is row
  mapping : ∀ k row, s.rows.lookup k = some row → row.vmId = vmId →
    ∃ e, s.mappings.lookup (vmId, k) = some e ∧ e.Is row

/-- The steps of a run in which the call removes for good what it has to remove. -/
def Fits (c : Call) (_ : Pid) (e : Act) (s : State) (i : Input) : Prop :=
  match e with
  | .save _ | .delete _ => i.fail = none
  -- an automatic addition finds the row it has been read from
  | .lock (.add r false) => s.rows.lookup r.toPortKey = some r.toRow ∧
    -- and does not begin between the copy and the deletion of the rows of its VM
    (c = .delete r.vmId → s.copied = false)
  -- a rule that is to be removed is not only in the table
  | .lock (.remove vmId k) => c = .remove vmId k → ∀ row, s.rows.lookup k = some row →
      row.vmId = vmId → (vmId, k) ∈ s.mappings
  | .copy vmId => ∀ desired, c = .sync vmId desired → Agree vmId s
  | .deleteForVM _ => i.fail = none
  | _ => True

/-! ## What the programs do -/

/-- The actions that need the mutex. -/
def Act.guarded : Act → Bool
  | .unlock | .close _ _ | .append _ _ | .save _ | .delete _ => true
  | _ => false

/-- The call takes them while it has the mutex. -/
def Mine (e : Act) (s : State) : Prop := e.guarded = true → ∃ why, s.holder = some (0, why)

/-- A loop only writes while it holds the mutex for an addition. -/
def Theirs (p : Pid) : Act → State → Prop
  | .lock (.add _ checkLimit), _ => checkLimit = false
  | .unlock, s => ∃ r, s.holder = some (p, .add r false)
  | .close vmId k, s => ∃ r e, s.holder = some (p, .add r false) ∧ vmId = r.vmId ∧
      k = r.toPortKey ∧ s.mappings.lookup (r.vmId, r.toPortKey) = some e ∧ ¬e.Is r.toRow
  | .delete k, s => ∃ r, s.holder = some (p, .add r false) ∧ k = r.toPortKey ∧
      s.mappings.lookup (r.vmId, r.toPortKey) = none
  | .append r _, s =>
    s.holder = some (p, .add r false) ∧ s.mappings.lookup (r.vmId, r.toPortKey) = none
  | .save r, s => s.holder = some (p, .add r false) ∧
      ∃ e, s.mappings.lookup (r.vmId, r.toPortKey) = some e ∧ e.Is r.toRow
  | .lock _, _ | .copy _, _ | .deleteForVM _, _ | .deleteIPLimitRow _, _ | .deleteIPLimit _, _
  | .answer _, _ => False
  | _, _ => True

def May (p : Pid) (e : Act) (s : State) : Prop := (p = 0 → Mine e s) ∧ (p ≠ 0 → Theirs p e s)

def discipline (c : Call) : Discipline machine where
  inv _ := True
  may := May
  ok := Fits c
  keeps _ _ _ _ := trivial

/-- A step of a loop, seen from the call. -/
inductive LoopStep (c : Call) (s : State) : State → Prop where
  | quiet : LoopStep c s s
  | lock {p : Pid} {r : Rule} (hp : p ≠ 0) (hfree : s.holder = none)
      (hrow : s.rows.lookup r.toPortKey = some r.toRow)
      (hdel : c = .delete r.vmId → s.copied = false) :
      LoopStep c s { s with holder := some (p, .add r false) }
  | unlock {p : Pid} {r : Rule} (hp : p ≠ 0) (hh : s.holder = some (p, .add r false)) :
      LoopStep c s { s with holder := none }
  | close {p : Pid} {r : Rule} {e : Entry} (hp : p ≠ 0) (hh : s.holder = some (p, .add r false))
      (hact : s.mappings.lookup (r.vmId, r.toPortKey) = some e) (hne : ¬e.Is r.toRow) :
      LoopStep c s { s with mappings := s.mappings.erase (r.vmId, r.toPortKey) }
  | delete {p : Pid} {r : Rule} (hp : p ≠ 0) (hh : s.holder = some (p, .add r false))
      (hact : s.mappings.lookup (r.vmId, r.toPortKey) = none) :
      LoopStep c s { s with rows := s.rows.erase r.toPortKey }
  | append {p : Pid} {r : Rule} (e : Entry) (hp : p ≠ 0) (hh : s.holder = some (p, .add r false))
      (hact : s.mappings.lookup (r.vmId, r.toPortKey) = none) :
      LoopStep c s { s with mappings := s.mappings.insert (r.vmId, r.toPortKey) e }
  | save {p : Pid} {r : Rule} {e : Entry} (hp : p ≠ 0) (hh : s.holder = some (p, .add r false))
      (hact : s.mappings.lookup (r.vmId, r.toPortKey) = some e) (his : e.Is r.toRow) :
      LoopStep c s { s with rows := s.rows.insert r.toPortKey r.toRow }

theorem May.holds {p : Pid} {e : Act} {s : State} (h : May p e s) (he : e.guarded = true) :
    ∃ why, s.holder = some (p, why) := by
  by_cases hp : p = 0
  · subst hp
    exact h.1 rfl he
  · have htheirs := h.2 hp
    cases e with
    | unlock => exact htheirs.imp' _ fun r hr => hr
    | close v k =>
      obtain ⟨r, e, hh, -⟩ := htheirs
      exact ⟨_, hh⟩
    | append r t => exact ⟨_, htheirs.1⟩
    | save r => exact ⟨_, htheirs.1⟩
    | delete k =>
      obtain ⟨r, hh, -⟩ := htheirs
      exact ⟨_, hh⟩
    | _ => cases he

theorem apply_unguarded {s : State} {p : Pid} {i : Input} {e : Act} (he : e.guarded = false)
    (hheld : s.holder.isSome = true) (hen : s.enabled p e = true) :
    (s.apply p i e).mappings = s.mappings ∧ (s.apply p i e).holder = s.holder := by
  cases e with
  | lock why =>
    have hfree : s.holder = none := Option.isNone_iff_eq_none.mp hen
    rw [hfree] at hheld
    cases hheld
  | unlock => cases he
  | close v k => cases he
  | append r t => cases he
  | save r => cases he
  | delete k => cases he
  | deleteIPLimitRow v => rw [State.apply]; split <;> exact ⟨rfl, rfl⟩
  | _ => exact ⟨rfl, rfl⟩

section Stability

variable {c : Call} {s s' : State}

theorem loopStep_of_other (h : (discipline c).Other 0 s s') : LoopStep c s s' := by
  obtain ⟨p, e, i, hp, -, hen, hmay, hok⟩ := h
  have htheirs := hmay.2 hp
  cases e with
  | lock why =>
    cases why with
    | add r checkLimit =>
      cases (htheirs : checkLimit = false)
      exact .lock hp (Option.isNone_iff_eq_none.mp hen) hok.1 hok.2
    | remove v k => exact htheirs.elim
    | refresh v => exact htheirs.elim
  | unlock =>
    obtain ⟨r, hh⟩ := htheirs
    exact .unlock hp hh
  | close v k =>
    obtain ⟨r, e, hh, rfl, rfl, hact, hne⟩ := htheirs
    exact .close hp hh hact hne
  | append r t => exact .append _ hp htheirs.1 htheirs.2
  | delete k =>
    obtain ⟨r, hh, rfl, hact⟩ := htheirs
    have happly : machine.apply (.delete r.toPortKey) p s i =
        { s with rows := s.rows.erase r.toPortKey } := by
      rw [machine_apply, State.apply, (hok : i.fail = none)]
      rfl
    rw [happly]
    exact .delete hp hh hact
  | save r =>
    obtain ⟨hh, e, hact, his⟩ := htheirs
    have happly : machine.apply (.save r) p s i =
        { s with rows := s.rows.insert r.toPortKey r.toRow } := by
      rw [machine_apply, State.apply, (hok : i.fail = none)]
      rfl
    rw [happly]
    exact .save hp hh hact his
  | copy v => exact htheirs.elim
  | deleteForVM v => exact htheirs.elim
  | deleteIPLimitRow v => exact htheirs.elim
  | deleteIPLimit v => exact htheirs.elim
  | answer r => exact htheirs.elim
  | _ => exact .quiet

theorem stable_of_loopStep {P : State → Prop} (h : ∀ {s s'}, P s → LoopStep c s s' → P s') :
    Stable (discipline c) 0 P :=
  ⟨fun _ _ hs hr => h hs (loopStep_of_other hr)⟩

instance stable_held (why : Section) (P : State → Prop) :
    Stable (discipline c) 0 (fun s => s.holder = some (0, why) ∧ P s) := by
  refine stable_of_loopStep fun {s s'} hs hstep => ?_
  have hother : ∀ {p : Pid} {w : Section}, p ≠ 0 → s.holder = some (p, w) → False := by
    intro p w hp hh
    rw [hs.1] at hh
    cases hh
    exact hp rfl
  cases hstep with
  | quiet => exact hs
  | lock hp hfree hrow =>
    rw [hs.1] at hfree
    cases hfree
  | unlock hp hh => exact (hother hp hh).elim
  | close hp hh => exact (hother hp hh).elim
  | delete hp hh => exact (hother hp hh).elim
  | append e hp hh => exact (hother hp hh).elim
  | save hp hh => exact (hother hp hh).elim

instance stable_adding (p : Pid) (why : Section)
    (P : AList (fun _ : String × PortKey => Entry) → Prop) :
    Stable (discipline c) p (fun s => s.holder = some (p, why) ∧ P s.mappings) where
  keep := by
    rintro s _ ⟨hh, hP⟩ ⟨q, e, i, hq, -, hen, hmay, -⟩
    have hguarded : e.guarded = false := by
      refine Bool.eq_false_iff.mpr fun he => ?_
      obtain ⟨w, hw⟩ := hmay.holds he
      rw [hh] at hw
      cases hw
      exact hq rfl
    obtain ⟨hm, hhold⟩ := apply_unguarded (i := i) hguarded (by rw [hh]; rfl) hen
    exact ⟨hhold.trans hh, hm ▸ hP⟩

theorem lookup_of_lookup_erase {α β : Type} [DecidableEq α] {m : AList (fun _ : α => β)} {a a' : α}
    {b : β} (h : (m.erase a').lookup a = some b) : a ≠ a' ∧ m.lookup a = some b := by
  by_cases ha : a = a'
  · subst ha
    rw [AList.lookup_erase] at h
    cases h
  · exact ⟨ha, (AList.lookup_erase_ne ha).symm.trans h⟩

end Stability

/-! ## The call's own critical sections -/

def State.free (s : State) : State := { s with holder := none }

theorem State.free_eq {s : State} (h : s.holder = none) : s.free = s := by
  cases s
  cases h
  rfl

section Sections

variable {c : Call} {A B : State → Prop}

/-- Hoare triples of a program of the pool. -/
abbrev Does {α : Type} (c : Call) (p : Pid) (P : State → Prop) (x : Prog State Input Act α)
    (Q : α → State → Prop) : Prop :=
  Triple (discipline c) May p P x Q

theorem may_mine {e : Act} {s : State} : May 0 e s ↔ Mine e s :=
  ⟨fun h => h.1 rfl, fun h => ⟨fun _ => h, fun hp => absurd rfl hp⟩⟩

theorem triple_lock {P : State → Prop} (why : Section) [Stable (discipline c) 0 A]
    (h : ∀ s i, s.holder = none → A s → Fits c 0 (.lock why) s i →
      P { s with holder := some (0, why) }) :
    Does c 0 A (Prog.run (.lock why)) (fun _ s => s.holder = some (0, why) ∧ P s) := by
  refine .perform fun s i _ hs hen hok => ?_
  exact ⟨may_mine.mpr nofun, rfl, h s i (Option.isNone_iff_eq_none.mp hen) hs hok⟩

theorem triple_unlock {why : Section} [Stable (discipline c) 0 B] :
    Does c 0 (fun s => s.holder = some (0, why) ∧ B s.free) (Prog.run .unlock) (fun _ => B) := by
  refine .perform fun s i _ hs _ _ => ?_
  exact ⟨may_mine.mpr fun _ => ⟨why, hs.1⟩, hs.2⟩

/-- What the critical section of `RemoveMapping` does. -/
def removed (vmId : String) (k : PortKey) (s : State) : State :=
  if (vmId, k) ∈ s.mappings then
    { s with mappings := s.mappings.erase (vmId, k), rows := s.rows.erase k }
  else s

theorem triple_removeEntryLocked (why : Section) (vmId : String) (k : PortKey) (B : State → Prop) :
    Does c 0 (fun s => s.holder = some (0, why) ∧ B (removed vmId k s.free))
      (removeEntryLocked vmId k true)
      (ends (fun _ s => s.holder = some (0, why) ∧ B s.free) (fun _ _ => False)) := by
  refine .procBind (R := fun e s => s.holder = some (0, why) ∧
    (B (removed vmId k s.free) ∧ s.mappings.lookup (vmId, k) = e)) ?_ fun e => ?_
  · refine .perform fun s i _ hs _ _ => ?_
    exact ⟨may_mine.mpr nofun, hs.1, hs.2, rfl⟩
  · cases e with
    | none =>
      refine .ret fun s _ hs => ⟨hs.1, ?_⟩
      have hnot : (vmId, k) ∉ s.free.mappings := AList.lookup_eq_none.mp hs.2.2
      have heq : removed vmId k s.free = s.free := if_neg hnot
      exact heq ▸ hs.2.1
    | some e =>
      refine .procBind (R := fun _ s => s.holder = some (0, why) ∧
        B { s.free with rows := s.rows.erase k }) ?_ fun _ => ?_
      · refine .perform fun s i _ hs _ _ => ?_
        have hmem : (vmId, k) ∈ s.free.mappings :=
          AList.lookup_isSome.mp (Option.isSome_iff_exists.mpr ⟨e, hs.2.2⟩)
        have heq : removed vmId k s.free = { s.free with
          mappings := s.mappings.erase (vmId, k), rows := s.rows.erase k } := if_pos hmem
        exact ⟨may_mine.mpr fun _ => ⟨why, hs.1⟩, hs.1, heq ▸ hs.2.1⟩
      · refine .perform fun s i _ hs _ hok => ?_
        refine ⟨may_mine.mpr fun _ => ⟨why, hs.1⟩, ?_⟩
        have happly : s.apply 0 i (.delete k) = { s with rows := s.rows.erase k } := by
          rw [State.apply, (hok : i.fail = none)]
          rfl
        show ends _ _ (.ok ()) (s.apply 0 i (.delete k))
        rwa [happly]

theorem triple_removeMapping {vmId : String} {k : PortKey} [Stable (discipline c) 0 A]
    [Stable (discipline c) 0 B]
    (h : ∀ s i, s.holder = none → A s → Fits c 0 (.lock (.remove vmId k)) s i →
      B (removed vmId k s)) :
    Does c 0 A (removeMapping vmId k) (ends (fun _ => B) (fun _ _ => False)) := by
  refine .bracket (triple_lock (P := fun s => B (removed vmId k s.free)) _ ?_)
    (triple_removeEntryLocked _ vmId k B) (fun a => ?_)
  · intro s i hfree hs hok
    have heq : ({ s with holder := some (0, .remove vmId k) } : State).free = s :=
      State.free_eq hfree
    rw [heq]
    exact h s i hfree hs hok
  · cases a with
    | ok _ => exact triple_unlock
    | error _ => exact fun _ hs => hs.elim

/-- The action changes nothing, and anyone may take it. -/
def Quiet (e : Act) : Prop := ∀ (p : Pid) (s : State), May p e s ∧ ∀ i, s.apply p i e = s

/-- The actions that only read. -/
def Act.reads : Act → Bool
  | .find _ _ | .count _ | .listAll | .listOf _ | .config | .localIP _ | .listen _ => true
  | _ => false

theorem quiet_of_reads {e : Act} (h : e.reads = true) : Quiet e := by
  cases e <;> try cases h
  all_goals exact fun _ _ => ⟨⟨nofun, fun _ => trivial⟩, fun _ => rfl⟩

theorem triple_quiet {α : Type} {me : Pid} {P : State → Prop} {x : Prog State Input Act α}
    [Stable (discipline c) me P] (h : x.Uses Quiet) : Does c me P x (fun _ => P) := by
  refine .of_uses (h.mono fun e he s i _ hs _ _ => ⟨(he me s).1, ?_⟩)
  rwa [machine_apply, (he me s).2]

theorem triple_quiet_bind {α β : Type} {me : Pid} {P : State → Prop}
    {Q : Except Err β → State → Prop} {x : MProc α} {f : α → MProc β}
    [Stable (discipline c) me P] [∀ e, Stable (discipline c) me (Q (.error e))]
    (hx : Prog.Uses Quiet x) (hE : ∀ e s, P s → Q (.error e) s)
    (hf : ∀ a, Does c me P (f a) Q) : Does c me P (x >>= f : MProc β) Q :=
  .seq (triple_quiet hx) (fun e s _ hs => hE e s hs) hf

/-- The states differ at most in the mapping and the row of the rule. -/
structure Away (r : Rule) (s s' : State) : Prop where
  answers : s'.answers = s.answers
  mapping : ∀ m, m ≠ (r.vmId, r.toPortKey) → s'.mappings.lookup m = s.mappings.lookup m
  row : ∀ k, k ≠ r.toPortKey → s'.rows.lookup k = s.rows.lookup k

theorem Away.of_removed {r : Rule} (s : State) : Away r s (removed r.vmId r.toPortKey s) := by
  unfold removed
  split
  · exact ⟨rfl, fun m hm => AList.lookup_erase_ne hm, fun k hk => AList.lookup_erase_ne hk⟩
  · exact ⟨rfl, fun _ _ => rfl, fun _ _ => rfl⟩

/-- What the critical section of a successful addition does. -/
structure Put (r : Rule) (s s' : State) : Prop extends Away r s s' where
  free : s'.holder = none
  added : ∃ e, s'.mappings.lookup (r.vmId, r.toPortKey) = some e ∧ e.Is r.toRow
  saved : s'.rows.lookup r.toPortKey = some r.toRow

/-- The call has not been answered with success. -/
def NotYet (s : State) : Prop := (0, none) ∉ s.answers

instance stable_notYet : Stable (discipline c) 0 NotYet := by
  refine stable_of_loopStep fun hs hstep => ?_
  cases hstep <;> exact hs

section Add

variable {r : Rule} {checkLimit : Bool}

/-- Inside the critical section of an addition that was entered where `A` holds. -/
def Adding (A : State → Prop) (r : Rule) (s : State) : Prop :=
  ∃ s₀, s₀.holder = none ∧ A s₀ ∧ Away r s₀ s

/-- How the code inside ends: in `B` without the mutex, or with an error. -/
def AddEnds (why : Section) (B : State → Prop) : Except Err Unit → State → Prop :=
  ends (fun _ s => s.holder = some (0, why) ∧ B s.free)
    (fun _ s => s.holder = some (0, why) ∧ NotYet s)

instance stable_addEnds (why : Section) (B : State → Prop) :
    ∀ a, Stable (discipline c) 0 (AddEnds why B a) :=
  Stable.ends

theorem Adding.notYet {s : State} (hA : ∀ s, A s → NotYet s) (h : Adding A r s) : NotYet s := by
  obtain ⟨s₀, -, hs₀, haway⟩ := h
  unfold NotYet
  rw [haway.answers]
  exact hA s₀ hs₀

theorem Adding.fails {why : Section} (hA : ∀ s, A s → NotYet s) (e : Err) (s : State)
    (hs : s.holder = some (0, why) ∧ Adding A r s) : AddEnds why B (.error e) s :=
  ⟨hs.1, hs.2.notYet hA⟩

variable (hA : ∀ s, A s → NotYet s) (h : ∀ s s', s.holder = none → A s → Put r s s' → B s')
include hA h

theorem triple_establish {why : Section} :
    Does c 0 (fun s => s.holder = some (0, why) ∧ Adding A r s) (establish r) (AddEnds why B) := by
  refine triple_quiet_bind (.perform (quiet_of_reads rfl)) (Adding.fails hA) fun ip => ?_
  split
  · exact .ret fun s _ hs => Adding.fails hA _ s hs
  · refine triple_quiet_bind (.perform (quiet_of_reads rfl)) (Adding.fails hA) fun _ => ?_
    refine .procBind (R := fun _ s => s.holder = some (0, why) ∧ Adding A r s ∧
      ∃ e, s.mappings.lookup (r.vmId, r.toPortKey) = some e ∧ e.Is r.toRow) ?_ fun _ => ?_
    · refine .perform fun s i _ hs _ _ => ⟨may_mine.mpr fun _ => ⟨why, hs.1⟩, hs.1, ?_, ?_⟩
      · obtain ⟨s₀, hfree, hs₀, haway⟩ := hs.2
        refine ⟨s₀, hfree, hs₀, haway.answers, fun m hm => ?_, haway.row⟩
        exact (AList.lookup_insert_ne hm).trans (haway.mapping m hm)
      · exact ⟨_, AList.lookup_insert _, rfl, rfl⟩
    · refine .perform fun s i _ hs _ hok => ⟨may_mine.mpr fun _ => ⟨why, hs.1⟩, ?_⟩
      obtain ⟨hh, ⟨s₀, hfree, hs₀, haway⟩, hadded⟩ := hs
      have happly : s.apply 0 i (.save r) =
          { s with rows := s.rows.insert r.toPortKey r.toRow } := by
        rw [State.apply, (hok : i.fail = none)]
        rfl
      show AddEnds why B (.ok ()) (s.apply 0 i (.save r))
      rw [happly]
      refine ⟨hh, h s₀ _ hfree hs₀
        ⟨⟨haway.answers, haway.mapping, fun k hk => ?_⟩, rfl, hadded, ?_⟩⟩
      · exact (AList.lookup_insert_ne hk).trans (haway.row k hk)
      · exact AList.lookup_insert _

theorem triple_admitted {why : Section} {existing : Bool} :
    Does c 0 (fun s => s.holder = some (0, why) ∧ Adding A r s)
      (admitted r checkLimit existing) (AddEnds why B) := by
  have hlimited : ∀ existing, Does c 0
      (fun s => s.holder = some (0, why) ∧ Adding A r s) (limited r checkLimit existing)
      (AddEnds why B) := fun existing =>
    triple_quiet_bind (uses_checkedLimit (quiet_of_reads rfl) (quiet_of_reads rfl) ..)
      (Adding.fails hA)
      fun _ => triple_establish hA h
  unfold admitted
  split
  · rename_i hlow
    refine triple_quiet_bind (uses_hasPersistedMapping (quiet_of_reads rfl) _) (Adding.fails hA)
      fun persisted => ?_
    split
    · exact hlimited true
    · have hport : r.hostPort < minNewPort := by
        simp only [Bool.and_eq_true, decide_eq_true_eq] at hlow
        exact hlow.1.2
      have hrefused : ∃ e, validateHostPort r.hostPort false = .error e := by
        unfold validateHostPort
        split
        · exact ⟨_, rfl⟩
        · exact ⟨_, if_pos ⟨rfl, hport⟩⟩
      obtain ⟨e, he⟩ := hrefused
      rw [he]
      exact .ret fun s _ hs => Adding.fails hA e s hs
  · exact hlimited existing

theorem triple_addLocked
    (hsame : ∀ s e, s.holder = none → A s →
      s.mappings.lookup (r.vmId, r.toPortKey) = some e → e.Is r.toRow → B s) (why : Section) :
    Does c 0 (fun s => s.holder = some (0, why) ∧ A s.free)
      (addLocked r checkLimit) (AddEnds why B) := by
  refine .procBind (R := fun e s => s.holder = some (0, why) ∧ A s.free ∧
    s.mappings.lookup (r.vmId, r.toPortKey) = e) ?_ fun e => ?_
  · refine .perform fun s i _ hs _ _ => ?_
    exact ⟨may_mine.mpr nofun, hs.1, hs.2, rfl⟩
  · cases e with
    | none =>
      refine (triple_admitted hA h).pre fun s hs => ⟨hs.1, s.free, rfl, hs.2.1, ?_⟩
      exact ⟨rfl, fun _ _ => rfl, fun _ _ => rfl⟩
    | some e =>
      dsimp only
      split
      · rename_i his
        exact .ret fun s _ hs => ⟨hs.1, hsame _ e rfl hs.2.1 hs.2.2 his⟩
      · refine .step ((triple_removeEntryLocked why r.vmId r.toPortKey
          (Adding A r)).pre ?_) fun _ =>
           (triple_admitted hA h).pre ?_
        · intro s hs
          exact ⟨hs.1, s.free, rfl, hs.2.1, Away.of_removed _⟩
        · rintro s ⟨hh, s₀, hfree, hs₀, haway⟩
          exact ⟨hh, s₀, hfree, hs₀, haway.answers, haway.mapping, haway.row⟩

theorem triple_requestMapping [Stable (discipline c) 0 A] [Stable (discipline c) 0 B]
    (hsame : ∀ s e, s.holder = none → A s →
      s.mappings.lookup (r.vmId, r.toPortKey) = some e → e.Is r.toRow → B s) :
    Does c 0 A (requestMapping r) (ends (fun _ => B) (fun _ => NotYet)) := by
  unfold requestMapping
  obtain ⟨e, heq⟩ | ⟨-, -, heq⟩ := addMapping_cases r true
  · rw [heq]
    exact .ret fun s _ hs => hA s hs
  · rw [heq]
    refine .bracket (triple_lock (P := fun s => A s.free) _ ?_)
      (triple_addLocked hA h hsame _) (fun a => ?_)
    · intro s i hfree hs hok
      have heq' : ({ s with holder := some (0, .add r true) } : State).free = s :=
        State.free_eq hfree
      rwa [heq']
    · cases a with
      | ok _ => exact triple_unlock
      | error _ => exact triple_unlock (B := NotYet)

end Add

end Sections

end RunmanAgent.GoAgent
