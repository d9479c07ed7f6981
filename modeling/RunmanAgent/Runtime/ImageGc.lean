import RunmanAgent.Runtime.Scan

/-!
# Image collection (`gc_images` of `src/runtime/mod.rs`, `gc` of `src/runtime/image.rs`)

The collection removes the serial directories that are neither current nor the lower layer
of an instance. What is in use it takes from the records, under the allocation lock, so
that no create claims a layer meanwhile; but a listing that fails counts as an empty one,
and a record that cannot be read is skipped.

The store is changed by the collection only, which holds the lock: the content that a
removal leaves is computed from the content before it.
-/

namespace RunmanAgent

open Concurrency Proc

/-! ## The store -/

namespace ImageStore

def serialPath (s : ImageStore) (id serial : String) : Path := s.dir ++ [id, serial]

/-- The serial directory exists. -/
def Has (s : ImageStore) (id serial : String) : Prop :=
  ∃ d, s.images.lookup id = some d ∧ (d.serials.lookup serial).isSome = true

instance (s : ImageStore) (id serial : String) : Decidable (s.Has id serial) :=
  match h : s.images.lookup id with
  | none => .isFalse fun ⟨_, hd, _⟩ => by rw [h] at hd; cases hd
  | some d =>
    if hs : (d.serials.lookup serial).isSome = true then .isTrue ⟨d, h, hs⟩
    else .isFalse fun ⟨d', hd, hs'⟩ => hs (Option.some.inj (h.symm.trans hd) ▸ hs')

def removeSerial (s : ImageStore) (id serial : String) : ImageStore :=
  match s.images.lookup id with
  | some d => { s with images := s.images.insert id { d with serials := d.serials.erase serial } }
  | none => s

def removeImage (s : ImageStore) (id : String) : ImageStore :=
  { s with images := s.images.erase id }

/-- `canonicalize(id_dir.join("current"))`: the serial directory that `current` is, or that
the link points to. -/
def canonicalCurrent (s : ImageStore) (id : String) : Option String :=
  (s.images.lookup id).bind fun d =>
    if (d.serials.lookup "current").isSome then some "current"
    else d.current.bind fun serial => (d.serials.lookup serial).map fun _ => serial

/-- `read_dir(&id_dir)`. -/
def serials (s : ImageStore) (id : String) : List String :=
  match s.images.lookup id with
  | some d => d.serials.keys
  | none => []

end ImageStore

/-! ## The collection -/

/-- A look at the file system whose error counts as `false`. -/
def stat (what : String) : Agent Bool := do
  match ← (helper what).attempt with
  | .ok _ => pure true
  | .error _ => pure false

/-- `remove_dir_all` of what `next` lacks; a failure is only logged. -/
def removeTree (store next : ImageStore) : Agent ImageStore := do
  match ← (helper "remove_dir_all").attempt with
  | .ok _ =>
    act (.host (.images next))
    pure next
  | .error _ => pure store

/-- One serial directory; the number of those kept is counted. The path of the store is
canonical here, so that `canonicalize(&path)` is `path`. -/
def gcSerial (inUse : List Path) (id : String) (current : Option String)
    (acc : ImageStore × Nat) (serial : String) : Agent (ImageStore × Nat) :=
  if serial = "current" then pure acc
  else do
    let isDir ← stat "is_dir"
    if !isDir then pure acc
    else if current = some serial || inUse.any (acc.1.serialPath id serial).isPrefixOf then
      pure (acc.1, acc.2 + 1)
    else
      let next ← removeTree acc.1 (acc.1.removeSerial id serial)
      pure (next, acc.2)

/-- The serial directories of one image, and its own directory when nothing is left. -/
def gcSerials (inUse : List Path) (store : ImageStore) (id : String) : Agent ImageStore := do
  let current ← Proc.read (.query (.helper "canonicalize")) fun _ w i =>
    if i.fail.isSome then none else w.images.canonicalCurrent id
  let listed ← stat "read_dir"
  if !listed then pure store
  else
    let acc ← Proc.fold (gcSerial inUse id current) (store, 0) (store.serials id)
    if acc.2 = 0 && current.isNone then removeTree acc.1 (acc.1.removeImage id)
    else pure acc.1

/-- One entry of the image directory. -/
def gcImage (inUse : List Path) (store : ImageStore) (id : String) : Agent ImageStore := do
  if ".staging-".toList.isPrefixOf id.toList then removeTree store (store.removeImage id)
  else
    let isDir ← stat "is_dir"
    if !isDir || !validId id then pure store else gcSerials inUse store id

/-- `ImageStore::gc`. -/
def gc (inUse : List Path) : Agent Unit := do
  let store ← Proc.perform (.query (.helper "read_dir")) fun _ w i => do
    i.check
    pure w.images
  let _ ← Proc.fold (gcImage inUse) store store.images.keys
  pure ()

/-- `gc` does not fail: a directory that cannot be listed ends it. -/
def gcImages : Agent Unit :=
  Proc.bracket (.acquire .alloc) (.release .alloc) do
    let recs ← Runtime.recordsOrDefault
    ignore (gc (recs.map (·.lower)))

inductive Task where
  | op (o : Op)
  | gcImages

def Task.prog (rt : Runtime) : Task → Prog World Oracle Act Unit
  | .op o => o.prog rt
  | .gcImages => Prog.bind RunmanAgent.gcImages fun _ => .ret ()

/-- The tasks at their start, over the state `w`. -/
def taskPool (rt : Runtime) (w : World) (tasks : Pid → Task) : Pool World Oracle Act :=
  ⟨w, fun p => (tasks p).prog rt⟩

/-- The recovery apart, a task that leaves the image store alone. -/
def Task.leavesImages : Task → Prop
  | .op o => o ≠ .init ∧ ∀ es, o = .host es → ∀ s, HostEvent.images s ∉ es
  | .gcImages => True

/-- The listing of the instances made for a collection succeeds, it finds and reads a record
in every instance directory, and its looks at the image directories succeed. -/
def GcReads (tasks : Pid → Task) (p : Pid) (e : Act) (w : World) (i : Oracle) : Prop :=
  match tasks p, e with
  | .gcImages, .query (.load id) => ∀ rec ∈ w.lastRecord id, w.readRecord id i = .ok (some rec)
  | .gcImages, .query .readDir => i.fail = none
  | .gcImages, .query (.helper what) => what ∈ ["is_dir", "canonicalize"] → i.fail = none
  | _, _ => True

def Task.collects : Task → Bool
  | .gcImages => true
  | _ => false

/-- A look at the directories. -/
def Act.looks : Act → Bool
  | .query .readDir => true
  | .query (.helper what) => ["is_dir", "canonicalize"].contains what
  | _ => false

instance (tasks : Pid → Task) (p : Pid) (e : Act) (w : World) (i : Oracle) :
    Decidable (GcReads tasks p e w i) :=
  decidable_of_iff ((tasks p).collects = true → (∀ id ∈ e.loads, ∀ rec ∈ w.lastRecord id,
    w.readRecord id i = .ok (some rec)) ∧ (e.looks = true → i.fail = none)) <| by
      unfold GcReads
      cases tasks p with
      | gcImages =>
        cases e with
        | query q => cases q <;> simp [Task.collects, Act.loads, Act.looks]
        | _ => simp [Task.collects, Act.loads, Act.looks]
      | _ => simp [Task.collects]

/-! ## Removing from the store -/

namespace ImageStore

variable {s : ImageStore} {id id' serial serial' : String}

theorem dir_removeSerial : (s.removeSerial id serial).dir = s.dir := by
  unfold removeSerial
  split <;> rfl

theorem has_removeSerial (h : s.Has id' serial') (hne : id' = id → serial' ≠ serial) :
    (s.removeSerial id serial).Has id' serial' := by
  obtain ⟨d, hd, hs⟩ := h
  unfold removeSerial
  cases hid : s.images.lookup id with
  | none => exact ⟨d, hd, hs⟩
  | some d' =>
    by_cases heq : id' = id
    · subst heq
      rw [hid, Option.some.injEq] at hd
      subst hd
      refine ⟨_, AList.lookup_insert _, ?_⟩
      rwa [AList.lookup_erase_ne (hne rfl)]
    · exact ⟨d, (AList.lookup_insert_ne heq).trans hd, hs⟩

theorem has_of_removeSerial (h : (s.removeSerial id serial).Has id' serial') :
    s.Has id' serial' ∧ (id' = id → serial' ≠ serial) := by
  obtain ⟨d, hd, hs⟩ := h
  unfold removeSerial at hd
  cases hid : s.images.lookup id with
  | none =>
    rw [hid] at hd
    refine ⟨⟨d, hd, hs⟩, fun heq => ?_⟩
    subst heq
    rw [hid] at hd
    cases hd
  | some d' =>
    rw [hid] at hd
    by_cases heq : id' = id
    · subst heq
      simp only [AList.lookup_insert, Option.some.injEq] at hd
      subst hd
      have hne : serial' ≠ serial := by
        intro hs'
        subst hs'
        simp [AList.lookup_erase] at hs
      simp only [AList.lookup_erase_ne hne] at hs
      exact ⟨⟨d', hid, hs⟩, fun _ => hne⟩
    · simp only [AList.lookup_insert_ne heq] at hd
      exact ⟨⟨d, hd, hs⟩, fun h => absurd h heq⟩

theorem has_removeImage (h : s.Has id' serial) (hne : id' ≠ id) :
    (s.removeImage id).Has id' serial := by
  obtain ⟨d, hd, hs⟩ := h
  exact ⟨d, (AList.lookup_erase_ne hne).trans hd, hs⟩

theorem mem_serials (h : s.Has id serial) : serial ∈ s.serials id := by
  obtain ⟨d, hd, hs⟩ := h
  unfold serials
  rw [hd]
  exact AList.mem_keys.mp (AList.lookup_isSome.mp hs)

theorem canonicalCurrent_of_has (h : s.Has id "current") :
    s.canonicalCurrent id = some "current" := by
  obtain ⟨d, hd, hs⟩ := h
  simp [canonicalCurrent, hd, hs]

end ImageStore

theorem not_validId_staging {id : String} (h : ".staging-".toList.isPrefixOf id.toList = true) :
    validId id = false := by
  have hdot : '.' ∈ id.toList := (List.isPrefixOf_iff_prefix.mp h).subset (by decide)
  by_contra hvalid
  simp only [validId, Bool.not_eq_false, Bool.and_eq_true, List.all_eq_true] at hvalid
  have := hvalid.1.2 '.' hdot
  revert this
  decide

/-- What is removed is the layer of no instance whose directory exists. -/
def World.SparesUsed (w : World) (next : ImageStore) : Prop :=
  ∀ id serial, validId id = true → w.images.Has id serial → ¬ next.Has id serial →
    ∀ vm rec, w.lastRecord vm = some rec → ¬ w.images.serialPath id serial <+: rec.lower

/-- A record is written with the layer it had, or under the allocation lock, under which the
images are changed. -/
structure LayerDuty (p : Pid) (e : Act) (w : World) : Prop where
  record : ∀ ch rec, e = .writeRecord ch rec →
    (∃ old, w.lastRecord rec.id = some old ∧ old.lower = rec.lower) ∨ Holds p .alloc w
  images : ∀ s, e = .host (.images s) → Holds p .alloc w ∧ w.SparesUsed s

def layerDiscipline (tasks : Pid → Task) : Discipline agent where
  inv := World.Stored
  may p e w := e.guarded p w ∧ LayerDuty p e w
  ok := GcReads tasks
  keeps hs _ _ _ := hs.apply _ _ _

section Tasks

variable {tasks : Pid → Task} {me : Pid}

theorem layerDuty_of_ne {e : Act} (hw : ∀ ch rec, e ≠ .writeRecord ch rec)
    (hs : ∀ s, e ≠ .host (.images s)) (w : World) : LayerDuty me e w :=
  ⟨fun ch rec he => absurd he (hw ch rec), fun s he => absurd he (hs s)⟩

theorem freeDuty_layer : FreeDuty LayerDuty me := by
  intro e w he
  refine layerDuty_of_ne (fun ch rec h => ?_) (fun s h => ?_) w <;>
  · subst h
    exact he

theorem Change.Updates.lower {ch : Change} {rec rec' : Record} (h : ch.Updates rec rec') :
    rec'.lower = rec.lower := by
  cases ch with
  | desired d | refresh | quarantine on => subst h; rfl
  | create | fillGeneration | fillCreated => cases h

theorem saveDuty_layer (rt : Runtime) (id : VmId) :
    SaveDuty (layerDiscipline tasks) LayerDuty rt me id where
  write {ch rec rec' w} hi hown hch := by
    refine ⟨fun ch' r he => ?_, nofun⟩
    cases he
    have hid := hch.id.trans (hi _ _ hown.2)
    exact .inl ⟨rec, hid ▸ World.lastRecord_of_record hown.2, hch.lower.symm⟩
  runtime _ _ := layerDuty_of_ne (by simp) (by simp) _

theorem fine_layer {e : Act} {k : LockId} (h : e ≠ .release k ∧
    (∀ ch rec, e ≠ .writeRecord ch rec) ∧ ∀ s, e ≠ .host (.images s)) :
    Fine (layerDiscipline tasks) LayerDuty me (Holds me k) e :=
  fine_holds h.1 fun w _ _ => layerDuty_of_ne h.2.1 h.2.2 w

theorem installActs_layer (id : VmId) :
    InstallActs (Fine (layerDiscipline tasks) LayerDuty me (Holds me (.vm id))) id where
  toNetActs := netActs_holds freeDuty_layer
  killCt := fine_layer (by simp)
  terminate := fine_layer (by simp)
  removePid := fine_layer (by simp)
  systemdRun := fine_layer (by simp)
  unlink _ := fine_layer (by simp)
  rmdir := fine_layer (by simp)
  mkdir := fine_layer (by simp)
  makeDisk _ := fine_layer (by simp)
  prepareRoot _ := fine_layer (by simp)

theorem triple_claim_layer (rt : Runtime) (spec : InstanceSpec) (builder : Bool)
    (created : Nat) (traffic : Option Traffic) :
    Triple (layerDiscipline tasks) LayerDuty me (Holds me (.vm spec.vmId))
      (rt.claim spec builder created traffic) (fun _ => Holds me (.vm spec.vmId)) := by
  refine triple_alloc freeDuty_layer (fun _ _ h => holds_apply (by simp) h)
    (fun _ _ h => holds_apply (by simp) h) ?_
  have hfine : ∀ {e : Act}, (∀ k, e ≠ .release k) → (∀ s, e ≠ .host (.images s)) →
      Fine (layerDiscipline tasks) LayerDuty me (Allocating me spec.vmId) e :=
    fun hr hs w _ _ hk _ _ => ⟨⟨fun _ _ _ => .inr hk.2, fun s he => absurd he (hs s)⟩,
      holds_apply (hr _) hk.1, holds_apply (hr _) hk.2⟩
  have hq : ∀ q, Fine (layerDiscipline tasks) LayerDuty me (Allocating me spec.vmId) (.query q) :=
    fun q => hfine (by simp) (by simp)
  refine .of_uses ?_
  refine uses_bind (.perform (hq _)) fun image => ?_
  refine uses_bind (uses_allocateIdx hq rt) fun idx => ?_
  refine uses_bind (.perform (hq _)) fun generation => ?_
  refine uses_bind trivial fun addrs => ?_
  refine uses_bind (uses_act (hfine (by simp) (by simp))) fun _ => ?_
  refine uses_bind (uses_bind (uses_act (hfine (by simp) (by simp))) fun _ =>
    uses_act (hfine (by simp) (by simp))) fun _ => ?_
  exact uses_bind (uses_restoreTraffic fun _ _ => hfine (by simp) (by simp)) fun _ => trivial

theorem taskDuties_layer (rt : Runtime) :
    TaskDuties (layerDiscipline tasks) LayerDuty rt me where
  locks := ⟨fun _ _ _ h => h.1⟩
  stored _ h := h
  free := freeDuty_layer
  save := saveDuty_layer rt
  removal id := (installActs_layer id).toRemovalActs
  create spec builder := triple_create_of_claim freeDuty_layer (installActs_layer _)
    (fun _ => fine_layer (by simp)) rt builder
    (triple_claim_layer rt spec builder)
  sample := ⟨fine_query freeDuty_layer, fun _ _ _ => fine_layer (by simp),
    fun _ _ => fine_layer (by simp),
    fun _ => fine_layer (by simp)⟩
  heal _ _ _ _ := fine_owns (by simp) (by simp) (by simp) fun w _ _ =>
    layerDuty_of_ne (by simp) (by simp) w
  isolate _ _ := fine_layer (by simp)
  reconnect _ _ _ := fine_owns (by simp) (by simp) (by simp) fun w _ _ =>
    layerDuty_of_ne (by simp) (by simp) w
  forwards := by
    rintro _ w (⟨l, rfl⟩ | ⟨l, rfl⟩) _ <;> exact layerDuty_of_ne (by simp) (by simp) w

/-! ### The collection -/

instance keepsField_lower : KeepsField (layerDiscipline tasks) Record.lower :=
  ⟨fun _ ch rec _ hmay => hmay.2.record ch rec rfl⟩

/-- `me` holds the allocation lock, and this is the store. -/
def Sees (me : Pid) (store : ImageStore) (w : World) : Prop :=
  Holds me .alloc w ∧ w.images = store

instance stable_sees (store : ImageStore) : Stable (layerDiscipline tasks) me (Sees me store) where
  keep := by
    rintro w _ ⟨halloc, himages⟩ ⟨p, e, i, hne, -, hen, hmay, -⟩
    refine ⟨Act.apply_locks_of_ne hne hen halloc, ?_⟩
    rcases e.apply_images p w i with hsame | ⟨s, rfl, -⟩
    · exact hsame.trans himages
    · have hp := (hmay.2.images s rfl).1
      exact absurd (Option.some.inj (hp.symm.trans halloc)) hne

/-- The collection knows the layers in use and the store. -/
abbrev Sweeping (me : Pid) (inUse : List Path) (store : ImageStore) (w : World) : Prop :=
  Scanning me Record.lower (Sees me store) inUse [] w

/-- No layer in use lies below the path. -/
def Unused (inUse : List Path) (path : Path) : Prop := ∀ p ∈ inUse, ¬ path <+: p

theorem sparesUsed {inUse : List Path} {store next : ImageStore} {w : World}
    (h : Sweeping me inUse store w)
    (hnext : ∀ id serial, validId id = true → store.Has id serial → ¬ next.Has id serial →
      Unused inUse (store.serialPath id serial)) : w.SparesUsed next := by
  intro id serial hvalid hhas hgone vm rec hrec
  rw [h.kept.2] at hhas ⊢
  rcases h.covers vm rec hrec with hmem | hmem
  · exact hnext id serial hvalid hhas hgone _ hmem
  · cases hmem

section Collect

variable (hme : tasks me = .gcImages)
include hme

theorem readsRecords_layer : ReadsRecords (layerDiscipline tasks) me := by
  intro id w i hok _ rec hrec
  have hreads : GcReads tasks me (.query (.load id)) w i := hok
  simp only [GcReads, hme] at hreads
  exact hreads rec hrec

theorem not_listingFails : ¬ ListingFails (layerDiscipline tasks) me := by
  rintro ⟨w, i, hok, hfail⟩
  have hreads : GcReads tasks me (.query .readDir) w i := hok
  simp only [GcReads, hme] at hreads
  exact hfail hreads

theorem triple_stat {P : World → Prop} [Stable (layerDiscipline tasks) me P] (what : String) :
    Triple (layerDiscipline tasks) LayerDuty me P (stat what)
      (ends (fun r w => P w ∧ (what ∈ ["is_dir", "canonicalize"] → r = true))
        (fun _ _ => False)) := by
  refine .attemptBind (R := fun r w => P w ∧
    (what ∈ ["is_dir", "canonicalize"] → r = .ok ())) ?_ fun r => ?_
  · refine .perform fun w i _ hw _ hok => ?_
    refine ⟨freeDuty_layer _ w trivial, hw, fun hmem => ?_⟩
    have hfail : i.fail = none := by
      have hreads : GcReads tasks me (.query (.helper what)) w i := hok
      simp only [GcReads, hme] at hreads
      exact hreads hmem
    simp [Oracle.check, hfail]
  · cases r with
    | ok u => exact .ret fun _ _ h => ⟨h.1, fun _ => rfl⟩
    | error e => exact .ret fun _ _ h => ⟨h.1, fun hmem => by cases h.2 hmem⟩

omit hme in
theorem triple_removeTree {inUse : List Path} {store next : ImageStore}
    (hnext : ∀ id serial, validId id = true → store.Has id serial → ¬ next.Has id serial →
      Unused inUse (store.serialPath id serial)) :
    Triple (layerDiscipline tasks) LayerDuty me (Sweeping me inUse store)
      (removeTree store next)
      (ends (fun s w => Sweeping me inUse s w ∧ (s = next ∨ s = store)) (fun _ _ => False)) := by
  refine .attemptBind (Triple.of_uses (uses_helper (fine_query freeDuty_layer) _)) fun r => ?_
  cases r with
  | error e => exact .ret fun _ _ h => ⟨h, .inr rfl⟩
  | ok u =>
    refine .procBind (R := fun _ => Sweeping me inUse next) ?_
      fun _ => .ret fun _ _ h => ⟨h, .inl rfl⟩
    refine .perform fun w i _ h _ _ => ?_
    refine ⟨⟨nofun, fun s he => ?_⟩, ?_⟩
    · cases he
      exact ⟨h.alloc, sparesUsed h hnext⟩
    · have halloc : Holds me .alloc ((Act.host (.images next)).apply me w i) :=
        holds_apply (by simp) h.alloc
      exact ⟨⟨halloc, rfl⟩, halloc, h.covers⟩

/-- What is known inside the loop over the serials of `id`; `left` are still to come. As long
as nothing is kept and nothing is current, what is left of the directory is not in use. -/
structure Swept (inUse : List Path) (id : String) (current : Option String) (dir : Path)
    (acc : ImageStore × Nat) (left : List String) : Prop where
  same : acc.1.dir = dir
  link : current = none → ¬ acc.1.Has id "current"
  unused : acc.2 = 0 → current = none → ∀ serial, acc.1.Has id serial →
    serial ∈ left ∨ Unused inUse (dir ++ [id, serial])

theorem triple_gcSerial {inUse : List Path} {id : String} {current : Option String}
    {dir : Path} (acc : ImageStore × Nat) (serial : String) (left : List String) :
    Triple (layerDiscipline tasks) LayerDuty me
      (fun w => Sweeping me inUse acc.1 w ∧ Swept inUse id current dir acc (serial :: left))
      (gcSerial inUse id current acc serial)
      (ends (fun acc' w => Sweeping me inUse acc'.1 w ∧ Swept inUse id current dir acc' left)
        (fun _ _ => False)) := by
  refine .given fun hswept => ?_
  unfold gcSerial
  split
  · rename_i hserial
    refine .ret fun w _ h => ⟨h, hswept.same, hswept.link, ?_⟩
    intro hzero hcurrent s hs
    rcases hswept.unused hzero hcurrent s hs with hmem | hun
    · rcases hmem with _ | ⟨_, hmem⟩
      · rw [hserial] at hs
        exact absurd hs (hswept.link hcurrent)
      · exact .inl hmem
    · exact .inr hun
  · refine .procBind (triple_stat hme "is_dir") fun isDir => .given fun hdir => ?_
    rw [hdir (by simp)]
    simp only [Bool.not_true, Bool.false_eq_true, if_false]
    split
    · exact .ret fun w _ h => ⟨h, hswept.same, hswept.link, nofun⟩
    · rename_i hkeep
      have hunused : Unused inUse (acc.1.serialPath id serial) := by
        intro p hp hprefix
        apply hkeep
        simp only [Bool.or_eq_true, decide_eq_true_eq, List.any_eq_true]
        exact .inr ⟨p, hp, List.isPrefixOf_iff_prefix.mpr hprefix⟩
      refine .procBind (triple_removeTree ?_) fun next => .given fun hnext => ?_
      · intro id' serial' _ hhas hgone
        have heq : id' = id ∧ serial' = serial := by
          by_contra hne
          exact hgone (ImageStore.has_removeSerial hhas fun hid hs => hne ⟨hid, hs⟩)
        rwa [heq.1, heq.2]
      · have hhas : ∀ s, next.Has id s → acc.1.Has id s := by
          intro s hs
          rcases hnext with rfl | rfl
          · exact (ImageStore.has_of_removeSerial hs).1
          · exact hs
        refine .ret fun w _ h => ⟨h, ?_, ?_, ?_⟩
        · rcases hnext with rfl | rfl
          · exact ImageStore.dir_removeSerial.trans hswept.same
          · exact hswept.same
        · exact fun hcurrent hs => hswept.link hcurrent (hhas _ hs)
        · intro hzero hcurrent s hs
          rcases hswept.unused hzero hcurrent s (hhas s hs) with hmem | hun
          · rcases hmem with _ | ⟨_, hmem⟩
            · right
              rwa [← hswept.same]
            · exact .inl hmem
          · exact .inr hun

theorem triple_current {inUse : List Path} {store : ImageStore} (id : String) :
    Triple (layerDiscipline tasks) LayerDuty me (Sweeping me inUse store)
      (Proc.read (.query (.helper "canonicalize")) fun _ w i =>
        if i.fail.isSome then none else w.images.canonicalCurrent id : Agent (Option String))
      (ends (fun current w => Sweeping me inUse store w ∧
        (current = none → ¬ store.Has id "current")) (fun _ _ => False)) := by
  refine .perform fun w i _ h _ hok => ?_
  refine ⟨freeDuty_layer _ w trivial, h, fun hnone hhas => ?_⟩
  have hfail : i.fail = none := by
    have hreads : GcReads tasks me (.query (.helper "canonicalize")) w i := hok
    simp only [GcReads, hme] at hreads
    exact hreads (by simp)
  simp only [hfail, Option.isSome_none, Bool.false_eq_true, if_false, h.kept.2,
    ImageStore.canonicalCurrent_of_has hhas] at hnone
  cases hnone

theorem triple_gcSerials {inUse : List Path} (store : ImageStore) (id : String) :
    Triple (layerDiscipline tasks) LayerDuty me (Sweeping me inUse store)
      (gcSerials inUse store id)
      (ends (fun s => Sweeping me inUse s) (fun _ _ => False)) := by
  refine .procBind (triple_current hme id) fun current => .given fun hlink => ?_
  refine .procBind (triple_stat hme "read_dir") fun listed => .given fun _ => ?_
  split
  · exact .ret fun _ _ h => h
  · have hloop : Triple (layerDiscipline tasks) LayerDuty me
        (fun w => Sweeping me inUse store w ∧
          Swept inUse id current store.dir (store, 0) (store.serials id))
        (Proc.fold (gcSerial inUse id current) (store, 0) (store.serials id))
        (ends (fun acc w => Sweeping me inUse acc.1 w ∧
          Swept inUse id current store.dir acc []) (fun _ _ => False)) :=
      Triple.fold (J := fun acc left w => Sweeping me inUse acc.1 w ∧
          Swept inUse id current store.dir acc left) (c := (store, 0))
        (fun acc serial left => triple_gcSerial hme acc serial left)
    refine .procBind (hloop.pre fun w h => ⟨h, rfl, hlink, fun _ _ serial hs =>
      .inl (ImageStore.mem_serials hs)⟩) fun acc => .given fun hswept => ?_
    split
    · rename_i hempty
      obtain ⟨hzero, hcurrent⟩ := Bool.and_eq_true_iff.mp hempty
      refine (triple_removeTree ?_).imp (fun _ _ _ h => h.1) fun _ _ _ h => h
      intro id' serial _ hhas hgone
      have hid : id' = id := by
        by_contra hne
        exact hgone (ImageStore.has_removeImage hhas hne)
      subst hid
      rcases hswept.unused (by simpa using hzero) (by simpa using hcurrent) serial hhas with
        hmem | hun
      · cases hmem
      · rwa [ImageStore.serialPath, hswept.same]
    · exact .ret fun _ _ h => h

theorem triple_gcImage {inUse : List Path} (store : ImageStore) (id : String) :
    Triple (layerDiscipline tasks) LayerDuty me (Sweeping me inUse store)
      (gcImage inUse store id)
      (ends (fun s => Sweeping me inUse s) (fun _ _ => False)) := by
  unfold gcImage
  split
  · rename_i hstaging
    -- the name of a staging directory is not that of an image
    refine (triple_removeTree ?_).imp (fun _ _ _ h => h.1) fun _ _ _ h => h
    intro id' serial hvalid hhas hgone
    have hid : id' = id := by
      by_contra hne
      exact hgone (ImageStore.has_removeImage hhas hne)
    subst hid
    exact absurd hvalid (by simp [not_validId_staging hstaging])
  · refine .procBind (triple_stat hme "is_dir") fun isDir => .given fun _ => ?_
    split
    · exact .ret fun _ _ h => h
    · exact triple_gcSerials hme store id

theorem triple_gc (inUse : List Path) :
    Triple (layerDiscipline tasks) LayerDuty me
      (Scanning me Record.lower (fun _ => True) inUse []) (gc inUse)
      (fun _ w => Holds me .alloc w) := by
  refine .procBind (R := fun store => Sweeping me inUse store) ?_ fun store => ?_
  · refine .perform fun w i _ h _ _ => ?_
    refine ⟨freeDuty_layer _ w trivial, ?_⟩
    show ends _ _ (do i.check; pure w.images) w
    cases i.check with
    | error e => exact h.alloc
    | ok u => exact ⟨⟨h.alloc, rfl⟩, h.alloc, h.covers⟩
  · have hloop : Triple (layerDiscipline tasks) LayerDuty me (Sweeping me inUse store)
        (Proc.fold (gcImage inUse) store store.images.keys)
        (ends (fun s => Sweeping me inUse s) (fun _ _ => False)) :=
      Triple.fold (J := fun s _ => Sweeping me inUse s) (fun s id _ => triple_gcImage hme s id)
    exact .step hloop fun s => .ret fun _ _ h => h.alloc

theorem triple_gcImages :
    Dutiful (layerDiscipline tasks) LayerDuty me gcImages := by
  refine triple_alloc freeDuty_layer (fun _ _ _ => trivial) (fun _ _ _ => trivial) ?_
  refine .procBind (R := fun recs => Scanning me Record.lower (fun _ => True)
    (recs.map (·.lower)) []) ?_ fun recs => ?_
  · refine .attemptBind (triple_records (g := Record.lower) freeDuty_layer
      (readsRecords_layer hme)) fun r => ?_
    cases r with
    | ok recs => exact .ret fun _ _ h => h
    | error e =>
      intro w hw
      exact absurd hw.2 (not_listingFails hme)
  · refine .attemptBind (triple_gc hme _) fun r => ?_
    exact .ret fun _ _ h => ⟨trivial, h⟩

end Collect

section Uses

variable {φ : Act → Prop} (hq : ∀ q, φ (.query q)) (hi : ∀ s, φ (.host (.images s)))
include hq

theorem uses_stat (what : String) : Prog.Uses φ (stat what) := by
  refine uses_bind (uses_attempt (uses_helper hq _)) fun r => ?_
  cases r <;> trivial

include hi

theorem uses_removeTree (store next : ImageStore) : Prog.Uses φ (removeTree store next) := by
  refine uses_bind (uses_attempt (uses_helper hq _)) fun r => ?_
  cases r with
  | ok u => exact uses_bind (uses_act (hi next)) fun _ => trivial
  | error e => trivial

theorem uses_gcSerial (inUse : List Path) (id : String) (current : Option String)
    (acc : ImageStore × Nat) (serial : String) :
    Prog.Uses φ (gcSerial inUse id current acc serial) := by
  unfold gcSerial
  split
  · trivial
  · refine uses_bind (uses_stat hq _) fun isDir => ?_
    split
    · trivial
    · split
      · trivial
      · exact uses_bind (uses_removeTree hq hi _ _) fun _ => trivial

theorem uses_gcSerials (inUse : List Path) (store : ImageStore) (id : String) :
    Prog.Uses φ (gcSerials inUse store id) := by
  refine uses_bind (.perform (hq _)) fun current => ?_
  refine uses_bind (uses_stat hq _) fun listed => ?_
  split
  · trivial
  · refine uses_bind (uses_fold (uses_gcSerial hq hi inUse id current)) fun acc => ?_
    split
    · exact uses_removeTree hq hi _ _
    · trivial

theorem uses_gcImage (inUse : List Path) (store : ImageStore) (id : String) :
    Prog.Uses φ (gcImage inUse store id) := by
  unfold gcImage
  split
  · exact uses_removeTree hq hi _ _
  · refine uses_bind (uses_stat hq _) fun isDir => ?_
    split
    · trivial
    · exact uses_gcSerials hq hi inUse store id

theorem uses_gcImages (ha : φ (.acquire .alloc)) (hr : φ (.release .alloc)) :
    Prog.Uses φ gcImages := by
  refine uses_bracket ha hr (uses_bind (uses_recordsOrDefault hq) fun recs => ?_)
  refine uses_ignore (uses_bind (.perform (hq _)) fun store => ?_)
  exact uses_bind (uses_fold (uses_gcImage hq hi _)) fun _ => trivial

end Uses

end Tasks

theorem taskPool_safe (rt : Runtime) {w : World} {tasks : Pid → Task} (hw : w.Stored)
    (htasks : ∀ p, (tasks p).leavesImages) :
    (taskPool rt w tasks).Safe (layerDiscipline tasks) (fun _ _ _ => True) := by
  refine ⟨hw, fun p => ?_⟩
  show Safe _ _ p _ ((tasks p).prog rt) w
  cases hp : tasks p with
  | op o =>
    have hleaves := htasks p
    rw [hp] at hleaves
    refine safe_of_locks rfl (fun _ h => h) (Op.follows_locks p rt hleaves.1) ?_ w
    refine triple_op (taskDuties_layer rt) hleaves.1 fun es hes => ?_
    refine triple_host_mem ?_
    intro e he w _
    refine layerDuty_of_ne (by simp) (fun s hs => ?_) w
    cases hs
    exact hleaves.2 es hes s he
  | gcImages =>
    refine safe_of_locks rfl (fun _ h => h) ?_ ?_ w
    · refine .bind (R := fun _ _ => True) (Triple.of_uses ?_) fun _ => Dutiful.ret
      have hfine : ∀ {e : Act}, (∀ w, e.guarded p w) →
          Fine lockDiscipline lockDuty p (fun _ => True) e :=
        fun h w _ _ _ _ _ => ⟨h w, trivial⟩
      exact uses_gcImages (fun _ => hfine fun _ => trivial) (fun _ => hfine fun _ => trivial)
        (hfine fun _ => trivial) (hfine fun _ => trivial)
    · exact .bind (triple_gcImages hp) fun _ => Dutiful.ret

/-- A step in which a serial directory disappears: it is the layer of no instance whose
directory exists, also if its record is gone. -/
theorem gc_spares_layers (rt : Runtime) (w : World) (tasks : Pid → Task) (hw : w.Stored)
    (htasks : ∀ p, (tasks p).leavesImages) {P P' : Pool World Oracle Act}
    (hrun : Pool.Run agent (GcReads tasks) (taskPool rt w tasks) P)
    (hstep : Pool.Step agent (GcReads tasks) P P') {id serial : String}
    (hid : validId id = true) (hhas : P.mem.images.Has id serial)
    (hgone : ¬ P'.mem.images.Has id serial) {vm : VmId} {rec : Record}
    (hrec : P.mem.lastRecord vm = some rec) :
    ¬ P.mem.images.serialPath id serial <+: rec.lower := by
  have hsafe := Pool.run_safe (taskPool_safe rt hw htasks) hrun
  obtain ⟨⟨p, e, i, -, hmay, -, hmem⟩, -⟩ := hsafe.step hstep
  rw [hmem] at hgone
  rcases e.apply_images p P.mem i with hsame | ⟨s, rfl, himages⟩
  · exact absurd (hsame ▸ hhas) hgone
  · rw [agent_apply, himages] at hgone
    exact (hmay.2.images s rfl).2 id serial hid hhas hgone vm rec hrec

namespace SmallNode

/-- Three versions of one image, of which the third is current. -/
def versions : ImageStore where
  images := AList.singleton "alpine"
    { current := some "3"
      serials := ((AList.singleton "3" ⟨.ok alpine⟩).insert "2" ⟨.ok alpine⟩).insert "1"
        ⟨.ok alpine⟩ }

/-- The record of an instance built on the second version. -/
def recordSecond : Record := { recordA with lower := ["alpine", "2", "rootfs"] }

/-- The node with that instance; the record may be damaged. -/
def versioned (readable : Bool) : World :=
  { world recordSecond readable with images := versions }

/-- Only the collection. -/
def collecting : Pid → Task
  | 0 => .gcImages
  | _ => .op .idle

theorem stored_versioned (readable : Bool) : (versioned readable).Stored := by
  have hid : recordSecond.id = vmA := rfl
  exact fun id rec h => stored_world hid readable id rec h

/-- The first version is removed, on which no instance is built. -/
theorem gc_spares_layers_first : ∃ P P' : Pool World Oracle Act,
    P.mem.images.Has "alpine" "1" ∧ ¬ P'.mem.images.Has "alpine" "1" ∧
      ∃ rec, P.mem.lastRecord vmA = some rec ∧
        ¬ P.mem.images.serialPath "alpine" "1" <+: rec.lower := by
  have htasks : ∀ p, (collecting p).leavesImages := by
    rintro (_ | p)
    · trivial
    · exact ⟨by simp, by simp⟩
  have hrun : ∃ P P', Pool.Run agent (GcReads collecting)
      (taskPool rt (versioned true) collecting) P ∧ Pool.Step agent (GcReads collecting) P P' ∧
      P.mem.images.Has "alpine" "1" ∧ ¬ P'.mem.images.Has "alpine" "1" ∧
      (P.mem.lastRecord vmA).isSome :=
    Pool.exists_run_step (steps 0 9) (0, calm) (by decide +kernel)
  obtain ⟨P, P', hrun, hstep, hhas, hgone, hsome⟩ := hrun
  obtain ⟨rec, hrec⟩ := Option.isSome_iff_exists.mp hsome
  exact ⟨P, P', hhas, hgone, rec, hrec, gc_spares_layers rt _ _ (stored_versioned true) htasks
    hrun hstep (by decide) hhas hgone hrec⟩

/-- The record of the instance cannot be read: its layer is removed. -/
theorem layer_of_damaged_removed : ∃ P P' : Pool World Oracle Act,
    Pool.Run agent anyStep (taskPool rt (versioned false) collecting) P ∧
      Pool.Step agent anyStep P P' ∧ P.mem.images.Has "alpine" "2" ∧
      ¬ P'.mem.images.Has "alpine" "2" ∧
      ∃ rec, P.mem.record vmA = some rec ∧ P.mem.images.serialPath "alpine" "2" <+: rec.lower :=
  Pool.exists_run_step (p := fun (P P' : Pool World Oracle Act) => P.mem.images.Has "alpine" "2" ∧
      ¬ P'.mem.images.Has "alpine" "2" ∧ ∃ rec ∈ P.mem.record vmA,
        P.mem.images.serialPath "alpine" "2" <+: rec.lower) (steps 0 12) (0, calm)
    (by decide +kernel)

end SmallNode

end RunmanAgent
