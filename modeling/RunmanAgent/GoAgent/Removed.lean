import RunmanAgent.GoAgent.Sections

/-!
# Removed port forwards stay removed

A removal looks for the rule among the active mappings only, and a reconcile loop adds the rules
of a listing of the table that may be older than the removal. So a removed rule comes back when
it was only in the table, or when the loop has read it before. `Fits` leaves this out
(`removed_stays_removed`).
-/

namespace RunmanAgent.GoAgent

open Concurrency Proc

section Calls

variable {c : Call} {v : String}

/-- Only loops hold the mutex. -/
def LoopsOnly (s : State) : Prop :=
  ∀ p why, s.holder = some (p, why) → p ≠ 0 ∧ ∃ r, why = .add r false

variable {s s' : State} {k : PortKey}

theorem loopsOnly_of_free (h : s.holder = none) : LoopsOnly s := by
  intro p why hh
  rw [h] at hh
  cases hh

theorem LoopsOnly.step (h : LoopsOnly s) (hstep : LoopStep c s s') : LoopsOnly s' := by
  cases hstep with
  | lock hp =>
    rintro p why ⟨⟩
    exact ⟨hp, _, rfl⟩
  | unlock hp hh => exact loopsOnly_of_free rfl
  | _ => exact h

/-- The call reads the mappings while nobody holds the mutex. -/
theorem LoopsOnly.free (h : LoopsOnly s) (hread : s.readable 0 = true) : s.holder = none := by
  cases hh : s.holder with
  | none => rfl
  | some x =>
    obtain ⟨p, why⟩ := x
    rw [State.readable, hh] at hread
    exact absurd (beq_iff_eq.mp hread).symm (h p why hh).1

def Idle (s : State) : Prop := LoopsOnly s ∧ NotYet s

instance stable_loopsOnly : Stable (discipline c) 0 LoopsOnly :=
  stable_of_loopStep fun h hstep => h.step hstep

instance stable_idle : Stable (discipline c) 0 Idle := Stable.and

theorem removed_answers (vmId : String) (k : PortKey) (s : State) :
    (removed vmId k s).answers = s.answers ∧ (removed vmId k s).holder = s.holder := by
  unfold removed
  split <;> exact ⟨rfl, rfl⟩

theorem lookup_removed {k' : PortKey} {e : Entry}
    (h : (removed v k s).mappings.lookup (v, k') = some e) :
    k' ≠ k ∧ s.mappings.lookup (v, k') = some e := by
  unfold removed at h
  split at h
  · obtain ⟨hne, hk⟩ := lookup_of_lookup_erase h
    exact ⟨fun heq => hne (heq ▸ rfl), hk⟩
  · rename_i hmem
    refine ⟨fun heq => hmem ?_, h⟩
    subst heq
    exact AList.lookup_isSome.mp (Option.isSome_iff_exists.mpr ⟨e, h⟩)

theorem idle_removed {vmId : String} (hfree : s.holder = none) (h : Idle s) :
    Idle (removed vmId k s) := by
  obtain ⟨hans, hhold⟩ := removed_answers vmId k s
  refine ⟨loopsOnly_of_free (hhold.trans hfree), ?_⟩
  unfold NotYet
  rw [hans]
  exact h.2

/-! ## The rules of a VM -/

/-- On the keys `D`, the mappings and the rows of the VM agree. -/
structure AgreeOn (D : PortKey → Prop) (v : String) (s : State) : Prop where
  row : ∀ k e, D k → s.mappings.lookup (v, k) = some e →
    ∃ row, s.rows.lookup k = some row ∧ row.vmId = v ∧ e.Is row
  mapping : ∀ k row, D k → s.rows.lookup k = some row → row.vmId = v →
    ∃ e, s.mappings.lookup (v, k) = some e ∧ e.Is row

/-- No loop is about to change that. -/
structure InSync (D : PortKey → Prop) (v : String) (s : State) : Prop extends AgreeOn D v s where
  loops : LoopsOnly s
  adding : ∀ {p r row}, s.holder = some (p, .add r false) → D r.toPortKey → row.vmId = v →
    (s.rows.lookup r.toPortKey = some row ↔ r.toRow = row)

variable {D : PortKey → Prop}

theorem AgreeOn.congr (h : AgreeOn D v s)
    (hm : ∀ k, D k → s'.mappings.lookup (v, k) = s.mappings.lookup (v, k))
    (hr : ∀ k row, D k → row.vmId = v →
      (s'.rows.lookup k = some row ↔ s.rows.lookup k = some row)) : AgreeOn D v s' := by
  constructor
  · intro k e hk he
    obtain ⟨row, hrow, hv, his⟩ := h.row k e hk ((hm k hk).symm.trans he)
    exact ⟨row, (hr k row hk hv).mpr hrow, hv, his⟩
  · intro k row hk hrow hv
    obtain ⟨e, he, his⟩ := h.mapping k row hk ((hr k row hk hv).mp hrow) hv
    exact ⟨e, (hm k hk).trans he, his⟩

theorem AgreeOn.inSync (h : AgreeOn D v s) (hfree : s.holder = none) : InSync D v s :=
  ⟨h, loopsOnly_of_free hfree, fun hh => (by cases hfree.symm.trans hh)⟩

/-- The rule that a loop adds is active already. -/
theorem InSync.active (h : InSync D v s) {p : Pid} {r : Rule}
    (hh : s.holder = some (p, .add r false)) (hk : D r.toPortKey) (hv : r.vmId = v) :
    ∃ e, s.mappings.lookup (r.vmId, r.toPortKey) = some e ∧ e.Is r.toRow := by
  obtain ⟨e, he, his⟩ := h.mapping _ _ hk ((h.adding hh hk hv).mpr rfl) hv
  exact ⟨e, hv ▸ he, his⟩

theorem InSync.step (h : InSync D v s) (hstep : LoopStep c s s') :
    InSync D v s' ∧ ∀ k, D k → s'.mappings.lookup (v, k) = s.mappings.lookup (v, k) := by
  have hloops := h.loops.step hstep
  have hagree : AgreeOn D v s := h.toAgreeOn
  cases hstep with
  | quiet => exact ⟨h, fun _ _ => rfl⟩
  | @lock p r hp hfree hrow hdel =>
    refine ⟨⟨hagree.congr (fun _ _ => rfl) fun _ _ _ _ => .rfl, hloops, fun hh _ _ => ?_⟩,
      fun _ _ => rfl⟩
    cases hh
    rw [hrow, Option.some.injEq]
  | unlock hp hh =>
    exact ⟨AgreeOn.inSync (hagree.congr (fun _ _ => rfl) fun _ _ _ _ => .rfl) rfl, fun _ _ => rfl⟩
  | @close p r e hp hh hact hne =>
    have hm : ∀ k, D k → (s.mappings.erase (r.vmId, r.toPortKey)).lookup (v, k) =
        s.mappings.lookup (v, k) := by
      refine fun k hk => AList.lookup_erase_ne fun heq => ?_
      obtain ⟨hv, rfl⟩ := Prod.mk.inj heq
      obtain ⟨e', he', his⟩ := h.active hh hk hv.symm
      cases hact.symm.trans he'
      exact hne his
    exact ⟨⟨hagree.congr hm fun _ _ _ _ => .rfl, hloops, h.adding⟩, hm⟩
  | @append p r e hp hh hact =>
    have hm : ∀ k, D k → (s.mappings.insert (r.vmId, r.toPortKey) e).lookup (v, k) =
        s.mappings.lookup (v, k) := by
      refine fun k hk => AList.lookup_insert_ne fun heq => ?_
      obtain ⟨hv, rfl⟩ := Prod.mk.inj heq
      obtain ⟨e', he', -⟩ := h.active hh hk hv.symm
      cases hact.symm.trans he'
    exact ⟨⟨hagree.congr hm fun _ _ _ _ => .rfl, hloops, h.adding⟩, hm⟩
  | @delete p r hp hh hact =>
    have hr : ∀ k row, D k → row.vmId = v →
        ((s.rows.erase r.toPortKey).lookup k = some row ↔ s.rows.lookup k = some row) := by
      intro k row hk hv
      refine ⟨fun hrow => (lookup_of_lookup_erase hrow).2, fun hrow => ?_⟩
      refine (AList.lookup_erase_ne ?_).trans hrow
      rintro rfl
      obtain rfl := (h.adding hh hk hv).mp hrow
      obtain ⟨e', he', -⟩ := h.active hh hk hv
      cases hact.symm.trans he'
    exact ⟨⟨hagree.congr (fun _ _ => rfl) hr, hloops,
      fun hh hk hv => (hr _ _ hk hv).trans (h.adding hh hk hv)⟩, fun _ _ => rfl⟩
  | @save p r e hp hh hact his =>
    have hr : ∀ k row, D k → row.vmId = v →
        ((s.rows.insert r.toPortKey r.toRow).lookup k = some row ↔ s.rows.lookup k = some row) := by
      intro k row hk hv
      by_cases heq : k = r.toPortKey
      · subst heq
        rw [AList.lookup_insert, Option.some.injEq, h.adding hh hk hv]
      · rw [AList.lookup_insert_ne heq]
    exact ⟨⟨hagree.congr (fun _ _ => rfl) hr, hloops,
      fun hh hk hv => (hr _ _ hk hv).trans (h.adding hh hk hv)⟩, fun _ _ => rfl⟩

/-- What the call removes is neither active nor in the table. -/
def Gone (c : Call) (s : State) : Prop :=
  InSync c.Drops c.vm s ∧ ∀ k, c.Drops k → s.mappings.lookup (c.vm, k) = none

instance stable_gone : Stable (discipline c) 0 (Gone c) := by
  refine stable_of_loopStep fun {s s'} hs hstep => ?_
  obtain ⟨hsync, hm⟩ := hs.1.step hstep
  exact ⟨hsync, fun k hk => (hm k hk).trans (hs.2 k hk)⟩

theorem Gone.row (h : Gone c s) (hk : c.Drops k) (row : Row) (hrow : s.rows.lookup k = some row) :
    row.vmId ≠ c.vm := by
  intro hv
  obtain ⟨e, he, -⟩ := h.1.mapping k row hk hrow hv
  cases (h.2 k hk).symm.trans he

theorem Gone.of_loops (hloops : LoopsOnly s)
    (hadd : ∀ {p r}, s.holder = some (p, .add r false) → r.vmId ≠ c.vm)
    (hm : ∀ k, c.Drops k → s.mappings.lookup (c.vm, k) = none)
    (hr : ∀ k, c.Drops k → ∀ row, s.rows.lookup k = some row → row.vmId ≠ c.vm) : Gone c s := by
  refine ⟨⟨⟨fun k _ hk he => ?_, fun k row hk hrow hv => ?_⟩, hloops, fun hh hk hv => ?_⟩, hm⟩
  · cases (hm k hk).symm.trans he
  · exact absurd hv (hr k hk row hrow)
  · refine ⟨fun hrow => absurd hv (hr _ hk _ hrow), fun heq => absurd ?_ (hadd hh)⟩
    exact (congrArg Row.vmId heq).trans hv

/-! ## `RemoveMapping` -/

theorem gone_removed (hfree : s.holder = none)
    (hrow : ∀ row, s.rows.lookup k = some row → row.vmId = v → (v, k) ∈ s.mappings) :
    Gone (.remove v k) (removed v k s) := by
  have hfree' := (removed_answers v k s).2.trans hfree
  refine .of_loops (loopsOnly_of_free hfree') (fun hh => by cases hfree'.symm.trans hh) ?_ ?_
  · rintro k' rfl
    unfold removed
    split
    · exact AList.lookup_erase ..
    · exact AList.lookup_eq_none.mpr ‹_›
  · rintro k' rfl row hr hv
    unfold removed at hr
    split at hr
    · rw [show (s.rows.erase k').lookup k' = none from AList.lookup_erase ..] at hr
      cases hr
    · exact ‹(v, k') ∉ s.mappings› (hrow row hr hv)

theorem triple_remove (k : PortKey) :
    Does (.remove v k) 0 Idle (removeMapping v k)
      (ends (fun _ => Gone (.remove v k)) (fun _ _ => False)) := by
  refine triple_removeMapping fun s i hfree _ hok => ?_
  exact gone_removed hfree (hok rfl)

/-! ## `DeleteVM` -/

/-- The call has copied the mappings of the VM; those still active are among `rest`, and no loop
is adding another. -/
structure Closing (v : String) (rest : List PortKey) (s : State) : Prop where
  idle : Idle s
  copied : s.copied = true
  others : ∀ {p r}, s.holder = some (p, .add r false) → r.vmId ≠ v
  left : ∀ k e, s.mappings.lookup (v, k) = some e → k ∈ rest

instance stable_closing (rest : List PortKey) :
    Stable (discipline (.delete v)) 0 (Closing v rest) := by
  refine stable_of_loopStep fun {s s'} hs hstep => ?_
  have hloops := hs.idle.1.step hstep
  cases hstep with
  | quiet => exact hs
  | lock hp hfree hrow hdel =>
    refine ⟨⟨hloops, hs.idle.2⟩, hs.copied, fun hh hv => ?_, hs.left⟩
    cases hh
    cases (hdel (by rw [hv])).symm.trans hs.copied
  | unlock hp hh => exact ⟨⟨hloops, hs.idle.2⟩, hs.copied, nofun, hs.left⟩
  | close hp hh hact hne =>
    exact ⟨⟨hloops, hs.idle.2⟩, hs.copied, hs.others,
      fun k e hk => hs.left k e (lookup_of_lookup_erase hk).2⟩
  | append e hp hh hact =>
    refine ⟨⟨hloops, hs.idle.2⟩, hs.copied, hs.others, fun k e' hk => hs.left k e' ?_⟩
    refine (AList.lookup_insert_ne fun heq => ?_).symm.trans hk
    exact hs.others hh (congrArg Prod.fst heq).symm
  | delete hp hh hact => exact ⟨⟨hloops, hs.idle.2⟩, hs.copied, hs.others, hs.left⟩
  | save hp hh hact his => exact ⟨⟨hloops, hs.idle.2⟩, hs.copied, hs.others, hs.left⟩

theorem closing_removed {rest : List PortKey} (hfree : s.holder = none)
    (h : Closing v (k :: rest) s) : Closing v rest (removed v k s) := by
  have hfree' := (removed_answers v k s).2.trans hfree
  refine ⟨idle_removed hfree h.idle, ?_, fun hh => (by cases hfree'.symm.trans hh), ?_⟩
  · unfold removed
    split <;> exact h.copied
  · intro k' e hk
    obtain ⟨hne, hk⟩ := lookup_removed hk
    exact (List.mem_cons.mp (h.left k' e hk)).resolve_left hne

theorem triple_delete :
    Does (.delete v) 0 Idle (deleteVM v) (ends (fun _ => Gone (.delete v)) (fun _ _ => False)) := by
  have hunguarded : ∀ {e : Act} {s : State}, e.guarded = false → May 0 e s := by
    intro e s he
    refine may_mine.mpr fun hg => ?_
    rw [he] at hg
    cases hg
  refine .procBind (R := fun entries => Closing v entries) ?_ fun entries => ?_
  · refine .perform fun s i _ hs hen _ => ⟨hunguarded rfl, ?_⟩
    have hfree := hs.1.free hen
    refine ⟨hs, rfl, fun hh => (by cases hfree.symm.trans hh), fun k e hk => ?_⟩
    exact mem_active.mpr (AList.lookup_isSome.mp (Option.isSome_iff_exists.mpr ⟨e, hk⟩))
  · refine .procBind (R := fun _ => Closing v [])
      (Triple.forEachRest (P := Closing v) fun k rest => ?_) fun _ => ?_
    · exact triple_removeMapping fun s i hfree hs _ => closing_removed hfree hs
    · refine .procBind (R := fun _ => Gone (.delete v)) ?_ fun _ => ?_
      · refine .perform fun s i _ hs _ hok => ⟨hunguarded rfl, ?_⟩
        have hfail : i.fail = none := hok
        refine .of_loops hs.idle.1 hs.others (fun k _ => ?_) fun k _ row hrow => ?_
        · exact Option.eq_none_iff_forall_ne_some.mpr fun e he => by cases hs.left k e he
        · simp only [machine_apply, State.apply, hfail] at hrow
          have hrow' : (s.rows.retain fun _ row => row.vmId ≠ v).lookup k = some row := hrow
          rw [AList.lookup_retain] at hrow'
          exact of_decide_eq_true (Option.filter_eq_some_iff.mp hrow').2
      · refine .procBind (R := fun _ => Gone (.delete v)) ?_ fun _ => ?_
        · refine .perform fun s i _ hs _ _ => ⟨hunguarded rfl, ?_⟩
          show Gone (.delete v) (s.apply 0 i (.deleteIPLimitRow v))
          rw [State.apply]
          split <;> exact ⟨{ hs.1 with }, hs.2⟩
        · refine .perform fun s i _ hs _ _ => ⟨hunguarded rfl, ?_⟩
          exact ⟨{ hs.1 with }, hs.2⟩

/-! ## `SyncForVM` -/

/-- All mappings and rows of the VM agree. -/
abbrev AllInSync (v : String) (s : State) : Prop := InSync (fun _ => True) v s

/-- The rules of the VM are in step, and its mappings satisfy `T`. -/
def SyncedTo (v : String) (T : (PortKey → Option Entry) → Prop) (s : State) : Prop :=
  AllInSync v s ∧ T fun k => s.mappings.lookup (v, k)

instance stable_syncedTo (T : (PortKey → Option Entry) → Prop) :
    Stable (discipline c) 0 (SyncedTo v T) := by
  refine stable_of_loopStep fun {s s'} hs hstep => ?_
  obtain ⟨hsync, hm⟩ := hs.1.step hstep
  exact ⟨hsync, (funext fun k => hm k trivial : (fun k => s'.mappings.lookup (v, k)) = _) ▸ hs.2⟩

def Syncing (v : String) (T : (PortKey → Option Entry) → Prop) (s : State) : Prop :=
  SyncedTo v T s ∧ NotYet s

instance stable_syncing (T : (PortKey → Option Entry) → Prop) :
    Stable (discipline c) 0 (Syncing v T) := Stable.and

theorem inSync_removed (hfree : s.holder = none) (h : AllInSync v s) (k : PortKey) :
    AllInSync v (removed v k s) := by
  refine AgreeOn.inSync ?_ ((removed_answers v k s).2.trans hfree)
  unfold removed
  split
  · constructor
    · intro k' e _ hk
      obtain ⟨hne, hk⟩ := lookup_of_lookup_erase hk
      obtain ⟨row, hrow, hrest⟩ := h.row k' e trivial hk
      have hne' : k' ≠ k := fun heq => hne (heq ▸ rfl)
      exact ⟨row, (AList.lookup_erase_ne hne').trans hrow, hrest⟩
    · intro k' row _ hrow hv
      obtain ⟨hne, hrow⟩ := lookup_of_lookup_erase hrow
      obtain ⟨e, he, his⟩ := h.mapping k' row trivial hrow hv
      exact ⟨e, (AList.lookup_erase_ne fun heq => hne (congrArg Prod.snd heq)).trans he, his⟩
  · exact h.toAgreeOn

theorem inSync_put {r : Rule} (h : AllInSync r.vmId s) (hput : Put r s s') :
    AllInSync r.vmId s' := by
  obtain ⟨e₀, hadded, his₀⟩ := hput.added
  refine AgreeOn.inSync ⟨?_, ?_⟩ hput.free
  · intro k e _ hk
    by_cases heq : k = r.toPortKey
    · subst heq
      cases hadded.symm.trans hk
      exact ⟨_, hput.saved, rfl, his₀⟩
    · rw [hput.mapping _ fun h => heq (congrArg Prod.snd h)] at hk
      obtain ⟨row, hrow, hrest⟩ := h.row k e trivial hk
      exact ⟨row, (hput.row k heq).trans hrow, hrest⟩
  · intro k row _ hrow hv
    by_cases heq : k = r.toPortKey
    · subst heq
      cases hput.saved.symm.trans hrow
      exact ⟨e₀, hadded, his₀⟩
    · rw [hput.row k heq] at hrow
      obtain ⟨e, he, his⟩ := h.mapping k row trivial hrow hv
      exact ⟨e, (hput.mapping _ fun h => heq (congrArg Prod.snd h)).trans he, his⟩

section Sync

variable {desired : List DesiredRule}

theorem nodup_of_precheck {legacy seen : List PortKey} {ds : List DesiredRule}
    (h : precheck legacy seen ds = .ok ()) :
    (ds.map (·.toPortKey)).Nodup ∧ ∀ d ∈ ds, d.toPortKey ∉ seen := by
  induction ds generalizing seen with
  | nil => exact ⟨List.nodup_nil, nofun⟩
  | cons d ds ih =>
    rw [precheck] at h
    split at h
    · cases h
    · split at h
      · cases h
      · rename_i hseen
        have hrest : precheck legacy (d.toPortKey :: seen) ds = .ok () := by
          cases hhost : validateHostPort d.hostPort (decide (d.toPortKey ∈ legacy)) with
          | error e =>
            rw [hhost] at h
            cases h
          | ok _ =>
            rw [hhost] at h
            cases hguest : validateGuestPort d.guestPort with
            | error e =>
              rw [hguest] at h
              cases h
            | ok _ =>
              rwa [hguest] at h
        obtain ⟨hnodup, hfresh⟩ := ih hrest
        refine ⟨List.nodup_cons.mpr ⟨fun hmem => ?_, hnodup⟩, fun d' hd' => ?_⟩
        · obtain ⟨d', hd', heq⟩ := List.mem_map.mp hmem
          exact hfresh d' hd' (heq ▸ (.head _))
        · cases hd' with
          | head => exact hseen
          | tail _ hd' => exact fun hmem => hfresh d' hd' (.tail _ hmem)

/-- Every active rule is desired, or it is among those still to be looked at. -/
def OnlyWanted (desired : List DesiredRule) (rest : List PortKey) (m : PortKey → Option Entry) :
    Prop :=
  ∀ k e, m k = some e → wanted desired k = true ∨ k ∈ rest

theorem triple_dropUndesired (k : PortKey) (rest : List PortKey) :
    Does c 0 (Syncing v (OnlyWanted desired (k :: rest))) (dropUndesired v desired k)
      (ends (fun _ => Syncing v (OnlyWanted desired rest)) (fun _ => NotYet)) := by
  unfold dropUndesired
  split
  · rename_i hwanted
    refine .ret fun s _ hs => ⟨⟨hs.1.1, fun k' e hk => ?_⟩, hs.2⟩
    obtain hw | hmem := hs.1.2 k' e hk
    · exact .inl hw
    · cases hmem with
      | head => exact .inl hwanted
      | tail _ hmem => exact .inr hmem
  · refine (triple_removeMapping (B := Syncing v (OnlyWanted desired rest)) ?_).imp
      (fun _ _ _ hs => hs) fun _ _ _ hs => hs.elim
    intro s i hfree hs _
    have hfresh : NotYet (removed v k s) := by
      unfold NotYet
      rw [(removed_answers v k s).1]
      exact hs.2
    refine ⟨⟨inSync_removed hfree hs.1.1 k, fun k' e hk => ?_⟩, hfresh⟩
    obtain ⟨hne, hk⟩ := lookup_removed hk
    obtain hw | hmem := hs.1.2 k' e hk
    · exact .inl hw
    · exact .inr ((List.mem_cons.mp hmem).resolve_left hne)

/-- Every active rule is desired, and every desired rule is active or still to be added. -/
structure Matching (v : String) (desired rest : List DesiredRule) (m : PortKey → Option Entry) :
    Prop where
  sub : rest ⊆ desired
  only : ∀ k e, m k = some e → wanted desired k = true
  every : ∀ d ∈ desired, d ∈ rest ∨ ∃ e, m d.toPortKey = some e ∧ e.Is (d.rule v).toRow

theorem triple_addDesired (hnodup : (desired.map (·.toPortKey)).Nodup) (d : DesiredRule)
    (rest : List DesiredRule) :
    Does c 0 (Syncing v (Matching v desired (d :: rest)))
      (requestMapping (d.rule v))
      (ends (fun _ => Syncing v (Matching v desired rest)) (fun _ => NotYet)) := by
  refine triple_requestMapping (fun s hs => hs.2) ?_ ?_
  · intro s s' hfree hs hput
    have hfresh : NotYet s' := by
      unfold NotYet
      rw [hput.answers]
      exact hs.2
    obtain ⟨hsub, honly, hevery⟩ := hs.1.2
    have hd : d ∈ desired := hsub (.head _)
    refine ⟨⟨inSync_put hs.1.1 hput, ?_⟩, hfresh⟩
    refine ⟨fun x hx => hsub (.tail _ hx), fun k e hk => ?_, fun d' hd' => ?_⟩
    · by_cases heq : k = d.toPortKey
      · subst heq
        exact List.any_eq_true.mpr ⟨d, hd, decide_eq_true rfl⟩
      · exact honly k e ((hput.mapping _ fun h => heq (congrArg Prod.snd h)).symm.trans hk)
    · by_cases heq : d'.toPortKey = d.toPortKey
      · cases List.inj_on_of_nodup_map hnodup hd' hd heq
        exact .inr hput.added
      · obtain hmem | ⟨e, he, his⟩ := hevery d' hd'
        · exact .inl ((List.mem_cons.mp hmem).resolve_left fun h => heq (h ▸ rfl))
        · exact .inr ⟨e, (hput.mapping _ fun h => heq (congrArg Prod.snd h)).trans he, his⟩
  · intro s e hfree hs hact his
    obtain ⟨hsub, honly, hevery⟩ := hs.1.2
    refine ⟨⟨hs.1.1, fun x hx => hsub (.tail _ hx), honly, fun d' hd' => ?_⟩, hs.2⟩
    obtain hmem | hadded := hevery d' hd'
    · cases hmem with
      | head => exact .inr ⟨e, hact, his⟩
      | tail _ hmem => exact .inl hmem
    · exact .inr hadded

theorem triple_sync :
    Does (.sync v desired) 0 Idle (syncForVM v desired)
      (ends (fun _ => Syncing v (Matching v desired [])) (fun _ => NotYet)) := by
  refine triple_quiet_bind (uses_mapErr (.perform (quiet_of_reads rfl))) (fun _ s hs => hs.2)
    fun persisted => ?_
  refine .procBind (R := fun current => Syncing v (OnlyWanted desired current)) ?_
    fun current => ?_
  · refine .perform fun s i _ hs hen hok => ⟨may_mine.mpr nofun, ?_⟩
    have hagree : Agree v s := hok desired rfl
    have hon : AgreeOn (fun _ => True) v (s.apply 0 i (.copy v)) :=
      ⟨fun k e _ => hagree.row k e, fun k row _ => hagree.mapping k row⟩
    refine ⟨⟨hon.inSync (hs.1.free hen), fun k e hk => .inr ?_⟩, hs.2⟩
    exact mem_active.mpr (AList.lookup_isSome.mp (Option.isSome_iff_exists.mpr ⟨e, hk⟩))
  · cases hpre : precheck (legacy persisted current) [] desired with
    | error e => exact .ret fun s _ hs => hs.2
    | ok _ =>
      have hnodup := (nodup_of_precheck hpre).1
      refine .procBind (x := forEach (dropUndesired v desired) current)
        (Triple.forEachRest (P := fun rest => Syncing v (OnlyWanted desired rest))
          triple_dropUndesired) fun _ => ?_
      refine (Triple.forEachRest (P := fun rest => Syncing v (Matching v desired rest))
        (triple_addDesired hnodup)).pre fun s hs => ?_
      refine ⟨⟨hs.1.1, fun x hx => hx, fun k e hk => ?_, fun d hd => .inl hd⟩, hs.2⟩
      exact (hs.1.2 k e hk).resolve_right (by simp)

end Sync

/-! ## The loops -/

section Loops

variable {p : Pid} {r : Rule}

theorem may_theirs {e : Act} {s : State} (hp : p ≠ 0) (h : Theirs p e s) : May p e s :=
  ⟨fun h0 => absurd h0 hp, fun _ => h⟩

/-- A loop holds the mutex for the addition of the rule. -/
def Adds (p : Pid) (r : Rule) (P : Option Entry → Prop) (s : State) : Prop :=
  s.holder = some (p, .add r false) ∧ P (s.mappings.lookup (r.vmId, r.toPortKey))

instance stable_adds (P : Option Entry → Prop) : Stable (discipline c) p (Adds p r P) :=
  stable_adding p _ fun m => P (m.lookup (r.vmId, r.toPortKey))

theorem loop_establish (hp : p ≠ 0) :
    Does c p (Adds p r (· = none)) (establish r) (fun _ => Adds p r fun _ => True) := by
  have herror : ∀ s, Adds p r (· = none) s → Adds p r (fun _ => True) s := fun s hs =>
    ⟨hs.1, trivial⟩
  refine triple_quiet_bind (.perform (quiet_of_reads rfl)) (fun _ => herror) fun ip => ?_
  split
  · exact .ret fun s _ => herror s
  · refine triple_quiet_bind (.perform (quiet_of_reads rfl)) (fun _ => herror) fun _ => ?_
    refine .procBind (R := fun _ => Adds p r fun e => ∃ e', e = some e' ∧ e'.Is r.toRow) ?_
      fun _ => ?_
    · refine .perform fun s i _ hs _ _ => ?_
      exact ⟨may_theirs hp hs, hs.1, _, AList.lookup_insert _, rfl, rfl⟩
    · refine .perform fun s i _ hs _ _ => ?_
      refine ⟨may_theirs hp hs, ?_⟩
      show Adds p r _ (s.apply p i (.save r))
      rw [State.apply]
      split <;> exact ⟨hs.1, trivial⟩

theorem loop_limited (hp : p ≠ 0) (existing : Bool) :
    Does c p (Adds p r (· = none)) (admitted r false existing) (fun _ => Adds p r fun _ => True) :=
  triple_quiet_bind (uses_checkedLimit (quiet_of_reads rfl) (quiet_of_reads rfl) ..)
    (fun _ _ hs => ⟨hs.1, trivial⟩) fun _ => loop_establish hp

theorem loop_addLocked (hp : p ≠ 0) :
    Does c p (Adds p r fun _ => True) (addLocked r false) (fun _ => Adds p r fun _ => True) := by
  have hfind : ∀ P : Option Entry → Prop, Does c p (Adds p r P)
      (find r.vmId r.toPortKey) (ends (fun e => Adds p r fun e' => P e' ∧ e' = e)
        (fun _ => Adds p r fun _ => True)) := by
    intro P
    refine .perform fun s i _ hs _ _ => ?_
    exact ⟨(quiet_of_reads rfl p s).1, hs.1, hs.2, rfl⟩
  refine .procBind (hfind _) fun e => ?_
  cases e with
  | none => exact (loop_limited hp false).pre fun s hs => ⟨hs.1, hs.2.2⟩
  | some e =>
    dsimp only
    split
    · exact .ret fun s _ hs => ⟨hs.1, trivial⟩
    · rename_i hne
      refine .procBind (R := fun _ => Adds p r (· = none)) ?_ fun _ => loop_limited hp true
      refine .procBind ((hfind (· = some e)).pre fun s hs => ⟨hs.1, hs.2.2⟩) fun e' => ?_
      cases e' with
      | none =>
        refine .ret fun s _ hs => ?_
        exact ⟨hs.1, hs.2.2⟩
      | some e' =>
        refine .procBind (R := fun _ => Adds p r (· = none)) ?_ fun _ => ?_
        · refine .perform fun s i _ hs _ _ => ?_
          refine ⟨may_theirs hp ⟨r, e, hs.1, rfl, rfl, hs.2.1, hne⟩, hs.1, ?_⟩
          exact AList.lookup_erase ..
        · refine Triple.perform fun s i _ hs _ _ => ?_
          refine ⟨may_theirs hp ⟨r, hs.1, rfl, hs.2⟩, ?_⟩
          show Adds p r (· = none) (s.apply p i (.delete r.toPortKey))
          rw [State.apply]
          split <;> exact hs

theorem loop_addMapping (hp : p ≠ 0) : Dutiful (discipline c) May p (addMapping r false) := by
  obtain ⟨e, heq⟩ | ⟨-, -, heq⟩ := addMapping_cases r false
  · rw [heq]
    exact Triple.ret fun _ _ hs => hs
  · rw [heq]
    refine .bracket (B := Adds p r fun _ => True) ?_ (loop_addLocked hp) (fun a => ?_)
    · exact .perform fun s i _ _ _ _ => ⟨may_theirs hp rfl, rfl, trivial⟩
    · exact Triple.perform fun s i _ hs _ _ => ⟨may_theirs hp ⟨r, hs.1⟩, trivial⟩

theorem loop_reconcile (hp : p ≠ 0) : Dutiful (discipline c) May p reconcile := by
  refine .attemptBind (triple_quiet (.perform (quiet_of_reads rfl))) fun a => ?_
  cases a with
  | error _ => exact .ret fun _ _ hs => hs
  | ok all =>
    refine Dutiful.forEach fun r _ => Dutiful.seq
      (triple_quiet (uses_hasMapping (quiet_of_reads rfl))) fun active => ?_
    cases active with
    | true => exact Triple.ret fun _ _ hs => hs
    | false =>
      exact Triple.attemptBind (loop_addMapping hp) fun _ => Triple.ret fun _ _ hs => hs

theorem loop_reconcileLoop (hp : p ≠ 0) (n : Nat) :
    Dutiful (discipline c) May p (reconcileLoop n) := by
  induction n with
  | zero => exact Triple.ret fun _ _ hs => hs
  | succ n ih =>
    exact .seq (loop_reconcile hp) fun _ => ih

end Loops

/-! ## The answer of the call -/

/-- What the call has established when it is answered with success. -/
def Settled : Call → State → Prop
  | .sync v desired => SyncedTo v (Matching v desired [])
  | .remove v k => Gone (.remove v k)
  | .delete v => Gone (.delete v)

instance stable_settled : ∀ c, Stable (discipline c) 0 (Settled c)
  | .sync _ _ => stable_syncedTo _
  | .remove _ _ => stable_gone
  | .delete _ => stable_gone

theorem settled_answers (as : List (Pid × Option Err)) :
    ∀ {c}, Settled c s → Settled c { s with answers := as }
  | .sync _ _, h | .remove _ _, h | .delete _, h => ⟨{ h.1 with }, h.2⟩

theorem triple_code : ∀ c : Call, Does c 0 Idle c.code
    (ends (fun _ => Settled c) (fun _ => NotYet))
  | .sync _ _ => triple_sync.imp (fun _ _ _ hs => hs.1) fun _ _ _ hs => hs
  | .remove _ k => (triple_remove k).imp (fun _ _ _ hs => hs) fun _ _ _ hs => hs.elim
  | .delete _ => triple_delete.imp (fun _ _ _ hs => hs) fun _ _ _ hs => hs.elim

/-- Once the call has been answered with success, it has done its work. -/
def Answered (c : Call) (s : State) : Prop := (0, none) ∈ s.answers → Settled c s

instance stable_answered : Stable (discipline c) 0 (Answered c) where
  keep s s' hs hr hans := by
    have hsame : s'.answers = s.answers := by
      cases loopStep_of_other hr <;> rfl
    exact (stable_settled c).keep s s' (hs (hsame ▸ hans)) hr

theorem triple_answered : Does c 0 Idle (answered c.code) (fun _ => Answered c) := by
  refine .bind (triple_code c) fun a => ?_
  cases a with
  | ok _ =>
    refine .perform fun s i _ hs _ _ => ?_
    exact ⟨may_mine.mpr nofun, fun _ => settled_answers _ hs⟩
  | error e =>
    refine .perform fun s i _ hs _ _ => ?_
    refine ⟨may_mine.mpr nofun, fun hans => absurd ?_ hs⟩
    obtain heq | hmem := List.mem_cons.mp hans
    · cases heq
    · exact hmem

theorem pool_safe {ticks : Pid → Nat} (hfree : s.holder = none) (hnew : NotYet s) :
    (pool c ticks s).Safe (discipline c) (fun p _ s => p = 0 → Answered c s) := by
  refine ⟨trivial, fun p => ?_⟩
  show Safe _ _ p _ (if p = 0 then answered c.code else _) s
  split
  · rename_i hp
    subst hp
    exact (triple_answered s ⟨loopsOnly_of_free hfree, hnew⟩).mono fun _ _ _ hs _ => hs
  · rename_i hp
    have hloop : Dutiful (discipline c) May p
        (Prog.bind (reconcileLoop (ticks p)) fun _ => .ret ()) :=
      (loop_reconcileLoop hp (ticks p)).bind fun _ => .ret fun _ _ hs => hs
    exact (hloop s trivial).mono fun _ _ _ _ h0 => absurd h0 hp

theorem settled_rules : ∀ {c : Call} {s : State}, Settled c s →
    (∀ k, c.Drops k → s.mappings.lookup (c.vm, k) = none ∧
      ∀ row, s.rows.lookup k = some row → row.vmId ≠ c.vm) ∧
    ∀ desired, c = .sync c.vm desired → ∀ k row,
      (s.rows.lookup k = some row ∧ row.vmId = c.vm) ↔
        ∃ d ∈ desired, d.toPortKey = k ∧ (d.rule c.vm).toRow = row
  | .remove v k, s, h => ⟨fun k' hk => ⟨h.2 k' hk, Gone.row h hk⟩, nofun⟩
  | .delete v, s, h => ⟨fun k' hk => ⟨h.2 k' hk, Gone.row h hk⟩, nofun⟩
  | .sync v desired, s, ⟨hsync, hmatch⟩ => by
    have hgone : ∀ k, wanted desired k = false → s.mappings.lookup (v, k) = none := by
      intro k hk
      refine Option.eq_none_iff_forall_ne_some.mpr fun e he => ?_
      rw [hmatch.only k e he] at hk
      cases hk
    refine ⟨fun k hk => ⟨hgone k hk, fun row hrow hv => ?_⟩, ?_⟩
    · obtain ⟨e, he, -⟩ := hsync.mapping k row trivial hrow hv
      cases (hgone k hk).symm.trans he
    · rintro _ ⟨rfl⟩ k row
      constructor
      · rintro ⟨hrow, hv⟩
        obtain ⟨e, he, his⟩ := hsync.mapping k row trivial hrow hv
        obtain ⟨d, hd, hk⟩ := List.any_eq_true.mp (hmatch.only k e he)
        obtain hmem | ⟨e', he', his'⟩ := hmatch.every d hd
        · cases hmem
        · cases of_decide_eq_true hk
          cases he.symm.trans he'
          exact ⟨d, hd, rfl, his'.row_eq his hv.symm⟩
      · rintro ⟨d, hd, rfl, rfl⟩
        obtain hmem | ⟨e, he, his⟩ := hmatch.every d hd
        · cases hmem
        · obtain ⟨row, hrow, hv, his'⟩ := hsync.row d.toPortKey e trivial he
          cases his'.row_eq his hv
          exact ⟨hrow, rfl⟩

/-- What the call has removed stays removed: in every run whose steps satisfy `Fits`, once it has
been answered with success, none of the rules it removes is active or in the table, and after a
synchronisation the rows of the VM are the desired rules. -/
theorem removed_stays_removed {ticks : Pid → Nat} {s : State} {P : Pool State Input Act}
    (hfree : s.holder = none) (hnew : (0, none) ∉ s.answers)
    (hrun : Pool.Run machine (Fits c) (pool c ticks s) P) (hret : P.procs 0 = .ret ())
    (hok : (0, none) ∈ P.mem.answers) : (∀ k, c.Drops k → P.mem.mappings.lookup (c.vm, k) = none ∧
      ∀ row, P.mem.rows.lookup k = some row → row.vmId ≠ c.vm) ∧
    ∀ desired, c = .sync c.vm desired → ∀ k row,
      (P.mem.rows.lookup k = some row ∧ row.vmId = c.vm) ↔
        ∃ d ∈ desired, d.toPortKey = k ∧ (d.rule c.vm).toRow = row :=
  settled_rules ((Pool.run_safe (pool_safe hfree hnew) hrun).post hret rfl hok)

end Calls

/-- The key of the rule for the web server. -/
def webKey : PortKey := (web "a" "web").toPortKey

/-- Steps that remove an active rule, and additions of rules that are in the table. -/
def RemovesActive (_ : Pid) (e : Act) (s : State) (i : Input) : Prop :=
  i.fail = none ∧ match e with
    | .lock (.remove vmId k) => (vmId, k) ∈ s.mappings
    | .lock (.add r false) => s.rows.lookup r.toPortKey = some r.toRow
    | .lock _ | .copy _ => False
    | _ => True

instance (p : Pid) (e : Act) (s : State) (i : Input) : Decidable (RemovesActive p e s i) := by
  unfold RemovesActive
  split <;> infer_instance

theorem RemovesActive.fits {v : String} {k : PortKey} {p : Pid} {e : Act} {s : State} {i : Input}
    (h : RemovesActive p e s i) : Fits (.remove v k) p e s i := by
  obtain ⟨hfail, he⟩ := h
  cases e with
  | lock why =>
    cases why with
    | add r checkLimit =>
      cases checkLimit with
      | true => exact he.elim
      | false => exact ⟨he, nofun⟩
    | remove v k => exact fun _ _ _ _ => he
    | refresh v => exact he.elim
  | copy v => exact he.elim
  | deleteForVM v | save r | delete k => exact hfail
  | _ => trivial

/-- An active rule is removed; the next tick of the loop adds the rule of another VM that is in
the table. -/
theorem active_rule_removed : ∃ P, Pool.Run machine (Fits (.remove "a" webKey))
        (pool (.remove "a" webKey) (fun _ => 1)
          { webActive with rows := webActive.rows.insert shop.toPortKey shop.toRow }) P ∧
      P.procs 1 = .ret () ∧ ("b", shop.toPortKey) ∈ P.mem.mappings ∧
      P.mem.mappings.lookup ("a", webKey) = none ∧
      ∀ row, P.mem.rows.lookup webKey = some row → row.vmId ≠ "a" := by
  obtain ⟨P, hrun, hret, hloop, hshop, hans⟩ : ∃ P, Pool.Run machine RemovesActive
      (pool (.remove "a" webKey) (fun _ => 1)
        { webActive with rows := webActive.rows.insert shop.toPortKey shop.toRow }) P ∧
      P.procs 0 = .ret () ∧ P.procs 1 = .ret () ∧ ("b", shop.toPortKey) ∈ P.mem.mappings ∧
      P.mem.answers = [(0, none)] :=
    Pool.exists_run [(0, {}), (0, {}), (0, {}), (0, {}), (0, {}), (0, {}), (1, {}), (1, {}),
      (1, {}), (1, {}), (1, { ip := "10.0.0.3" }), (1, {}), (1, {}), (1, {}), (1, {})]
      (by decide +kernel)
  have hfits := hrun.mono fun _ _ _ _ h => RemovesActive.fits (v := "a") (k := webKey) h
  have hdone := removed_stays_removed rfl (by decide) hfits hret (hans ▸ List.mem_singleton_self _)
  exact ⟨P, hfits, hloop, hshop, hdone.1 webKey rfl⟩

/-- The VM is down and its rule only in the table when it is removed. The removal succeeds, the
row stays, and the loop brings the rule back when the VM is up. -/
theorem stored_rule_returns :
    ∃ P, Pool.Run machine anyStep (pool (.remove "a" webKey) (fun _ => 1) webStored) P ∧
      P.procs 0 = .ret () ∧ P.mem.answers = [(0, none)] ∧
      P.mem.mappings.lookup ("a", webKey) = some ⟨80, "10.0.0.2:80", "web"⟩ ∧
      P.mem.rows.lookup webKey = some (web "a" "web").toRow :=
  Pool.exists_run [(0, {}), (0, {}), (0, {}), (0, {}), (1, {}), (1, {}), (1, {}), (1, {}),
    (1, { ip := "10.0.0.2" }), (1, {}), (1, {}), (1, {}), (1, {})] (by decide +kernel)

end RunmanAgent.GoAgent
