import RunmanAgent.Addr
import RunmanAgent.Concurrency.Discipline
import RunmanAgent.GoAgent.WgBind

/-!
# Removed bindings stay removed

`Remove` and `DeleteVM` stop the tunnel and then delete the row. A `start` under way works on a
copy of the row: it may write the copy back and put a tunnel into the map afterwards, and
`Update` saves a row whether it is still there or not. `Fits` leaves this out: then no tunnel is
registered between the stop and the deletion (`removed_binding_gone`).
-/

namespace RunmanAgent.GoAgent.WgBind

open Concurrency Proc

inductive Call where
  | add (id vmId : String) (now : Nat) (cfg : WGBinding)
  | update (id : String) (cfg : WGBinding)
  | remove (id : String)
  | deleteVM (vmId : String)
  | restore (ticks : Nat)
  | retryLoop (ticks : Nat)

def Call.code (lib : Library) : Call → MProc Unit
  | .add id vmId now cfg => WgBind.add lib id vmId now cfg
  | .update id cfg => WgBind.update lib id cfg
  | .remove id => WgBind.remove id
  | .deleteVM vmId => WgBind.deleteVM vmId
  | .restore n => WgBind.restore lib n
  | .retryLoop n => WgBind.retryLoop lib n

/-- The call removes the binding: its row is one of the VM's when the calls begin. -/
def Call.Removes (id : String) (s : State) : Call → Prop
  | .remove k => k = id
  | .deleteVM vmId => ∃ b ∈ s.rows, b.id = id ∧ b.vmId = vmId
  | _ => False

def pool (lib : Library) (calls : Pid → Call) (s : State) : Pool State Input Act where
  mem := s
  procs p := Prog.bind ((calls p).code lib) fun _ => .ret ()

/-- A row or tunnel of the binding is only written while its row exists, and no tunnel of it is
registered between the stop and the deletion of a removal, whose database calls do not fail. -/
def Fits (id : String) (_ : Pid) (e : Act) (s : State) (i : Input) : Prop :=
  match e with
  | .save b => b.id = id → has s.rows id = true
  | .register b => b.id = id → has s.rows id = true ∧ ∀ x ∈ s.removing, id ∉ x.2
  | .delete k => k = id → i.fail = none
  | .deleteForVM _ | .listOf _ => i.fail = none
  | _ => True

instance (id : String) (p : Pid) (e : Act) (s : State) (i : Input) :
    Decidable (Fits id p e s i) := by
  unfold Fits
  split <;> infer_instance

variable {id : String} {l : List WGBinding}

theorem has_iff : has l id = true ↔ ∃ b ∈ l, b.id = id := by
  simp [has]

theorem has_without {k : String} : has (without k l) id = true ↔ has l id = true ∧ id ≠ k := by
  simp only [has_iff, without, List.mem_filter, decide_eq_true_eq]
  constructor
  · rintro ⟨b, ⟨hb, hk⟩, rfl⟩
    exact ⟨⟨b, hb, rfl⟩, hk⟩
  · rintro ⟨⟨b, hb, rfl⟩, hk⟩
    exact ⟨b, ⟨hb, hk⟩, rfl⟩

theorem has_put {b : WGBinding} : has (put b l) id = true ↔ b.id = id ∨ has l id = true := by
  have hcons : has (put b l) id = true ↔ b.id = id ∨ has (without b.id l) id = true := by
    simp [put, has]
  rw [hcons, has_without]
  by_cases h : b.id = id
  · simp [h]
  · simp [h, Ne.symm h]

theorem has_filter_of_has {q : WGBinding → Bool} (h : has (l.filter q) id = true) :
    has l id = true := by
  obtain ⟨b, hb, hid⟩ := has_iff.mp h
  exact has_iff.mpr ⟨b, List.mem_of_mem_filter hb, hid⟩

section Steps

variable {id vm : String} {p me : Pid} {e : Act} {s : State} {i : Input}

/-- The rows of the binding belong to the VM. -/
def Belongs (id vm : String) (b : WGBinding) : Prop := b.id = id → b.vmId = vm

/-- A row of the binding is deleted only when it has no tunnel. -/
def May (id vm : String) (_ : Pid) (e : Act) (s : State) : Prop :=
  match e with
  | .save b => Belongs id vm b
  | .delete k => k = id → has s.bindings id = false
  | .deleteForVM v => v = vm → has s.rows id = true → has s.bindings id = false
  | _ => True

/-! ## What a step can do -/

/-- Neither row nor registered tunnel. -/
def Gone (id : String) (s : State) : Prop := has s.rows id = false ∧ has s.bindings id = false

theorem rows_cases (s : State) (p : Pid) (i : Input) (e : Act) :
    (s.apply p i e).rows = s.rows ∨
      (∃ b, e = .save b ∧ (s.apply p i e).rows = put b s.rows) ∨
      (∃ k, e = .delete k ∧ (s.apply p i e).rows = without k s.rows) ∨
      ∃ v, e = .deleteForVM v ∧ (s.apply p i e).rows = s.rows.filter fun b => b.vmId ≠ v := by
  cases e with
  | save b =>
    rw [State.apply]
    split
    · exact .inl rfl
    · exact .inr (.inl ⟨b, rfl, rfl⟩)
  | delete k =>
    simp only [State.apply]
    split
    · exact .inl rfl
    · exact .inr (.inr (.inl ⟨k, rfl, rfl⟩))
  | deleteForVM v =>
    simp only [State.apply]
    split
    · exact .inl rfl
    · exact .inr (.inr (.inr ⟨v, rfl, rfl⟩))
  | startBinding b =>
    rw [State.apply]
    split <;> exact .inl rfl
  | _ => exact .inl rfl

theorem has_rows_apply (hok : Fits id p e s i) (h : has (s.apply p i e).rows id = true) :
    has s.rows id = true := by
  obtain hrows | ⟨b, rfl, hrows⟩ | ⟨k, rfl, hrows⟩ | ⟨v, rfl, hrows⟩ := rows_cases s p i e
  all_goals rw [hrows] at h
  · exact h
  · exact (has_put.mp h).elim hok fun h => h
  · exact (has_without.mp h).1
  · exact has_filter_of_has h

theorem has_bindings_apply (hok : Fits id p e s i) (h : has (s.apply p i e).bindings id = true) :
    has s.bindings id = true ∨ has s.rows id = true := by
  cases e with
  | register b => exact (has_put.mp h).elim (fun hb => .inr (hok hb).1) .inl
  | stop ids removal => exact .inl (has_filter_of_has h)
  | save b | startBinding b =>
    rw [State.apply] at h
    split at h <;> exact .inl h
  | _ => exact .inl h

theorem has_bindings_of_rows_apply (hmay : May id vm p e s)
    (hvm : ∀ b ∈ s.rows, Belongs id vm b) (hrow : has s.rows id = true)
    (h : has (s.apply p i e).rows id = false) : has (s.apply p i e).bindings id = false := by
  obtain hrows | ⟨b, rfl, hrows⟩ | ⟨k, rfl, hrows⟩ | ⟨v, rfl, hrows⟩ := rows_cases s p i e
  all_goals rw [hrows] at h
  · cases h.symm.trans hrow
  · cases h.symm.trans (has_put.mpr (.inr hrow))
  · by_cases hk : k = id
    · exact hmay hk
    · cases h.symm.trans (has_without.mpr ⟨hrow, Ne.symm hk⟩)
  · by_cases hv : v = vm
    · exact hmay hv hrow
    · obtain ⟨b, hb, hid⟩ := has_iff.mp hrow
      have hother : b.vmId ≠ v := by
        rw [hvm b hb hid]
        exact Ne.symm hv
      cases h.symm.trans (has_iff.mpr ⟨b, List.mem_filter.mpr ⟨hb, decide_eq_true hother⟩, hid⟩)

theorem Gone.apply (hok : Fits id p e s i) (h : Gone id s) : Gone id (s.apply p i e) := by
  obtain ⟨hrow, hbinding⟩ := h
  constructor
  · refine Bool.eq_false_iff.mpr fun hr => ?_
    cases hrow.symm.trans (has_rows_apply hok hr)
  · refine Bool.eq_false_iff.mpr fun hb => ?_
    obtain hb | hr := has_bindings_apply hok hb
    · cases hbinding.symm.trans hb
    · cases hrow.symm.trans hr

/-- A registered tunnel has a row. -/
def Rowed (id : String) (s : State) : Prop := has s.rows id = false → has s.bindings id = false

theorem Rowed.apply (hmay : May id vm p e s) (hvm : ∀ b ∈ s.rows, Belongs id vm b)
    (hok : Fits id p e s i) (h : Rowed id s) : Rowed id (s.apply p i e) := by
  intro hafter
  cases hrow : has s.rows id with
  | true => exact has_bindings_of_rows_apply hmay hvm hrow hafter
  | false => exact (Gone.apply hok ⟨hrow, h hrow⟩).2

/-- `me` is a removal that has stopped the tunnel of the binding. -/
structure Stopped (id : String) (me : Pid) (s : State) : Prop where
  tunnel : has s.bindings id = false
  removing : ∃ x ∈ s.removing, x.1 = me ∧ id ∈ x.2

theorem mem_removing_apply {x : Pid × List String} (hx : x ∈ s.removing) (hne : x.1 ≠ p) :
    x ∈ (s.apply p i e).removing := by
  cases e with
  | delete k | deleteForVM v => exact List.mem_filter.mpr ⟨hx, decide_eq_true hne⟩
  | save b | startBinding b =>
    rw [State.apply]
    split <;> exact hx
  | stop ids removal =>
    simp only [State.apply]
    split
    · exact .tail _ hx
    · exact hx
  | _ => exact hx

theorem Stopped.apply (hne : p ≠ me) (hok : Fits id p e s i) (h : Stopped id me s) :
    Stopped id me (s.apply p i e) := by
  obtain ⟨htunnel, x, hx, rfl, hid⟩ := h
  refine ⟨Bool.eq_false_iff.mpr fun hb => ?_, x, mem_removing_apply hx hne.symm, rfl, hid⟩
  cases e with
  | register b =>
    obtain hb | hb := has_put.mp hb
    · exact (hok hb).2 x hx hid
    · cases htunnel.symm.trans hb
  | stop ids removal => cases htunnel.symm.trans (has_filter_of_has hb)
  | save b | startBinding b =>
    rw [State.apply] at hb
    split at hb <;> cases htunnel.symm.trans hb
  | _ => cases htunnel.symm.trans hb

end Steps

/-! ## The discipline -/

section Discipline

variable {id vm : String} {me : Pid} {α : Type} {e : Act} {b b' cfg : WGBinding} {s₀ : State}
  {c : Call}

theorem belongs_apply {p : Pid} {s : State} {i : Input} (hmay : May id vm p e s)
    (h : ∀ b ∈ s.rows, Belongs id vm b) : ∀ b ∈ (s.apply p i e).rows, Belongs id vm b := by
  obtain hrows | ⟨b, rfl, hrows⟩ | ⟨k, rfl, hrows⟩ | ⟨v, rfl, hrows⟩ := rows_cases s p i e
  all_goals rw [hrows]
  · exact h
  · intro c hc
    obtain _ | ⟨_, hc⟩ := hc
    · exact hmay
    · exact h c (List.mem_of_mem_filter hc)
  all_goals exact fun c hc => h c (List.mem_of_mem_filter hc)

/-- `rowed`: the binding had a row for its tunnel when the calls began. -/
def discipline (id vm : String) (rowed : Prop) : Discipline machine where
  inv s := (∀ b ∈ s.rows, Belongs id vm b) ∧ (rowed → Rowed id s)
  may := May id vm
  ok := Fits id
  keeps h _ hmay hok := ⟨belongs_apply hmay h.1, fun hr => (h.2 hr).apply hmay h.1 hok⟩

variable {rowed : Prop}

instance stable_stopped : Stable (discipline id vm rowed) me (Stopped id me) :=
  .of_step fun h hne _ _ _ hok => h.apply hne hok

/-- The binding has no row. -/
def Unlisted (id : String) (s : State) : Prop := has s.rows id = false

instance stable_unlisted : Stable (discipline id vm rowed) me (Unlisted id) := by
  refine .of_step fun h _ _ _ _ hok => Bool.eq_false_iff.mpr fun hr => ?_
  cases h.symm.trans (has_rows_apply hok hr)

instance stable_gone : Stable (discipline id vm rowed) me (Gone id) :=
  .of_step fun h _ _ _ _ hok => h.apply hok

/-- The program has no tunnel that is not in the map. -/
def Ready (me : Pid) (s : State) : Prop := s.starting me = none

theorem starting_apply {p : Pid} {s : State} {i : Input} (h : ∀ b, e = .startBinding b → p ≠ me)
    (hs : Ready me s) : Ready me (s.apply p i e) := by
  cases e with
  | startBinding b =>
    rw [State.apply]
    split
    · exact hs
    · exact (Function.update_of_ne (h b rfl).symm ..).trans hs
  | register b =>
    by_cases hp : me = p
    · subst hp
      exact Function.update_self ..
    · exact (Function.update_of_ne hp ..).trans hs
  | save b =>
    rw [State.apply]
    split <;> exact hs
  | _ => exact hs

instance stable_ready : Stable (discipline id vm rowed) me (Ready me) :=
  .of_step fun h hne _ _ _ _ => starting_apply (fun _ _ => hne) h

/-- Hoare triples from states in which the program has nothing pending. -/
abbrev Does (id vm : String) (rowed : Prop) (me : Pid) (x : Prog State Input Act α)
    (Q : α → State → Prop) : Prop :=
  Triple (discipline id vm rowed) (May id vm) me (Ready me) x Q

abbrev Stays (id vm : String) (rowed : Prop) (me : Pid) (x : Prog State Input Act α) : Prop :=
  Does id vm rowed me x fun _ => Ready me

/-- Brings no tunnel up, deletes no row of the binding and gives none to another VM. -/
def Quiet (id vm : String) : Act → Prop
  | .startBinding _ => False
  | .save b => Belongs id vm b
  | .delete k => k ≠ id
  | .deleteForVM v => v ≠ vm
  | _ => True

theorem Quiet.fine (h : Quiet id vm e) :
    Fine (discipline id vm rowed) (May id vm) me (Ready me) e := by
  intro s i _ hs _ _
  refine ⟨?_, starting_apply (fun b hb => ?_) hs⟩
  · cases e with
    | save b => exact h
    | delete k => exact fun hk => absurd hk h
    | deleteForVM v => exact fun hv => absurd hv h
    | _ => trivial
  · subst hb
    exact h.elim

theorem triple_quiet {x : Prog State Input Act α} (h : x.Uses (Quiet id vm)) :
    Stays id vm rowed me x :=
  .of_uses (h.mono fun _ he => he.fine)

/-! ## The checks -/

variable {lib : Library}

theorem uses_validateEndpoint (b : WGBinding) :
    Prog.Uses (Quiet id vm) (validateEndpoint lib b) := by
  unfold validateEndpoint
  dsimp only
  split
  · split
    · trivial
    · split
      · trivial
      · split
        · trivial
        · refine uses_bind (uses_mapErr ?_) fun _ => trivial
          unfold resolveEndpointHost
          split
          · trivial
          · exact uses_mapErr (.perform trivial)
  · split <;> trivial

theorem uses_validate (b : WGBinding) : Prog.Uses (Quiet id vm) (validate lib b) := by
  refine uses_bind trivial fun _ => uses_bind trivial fun b => uses_bind trivial fun b => ?_
  split
  · trivial
  · generalize hx : validateEndpoint lib b = x
    refine uses_bind (hx ▸ uses_validateEndpoint b) fun b => ?_
    split
    · trivial
    · exact uses_bind trivial fun _ => trivial

/-- The check keeps the id and the VM. -/
def SameIds (b b' : WGBinding) : Prop := b'.id = b.id ∧ b'.vmId = b.vmId

theorem SameIds.belongs (h : SameIds b b') (hb : Belongs id vm b) : Belongs id vm b' := by
  unfold Belongs
  rwa [h.1, h.2]

theorem SameIds.trans {b'' : WGBinding} (h : SameIds b b') (h' : SameIds b' b'') : SameIds b b'' :=
  ⟨h'.1.trans h.1, h'.2.trans h.2⟩

theorem sameIds_validateAddress (h : validateAddress lib b = .ok b') : SameIds b b' := by
  unfold validateAddress at h
  dsimp only at h
  split at h
  · cases h
  · split at h
    · cases h
    · split at h
      · cases h
      · cases h
        exact ⟨rfl, rfl⟩

theorem sameIds_validateMTU (h : validateMTU b = .ok b') : SameIds b b' := by
  unfold validateMTU at h
  dsimp only at h
  generalize hc : (if b.mtu = 0 then { b with mtu := DefaultMTU } else b) = c at h
  have hsame : SameIds b c := by
    subst hc
    split <;> exact ⟨rfl, rfl⟩
  split at h
  · cases h
  · cases h
    exact hsame

theorem returns_validateEndpoint (b : WGBinding) :
    Returns (SameIds b) (validateEndpoint lib b) := by
  unfold validateEndpoint
  dsimp only
  split
  · split
    · exact nofun
    · split
      · exact nofun
      · split
        · exact nofun
        · exact returns_bind fun _ => returns_pure ⟨rfl, rfl⟩
  · split
    · exact nofun
    · exact returns_pure ⟨rfl, rfl⟩

theorem returns_validate (b : WGBinding) : Returns (SameIds b) (validate lib b) := by
  refine returns_bind fun _ => ?_
  refine Returns.bind (ψ := SameIds b) (fun _ h => sameIds_validateAddress h) fun b₁ h₁ => ?_
  refine Returns.bind (ψ := SameIds b₁) (fun _ h => sameIds_validateMTU h) fun b₂ h₂ => ?_
  split
  · exact nofun
  · generalize hx : validateEndpoint lib b₂ = x
    refine Returns.bind (hx ▸ returns_validateEndpoint b₂) fun b₃ h₃ => ?_
    split
    · exact nofun
    · exact returns_bind fun _ => returns_pure (((h₁.trans h₂).trans h₃).trans ⟨rfl, rfl⟩)

/-! ## The calls -/

theorem triple_noteFailure (k err : String) : Stays id vm rowed me (noteFailure k err : MProc α) :=
  triple_quiet (uses_bind (.perform trivial) fun _ => trivial)

theorem triple_bringUp (b : WGBinding) : Stays id vm rowed me (bringUp b) := by
  refine .attemptBind (R := ends (fun _ _ => True) (fun _ => Ready me)) ?_ fun r => ?_
  · refine .perform fun s i _ hs _ _ => ⟨trivial, ?_⟩
    dsimp only
    cases hfail : i.fail with
    | none => trivial
    | some msg =>
      show Ready me (s.apply me i (.startBinding b))
      rwa [State.apply, hfail]
  · cases r with
    | error e => exact triple_noteFailure _ _
    | ok _ =>
      exact .perform fun s i _ _ _ _ => ⟨trivial, Function.update_self ..⟩

theorem triple_start (hcfg : Belongs id vm cfg) : Stays id vm rowed me (start lib cfg) := by
  refine .attemptBind ((triple_quiet (uses_validate cfg)).yields (returns_validate cfg)) fun r => ?_
  refine .given fun hr => ?_
  cases r with
  | error e => exact triple_noteFailure _ _
  | ok b =>
    have hb : Belongs id vm b := (hr b rfl).belongs hcfg
    refine .seq (triple_quiet ?_) (fun _ _ _ hs => hs) fun _ => triple_bringUp b
    unfold writeBack
    split
    · exact uses_bind (uses_attempt (.perform hb)) fun _ => trivial
    · trivial

theorem triple_tryStart (hcfg : Belongs id vm cfg) :
    Stays id vm rowed me (do let _ ← (start lib cfg).attempt; pure () : MProc Unit) :=
  .attemptBind (triple_start hcfg) fun _ => .ret fun _ _ hs => hs

theorem triple_retryOne (hb : Belongs id vm b) : Stays id vm rowed me (retryOne lib b) := by
  unfold retryOne
  split
  · refine .seq (triple_quiet (.perform trivial)) (fun _ _ _ hs => hs) fun running => ?_
    split
    · exact .ret fun _ _ hs => hs
    · exact triple_tryStart hb
  · exact .ret fun _ _ hs => hs

theorem triple_restoreOne (hb : Belongs id vm b) : Stays id vm rowed me (restoreOne lib b) := by
  unfold restoreOne
  split
  · exact triple_tryStart hb
  · exact .ret fun _ _ hs => hs

theorem triple_listAll :
    Does id vm rowed me listAllWGBindings
      (fun r s => Ready me s ∧ ∀ l, r = .ok l → ∀ b ∈ l, Belongs id vm b) := by
  refine .perform fun s i hinv hs _ _ => ⟨trivial, hs, fun l hl b hb => ?_⟩
  cases hfail : i.fail with
  | some msg =>
    rw [hfail] at hl
    cases hl
  | none =>
    rw [hfail] at hl
    cases hl
    exact hinv.1 b ((List.perm_insertionSort _ s.rows).mem_iff.mp hb)

theorem triple_forRows {f : WGBinding → MProc Unit} {l : List WGBinding}
    (hl : ∀ b ∈ l, Belongs id vm b)
    (hf : ∀ b, Belongs id vm b →
      Stays id vm rowed me (f b)) : Stays id vm rowed me (forEach f l) := by
  have hpost : ∀ (r : Except String Unit) (s : State), Ready me s →
      ends (fun _ => Ready me) (fun _ => Ready me) r s := fun r s hs => by cases r <;> exact hs
  refine (Triple.forEach (E := fun _ => Ready me)
    fun b hb => (hf b (hl b hb)).post fun r s _ hs => hpost r s hs).post fun r s _ hs => ?_
  cases r <;> exact hs

theorem triple_retry : Stays id vm rowed me (retry lib) := by
  refine .attemptBind triple_listAll fun r => .given fun hr => ?_
  cases r with
  | error e => exact .ret fun _ _ hs => hs
  | ok all => exact triple_forRows (hr all rfl) fun b hb => triple_retryOne hb

theorem triple_retryLoop (n : Nat) : Stays id vm rowed me (retryLoop lib n) := by
  induction n with
  | zero => exact .ret fun _ _ hs => hs
  | succ n ih =>
    exact .seq triple_retry (fun _ _ _ hs => hs) fun _ => ih

theorem triple_restore (n : Nat) : Stays id vm rowed me (restore lib n) := by
  refine .attemptBind triple_listAll fun r => .given fun hr => ?_
  cases r with
  | error e => exact .ret fun _ _ hs => hs
  | ok all =>
    exact .seq (triple_forRows (hr all rfl) fun b hb => triple_restoreOne hb)
      (fun _ _ _ hs => hs) fun _ => triple_retryLoop n

theorem uses_checkConflict (b : WGBinding) : Prog.Uses (Quiet id vm) (checkConflict b) :=
  uses_bind (.perform trivial) fun _ => trivial

theorem triple_saveStart (hcfg : Belongs id vm cfg) :
    Stays id vm rowed me
      (do saveWGBinding cfg; if cfg.enabled then start lib cfg else pure () : MProc Unit) := by
  refine .seq (triple_quiet (.perform hcfg)) (fun _ _ _ hs => hs) fun _ => ?_
  split
  · exact triple_start hcfg
  · exact .ret fun _ _ hs => hs

theorem triple_add {k v : String} {now : Nat} (hne : k ≠ id) :
    Stays id vm rowed me (add lib k v now cfg) := by
  refine .seqReturns (triple_quiet (uses_validate _)) (returns_validate _)
    (fun _ _ _ hs => hs) fun b hb => ?_
  refine .seq (triple_quiet (uses_checkConflict b)) (fun _ _ _ hs => hs)
    fun _ => triple_saveStart fun hid => ?_
  exact absurd (hb.1.symm.trans hid) hne

theorem triple_update {k : String} : Stays id vm rowed me (update lib k cfg) := by
  -- the row that is read belongs to the VM, and the new configuration is given its id and VM
  have hget : Does id vm rowed me (getWGBinding k)
      (ends (fun b s => Ready me s ∧ Belongs id vm b) (fun _ => Ready me)) := by
    refine .perform fun s i hinv hs _ _ => ⟨trivial, ?_⟩
    cases hfail : i.fail with
    | some msg => exact hs
    | none =>
      cases hfind : s.rows.find? (·.id = k) with
      | none => exact hs
      | some b => exact ⟨hs, hinv.1 b (List.mem_of_find?_eq_some hfind)⟩
  refine .chain (Triple.mapErr hget) (fun _ _ _ hs => hs) fun old =>
    .given fun hold => ?_
  refine .seqReturns (triple_quiet (uses_validate _)) (returns_validate _)
    (fun _ _ _ hs => hs) fun b hb => ?_
  refine .seq (triple_quiet (uses_checkConflict b)) (fun _ _ _ hs => hs) fun _ => ?_
  refine .seq (triple_quiet (.perform trivial)) (fun _ _ _ hs => hs)
    fun _ => triple_saveStart (hb.belongs hold)

/-! ### Removals -/

/-- What a removal has done when it returns. -/
def Removed (id : String) (me : Pid) (s : State) : Prop := Ready me s ∧ Gone id s

instance stable_removed : Stable (discipline id vm rowed) me (Removed id me) := Stable.and

/-- The stop of a removal leaves none of the tunnels. -/
theorem triple_stop {K : State → Prop} [Stable (discipline id vm rowed) me K]
    (hstop : ∀ s i ids, K s → K (s.apply me i (.stop ids true))) (ids : List String) :
    Triple (discipline id vm rowed) (May id vm) me (fun s => Ready me s ∧ K s)
      (Proc.run (.stop ids true) : MProc Unit)
      (ends (fun _ s => (Ready me s ∧ K s) ∧ (id ∈ ids → Stopped id me s)) (fun _ _ => False)) := by
  refine .perform fun s i _ hs _ _ => ⟨trivial, ⟨hs.1, hstop s i ids hs.2⟩, fun hid => ?_⟩
  refine ⟨Bool.eq_false_iff.mpr fun h => ?_, (me, ids), .head _, rfl, hid⟩
  obtain ⟨b, hb, rfl⟩ := has_iff.mp h
  exact of_decide_eq_true (List.mem_filter.mp hb).2 hid

theorem triple_remove : Does id vm rowed me (remove id) (fun _ => Removed id me) := by
  refine .step ((triple_stop (K := fun _ => True) (fun _ _ _ _ => trivial) [id]).pre
    fun _ hs => ⟨hs, trivial⟩) fun _ => ?_
  refine .perform fun s i _ hs _ hok => ?_
  have hfree := (hs.2 (.head _)).tunnel
  have hfail : i.fail = none := hok rfl
  refine ⟨fun _ => hfree, hs.1.1, Bool.eq_false_iff.mpr fun h => ?_, hfree⟩
  simp only [machine, State.apply, hfail] at h
  exact (has_without.mp h).2 rfl

theorem triple_deleteVM :
    Does id vm rowed me (deleteVM vm) (fun _ s => Ready me s ∧ (rowed → Gone id s)) := by
  -- the listing has the binding, unless it has no row; then it does not get one again
  have hlist : Does id vm rowed me (listWGBindings vm)
      (ends (fun l s => Ready me s ∧ (id ∉ l.map (·.id) → Unlisted id s)) (fun _ _ => False)) := by
    refine .perform fun s i hinv hs _ hok => ⟨trivial, ?_⟩
    have hfail : i.fail = none := hok
    rw [hfail]
    refine ⟨hs, fun hid => Bool.eq_false_iff.mpr fun hrow => hid ?_⟩
    obtain ⟨b, hb, rfl⟩ := has_iff.mp hrow
    refine List.mem_map_of_mem ((List.perm_insertionSort _ _).mem_iff.mpr ?_)
    exact List.mem_filter.mpr ⟨hb, decide_eq_true (hinv.1 b hb rfl)⟩
  refine .attemptBind hlist fun r => ?_
  cases r with
  | error e => exact fun _ hs => hs.elim
  | ok list =>
    refine .step (triple_stop (fun _ _ _ hs => hs) _) fun _ =>
      Triple.attemptBind (R := fun _ s => Ready me s ∧ (rowed → Gone id s)) ?_ fun _ =>
        Triple.ret fun _ _ hs => hs
    refine .perform fun s i hinv hs _ hok => ?_
    obtain ⟨⟨hready, hunlisted⟩, hstopped⟩ := hs
    have hfail : i.fail = none := hok
    refine ⟨fun _ hrow => ?_, hready, fun hrowed => ⟨Bool.eq_false_iff.mpr fun h => ?_, ?_⟩⟩
    · by_cases hid : id ∈ list.map (·.id)
      · exact (hstopped hid).tunnel
      · cases (hunlisted hid).symm.trans hrow
    · -- the rows of the binding are all the VM's, so none is left
      simp only [machine, State.apply, hfail] at h
      obtain ⟨b, hb, hid⟩ := has_iff.mp h
      obtain ⟨hb, hne⟩ := List.mem_filter.mp hb
      exact of_decide_eq_true hne (hinv.1 b hb hid)
    · by_cases hid : id ∈ list.map (·.id)
      · exact (hstopped hid).tunnel
      · exact hinv.2 hrowed (hunlisted hid)

theorem uses_remove {k : String} (h : k ≠ id) : Prog.Uses (Quiet id vm) (remove k) :=
  uses_bind (.perform trivial) fun _ => .perform h

theorem uses_deleteVM {v : String} (h : v ≠ vm) : Prog.Uses (Quiet id vm) (deleteVM v) := by
  refine uses_bind (uses_attempt (.perform trivial)) fun r => ?_
  cases r with
  | error e => trivial
  | ok list =>
    exact uses_bind (.perform trivial) fun _ =>
      uses_bind (uses_attempt (.perform h)) fun _ => trivial

/-! ## Runs -/

/-- What a call has done when it returns. -/
def Done (id : String) (s₀ : State) (c : Call) (me : Pid) (s : State) : Prop :=
  Ready me s ∧ (c.Removes id s₀ → Gone id s)

instance stable_done : Stable (discipline id vm rowed) me (Done id s₀ c me) := Stable.and

theorem triple_other (hc : ¬ c.Removes id s₀) {x : MProc Unit}
    (h : Stays id vm rowed me x) : Does id vm rowed me x (fun _ => Done id s₀ c me) :=
  h.post fun _ _ _ hs => ⟨hs, fun hr => absurd hr hc⟩

theorem triple_removal {x : MProc Unit}
    (h : Does id vm rowed me x (fun _ => Removed id me)) :
    Does id vm rowed me x (fun _ => Done id s₀ c me) :=
  h.post fun _ _ _ hs => ⟨hs.1, fun _ => hs.2⟩

theorem triple_code (hkeys : ∀ b ∈ s₀.rows, Belongs id vm b)
    (hnew : ∀ k v now cfg, c = .add k v now cfg → k ≠ id) :
    Does id vm (has s₀.rows id = true) me (c.code lib) (fun _ => Done id s₀ c me) := by
  cases c with
  | add k v now cfg =>
    exact triple_other (c := .add k v now cfg) not_false (triple_add (hnew k v now cfg rfl))
  | update k cfg => exact triple_other (c := .update k cfg) not_false triple_update
  | restore n => exact triple_other (c := .restore n) not_false (triple_restore n)
  | retryLoop n => exact triple_other (c := .retryLoop n) not_false (triple_retryLoop n)
  | remove k =>
    by_cases hk : k = id
    · subst hk
      exact triple_removal triple_remove
    · exact triple_other (c := .remove k) hk (triple_quiet (uses_remove hk))
  | deleteVM v =>
    by_cases hv : v = vm
    · subst hv
      refine triple_deleteVM.post fun _ _ _ hs => ⟨hs.1, fun hr => hs.2 ?_⟩
      obtain ⟨b, hb, hid, -⟩ := hr
      exact has_iff.mpr ⟨b, hb, hid⟩
    · refine triple_other (fun hr => ?_) (triple_quiet (uses_deleteVM hv))
      obtain ⟨b, hb, hid, hbv⟩ := hr
      exact hv (hbv.symm.trans (hkeys b hb hid))

end Discipline

theorem exists_vm (h : (l.map (·.id)).Nodup) (id : String) : ∃ vm, ∀ b ∈ l, Belongs id vm b := by
  by_cases hrow : ∃ b ∈ l, b.id = id
  · obtain ⟨b, hb, hid⟩ := hrow
    refine ⟨b.vmId, fun c hc hc' => ?_⟩
    rw [List.inj_on_of_nodup_map h hc hb (hc'.trans hid.symm)]
  · exact ⟨"", fun b hb hid => absurd ⟨b, hb, hid⟩ hrow⟩

/-- A removed binding does not come back: in every run whose steps satisfy `Fits`, once all calls
have returned, it has neither a row nor a tunnel. -/
theorem removed_binding_gone (lib : Library) {calls : Pid → Call} {s : State} {id : String}
    {P : Pool State Input Act} {p : Pid} (hkeys : (s.rows.map (·.id)).Nodup)
    (hidle : ∀ q, s.starting q = none)
    (hnew : ∀ q k v now cfg, calls q = .add k v now cfg → k ≠ id)
    (hremoves : (calls p).Removes id s) (hrun : Pool.Run machine (Fits id) (pool lib calls s) P)
    (hret : ∀ q, P.procs q = .ret ()) : ¬ P.mem.Up id ∧ has P.mem.rows id = false := by
  obtain ⟨vm, hvm⟩ := exists_vm hkeys id
  have hsafe : (pool lib calls s).Safe (discipline id vm (has s.rows id = true))
      (fun q _ => Done id s (calls q) q) := by
    refine ⟨⟨hvm, fun hrow h => by cases hrow.symm.trans h⟩, fun q => ?_⟩
    have hcall : Does id vm (has s.rows id = true) q
        (Prog.bind ((calls q).code lib) fun _ => .ret ()) (fun _ => Done id s (calls q) q) :=
      (triple_code hvm (hnew q)).bind fun _ => .ret fun _ _ hs => hs
    exact hcall s (hidle q)
  have hdone := fun q => (Pool.run_safe hsafe hrun).post (hret q)
  obtain ⟨hrow, hbinding⟩ := (hdone p).2 hremoves
  refine ⟨fun hup => ?_, hrow⟩
  obtain hb | ⟨q, b, hq, -⟩ := hup
  · cases hbinding.symm.trans hb
  · cases (hdone q).1.symm.trans hq

/-- The number of bytes that a text in the standard alphabet of base64 stands for. -/
def base64Bytes (s : List Char) : Option Nat :=
  let digits := s.takeWhile fun c => c.isAlphanum || c == '+' || c == '/'
  let pad := s.drop digits.length
  if s.length % 4 = 0 ∧ pad ∈ [[], ['='], ['=', '=']] then some (digits.length * 6 / 8) else none

/-- The library for keys, IPv4 addresses and the default prefixes, which the calls below use. -/
def standard : Library where
  decodeBase64 s := (base64Bytes s.toList).elim (.error "illegal base64 data") .ok
  parseAddr s :=
    match IpAddr.parse s with
    | some (.v4 a) => .ok ⟨s, a = 0⟩
    | _ => .error s!"ParseAddr({s.quote}): unable to parse IP"
  parsePrefix s := if s ∈ defaultAllowedIPs then some s else none
  hostPrefix _ := none
  splitHostPort _ := none
  atoi _ := none

/-- A row of an older version, without an MTU. -/
def oldRow : WGBinding where
  id := "b1"
  vmId := "a"
  privateKey := "cV3ISTw2V5pbEWmVEA9jXjVy/fhwPnCO8aCNlDs2d04="
  address := "10.7.0.5"
  listenPort := 51820
  peerPublicKey := "76HzdddhlPpRo1Vql+ZB5haF+RTURpedpQpVGkMz/9c="

/-- A removal of the binding and another call. -/
def against (c : Call) : Pid → Call
  | 0 => .remove "b1"
  | 1 => c
  | _ => .retryLoop 0

theorem against_returned {ok : Pid → Act → State → Input → Prop} {s : State} {c : Call}
    {P : Pool State Input Act} (hrun : Pool.Run machine ok (pool standard (against c) s) P)
    (h0 : P.procs 0 = .ret ()) (h1 : P.procs 1 = .ret ()) : ∀ q, P.procs q = .ret ()
  | 0 => h0
  | 1 => h1
  | q + 2 => by
    have hnext := hrun.returned (p := q + 2) rfl
    cases hq : P.procs (q + 2) with
    | ret _ => rfl
    | act e nx =>
      rw [hq] at hnext
      cases hnext

/-- The update ends before the removal begins. -/
theorem updated_then_removed : ∃ P, Pool.Run machine (Fits "b1")
        (pool standard (against (.update "b1" oldRow)) { rows := [oldRow] }) P ∧
      (∀ q, P.procs q = .ret ()) ∧ ¬ P.mem.Up "b1" ∧ has P.mem.rows "b1" = false := by
  refine Pool.exists_run_imp (p := fun P => P.procs 0 = .ret () ∧ P.procs 1 = .ret ())
    [(1, {}), (1, {}), (1, {}), (1, {}), (1, {}), (1, {}), (0, {}), (0, {})] (by decide +kernel)
    fun P hrun ⟨h0, h1⟩ => ?_
  have hret := against_returned hrun h0 h1
  have hremoves : (against (.update "b1" oldRow) 0).Removes "b1" { rows := [oldRow] } :=
    show "b1" = "b1" from rfl
  have hnew : ∀ q k v now cfg, against (.update "b1" oldRow) q = .add k v now cfg → k ≠ "b1" :=
    fun q => match q with
      | 0 | 1 | _ + 2 => nofun
  exact ⟨hret, removed_binding_gone standard (by decide) (fun _ => rfl) hnew hremoves hrun hret⟩

theorem returns_of_sched {c : Call} (sched : List (Pid × Input))
    (h : (Pool.execOk machine anyStep sched (pool standard (against c) { rows := [oldRow] })).any
      (fun P => decide (P.procs 0 = .ret () ∧ P.procs 1 = .ret () ∧
        has P.mem.bindings "b1" = true ∧ has P.mem.rows "b1" = true)) = true) :
    ∃ P, Pool.Run machine anyStep (pool standard (against c) { rows := [oldRow] }) P ∧
      (∀ q, P.procs q = .ret ()) ∧ P.mem.Up "b1" ∧ has P.mem.rows "b1" = true :=
  Pool.exists_run_imp sched h fun _ hrun ⟨h0, h1, hb, hr⟩ =>
    ⟨against_returned hrun h0 h1, .inl hb, hr⟩

/-- The loop has read the row before the removal: it writes the completed row back and starts
the tunnel afterwards. So does an update that has read the row before. -/
theorem removed_binding_returns :
    (∃ P, Pool.Run machine anyStep (pool standard (against (.retryLoop 1)) { rows := [oldRow] }) P ∧
      (∀ q, P.procs q = .ret ()) ∧ P.mem.Up "b1" ∧ has P.mem.rows "b1" = true) ∧
    ∃ P, Pool.Run machine anyStep
        (pool standard (against (.update "b1" oldRow)) { rows := [oldRow] }) P ∧
      (∀ q, P.procs q = .ret ()) ∧ P.mem.Up "b1" ∧ has P.mem.rows "b1" = true :=
  ⟨returns_of_sched [(1, {}), (1, {}), (0, {}), (0, {}), (1, {}), (1, {}), (1, {})]
      (by decide +kernel),
    returns_of_sched [(1, {}), (1, {}), (0, {}), (0, {}), (1, {}), (1, {}), (1, {}), (1, {})]
      (by decide +kernel)⟩

end RunmanAgent.GoAgent.WgBind
