import RunmanAgent.Concurrency.Observed
import RunmanAgent.ConnLimit.Steps

/-!
# Which policies a pass examines

`examine` is a pass of `reconcile` up to the removal of the chains (`reconcile_eq`), with the list
of the policies that it has examined. When a policy has been taken off the list and the save that
follows fails, the index moves on although the next policy has taken the place of the one that is
gone: the next policy is not examined (`second_passed_by`). `examined_iff` says when all are.
-/

namespace RunmanAgent.ConnLimit

open Concurrency Server Prog

variable (cfg : Config)

/-! ## A pass with its examinations -/

/-- `reconcileLoop` with the policies that have had their turn. -/
def examineLoop (skip : Bool) (kept : List Policy) (failures : List String)
    (seen : List Policy) : List Policy → HostProc ((List Policy × List String) × List Policy)
  | [] => pure ((kept, failures), seen)
  | policy :: rest =>
    if skip then examineLoop false (kept ++ [policy]) failures seen rest
    else do
      let r ← reconcilePolicy cfg kept rest policy
      examineLoop r.skip (kept ++ r.kept.toList) (failures ++ r.failure.toList)
        (seen ++ [policy]) rest

def examine : HostProc ((List Policy × List String) × List Policy) := do
  let policies ← lock
  examineLoop cfg false [] [] [] policies

/-- The end of `reconcile`. -/
def concludePass (policies : List Policy) (failures : List String) : HostProc Unit := do
  cleanupChainIfEmpty policies
  if failures.isEmpty then pure ()
  else Proc.fail (toString failures.length ++ " connection-limit reconciliation error(s): " ++
    String.intercalate "; " failures)

variable {β : Type} {policy p : Policy} {x y : World × Watch} {before : List Policy}
  {res : Except String Round}

theorem reconcileLoop_bind (f : List Policy × List String → HostProc β) (skip : Bool)
    (kept : List Policy) (failures : List String) (seen rest : List Policy) :
    (reconcileLoop cfg skip kept failures rest >>= f) =
      (examineLoop cfg skip kept failures seen rest >>= fun x => f x.1) := by
  induction rest generalizing skip kept failures seen with
  | nil => rfl
  | cons policy rest ih =>
    rw [reconcileLoop, examineLoop]
    split
    · exact ih _ _ _ _
    · rw [Proc.bind_assoc, Proc.bind_assoc]
      congr 1
      funext r
      exact ih _ _ _ _

theorem reconcile_eq :
    reconcile cfg = examine cfg >>= fun x => concludePass x.1.1 x.1.2 := by
  unfold reconcile examine
  rw [Proc.bind_assoc]
  congr 1
  funext policies
  exact reconcileLoop_bind cfg (fun x => concludePass x.1 x.2) _ _ _ _ _

/-! ## The observer -/

/-- `policies` is `before` without one of its policies other than the last. -/
def TakenOff (before policies : List Policy) : Prop :=
  ∃ n < before.length - 1, policies = before.eraseIdx n

instance (before policies : List Policy) : Decidable (TakenOff before policies) :=
  inferInstanceAs (Decidable (∃ n < _, _))

structure Watch where
  /-- The list that the last change has replaced. -/
  before : List Policy := []
  /-- A save has failed after a policy that was not the last had been taken off the list. -/
  missed : Bool := false

def Watch.see (e : Act) (w : World) (i : Input) (o : Watch) : Watch :=
  match e with
  | .setState _ => { o with before := w.mem }
  | .save policies =>
    { o with missed := o.missed || i.fail.isSome && decide (TakenOff o.before policies) }
  | _ => o

/-- A run of the manager alone, observed. -/
abbrev Watched {α : Type} (p : Prog World Input Act α) (x : World × Watch) (a : α)
    (y : World × Watch) : Prop :=
  Observed host Watch.see self p x a y

variable {cfg}

theorem Watched.of_quiet {α : Type} {p : Prog World Input Act α} {a : α} {mem : List Policy}
    {pending : Option Pending} (h : Watched p x a y) (hp : p.Uses (Quiet cfg mem pending true)) :
    y.1.mem = x.1.mem ∧ y.2 = x.2 := by
  refine h.keeps (P := fun z => z.1.mem = x.1.mem ∧ z.2 = x.2) (hp.mono fun e he s i o hs => ?_)
    ⟨rfl, rfl⟩
  cases e with
  | peek | now | resolve | fw => exact hs
  | _ => exact he.elim

theorem Watched.of_removeRules {r : Except String Unit}
    (h : Watched (removeRules cfg policy) x r y) :
    y.1.mem = x.1.mem ∧ y.2 = x.2 := by
  have hquiet : (removeRules cfg policy).Uses (Quiet cfg [] none true) := removeRules_quiet policy
  exact Watched.of_quiet h hquiet

theorem Watched.of_change {policies : List Policy} {f : Except String Unit → HostProc β}
    {b : Except String β}
    (h : Watched (setState policies >>= fun _ =>
      (save policies).attempt >>= f : HostProc β) x b y) :
    ∃ r z, Watched (f r) z b y ∧ z.1.mem = policies ∧
      z.2.missed = (x.2.missed || !r.isOk && decide (TakenOff x.1.mem policies)) := by
  obtain ⟨e, he, -⟩ | ⟨_, x', hset, hrest⟩ := Proc.observed_of_bind h
  · obtain ⟨_, he, -⟩ := Observed.of_perform he
    cases he
  obtain ⟨i, -, rfl⟩ := Observed.of_perform hset
  obtain ⟨r, z, hsave, hf⟩ := Proc.observed_of_attempt hrest
  obtain ⟨i', hr, rfl⟩ := Observed.of_perform hsave
  refine ⟨r, _, hf, rfl, ?_⟩
  have hok : i'.fail.isSome = !r.isOk := by
    rw [hr]
    cases i'.fail <;> rfl
  show (x.2.missed || i'.fail.isSome && decide (TakenOff x.1.mem policies)) = _
  rw [hok]

/-! ## A round -/

theorem takenOff_middle {after : List Policy} (hafter : after ≠ []) :
    TakenOff (before ++ policy :: after) (before ++ after) := by
  refine ⟨before.length, ?_, ?_⟩
  · have := List.length_pos_iff.mpr hafter
    simp only [List.length_append, List.length_cons]
    omega
  · rw [List.eraseIdx_append_of_length_le (le_refl _), Nat.sub_self, List.eraseIdx_cons_zero]

theorem TakenOff.length {policies : List Policy} (h : TakenOff before policies) :
    policies.length + 1 = before.length := by
  obtain ⟨n, hn, rfl⟩ := h
  rw [List.length_eraseIdx_of_lt (by omega)]
  omega

theorem not_takenOff_last (hids : ((before ++ [policy]).map (·.id)).Nodup) :
    ¬TakenOff (before ++ [policy]) before := by
  rintro ⟨n, hn, heq⟩
  rw [List.length_append, List.length_singleton] at hn
  rw [List.eraseIdx_append_of_lt_length (by omega)] at heq
  have hmem : policy ∈ before := by
    rw [heq]
    exact List.mem_append_right _ (.head _)
  rw [List.map_append, List.nodup_append] at hids
  exact hids.2.2 policy.id (List.mem_map_of_mem hmem) policy.id (.head _) rfl

/-- What a round leaves between `before` and `after`, and what the observer makes of it. -/
structure Turn (before after : List Policy) (policy : Policy) (x : World × Watch) (r : Round)
    (y : World × Watch) : Prop where
  mem : y.1.mem = before ++ r.kept.toList ++ after
  id : ∀ p ∈ r.kept, p.id = policy.id
  noticed : r.skip = true → after ≠ [] → y.2.missed = true
  still : x.2.missed = true → y.2.missed = true
  only : ((before ++ policy :: after).map (·.id)).Nodup → y.2.missed = true →
    x.2.missed = true ∨ r.skip = true ∧ after ≠ []

variable {before after : List Policy} {policy : Policy}

theorem Turn.ids {r : Round} (h : Turn before after policy x r y) :
    ((before ++ r.kept.toList ++ after).map (·.id)).Sublist
      ((before ++ policy :: after).map (·.id)) := by
  obtain ⟨kept, skip, failure⟩ := r
  simp only [List.map_append, List.map_cons, List.append_assoc]
  refine (List.Sublist.refl _).append ?_
  cases kept with
  | none => exact List.sublist_cons_self _ _
  | some p =>
    rw [← h.id p rfl]
    exact List.Sublist.refl _

theorem turn_of_kept {failure : Option String} {z : World × Watch}
    (h : Watched (.ret (.ok { kept := some p, failure := failure })) z res y)
    (hmem : z.1.mem = before ++ p :: after) (hid : p.id = policy.id)
    (hmissed : z.2.missed = x.2.missed) : ∃ r, res = .ok r ∧ Turn before after policy x r y := by
  obtain ⟨rfl, rfl⟩ := h.of_ret
  refine ⟨_, rfl, by simpa using hmem, fun q hq => ?_, nofun, hmissed.trans,
    fun _ h => .inl (hmissed.symm.trans h)⟩
  cases Option.some.inj hq
  exact hid

theorem not_takenOff_changed : ¬TakenOff (before ++ policy :: after) (before ++ p :: after) := by
  intro h
  have := h.length
  simp only [List.length_append, List.length_cons] at this
  omega

theorem turn_dropPolicy {removing saving : String} (hmem : x.1.mem = before ++ policy :: after)
    (h : Watched (dropPolicy cfg removing saving before after policy) x res y) :
    ∃ r, res = .ok r ∧ Turn before after policy x r y := by
  obtain ⟨r, x', hremove, hrest⟩ := Proc.observed_of_attempt h
  obtain ⟨hmem', hwatch⟩ := Watched.of_removeRules hremove
  cases r with
  | error e => exact turn_of_kept hrest (hmem'.trans hmem) rfl (by rw [hwatch])
  | ok _ =>
    obtain ⟨r, z, hf, hz, hmissed⟩ := Watched.of_change hrest
    rw [hwatch, hmem', hmem] at hmissed
    cases r with
    | ok _ =>
      obtain ⟨rfl, rfl⟩ := hf.of_ret
      have hmissed : y.2.missed = x.2.missed := by simpa [Except.isOk, Except.toBool] using hmissed
      refine ⟨_, rfl, by simpa using hz, nofun, nofun,
        fun h => hmissed.trans h, fun _ h => .inl (hmissed.symm.trans h)⟩
    | error e =>
      obtain ⟨rfl, rfl⟩ := hf.of_ret
      have hmissed : y.2.missed = true ↔
          x.2.missed = true ∨ TakenOff (before ++ policy :: after) (before ++ after) := by
        simp [hmissed, Except.isOk, Except.toBool]
      refine ⟨_, rfl, by simpa using hz, nofun, fun _ hafter => ?_,
        fun h => hmissed.mpr (.inl h), fun hids h => ?_⟩
      · exact hmissed.mpr (.inr (takenOff_middle hafter))
      · refine (hmissed.mp h).imp_right fun htaken => ⟨rfl, ?_⟩
        rintro rfl
        rw [List.append_nil] at htaken
        exact not_takenOff_last hids htaken

theorem turn_reinstall (hmem : x.1.mem = before ++ p :: after) (hid : p.id = policy.id)
    (h : Watched (reinstall cfg p) x res y) :
    ∃ r, res = .ok r ∧ Turn before after policy x r y := by
  have hquiet : (installRules cfg p).Uses (Quiet cfg [p] (some ⟨p.id, true⟩) true) :=
    installRules_quiet (.head _) rfl (.inr ⟨true, rfl⟩)
  obtain ⟨r, x', hinstall, hrest⟩ := Proc.observed_of_attempt h
  obtain ⟨hmem', hwatch⟩ := Watched.of_quiet hinstall hquiet
  cases r <;> exact turn_of_kept hrest (hmem'.trans hmem) hid (by rw [hwatch])

theorem Watched.of_replace {f : Except String Unit → HostProc β} {b : Except String β}
    (hmem : x.1.mem = before ++ policy :: after)
    (h : Watched (setState (before ++ p :: after) >>= fun _ =>
      (save (before ++ p :: after)).attempt >>= f : HostProc β) x b y) :
    ∃ r z, Watched (f r) z b y ∧ z.1.mem = before ++ p :: after ∧ z.2.missed = x.2.missed := by
  obtain ⟨r, z, hf, hz, hmissed⟩ := Watched.of_change h
  rw [hmem, decide_eq_false not_takenOff_changed, Bool.and_false, Bool.or_false] at hmissed
  exact ⟨r, z, hf, hz, hmissed⟩

theorem turn_suspendPolicy (hmem : x.1.mem = before ++ policy :: after)
    (h : Watched (suspendPolicy cfg before after policy) x res y) :
    ∃ r, res = .ok r ∧ Turn before after policy x r y := by
  obtain ⟨r, x', hremove, hrest⟩ := Proc.observed_of_attempt h
  obtain ⟨hmem', hwatch⟩ := Watched.of_removeRules hremove
  have hmem' := hmem'.trans hmem
  cases r with
  | error e => exact turn_of_kept hrest hmem' rfl (by rw [hwatch])
  | ok _ =>
    dsimp only at hrest
    split at hrest
    · exact turn_of_kept hrest hmem' rfl (by rw [hwatch])
    · obtain ⟨r, z, hf, hz, hmissed⟩ := Watched.of_replace hmem' hrest
      rw [hwatch] at hmissed
      cases r <;> exact turn_of_kept hf hz rfl hmissed

theorem turn_congr {x' : World × Watch} (hmissed : x'.2.missed = x.2.missed)
    (h : ∃ r, res = .ok r ∧ Turn before after policy x' r y) :
    ∃ r, res = .ok r ∧ Turn before after policy x r y := by
  obtain ⟨r, hr, h⟩ := h
  exact ⟨r, hr, h.mem, h.id, h.noticed, fun hx => h.still (hmissed.trans hx),
    fun hids hy => (h.only hids hy).imp_left hmissed.symm.trans⟩

theorem turn_refreshPolicy {ips : List String} (hmem : x.1.mem = before ++ policy :: after)
    (h : Watched (refreshPolicy cfg before after policy ips) x res y) :
    ∃ r, res = .ok r ∧ Turn before after policy x r y := by
  unfold refreshPolicy at h
  split at h
  · obtain ⟨r, x', hremove, hrest⟩ := Proc.observed_of_attempt h
    obtain ⟨hmem', hwatch⟩ := Watched.of_removeRules hremove
    have hmem' := hmem'.trans hmem
    cases r with
    | error e => exact turn_of_kept hrest hmem' rfl (by rw [hwatch])
    | ok _ =>
      obtain ⟨r, z, hf, hz, hmissed⟩ := Watched.of_replace hmem' hrest
      rw [hwatch] at hmissed
      cases r with
      | error e => exact turn_of_kept hf hz rfl hmissed
      | ok _ => exact turn_congr hmissed (turn_reinstall hz rfl hf)
  · exact turn_reinstall hmem rfl h

theorem turn_reconcilePolicy (hmem : x.1.mem = before ++ policy :: after)
    (h : Watched (reconcilePolicy cfg before after policy) x res y) :
    ∃ r, res = .ok r ∧ Turn before after policy x r y := by
  have hover : (isOver policy).Uses (Quiet cfg [] none true) := by
    unfold isOver
    split
    · trivial
    · exact Proc.uses_bind (.perform trivial) fun _ => trivial
  have hfinds : (isOver policy).Yields fun r => ∃ b, r = .ok b := by
    unfold isOver
    split
    · exact ⟨true, rfl⟩
    · exact fun _ _ _ => ⟨_, rfl⟩
  obtain ⟨e, he, rfl⟩ | ⟨b, x', hb, hrest⟩ := Proc.observed_of_bind h
  · obtain ⟨b, hb⟩ := he.yields hfinds
    cases hb
  obtain ⟨hmem', hwatch⟩ := Watched.of_quiet hb hover
  have hmem' := hmem'.trans hmem
  refine turn_congr (by rw [hwatch]) ?_
  cases b with
  | true => exact turn_dropPolicy hmem' hrest
  | false =>
    obtain ⟨r, x₂, hresolve, hrest⟩ := Proc.observed_of_attempt hrest
    obtain ⟨_, -, rfl⟩ := Observed.of_perform hresolve
    cases r with
    | error e => exact turn_of_kept hrest hmem' rfl rfl
    | ok target =>
      dsimp only at hrest
      split at hrest
      · exact turn_congr rfl (turn_dropPolicy hmem' hrest)
      · split at hrest
        · exact turn_congr rfl (turn_suspendPolicy hmem' hrest)
        · exact turn_congr rfl (turn_refreshPolicy hmem' hrest)

/-! ## A pass -/

/-- What the loop, with `rest` to go, adds to the policies that it has examined. -/
structure Tour (skip : Bool) (kept rest : List Policy) (x : World × Watch) (more : List Policy)
    (y : World × Watch) : Prop where
  sublist : more.Sublist rest
  passed : skip = true → rest ≠ [] → more.length < rest.length
  still : x.2.missed = true → y.2.missed = true
  all : y.2.missed = false → skip = false → more = rest
  only : ((kept ++ rest).map (·.id)).Nodup → more = rest → y.2.missed = true → x.2.missed = true

theorem tour_examineLoop {skip : Bool} {kept : List Policy} {failures : List String}
    {seen rest : List Policy} {res : Except String ((List Policy × List String) × List Policy)}
    (hmem : x.1.mem = kept ++ rest)
    (h : Watched (examineLoop cfg skip kept failures seen rest) x res y) :
    ∃ left more, res = .ok (left, seen ++ more) ∧ Tour skip kept rest x more y := by
  induction rest generalizing skip kept failures seen x with
  | nil =>
    obtain ⟨rfl, rfl⟩ := h.of_ret
    refine ⟨_, [], by rw [List.append_nil], List.Sublist.refl _, fun _ h => absurd rfl h, id,
      fun _ _ => rfl, fun _ _ => id⟩
  | cons policy rest ih =>
    rw [examineLoop] at h
    split at h
    · rename_i hskip
      subst hskip
      obtain ⟨left, more, hres, htour⟩ := ih (by simpa using hmem) h
      have hshort : more.length < (policy :: rest).length :=
        Nat.lt_succ_of_le htour.sublist.length_le
      refine ⟨left, more, hres, htour.sublist.cons policy, fun _ _ => hshort, htour.still,
        nofun, fun _ hmore => ?_⟩
      rw [hmore] at hshort
      exact absurd hshort (lt_irrefl _)
    · rename_i hskip
      obtain ⟨e, he, rfl⟩ | ⟨r, z, hround, hloop⟩ := Proc.observed_of_bind h
      · obtain ⟨r, hr, -⟩ := turn_reconcilePolicy hmem he
        cases hr
      obtain ⟨r', hr, hturn⟩ := turn_reconcilePolicy hmem hround
      cases hr
      obtain ⟨left, more, hres, htour⟩ := ih hturn.mem hloop
      refine ⟨left, policy :: more, by rw [hres, List.append_assoc]; rfl,
        htour.sublist.cons_cons policy, fun h => absurd h hskip, fun h =>
          htour.still (hturn.still h),
        fun hmissed _ => ?_, fun hids hmore hy => ?_⟩
      · -- the policy that follows has its turn, or there is none
        by_cases hrest : rest = []
        · subst hrest
          rw [List.sublist_nil.mp htour.sublist]
        · congr 1
          refine htour.all hmissed (Bool.eq_false_iff.mpr fun hskip' => ?_)
          rw [htour.still (hturn.noticed hskip' hrest)] at hmissed
          cases hmissed
      · have hmore := (List.cons.inj hmore).2
        have hids' := hids.sublist hturn.ids
        rcases hturn.only hids (htour.only hids' hmore hy) with hx | ⟨hskip', hrest⟩
        · exact hx
        · have hshort := htour.passed hskip' hrest
          rw [hmore] at hshort
          exact absurd hshort (lt_irrefl _)

/-- In every pass, whatever fails: every policy is examined once, in the order of the list, if no
save fails after a policy that is not the last has been taken off; and only then, if no two
policies have one id. -/
theorem examined_iff {w w' : World} {o : Watch}
    {res : Except String ((List Policy × List String) × List Policy)}
    (h : Watched (examine cfg) (w, {}) res (w', o)) :
    ∃ left seen, res = .ok (left, seen) ∧ (o.missed = false → seen = w.mem) ∧
      ((w.mem.map (·.id)).Nodup → (seen = w.mem ↔ o.missed = false)) := by
  obtain ⟨e, he, -⟩ | ⟨policies, x, hlock, hloop⟩ := Proc.observed_of_bind h
  · obtain ⟨_, he, -⟩ := Observed.of_perform he
    cases he
  obtain ⟨_, hpolicies, rfl⟩ := Observed.of_perform hlock
  cases hpolicies
  obtain ⟨left, seen, hres, htour⟩ := tour_examineLoop rfl hloop
  have hall := fun hmissed => htour.all hmissed rfl
  refine ⟨left, seen, hres, hall, fun hids => ⟨fun hseen => ?_, hall⟩⟩
  refine Bool.eq_false_iff.mpr fun hmissed => ?_
  cases htour.only hids hseen hmissed

/-- Two policies for one instance. -/
def twoCaps : World where
  mem := [cap, { cap with id := "fedcba9876543210fedcba9876543210" }].map
    (Policy.withIps ["10.0.0.2"])

/-- The inputs of a pass over `twoCaps` after both leases; `saved` is the outcome of the first
save. -/
def pastLeases (saved : Input) : List Input :=
  [{}, { now := 2000 }, {}, {}, {}, {}, {}, saved, { now := 2000 }, {}, {}, {}, {}, {}, {}]

theorem examined_iff_saved : ∃ w' o left seen,
    Watched (examine bridged) (twoCaps, {}) (.ok (left, seen)) (w', o) ∧ o.missed = false ∧
      seen = twoCaps.mem := by
  obtain ⟨⟨r, w', o⟩, hrun, h⟩ : ∃ x, (examine bridged).observe host Watch.see self (twoCaps, {})
      (pastLeases {}) = some x ∧ x.2.2.missed = false := ⟨_, rfl, rfl⟩
  have hwatched : Watched (examine bridged) (twoCaps, {}) r (w', o) := observed_of_observe _ hrun
  obtain ⟨left, seen, rfl, hall, -⟩ := examined_iff hwatched
  exact ⟨w', o, left, seen, hwatched, h, hall h⟩

/-- The save after the first policy has been taken off fails: the second is not examined, although
its lease is over. -/
theorem second_passed_by : ∃ left w',
    Runs host anyStep self (examine bridged) twoCaps (.ok (left, twoCaps.mem.take 1)) w' ∧
      twoCaps.mem.length = 2 ∧ w'.clock = 2000 ∧ ∀ p ∈ twoCaps.mem, p.expiresAt < 2000 := by
  obtain ⟨⟨⟨left, seen⟩, w'⟩, hrun, hseen, hclock⟩ :
      ∃ x : ((List Policy × List String) × List Policy) × World,
        (alone host anyStep self (examine bridged) twoCaps
          (pastLeases { fail := some "no space" })) = some (.ok x.1, x.2) ∧
        x.1.2 = twoCaps.mem.take 1 ∧ x.2.clock = 2000 := ⟨(_, _), rfl, rfl, rfl⟩
  refine ⟨left, w', ?_, rfl, hclock, by decide⟩
  rw [← hseen]
  exact runs_of_alone _ hrun

end RunmanAgent.ConnLimit
