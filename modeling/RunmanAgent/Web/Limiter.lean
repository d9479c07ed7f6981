import RunmanAgent.Web.Auth

/-!
# The login limiter

A login counts the recent failures of its client, verifies the password without holding the
table, and records a failure afterwards. Logins that are between the check and the record are
not counted, so any number of them can pass the check together.

If every login that passes the check leaves room for those in progress (`Reserves`), guesses are
bounded (`guesses_bounded`). The failures and the logins in progress are the slots of a client:
each evaluated password keeps one for as long as its window is open.
-/

namespace RunmanAgent.Web

open Concurrency Proc

namespace State

variable (s : State) (key : IpAddr)

/-- Logins of the client between their check and their end. -/
def inFlight : Nat := s.flights.entries.countP fun e => e.2.key = key

/-- Those whose password was found to be wrong at `t` or later. -/
def wrongFlights (t : Nat) : Nat :=
  s.flights.entries.countP fun e => e.2.key = key && e.2.wrongAt.any fun w => t ≤ w

/-- Wrong passwords of the client that were evaluated in the window that starts at `t`. -/
def evaluated (t : Nat) : Nat :=
  s.wrong.countP fun e => e.1 = key ∧ t ≤ e.2 ∧ e.2 < t + loginWindow

/-- A login of the client succeeded in the window. -/
def SucceededIn (t : Nat) : Prop :=
  ∃ e ∈ s.successes, e.1 = key ∧ t ≤ e.2 ∧ e.2 < t + loginWindow

end State

/-- A login that passes the check leaves room for those in progress. -/
def Reserves (_ : Pid) (e : Act) (s : State) (i : Input) : Prop :=
  match e with
  | .checkFailures key => (s.fresh i key).length < loginMaxFailures →
      (s.fresh i key).length + s.inFlight key < loginMaxFailures
  | _ => True

structure Limited (s : State) : Prop where
  slots : ∀ k, (s.failuresOf k).length + s.inFlight k ≤ loginMaxFailures
  past : ∀ e ∈ s.wrong, e.2 ≤ s.clock
  flightPast : ∀ p f w, s.flights.lookup p = some f → f.wrongAt = some w → w ≤ s.clock
  /-- While the window is open, every password evaluated in it keeps a slot. -/
  held : ∀ k t, s.clock < t + loginWindow → ¬s.SucceededIn k t →
    s.evaluated k t ≤ (s.failuresOf k).countP (fun τ => t ≤ τ) + s.wrongFlights k t
  window : ∀ k t, ¬s.SucceededIn k t → s.evaluated k t ≤ loginMaxFailures

/-- What a request knows of its own login. -/
def MayLogin (p : Pid) (e : Act) (s : State) : Prop :=
  match e with
  | .checkFailures _ => s.flights.lookup p = none
  | .config => ∀ f, s.flights.lookup p = some f → f.wrongAt = none
  | .verify (some key) => s.flights.lookup p = some ⟨key, none⟩
  | .recordFailure key | .clearFailures key => ∃ w, s.flights.lookup p = some ⟨key, w⟩
  | _ => True

/-! ## One step -/

section Step

variable {s : State} {p : Pid} {i : Input} {e : Act}

theorem failuresOf_insert (s : State) (key : IpAddr) (l : List Nat) (k : IpAddr) :
    ((s.failures.insert key l).lookup k).getD [] = if k = key then l else s.failuresOf k := by
  split
  · rename_i heq
    subst heq
    rw [AList.lookup_insert]
    rfl
  · rename_i hne
    rw [AList.lookup_insert_ne hne]
    rfl

theorem clock_le_time (s : State) (i : Input) : s.clock ≤ s.time i := Nat.le_max_left ..

theorem wrongFlights_le_inFlight (s : State) (k : IpAddr) (t : Nat) :
    s.wrongFlights k t ≤ s.inFlight k := by
  refine List.countP_mono_left fun e _ he => ?_
  exact (Bool.and_eq_true_iff.mp he).1

theorem wrong_apply (s : State) (p : Pid) (i : Input) (e : Act) :
    (s.apply p i e).wrong = s.wrong ∨ ∃ key,
      (s.apply p i e).wrong = (key, s.time i) :: s.wrong := by
  cases e with
  | verify key =>
    cases key with
    | none => exact .inl rfl
    | some key =>
      show (s.step p i (.verify (some key))).wrong = _ ∨ ∃ k,
        (s.step p i (.verify (some key))).wrong = _
      rw [State.step]
      split
      · exact .inl rfl
      · exact .inr ⟨key, rfl⟩
  | updateHash hash =>
    show (s.step p i (.updateHash hash)).wrong = _ ∨ _
    rw [State.step]
    split <;> exact .inl rfl
  | _ => exact .inl rfl

variable {k : IpAddr} {t : Nat} {key : IpAddr}

theorem evaluated_late (h : t + loginWindow ≤ s.time i) :
    (s.apply p i e).evaluated k t = s.evaluated k t := by
  obtain hw | ⟨key, hw⟩ := wrong_apply s p i e
  · unfold State.evaluated
    rw [hw]
  · unfold State.evaluated
    rw [hw, List.countP_cons]
    have hout : decide (key = k ∧ t ≤ s.time i ∧ s.time i < t + loginWindow) = false := by
      refine decide_eq_false fun hin => ?_
      omega
    rw [hout]
    rfl

theorem past_apply (h : ∀ e ∈ s.wrong, e.2 ≤ s.clock) :
    ∀ e' ∈ (s.apply p i e).wrong, e'.2 ≤ s.time i := by
  have hclock := clock_le_time s i
  intro e' he'
  obtain hw | ⟨key, hw⟩ := wrong_apply s p i e
  · rw [hw] at he'
    exact Nat.le_trans (h e' he') hclock
  · rw [hw] at he'
    cases he' with
    | head => exact le_rfl
    | tail _ he' => exact Nat.le_trans (h e' he') hclock

theorem successes_apply (s : State) (p : Pid) (i : Input) (e : Act) :
    s.successes ⊆ (s.apply p i e).successes := by
  cases e with
  | verify key =>
    cases key with
    | none => exact fun _ h => h
    | some key =>
      show s.successes ⊆ (s.step p i (.verify (some key))).successes
      rw [State.step]
      split <;> exact fun _ h => h
  | updateHash hash =>
    show s.successes ⊆ (s.step p i (.updateHash hash)).successes
    rw [State.step]
    split <;> exact fun _ h => h
  | clearFailures key => exact fun _ h => .tail _ h
  | _ => exact fun _ h => h

theorem SucceededIn.apply (h : ¬(s.apply p i e).SucceededIn k t) : ¬s.SucceededIn k t := by
  rintro ⟨e', hmem, hin⟩
  exact h ⟨e', successes_apply s p i e hmem, hin⟩

theorem Limited.next (h : Limited s)
    (slots : ∀ k, ((s.apply p i e).failuresOf k).length +
      (s.apply p i e).inFlight k ≤ loginMaxFailures)
    (flightPast : ∀ q f w, (s.apply p i e).flights.lookup q = some f → f.wrongAt = some w →
      w ≤ s.time i)
    (held : ∀ k t, s.time i < t + loginWindow → ¬(s.apply p i e).SucceededIn k t →
      (s.apply p i e).evaluated k t ≤ ((s.apply p i e).failuresOf k).countP (fun τ => t ≤ τ) +
        (s.apply p i e).wrongFlights k t) : Limited (s.apply p i e) := by
  refine ⟨slots, past_apply h.past, flightPast, held, fun k t hno => ?_⟩
  by_cases hopen : s.time i < t + loginWindow
  · have hheld := held k t hopen hno
    have hslots := slots k
    have hfail := List.countP_le_length (p := fun τ => decide (t ≤ τ))
      (l := (s.apply p i e).failuresOf k)
    have hflight := wrongFlights_le_inFlight (s.apply p i e) k t
    omega
  · rw [evaluated_late (Nat.le_of_not_lt hopen)]
    exact h.window k t (SucceededIn.apply hno)

theorem Limited.old_held (h : Limited s) (hopen : s.time i < t + loginWindow)
    (hno : ¬(s.apply p i e).SucceededIn k t) :
    s.evaluated k t ≤ (s.failuresOf k).countP (fun τ => t ≤ τ) + s.wrongFlights k t :=
  h.held k t (Nat.lt_of_le_of_lt (clock_le_time s i) hopen) (SucceededIn.apply hno)

theorem Limited.old_flightPast (h : Limited s) {q : Pid} {f : Flight} {w : Nat}
    (hq : s.flights.lookup q = some f) (hw : f.wrongAt = some w) : w ≤ s.time i :=
  Nat.le_trans (h.flightPast q f w hq hw) (clock_le_time s i)

theorem Limited.same (h : Limited s) (hfail : (s.apply p i e).failures = s.failures)
    (hflight : (s.apply p i e).flights = s.flights) (hwrong : (s.apply p i e).wrong = s.wrong) :
    Limited (s.apply p i e) := by
  have hfailures : ∀ k, (s.apply p i e).failuresOf k = s.failuresOf k := by
    intro k
    unfold State.failuresOf
    rw [hfail]
  refine h.next (fun k => ?_) (fun q f w hq hw => ?_) fun k t hopen hno => ?_
  · rw [hfailures, State.inFlight, hflight]
    exact h.slots k
  · exact h.old_flightPast (hflight ▸ hq) hw
  · rw [hfailures, State.evaluated, hwrong, State.wrongFlights, hflight]
    exact h.old_held hopen hno

theorem Limited.checkFailures (h : Limited s) (hmay : s.flights.lookup p = none)
    (hok : Reserves p (.checkFailures key) s i) : Limited (s.apply p i (.checkFailures key)) := by
  have hfailures : ∀ k, (s.apply p i (.checkFailures key)).failuresOf k =
      if k = key then s.fresh i key else s.failuresOf k := failuresOf_insert s key _
  have hfresh : (s.fresh i key).length ≤ (s.failuresOf key).length := List.length_filter_le ..
  have herase := AList.erase_of_lookup_eq_none hmay
  -- a login that passes takes one more slot
  have hcount : ∀ q : Flight → Bool, (s.apply p i (.checkFailures key)).flights.entries.countP
      (fun e => q e.2) = s.flights.entries.countP (fun e => q e.2) +
        if (s.fresh i key).length < loginMaxFailures ∧ q ⟨key, none⟩ = true then 1 else 0 := by
    intro q
    show (if _ then _ else _ : AList _).entries.countP _ = _
    by_cases hlt : (s.fresh i key).length < loginMaxFailures
    · rw [if_pos hlt, AList.countP_entries_insert, herase, Nat.add_comm]
      simp only [hlt, true_and]
    · rw [if_neg hlt, if_neg fun hc => hlt hc.1, Nat.add_zero]
  refine h.next (fun k => ?_) (fun q f w hq hw => ?_) fun k t hopen hno => ?_
  · have hflight := hcount fun f => f.key = k
    have hslots := h.slots k
    rw [hfailures]
    unfold State.inFlight at hslots ⊢
    rw [hflight]
    by_cases hk : k = key
    · subst hk
      rw [if_pos rfl]
      by_cases hlt : (s.fresh i k).length < loginMaxFailures
      · have hroom : (s.fresh i k).length + s.inFlight k < loginMaxFailures := hok hlt
        unfold State.inFlight at hroom
        rw [if_pos ⟨hlt, decide_eq_true rfl⟩]
        omega
      · rw [if_neg fun hc => hlt hc.1]
        omega
    · rwa [if_neg hk, if_neg fun hc => hk (of_decide_eq_true hc.2).symm]
  · have hq' : (if (s.fresh i key).length < loginMaxFailures then s.flights.insert p ⟨key, none⟩
        else s.flights).lookup q = some f := hq
    split at hq'
    · by_cases heq : q = p
      · subst heq
        cases (AList.lookup_insert _).symm.trans hq'
        cases hw
      · exact h.old_flightPast ((AList.lookup_insert_ne heq).symm.trans hq') hw
    · exact h.old_flightPast hq' hw
  · have hflight := hcount fun f => f.key = k && f.wrongAt.any fun w => t ≤ w
    have hold := h.old_held hopen hno
    have hkeep : ((s.apply p i (.checkFailures key)).failuresOf k).countP (fun τ => t ≤ τ) =
        (s.failuresOf k).countP (fun τ => t ≤ τ) := by
      rw [hfailures]
      split
      · rename_i hk
        subst hk
        rw [State.fresh, List.countP_filter]
        refine List.countP_congr fun τ _ => ?_
        -- a failure in an open window still counts
        have hpos : 0 < loginWindow := by decide
        simp only [Bool.and_eq_true, decide_eq_true_eq]
        omega
      · rfl
    rw [hkeep]
    unfold State.wrongFlights at hold ⊢
    rw [hflight]
    exact Nat.le_trans hold (Nat.add_le_add_left (Nat.le_add_right ..) _)

theorem flightPast_erase (h : Limited s) {q : Pid} {f : Flight} {w : Nat}
    (hq : (s.flights.erase p).lookup q = some f) (hw : f.wrongAt = some w) : w ≤ s.time i := by
  by_cases heq : q = p
  · subst heq
    cases (AList.lookup_erase ..).symm.trans hq
  · exact h.old_flightPast ((AList.lookup_erase_ne heq).symm.trans hq) hw

theorem Limited.config (h : Limited s)
    (hmay : ∀ f, s.flights.lookup p = some f → f.wrongAt = none) : Limited
      (s.apply p i .config) := by
  by_cases hhash : s.webPasswordHash = ""
  · cases hp : s.flights.lookup p with
    | none =>
      refine h.same rfl ?_ rfl
      show (if s.webPasswordHash = "" then s.flights.erase p else s.flights) = s.flights
      rw [if_pos hhash]
      exact AList.erase_of_lookup_eq_none hp
    | some f =>
      have hflights : (s.apply p i .config).flights = s.flights.erase p := if_pos hhash
      refine h.next (fun k => ?_) (fun q f' w hq hw => ?_) fun k t hopen hno => ?_
      · have hcount := AList.countP_entries_of_lookup hp fun e => e.2.key = k
        have hslots := h.slots k
        show (s.failuresOf k).length + _ ≤ _
        unfold State.inFlight at hslots ⊢
        rw [hflights]
        omega
      · exact flightPast_erase h (hflights ▸ hq) hw
      · have hcount := AList.countP_entries_of_lookup hp fun e =>
          e.2.key = k && e.2.wrongAt.any fun w => t ≤ w
        rw [if_neg (by simp [hmay f hp]), Nat.zero_add] at hcount
        show s.evaluated k t ≤ (s.failuresOf k).countP _ + _
        unfold State.wrongFlights
        rw [hflights, ← hcount]
        exact h.old_held hopen hno
  · exact h.same rfl (if_neg hhash) rfl

theorem Limited.verify (h : Limited s) (hmay : s.flights.lookup p = some ⟨key, none⟩) :
    Limited (s.apply p i (.verify (some key))) := by
  cases hv : i.verified with
  | true =>
    have hstep : s.apply p i (.verify (some key)) = { s with clock := s.time i } := by
      unfold State.apply State.step
      rw [hv]
      rfl
    exact h.same (by rw [hstep]) (by rw [hstep]) (by rw [hstep])
  | false =>
    have hstep : s.apply p i (.verify (some key)) = { s with
        clock := s.time i
        wrong := (key, s.time i) :: s.wrong
        flights := s.flights.insert p ⟨key, some (s.time i)⟩ } := by
      unfold State.apply State.step
      rw [hv]
      rfl
    refine h.next (fun k => ?_) (fun q f w hq hw => ?_) fun k t hopen hno => ?_
    · have hcount := AList.countP_entries_of_lookup hmay fun e => e.2.key = k
      have hslots := h.slots k
      rw [hstep]
      show (s.failuresOf k).length + (s.flights.insert p _).entries.countP _ ≤ _
      rw [AList.countP_entries_insert]
      unfold State.inFlight at hslots
      rwa [hcount] at hslots
    · rw [hstep] at hq
      by_cases heq : q = p
      · subst heq
        cases (AList.lookup_insert _).symm.trans hq
        cases hw
        exact le_rfl
      · exact h.old_flightPast ((AList.lookup_insert_ne heq).symm.trans hq) hw
    · have hold := h.old_held hopen hno
      have hcount := AList.countP_entries_of_lookup hmay fun e =>
        e.2.key = k && e.2.wrongAt.any fun w => t ≤ w
      rw [if_neg (by simp), Nat.zero_add] at hcount
      rw [hstep]
      show List.countP _ ((key, s.time i) :: s.wrong) ≤
        (s.failuresOf k).countP _ + (s.flights.insert p _).entries.countP _
      rw [AList.countP_entries_insert, List.countP_cons]
      unfold State.evaluated State.wrongFlights at hold
      rw [hcount] at hold
      -- the password that is evaluated takes a slot of the same client
      by_cases hin : key = k ∧ t ≤ s.time i
      · rw [if_pos (by simp [hin, hopen]), if_pos (by simp [hin])]
        omega
      · have hout : ¬decide (key = k ∧ t ≤ s.time i ∧ s.time i < t + loginWindow) = true :=
          fun hc => hin ⟨(of_decide_eq_true hc).1, (of_decide_eq_true hc).2.1⟩
        rw [if_neg hout, if_neg (by simpa using hin)]
        omega

theorem Limited.recordFailure (h : Limited s) (hmay : ∃ w, s.flights.lookup p = some ⟨key, w⟩) :
    Limited (s.apply p i (.recordFailure key)) := by
  obtain ⟨w, hp⟩ := hmay
  have hfailures : ∀ k, (s.apply p i (.recordFailure key)).failuresOf k =
      if k = key then s.failuresOf key ++ [s.time i] else s.failuresOf k :=
        failuresOf_insert s key _
  refine h.next (fun k => ?_) (fun q f' w hq hw => flightPast_erase h hq hw) fun k t hopen hno => ?_
  · have hcount := AList.countP_entries_of_lookup hp fun e => e.2.key = k
    have hslots := h.slots k
    rw [hfailures]
    show _ + (s.flights.erase p).entries.countP _ ≤ _
    unfold State.inFlight at hslots
    by_cases hk : k = key
    · subst hk
      rw [if_pos (decide_eq_true rfl)] at hcount
      rw [if_pos rfl, List.length_append, List.length_singleton]
      omega
    · rw [if_neg hk]
      omega
  · have hold := h.old_held hopen hno
    have hcount := AList.countP_entries_of_lookup hp fun e =>
      e.2.key = k && e.2.wrongAt.any fun w => t ≤ w
    show s.evaluated k t ≤ _ + (s.flights.erase p).entries.countP _
    rw [hfailures]
    unfold State.wrongFlights at hold
    by_cases hk : k = key
    · subst hk
      rw [if_pos rfl, List.countP_append, List.countP_singleton]
      -- the failure is recorded after the password was evaluated
      by_cases hin : t ≤ s.time i
      · rw [if_pos (decide_eq_true hin)]
        split at hcount <;> omega
      · have hnot : (w.any fun w => decide (t ≤ w)) = false := by
          cases w with
          | none => rfl
          | some w =>
            have hw : w ≤ s.time i := h.old_flightPast hp rfl
            exact decide_eq_false (by omega)
        rw [if_neg (by simp [hnot])] at hcount
        omega
    · rw [if_neg (by simp [Ne.symm hk])] at hcount
      rw [if_neg hk]
      omega

theorem Limited.clearFailures (h : Limited s) (hmay : ∃ w, s.flights.lookup p = some ⟨key, w⟩) :
    Limited (s.apply p i (.clearFailures key)) := by
  obtain ⟨w, hp⟩ := hmay
  have hfailures : ∀ k, k ≠ key →
    (s.apply p i (.clearFailures key)).failuresOf k = s.failuresOf k := by
    intro k hk
    show ((s.failures.erase key).lookup k).getD [] = _
    rw [AList.lookup_erase_ne hk]
    rfl
  have hcleared : (s.apply p i (.clearFailures key)).failuresOf key = [] := by
    show ((s.failures.erase key).lookup key).getD [] = _
    rw [AList.lookup_erase]
    rfl
  refine h.next (fun k => ?_) (fun q f' w hq hw => flightPast_erase h hq hw) fun k t hopen hno => ?_
  · have hcount := AList.countP_entries_of_lookup hp fun e => e.2.key = k
    have hslots := h.slots k
    show _ + (s.flights.erase p).entries.countP _ ≤ _
    unfold State.inFlight at hslots
    by_cases hk : k = key
    · subst hk
      rw [hcleared, List.length_nil]
      omega
    · rw [hfailures k hk]
      omega
  · show s.evaluated k t ≤ _
    by_cases hk : k = key
    · subst hk
      -- a window that has begun has this success in it
      have hlater : s.time i < t := by
        refine Nat.lt_of_not_le fun hle => hno ⟨(k, s.time i), .head _, rfl, hle, hopen⟩
      have hnone : s.evaluated k t = 0 := by
        refine List.countP_eq_zero.mpr fun e he => ?_
        have hpast := Nat.le_trans (h.past e he) (clock_le_time s i)
        simp only [decide_eq_true_eq]
        omega
      omega
    · have hold := h.old_held hopen hno
      have hcount := AList.countP_entries_of_lookup hp fun e =>
        e.2.key = k && e.2.wrongAt.any fun w => t ≤ w
      rw [if_neg (by simp [Ne.symm hk]), Nat.zero_add] at hcount
      rw [hfailures k hk]
      unfold State.wrongFlights at hold
      rwa [hcount] at hold

theorem Limited.apply (h : Limited s) (hmay : MayLogin p e s) (hok : Reserves p e s i) :
    Limited (s.apply p i e) := by
  cases e with
  | checkFailures key => exact h.checkFailures hmay hok
  | config => exact h.config hmay
  | verify key =>
    cases key with
    | none => exact h.same rfl rfl rfl
    | some key => exact h.verify hmay
  | recordFailure key => exact h.recordFailure hmay
  | clearFailures key => exact h.clearFailures hmay
  | updateHash hash =>
    refine h.same ?_ ?_ ?_ <;> rw [State.apply, State.step] <;> split <;> rfl
  | _ => exact h.same rfl rfl rfl

end Step

def limiterDiscipline : Discipline machine where
  inv := Limited
  may := MayLogin
  ok := Reserves
  keeps hinv _ hmay hok := hinv.apply hmay hok

/-! ## The requests -/

section Requests

variable {me : Pid} {α : Type}

theorem lookup_flights_apply {s : State} {p q : Pid} (hne : q ≠ p) (i : Input) (e : Act) :
    (s.apply p i e).flights.lookup q = s.flights.lookup q := by
  show (s.step p i e).flights.lookup q = _
  cases e with
  | checkFailures key =>
    rw [State.step]
    dsimp only
    split
    · exact AList.lookup_insert_ne hne
    · rfl
  | config =>
    rw [State.step]
    dsimp only
    split
    · exact AList.lookup_erase_ne hne
    · rfl
  | verify key =>
    cases key with
    | none => rfl
    | some key =>
      rw [State.step]
      split
      · rfl
      · exact AList.lookup_insert_ne hne
  | recordFailure key => exact AList.lookup_erase_ne hne
  | clearFailures key => exact AList.lookup_erase_ne hne
  | updateHash hash =>
    rw [State.step]
    split <;> rfl
  | _ => rfl

/-- The own login of the request satisfies `P`. -/
def Own (me : Pid) (P : Option Flight → Prop) (s : State) : Prop := P (s.flights.lookup me)

instance stable_own (P : Option Flight → Prop) : Stable limiterDiscipline me (Own me P) := by
  refine .of_step fun hs hne _ _ _ _ => ?_
  unfold Own
  rwa [machine_apply, lookup_flights_apply (Ne.symm hne)]

/-- A request whose own login satisfies `P` does what it may do. -/
abbrev Obeys (me : Pid) (P : Option Flight → Prop) (x : Prog State Input Act α) : Prop :=
  Triple limiterDiscipline MayLogin me (Own me P) x (fun _ _ => True)

theorem obeys_ret {P : Option Flight → Prop} {a : α} :
    Obeys me P (.ret a : Prog State Input Act α) :=
  .ret fun _ _ _ => trivial

/-- The action has nothing to do with logins. -/
def NoLogin (e : Act) : Prop := ∀ p s i, MayLogin p e s ∧ (s.apply p i e).flights = s.flights

theorem triple_noLogin {P : Option Flight → Prop} {x : Prog State Input Act α}
    (h : x.Uses NoLogin) :
    Triple limiterDiscipline MayLogin me (Own me P) x (fun _ => Own me P) := by
  refine .of_uses (h.mono fun e he s i _ hs _ _ => ⟨(he me s i).1, ?_⟩)
  unfold Own
  rwa [machine_apply, (he me s i).2]

theorem triple_signIn (key : IpAddr) (password : Nat) :
    Obeys me (fun f => ∃ w, f = some ⟨key, w⟩) (signIn key password) := by
  refine .seq (R := Own me fun _ => True) ?_ (fun _ _ _ _ => trivial) fun _ => ?_
  · exact .perform fun s i _ hs _ _ => ⟨hs, trivial⟩
  · refine (triple_noLogin ?_).post fun _ _ _ _ => trivial
    refine uses_bind (.perform fun _ _ _ => ⟨trivial, rfl⟩) fun token => ?_
    exact uses_bind (.perform fun _ _ _ => ⟨trivial, rfl⟩) fun _ => trivial

theorem triple_refuse (key : IpAddr) :
    Obeys me (fun f => ∃ w, f = some ⟨key, w⟩) (refuse key) := by
  refine .seq (R := Own me fun _ => True) ?_ (fun _ _ _ _ => trivial) fun _ => obeys_ret
  exact .perform fun s i _ hs _ _ => ⟨hs, trivial⟩

theorem triple_authenticate (key : IpAddr) (username : String) :
    Obeys me (· = some ⟨key, none⟩) (authenticate key username) := by
  refine .procBind
    (R := fun cfg s => cfg.webPasswordHash ≠ "" → Own me (· = some ⟨key, none⟩) s)
    ?_ fun cfg => ?_
  · refine .perform fun s i _ hs _ _ => ⟨fun f hf => ?_, fun hne => ?_⟩
    · cases hs.symm.trans hf
      rfl
    · show (if s.webPasswordHash = "" then _ else s.flights : AList _).lookup me = _
      rwa [if_neg hne]
  · by_cases hhash : cfg.webPasswordHash = ""
    · rw [if_pos hhash]
      exact fun _ _ _ _ _ => trivial
    · rw [if_neg hhash]
      refine .procBind (R := fun _ => Own me fun f => ∃ w, f = some ⟨key, w⟩) ?_
        fun okPassword => ?_
      · refine .pre (Triple.perform fun s i _ (hs : Own me (· = some ⟨key, none⟩) s) _ _ =>
          ⟨hs, ?_⟩) fun s hs => hs hhash
        show ∃ w, (s.step me i (.verify (some key))).flights.lookup me = some ⟨key, w⟩
        rw [State.step]
        split
        · exact ⟨none, hs⟩
        · exact ⟨_, AList.lookup_insert _⟩
      · split
        · exact triple_signIn key _
        · exact triple_refuse key

theorem triple_login (peer : IpAddr) (username : String) :
    Obeys me (· = none) (login peer username) := by
  refine .procBind (R := fun failed => Own me fun f => failed < loginMaxFailures →
    f = some ⟨loginKey (toCanonical peer), none⟩) ?_ fun failed => ?_
  · refine .perform fun s i _ hs _ _ => ⟨hs, fun hlt => ?_⟩
    show (if _ then _ else _ : AList _).lookup me = _
    rw [if_pos hlt]
    exact AList.lookup_insert _
  · split
    · exact fun _ _ _ _ _ => trivial
    · rename_i hlt
      exact (triple_authenticate _ username).pre fun s hs => hs (Nat.lt_of_not_le hlt)

theorem noLogin_updateHash (hash : String) : NoLogin (.updateHash hash) := by
  intro p s i
  refine ⟨trivial, ?_⟩
  rw [State.apply, State.step]
  split <;> rfl

theorem triple_noLogin_bind {β : Type} {P : Option Flight →
    Prop} {x : Handler β} {f : β → Handler α}
    (hx : Prog.Uses NoLogin x)
    (hf : ∀ b, Obeys me P (f b)) : Obeys me P (x >>= f : Handler α) :=
  .seq (triple_noLogin hx) (fun _ _ _ _ => trivial) hf

theorem triple_protected (cookie : Option String) (headerOk : Bool) {x : Handler α}
    (hx : Obeys me (· = none) x) : Obeys me (· = none) (requireSession cookie headerOk x) := by
  cases cookie with
  | none => exact obeys_ret
  | some token =>
    refine triple_noLogin_bind (.perform fun _ _ _ => ⟨trivial, rfl⟩) fun valid => ?_
    split
    · exact obeys_ret
    · split
      · exact obeys_ret
      · exact hx

theorem triple_change (cookie : Option String) (newPassword : String) :
    Obeys me (· = none) (changePassword cookie newPassword) := by
  unfold changePassword
  split
  · exact obeys_ret
  · refine .procBind (R := fun _ => Own me (· = none)) ?_ fun cfg => ?_
    · refine .perform fun s i _ hs _ _ => ⟨fun f hf => ?_, ?_⟩
      · cases hs.symm.trans hf
      · show (if s.webPasswordHash = "" then s.flights.erase me else s.flights).lookup me = none
        split
        · exact AList.lookup_erase ..
        · exact hs
    · refine triple_noLogin_bind (.perform fun _ _ _ => ⟨trivial, rfl⟩) fun ok => ?_
      split
      · exact obeys_ret
      · refine triple_noLogin_bind (.perform fun _ _ _ => ⟨trivial, rfl⟩) fun newHash => ?_
        refine triple_noLogin_bind (.perform (noLogin_updateHash newHash)) fun password => ?_
        have hretain : Prog.Uses NoLogin (run (.retainSession cookie password) : Handler Unit) :=
          .perform fun _ _ _ => ⟨trivial, rfl⟩
        exact (triple_noLogin hretain).post fun _ _ _ _ => trivial

theorem triple_anyRequest (r : Request) : Obeys me (· = none) r.code := by
  have hend : ∀ {β : Type} {x : Prog State Input Act β},
      Obeys me (· = none) x →
      Obeys me (· = none) (Prog.bind x fun _ => .ret ()) :=
    fun hx => hx.bind fun _ => .ret fun _ _ hs => hs
  cases r with
  | login peer username => exact hend (triple_login peer username)
  | logout cookie headerOk =>
    refine hend (triple_protected cookie headerOk ?_)
    cases cookie with
    | none => exact obeys_ret
    | some token =>
      have hremove : Prog.Uses NoLogin (run (.removeSession token) : Handler Unit) :=
        .perform fun _ _ _ => ⟨trivial, rfl⟩
      exact (triple_noLogin hremove).post fun _ _ _ _ => trivial
  | changePassword cookie headerOk newPassword =>
    exact hend (triple_protected cookie headerOk (triple_change cookie newPassword))
  | other cookie headerOk => exact hend (triple_protected cookie headerOk obeys_ret)

end Requests

def panelStart (webUser webPasswordHash : String) (clock : Nat) : State :=
  { clock, webUser, webPasswordHash }

theorem limited_panelStart (user hash : String) (clock : Nat) :
    Limited (panelStart user hash clock) := by
  refine ⟨fun k => Nat.zero_le _, ?_, ?_, fun k t _ _ => Nat.zero_le _, fun k t _ => Nat.zero_le _⟩
  · rintro e ⟨⟩
  · rintro p f w ⟨⟩

/-- In every interleaving of requests that leave room for the logins in progress, at most
`loginMaxFailures` wrong passwords of a client are evaluated in a window without a success. -/
theorem guesses_bounded {requests : Pid → Request} {user hash : String} {clock : Nat}
    {P : Pool State Input Act}
    (hrun : Pool.Run machine Reserves (pool requests (panelStart user hash clock)) P) (key : IpAddr)
    (t : Nat) (hno : ¬P.mem.SucceededIn key t) : P.mem.evaluated key t ≤ loginMaxFailures := by
  have hsafe : (pool requests (panelStart user hash clock)).Safe limiterDiscipline
      (fun _ _ _ => True) :=
    ⟨limited_panelStart user hash clock, fun p => triple_anyRequest (requests p) _ rfl⟩
  exact (Pool.run_safe hsafe hrun).inv.window key t hno

instance (p : Pid) (e : Act) (s : State) (i : Input) : Decidable (Reserves p e s i) := by
  unfold Reserves
  split <;> infer_instance

/-- The address that guesses. -/
def guesser : IpAddr := .v4 0xcb007109

def guesses (_ : Pid) : Request := .login guesser "admin"

/-- The programs take `n` steps each, one after another. -/
def turns (ps : List Pid) (n : Nat) : List (Pid × Input) := ps.flatMap fun p =>
    List.replicate n (p, {})

/-- One guess after another: five of them are evaluated, the sixth is refused. -/
theorem guesses_in_turn :
    ∃ P, Pool.Run machine Reserves (pool guesses (panelStart "admin" "hash" 0)) P ∧
      P.mem.evaluated guesser 0 ≤ loginMaxFailures := by
  refine Pool.exists_run_imp (p := fun P => P.mem.successes = [])
    (turns (List.range 5) 4 ++ turns [5] 1) (by decide +kernel) fun P hrun hP => ?_
  refine guesses_bounded hrun guesser 0 ?_
  rintro ⟨e, he, -⟩
  rw [hP] at he
  cases he

/-- Six logins of one address pass the check together, and all their passwords are evaluated. -/
theorem guesses_together :
    ∃ P, Pool.Run machine anyStep (pool guesses (panelStart "admin" "hash" 0)) P ∧
      P.mem.successes = [] ∧ P.mem.evaluated guesser 0 = 6 :=
  Pool.exists_run (turns (List.range 6) 1 ++ turns (List.range 6) 2) (by decide +kernel)

end RunmanAgent.Web
