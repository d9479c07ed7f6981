import RunmanAgent.Traffic

/-!
# Traffic accounting conserves bytes

The host end of an instance's veth pair lives from boot to boot; its counters start at zero and do
not decrease. `Traffic.update` only sees samples of them: the interface index, the counters and
the label of the billing period. A new index means that the counters started again.

So two lifetimes of one index with nothing sampled between them look like one. While consecutive
sampled lifetimes have different indexes, no byte is lost (`accounting_conserves`).
-/

namespace RunmanAgent

structure Sample where
  rx : Nat
  tx : Nat
  period : String
  deriving DecidableEq

/-- One interface, and the samples taken of it. -/
structure Lifetime where
  ifindex : Nat
  samples : List Sample
  deriving DecidableEq

namespace Lifetime

/-- The index is not zero and the counters do not decrease. -/
structure Valid (l : Lifetime) : Prop where
  ifindex : l.ifindex ≠ 0
  rx : l.samples.Pairwise fun x y => x.rx ≤ y.rx
  tx : l.samples.Pairwise fun x y => x.tx ≤ y.tx

instance (l : Lifetime) : Decidable l.Valid :=
  decidable_of_iff (l.ifindex ≠ 0 ∧ (l.samples.Pairwise fun x y => x.rx ≤ y.rx) ∧
    l.samples.Pairwise fun x y => x.tx ≤ y.tx)
    ⟨fun h => ⟨h.1, h.2.1, h.2.2⟩, fun h => ⟨h.ifindex, h.rx, h.tx⟩⟩

def sampled (l : Lifetime) : Bool := !l.samples.isEmpty

/-- The last sampled counters. -/
def lastRx (l : Lifetime) : Nat := (l.samples.getLast?.map (·.rx)).getD 0

def lastTx (l : Lifetime) : Nat := (l.samples.getLast?.map (·.tx)).getD 0

end Lifetime

/-- The samples of a history, each with the index of its interface. -/
def events (ls : List Lifetime) : List (Nat × Sample) :=
  ls.flatMap fun l => l.samples.map fun x => (l.ifindex, x)

/-- The record after the samples. -/
def account (es : List (Nat × Sample)) : Traffic :=
  es.foldl (fun t e => t.update e.1 e.2.rx e.2.tx e.2.period) {}

/-- Bytes sent by the instance. -/
def bytesOut (ls : List Lifetime) : Nat := (ls.map Lifetime.lastRx).sum

/-- Bytes received by the instance. -/
def bytesIn (ls : List Lifetime) : Nat := (ls.map Lifetime.lastTx).sum

namespace Traffic

/-! ## Without overflow -/

/-- `update` with unbounded counters. -/
def exact (t : Traffic) (e : Nat × Sample) : Traffic :=
  let t := t.roll e.2.period
  let fresh := decide (e.1 ≠ t.lastIfindex)
  let dOut := delta fresh e.2.rx t.lastRx
  let dIn := delta fresh e.2.tx t.lastTx
  { t with
    totalOut := t.totalOut + dOut
    totalIn := t.totalIn + dIn
    monthOut := t.monthOut + dOut
    monthIn := t.monthIn + dIn
    lastIfindex := e.1
    lastRx := e.2.rx
    lastTx := e.2.tx }

/-- The month counters do not exceed the totals. -/
def Bounded (t : Traffic) : Prop := t.monthOut ≤ t.totalOut ∧ t.monthIn ≤ t.totalIn

variable {t : Traffic} {es : List (Nat × Sample)}

theorem Bounded.roll (h : t.Bounded) (p : String) : (t.roll p).Bounded := by
  unfold Traffic.roll
  split
  · exact ⟨Nat.zero_le _, Nat.zero_le _⟩
  · exact h

theorem Bounded.exact (h : t.Bounded) (e : Nat × Sample) : (t.exact e).Bounded := by
  have hroll := h.roll e.2.period
  exact ⟨Nat.add_le_add_right hroll.1 _, Nat.add_le_add_right hroll.2 _⟩

theorem totalOut_le_exact (t : Traffic) (e : Nat × Sample) : t.totalOut ≤ (t.exact e).totalOut := by
  have hroll := roll_totalOut t e.2.period
  show t.totalOut ≤ (t.roll e.2.period).totalOut + _
  omega

theorem totalIn_le_exact (t : Traffic) (e : Nat × Sample) : t.totalIn ≤ (t.exact e).totalIn := by
  have hroll := roll_totalIn t e.2.period
  show t.totalIn ≤ (t.roll e.2.period).totalIn + _
  omega

theorem update_eq_exact {e : Nat × Sample} (h : t.Bounded) (hout : (t.exact e).totalOut < 2 ^ 64)
    (hin : (t.exact e).totalIn < 2 ^ 64) : t.update e.1 e.2.rx e.2.tx e.2.period = t.exact e := by
  have hbounded := h.exact e
  unfold update exact
  dsimp only
  rw [addU64_of_lt hout, addU64_of_lt hin, addU64_of_lt (hbounded.1.trans_lt hout),
    addU64_of_lt (hbounded.2.trans_lt hin)]

theorem total_le_foldl_exact (t : Traffic) (es : List (Nat × Sample)) :
    t.totalOut ≤ (es.foldl exact t).totalOut ∧ t.totalIn ≤ (es.foldl exact t).totalIn := by
  induction es generalizing t with
  | nil => exact ⟨le_refl _, le_refl _⟩
  | cons e es ih =>
    obtain ⟨hout, hin⟩ := ih (t.exact e)
    exact ⟨(totalOut_le_exact t e).trans hout, (totalIn_le_exact t e).trans hin⟩

theorem foldl_update_eq_exact (h : t.Bounded) (hout : (es.foldl exact t).totalOut < 2 ^ 64)
    (hin : (es.foldl exact t).totalIn < 2 ^ 64) :
    es.foldl (fun t e => t.update e.1 e.2.rx e.2.tx e.2.period) t = es.foldl exact t := by
  induction es generalizing t with
  | nil => rfl
  | cons e es ih =>
    obtain ⟨hout', hin'⟩ := total_le_foldl_exact (t.exact e) es
    have hstep := update_eq_exact h (hout'.trans_lt hout) (hin'.trans_lt hin)
    rw [List.foldl_cons, List.foldl_cons, hstep]
    exact ih (h.exact e) hout hin

theorem bounded_foldl_exact (h : t.Bounded) (es : List (Nat × Sample)) :
    (es.foldl exact t).Bounded := by
  induction es generalizing t with
  | nil => exact h
  | cons e es ih => exact ih (h.exact e)

/-! ## One interface -/

theorem getLast?_cons_getD {α β : Type} (f : α → β) (a : α) (as : List α) (b : β) :
    ((a :: as).getLast?.map f).getD b = (as.getLast?.map f).getD (f a) := by
  rw [List.getLast?_cons]
  cases as.getLast? <;> rfl

theorem roll_last (t : Traffic) (p : String) :
    (t.roll p).lastIfindex = t.lastIfindex ∧ (t.roll p).lastRx = t.lastRx ∧
      (t.roll p).lastTx = t.lastTx := by
  unfold roll
  split <;> exact ⟨rfl, rfl, rfl⟩

theorem roll_period (t : Traffic) (p : String) : (t.roll p).period = p := by
  unfold roll
  split
  · rfl
  · rename_i h
    exact not_not.mp h

theorem total_exact (t : Traffic) (e : Nat × Sample) :
    (t.exact e).totalOut = t.totalOut + delta (decide (e.1 ≠ t.lastIfindex)) e.2.rx t.lastRx ∧
      (t.exact e).totalIn = t.totalIn + delta (decide (e.1 ≠ t.lastIfindex)) e.2.tx t.lastTx := by
  obtain ⟨hindex, hrx, htx⟩ := roll_last t e.2.period
  unfold exact
  dsimp only
  rw [hindex, hrx, htx, roll_totalOut, roll_totalIn]
  exact ⟨rfl, rfl⟩

theorem foldl_exact_same {i : Nat} {xs : List Sample} (hi : t.lastIfindex = i)
    (hrx : ∀ x ∈ xs, t.lastRx ≤ x.rx) (htx : ∀ x ∈ xs, t.lastTx ≤ x.tx)
    (hrxs : xs.Pairwise fun x y => x.rx ≤ y.rx) (htxs : xs.Pairwise fun x y => x.tx ≤ y.tx) :
    ((xs.map fun x => (i, x)).foldl exact t).lastIfindex = i ∧
      ((xs.map fun x => (i, x)).foldl exact t).totalOut + t.lastRx =
        t.totalOut + (xs.getLast?.map (·.rx)).getD t.lastRx ∧
      ((xs.map fun x => (i, x)).foldl exact t).totalIn + t.lastTx =
        t.totalIn + (xs.getLast?.map (·.tx)).getD t.lastTx := by
  induction xs generalizing t with
  | nil => exact ⟨hi, rfl, rfl⟩
  | cons x xs ih =>
    have hx := hrx x (.head _)
    have hx' := htx x (.head _)
    obtain ⟨hout, hin⟩ := total_exact t (i, x)
    simp only [delta, hi, ne_eq, not_true_eq_false, decide_false, Bool.false_or,
      decide_eq_true_eq, if_neg (Nat.not_lt.mpr hx), if_neg (Nat.not_lt.mpr hx')] at hout hin
    obtain ⟨hindex, hout', hin'⟩ := ih (t := t.exact (i, x)) rfl
      (List.pairwise_cons.mp hrxs).1 (List.pairwise_cons.mp htxs).1
      (List.pairwise_cons.mp hrxs).2 (List.pairwise_cons.mp htxs).2
    have hlastRx : (t.exact (i, x)).lastRx = x.rx := rfl
    have hlastTx : (t.exact (i, x)).lastTx = x.tx := rfl
    rw [getLast?_cons_getD, getLast?_cons_getD, List.map_cons, List.foldl_cons]
    rw [hlastRx] at hout'
    rw [hlastTx] at hin'
    exact ⟨hindex, by omega, by omega⟩

theorem foldl_exact_fresh {l : Lifetime} (hl : l.Valid) (hsampled : l.sampled = true)
    (hfresh : t.lastIfindex ≠ l.ifindex) :
    ((l.samples.map fun x => (l.ifindex, x)).foldl exact t).lastIfindex = l.ifindex ∧
      ((l.samples.map fun x => (l.ifindex, x)).foldl exact t).totalOut = t.totalOut + l.lastRx ∧
      ((l.samples.map fun x => (l.ifindex, x)).foldl exact t).totalIn = t.totalIn + l.lastTx := by
  obtain ⟨idx, xs⟩ := l
  cases xs with
  | nil => cases hsampled
  | cons x xs =>
    obtain ⟨hout, hin⟩ := total_exact t (idx, x)
    have hne : decide (idx ≠ t.lastIfindex) = true := decide_eq_true (Ne.symm hfresh)
    simp only [delta, hne, Bool.true_or, if_true] at hout hin
    obtain ⟨hindex, hout', hin'⟩ := foldl_exact_same (i := idx) (t := t.exact (idx, x)) rfl
      (List.pairwise_cons.mp hl.rx).1 (List.pairwise_cons.mp hl.tx).1
      (List.pairwise_cons.mp hl.rx).2 (List.pairwise_cons.mp hl.tx).2
    have hlastRx : (t.exact (idx, x)).lastRx = x.rx := rfl
    have hlastTx : (t.exact (idx, x)).lastTx = x.tx := rfl
    rw [hlastRx] at hout'
    rw [hlastTx] at hin'
    unfold Lifetime.lastRx Lifetime.lastTx
    rw [getLast?_cons_getD, getLast?_cons_getD, List.map_cons, List.foldl_cons]
    dsimp only
    exact ⟨hindex, by omega, by omega⟩

/-! ## All interfaces -/

theorem total_foldl_exact {ls : List Lifetime} (hls : ∀ l ∈ ls, l.Valid)
    (hne : (ls.filter Lifetime.sampled).IsChain fun l l' => l.ifindex ≠ l'.ifindex)
    (hfresh : ∀ l ∈ (ls.filter Lifetime.sampled).head?, t.lastIfindex ≠ l.ifindex) :
    ((events ls).foldl exact t).totalOut = t.totalOut + bytesOut ls ∧
      ((events ls).foldl exact t).totalIn = t.totalIn + bytesIn ls := by
  induction ls generalizing t with
  | nil => exact ⟨rfl, rfl⟩
  | cons l ls ih =>
    have hls' : ∀ l ∈ ls, l.Valid := fun l' hl' => hls l' (.tail _ hl')
    have hevents : (events (l :: ls)).foldl exact t =
        (events ls).foldl exact ((l.samples.map fun x => (l.ifindex, x)).foldl exact t) := by
      unfold events
      rw [List.flatMap_cons, List.foldl_append]
    have hbytesOut : bytesOut (l :: ls) = l.lastRx + bytesOut ls := List.sum_cons
    have hbytesIn : bytesIn (l :: ls) = l.lastTx + bytesIn ls := List.sum_cons
    rw [hevents, hbytesOut, hbytesIn]
    by_cases hsampled : l.sampled = true
    · rw [List.filter_cons_of_pos hsampled] at hne hfresh
      obtain ⟨hnext, hne'⟩ := List.isChain_cons.mp hne
      obtain ⟨hindex, hout, hin⟩ := foldl_exact_fresh (hls l (.head _)) hsampled (hfresh l rfl)
      obtain ⟨hout', hin'⟩ :=
        ih hls' hne' (t := (l.samples.map fun x => (l.ifindex, x)).foldl exact t)
        (by rw [hindex]; exact hnext)
      omega
    · -- nothing was sampled: the record does not see this interface
      rw [List.filter_cons_of_neg hsampled] at hne hfresh
      have hnil : l.samples = [] := by simpa [Lifetime.sampled] using hsampled
      obtain ⟨hout, hin⟩ := ih hls' hne hfresh
      simp only [hnil, List.map_nil, List.foldl_nil, Lifetime.lastRx, Lifetime.lastTx,
        List.getLast?_nil, Option.map_none, Option.getD_none, Nat.zero_add]
      exact ⟨hout, hin⟩

/-! ## The month -/

theorem month_foldl_exact {p : String} (hp : t.period = p) (hes : ∀ e ∈ es, e.2.period = p) :
    (es.foldl exact t).totalOut + t.monthOut = t.totalOut + (es.foldl exact t).monthOut ∧
      (es.foldl exact t).totalIn + t.monthIn = t.totalIn + (es.foldl exact t).monthIn := by
  induction es generalizing t with
  | nil => exact ⟨rfl, rfl⟩
  | cons e es ih =>
    have he := hes e (.head _)
    have hroll : t.roll e.2.period = t := roll_of_eq (hp.trans he.symm)
    have hperiod : (t.exact e).period = p := by
      show (t.roll e.2.period).period = p
      rw [hroll, hp]
    obtain ⟨hout, hin⟩ := ih hperiod fun e' he' => hes e' (.tail _ he')
    have hstep : (t.exact e).totalOut + t.monthOut = t.totalOut + (t.exact e).monthOut ∧
        (t.exact e).totalIn + t.monthIn = t.totalIn + (t.exact e).monthIn := by
      unfold exact
      dsimp only
      rw [hroll]
      omega
    rw [List.foldl_cons]
    omega

theorem month_foldl_exact_new {p : String} (hp : t.period ≠ p ∨ t.monthOut = 0 ∧ t.monthIn = 0)
    (hne : es ≠ []) (hes : ∀ e ∈ es, e.2.period = p) :
    (es.foldl exact t).totalOut = t.totalOut + (es.foldl exact t).monthOut ∧
      (es.foldl exact t).totalIn = t.totalIn + (es.foldl exact t).monthIn := by
  have hmonth : (t.roll p).monthOut = 0 ∧ (t.roll p).monthIn = 0 := by
    unfold roll
    split
    · exact ⟨rfl, rfl⟩
    · exact hp.resolve_left (by assumption)
  have hfold : es.foldl exact t = es.foldl exact (t.roll p) := by
    cases es with
    | nil => exact absurd rfl hne
    | cons e es =>
      have he := hes e (.head _)
      rw [List.foldl_cons, List.foldl_cons]
      congr 1
      unfold exact
      rw [he, roll_of_eq (roll_period t p)]
  obtain ⟨hout, hin⟩ := month_foldl_exact (roll_period t p) hes
  rw [hfold]
  rw [roll_totalOut, roll_totalIn] at *
  omega

end Traffic

theorem account_eq_exact {es : List (Nat × Sample)}
    (hout : (es.foldl Traffic.exact {}).totalOut < 2 ^ 64)
    (hin : (es.foldl Traffic.exact {}).totalIn < 2 ^ 64) : account es = es.foldl Traffic.exact {} :=
  Traffic.foldl_update_eq_exact ⟨le_refl _, le_refl _⟩ hout hin

theorem period_foldl_exact (t : Traffic) (es : List (Nat × Sample)) :
    (es.foldl Traffic.exact t).period = (es.getLast?.map (·.2.period)).getD t.period := by
  induction es generalizing t with
  | nil => rfl
  | cons e es ih =>
    have hperiod : (t.exact e).period = e.2.period := by
      show (t.roll e.2.period).period = e.2.period
      exact Traffic.roll_period t _
    rw [List.foldl_cons, ih, Traffic.getLast?_cons_getD, hperiod]

/-- For any samples of lifetimes with distinct consecutive indexes: the totals are the sums of the
last samples, and the month counters are what was added since the label last changed. -/
theorem accounting_conserves {ls : List Lifetime} (hls : ∀ l ∈ ls, l.Valid)
    (hne : (ls.filter Lifetime.sampled).IsChain fun l l' => l.ifindex ≠ l'.ifindex)
    (hout : bytesOut ls < 2 ^ 64) (hin : bytesIn ls < 2 ^ 64) :
    ((account (events ls)).totalOut = bytesOut ls ∧ (account (events ls)).totalIn = bytesIn ls) ∧
      (∀ before after p, events ls = before ++ after → after ≠ [] →
        (∀ e ∈ after, e.2.period = p) → (∀ e ∈ before.getLast?, e.2.period ≠ p) →
          (account (events ls)).totalOut = (account before).totalOut +
            (account (events ls)).monthOut ∧
          (account (events ls)).totalIn = (account before).totalIn +
            (account (events ls)).monthIn) ∧
      (account (events ls)).Bounded := by
  have hfresh : ∀ l ∈ (ls.filter Lifetime.sampled).head?, (0 : Nat) ≠ l.ifindex := by
    intro l hl
    exact (hls l (List.mem_of_mem_filter (List.mem_of_mem_head? hl))).ifindex.symm
  obtain ⟨htotalOut, htotalIn⟩ := Traffic.total_foldl_exact hls hne (t := {}) hfresh
  rw [show ({} : Traffic).totalOut = 0 from rfl, Nat.zero_add] at htotalOut
  rw [show ({} : Traffic).totalIn = 0 from rfl, Nat.zero_add] at htotalIn
  have haccount : account (events ls) = (events ls).foldl Traffic.exact {} :=
    account_eq_exact (htotalOut ▸ hout) (htotalIn ▸ hin)
  refine ⟨⟨by rw [haccount, htotalOut], by rw [haccount, htotalIn]⟩, ?_, ?_⟩
  · intro before after p hsplit hafter hlabel hbefore
    have hfold : (events ls).foldl Traffic.exact {} =
        after.foldl Traffic.exact (before.foldl Traffic.exact {}) := by
      rw [hsplit, List.foldl_append]
    obtain ⟨hle, hle'⟩ := Traffic.total_le_foldl_exact (before.foldl Traffic.exact {}) after
    have hbeforeEq : account before = before.foldl Traffic.exact {} := by
      apply account_eq_exact
      · exact (hle.trans_eq (hfold ▸ htotalOut)).trans_lt hout
      · exact (hle'.trans_eq (hfold ▸ htotalIn)).trans_lt hin
    rw [haccount, hbeforeEq, hfold]
    apply Traffic.month_foldl_exact_new _ hafter hlabel
    -- the label changes, or nothing has been counted
    cases hlast : before.getLast? with
    | none =>
      rw [List.getLast?_eq_none_iff.mp hlast]
      exact .inr ⟨rfl, rfl⟩
    | some e =>
      left
      rw [period_foldl_exact, hlast]
      exact hbefore e hlast
  · rw [haccount]
    exact Traffic.bounded_foldl_exact ⟨le_refl _, le_refl _⟩ _

/-- A boot, a reboot that nobody samples, another one, and a new month. -/
def reboots : List Lifetime :=
  [⟨7, [⟨100, 1000, "2026-10"⟩, ⟨150, 1300, "2026-10"⟩]⟩, ⟨8, []⟩,
    ⟨9, [⟨500, 2000, "2026-10"⟩, ⟨600, 2100, "2026-11"⟩]⟩]

theorem reboots_conserved :
    (account (events reboots)).totalOut = bytesOut reboots ∧ bytesOut reboots = 750 ∧
      (account (events reboots)).totalOut =
        (account ((events reboots).take 3)).totalOut + (account (events reboots)).monthOut ∧
      (account (events reboots)).monthOut = 100 ∧ (account (events reboots)).Bounded := by
  obtain ⟨htotal, hmonth, hbounded⟩ :=
    accounting_conserves (show ∀ l ∈ reboots, l.Valid by decide) (by decide)
    (by decide) (by decide)
  obtain ⟨hout, -⟩ := hmonth ((events reboots).take 3) ((events reboots).drop 3) "2026-11" rfl
    (by decide) (by decide) (by decide)
  exact ⟨htotal.1, rfl, hout, by decide, hbounded⟩

/-- Two lifetimes of one index, and one between them of which nothing was sampled. -/
def reused : List Lifetime :=
  [⟨7, [⟨100, 0, "2026-10"⟩]⟩, ⟨8, []⟩, ⟨7, [⟨150, 0, "2026-10"⟩]⟩]

theorem reused_index_loses :
    (∀ l ∈ reused, l.Valid) ∧ (reused.IsChain fun l l' => l.ifindex ≠ l'.ifindex) ∧
      bytesOut reused = 250 ∧ bytesIn reused = 0 ∧ (account (events reused)).totalOut = 150 := by
  decide

end RunmanAgent
