import RunmanAgent.Data.Result
import RunmanAgent.Data.SortedSet
import RunmanAgent.Traffic

/-!
# Resource history (`src/history.rs`)

`series` reads the samples of the last `range` seconds, or the rollups for a long range, and
groups them into buckets of equal width. The width is `range / MAX_POINTS` rounded down, and the
buckets are aligned to the epoch, so the window `[now - range, now]` may touch more than
`MAX_POINTS` of them. `series_bounded_iff` says when it does not.

Numbers that the source keeps as `f64` are rationals here; neither the number of points nor
their order depends on them.
-/

namespace RunmanAgent.History

def RAW_KEEP : Nat := 48 * 3600

def ROLLUP_SECS : Nat := 600

def ROLLUP_KEEP : Nat := 30 * 86400

def MAX_POINTS : Nat := 360

/-! ## Tables -/

/-- A row of `samples`; columns may be NULL. -/
structure Row where
  vm : String
  ts : Int
  cpu : Option Rat
  mem : Option Int
  disk : Option Int
  rd : Option Rat
  wr : Option Rat
  rio : Option Rat
  wio : Option Rat
  rx : Option Rat
  tx : Option Rat
  rxp : Option Rat
  txp : Option Rat
  tcp : Option Rat
  udp : Option Rat
  ips : Option Rat

structure Peaks where
  cpu : Option Rat
  rx : Option Rat
  tx : Option Rat
  wr : Option Rat
  conns : Option Rat

/-- A row of `rollups`. -/
structure Rollup extends Row where
  /-- `cpu_max` to `conns_max`. -/
  max : Peaks

def Row.peaks (r : Row) : Peaks where
  cpu := r.cpu
  rx := r.rx
  tx := r.tx
  wr := r.wr
  conns := r.tcp.map (· + r.udp.getD 0)

structure Tables where
  samples : List Row
  rollups : List Rollup

/-! ## Chart points -/

structure Sample where
  ts : Nat
  cpu : Rat
  mem : Nat
  disk : Nat
  rd : Rat
  wr : Rat
  rio : Rat
  wio : Rat
  rx : Rat
  tx : Rat
  rxp : Rat
  txp : Rat
  tcp : Option Rat
  udp : Option Rat
  ips : Option Rat

structure Point where
  avg : Sample
  cpuMax : Rat
  rxMax : Rat
  txMax : Rat
  wrMax : Rat
  connsMax : Option Rat

/-- `AVG`: NULLs are left out. -/
def average (xs : List (Option Rat)) : Option Rat :=
  match xs.reduceOption with
  | [] => none
  | x :: rest => some ((x :: rest).sum / ((x :: rest).length : Rat))

/-- `MAX`. -/
def peak {α : Type} [LE α] [DecidableLE α] (xs : List (Option α)) : Option α :=
  xs.reduceOption.foldl (fun m x => match m with
    | none => some x
    | some m => some (if m ≤ x then x else m)) none

/-- A column that is read as a number. -/
def column {α : Type} (index : Nat) (name : String) : Option α → Except String α
  | some x => .ok x
  | none => .error ("Invalid column type Null at index: " ++ toString index ++ ", name: " ++ name)

/-- `i64 as u64`. -/
def asU64 (z : Int) : Nat := (z % 2 ^ 64).toNat

/-- `f64 as u64`. -/
def truncU64 (x : Rat) : Nat := min x.floor.toNat (2 ^ 64 - 1)

structure PeakNames where
  cpu : String
  rx : String
  tx : String
  wr : String

/-- The point of the bucket `b`. -/
def readPoint (names : PeakNames) (b : Int) (rows : List Row) (peaks : List Peaks) :
    Except String Point := do
  let avg := fun (index : Nat) (name : String) (f : Row → Option Rat) =>
    column index ("AVG(" ++ name ++ ")") (average (rows.map f))
  return {
    avg := {
      ts := asU64 b
      cpu := ← avg 1 "cpu" (·.cpu)
      mem := truncU64 (← avg 2 "mem" fun r => r.mem.map fun (z : Int) => (z : Rat))
      disk := asU64 (← column 3 "MAX(disk)" (peak (rows.map (·.disk))))
      rd := ← avg 4 "rd" (·.rd)
      wr := ← avg 5 "wr" (·.wr)
      rio := ← avg 6 "rio" (·.rio)
      wio := ← avg 7 "wio" (·.wio)
      rx := ← avg 8 "rx" (·.rx)
      tx := ← avg 9 "tx" (·.tx)
      rxp := ← avg 10 "rxp" (·.rxp)
      txp := ← avg 11 "txp" (·.txp)
      tcp := average (rows.map (·.tcp))
      udp := average (rows.map (·.udp))
      ips := average (rows.map (·.ips)) }
    cpuMax := ← column 12 names.cpu (peak (peaks.map (·.cpu)))
    rxMax := ← column 13 names.rx (peak (peaks.map (·.rx)))
    txMax := ← column 14 names.tx (peak (peaks.map (·.tx)))
    wrMax := ← column 15 names.wr (peak (peaks.map (·.wr)))
    connsMax := peak (peaks.map (·.conns)) }

/-! ## `series` -/

/-- `ts / ?1 * ?1`; the division of SQLite rounds towards zero. -/
def bucketOf (width ts : Int) : Int := ts.tdiv width * width

/-- The first second of the window. -/
def windowStart (range now : Nat) : Int := wrapI64 ((now - range : Nat) : Int)

def step (range : Nat) : Nat := if range ≤ RAW_KEEP then 60 else ROLLUP_SECS

def width (range : Nat) : Nat := max (range / MAX_POINTS) (step range)

/-- `WHERE vm = ?2 AND ts >= ?3 GROUP BY b ORDER BY b`. -/
def grouped {ρ : Type} (key : ρ → String × Int) (width : Int) (vm : String) (start : Int)
    (rows : List ρ) : List (Int × List ρ) :=
  let selected := rows.filter fun r => (key r).1 = vm ∧ start ≤ (key r).2
  (sortedSet (selected.map fun r => bucketOf width (key r).2)).map fun b =>
    (b, selected.filter fun r => bucketOf width (key r).2 = b)

def series (t : Tables) (vm : String) (range now : Nat) : Except String (List Point) :=
  if range = 0 ∨ ROLLUP_KEEP < range then .error "range must be 1 s to 30 days"
  else if range ≤ RAW_KEEP then
    (grouped (fun r => (r.vm, r.ts)) (width range) vm (windowStart range now) t.samples).mapM
      fun (b, rows) =>
        readPoint ⟨"MAX(cpu)", "MAX(rx)", "MAX(tx)", "MAX(wr)"⟩ b rows (rows.map Row.peaks)
  else
    (grouped (fun r => (r.vm, r.ts)) (width range) vm (windowStart range now) t.rollups).mapM
      fun (b, rows) =>
        readPoint ⟨"MAX(cpu_max)", "MAX(rx_max)", "MAX(tx_max)", "MAX(wr_max)"⟩ b
          (rows.map Rollup.toRow) (rows.map Rollup.max)

/-! ## Reading points -/

/-- Every successful result of `x` satisfies `P`. -/
def Ok {α : Type} (x : Except String α) (P : α → Prop) : Prop := ∀ a, x = .ok a → P a

theorem ok_bind {α β : Type} {x : Except String α} {f : α → Except String β} {P : β → Prop}
    (h : ∀ a, Ok (f a) P) : Ok (x >>= f) P := by
  intro b hb
  cases x with
  | error e => cases hb
  | ok a => exact h a b hb

theorem readPoint_ts {names : PeakNames} {b : Int} {rows : List Row} {peaks : List Peaks} :
    Ok (readPoint names b rows peaks) fun p => p.avg.ts = asU64 b := by
  unfold readPoint
  iterate 15 refine ok_bind fun _ => ?_
  rintro p ⟨⟩
  rfl

theorem mapM_ts {ρ : Type} {f : Int × List ρ → Except String Point} {gs : List (Int × List ρ)}
    {points : List Point} (hf : ∀ g, Ok (f g) fun p => p.avg.ts = asU64 g.1)
    (h : gs.mapM f = .ok points) : points.map (·.avg.ts) = gs.map fun g => asU64 g.1 := by
  induction mapM_eq_ok.mp h with
  | nil => rfl
  | cons hp hrest ih =>
    rw [List.map_cons, List.map_cons, hf _ _ hp, ih (mapM_eq_ok.mpr hrest)]

/-! ## Buckets -/

section Buckets

variable {ρ : Type} {key : ρ → String × Int} {w lo hi : Int} {vm : String} {rows : List ρ}

theorem grouped_fst : (grouped key w vm lo rows).map Prod.fst =
    sortedSet ((rows.filter fun r => (key r).1 = vm ∧ lo ≤ (key r).2).map
      fun r => bucketOf w (key r).2) := by
  unfold grouped
  rw [List.map_map]
  exact List.map_id' _

theorem length_grouped_le (hw : 0 < w) (hrows : ∀ r ∈ rows, (key r).2 ≤ hi) :
    (grouped key w vm lo rows).length ≤ (hi.tdiv w + 1 - lo.tdiv w).toNat := by
  have hlen : (grouped key w vm lo rows).length =
      ((grouped key w vm lo rows).map Prod.fst).toFinset.card := by
    rw [List.toFinset_card_of_nodup, List.length_map]
    rw [grouped_fst]
    exact nodup_sortedSet _
  rw [hlen, ← Int.card_Icc]
  refine le_trans (Finset.card_le_card ?_) (Finset.card_image_le (f := fun k : Int => k * w))
  intro b hb
  rw [List.mem_toFinset, grouped_fst, mem_sortedSet] at hb
  obtain ⟨r, hr, rfl⟩ := List.mem_map.mp hb
  obtain ⟨hmem, hsel⟩ := List.mem_filter.mp hr
  obtain ⟨-, hlo⟩ := of_decide_eq_true hsel
  refine Finset.mem_image.mpr ⟨(key r).2.tdiv w, Finset.mem_Icc.mpr ⟨?_, ?_⟩, rfl⟩
  · exact Int.tdiv_le_tdiv hw hlo
  · exact Int.tdiv_le_tdiv hw (hrows r hmem)

end Buckets

/-! ## The window -/

/-- Every timestamp is an `i64` and not after `now`. -/
structure Tables.Until (t : Tables) (now : Nat) : Prop where
  samples : ∀ r ∈ t.samples, r.ts < 2 ^ 63 ∧ r.ts ≤ now
  rollups : ∀ r ∈ t.rollups, r.ts < 2 ^ 63 ∧ r.ts ≤ now

/-- The latest time that a row can have. -/
def latest (now : Nat) : Int := min (now : Int) (2 ^ 63 - 1)

variable {now range : Nat}

theorem le_latest {ts : Int} (h : ts < 2 ^ 63 ∧ ts ≤ now) : ts ≤ latest now := by
  unfold latest
  omega

theorem windowStart_cases (range : Nat) (hnow : now < 2 ^ 64) :
    windowStart range now = (now - range : Nat) ∧ now - range < 2 ^ 63 ∨
      windowStart range now < 0 ∧ latest now = 2 ^ 63 - 1 := by
  by_cases hlt : now - range < 2 ^ 63
  · exact .inl ⟨wrapI64_of_bounds (by omega) (by omega), hlt⟩
  · refine .inr ⟨?_, ?_⟩
    · unfold windowStart wrapI64 Int.bmod
      dsimp only
      split <;> omega
    · unfold latest
      omega

theorem width_pos (range : Nat) : 0 < width range := by
  have hstep : 0 < step range := by
    unfold step ROLLUP_SECS
    split <;> decide
  unfold width
  omega

theorem width_le (h : range ≤ ROLLUP_KEEP) : width range ≤ 7200 := by
  unfold ROLLUP_KEEP at h
  have hstep : step range ≤ 600 := by
    unfold step ROLLUP_SECS
    split <;> omega
  unfold width MAX_POINTS
  omega

/-- The window touches at most `MAX_POINTS` buckets. -/
def Fits (range now : Nat) : Prop :=
  (latest now).tdiv (width range) < (windowStart range now).tdiv (width range) + MAX_POINTS

instance (range now : Nat) : Decidable (Fits range now) := by
  unfold Fits
  infer_instance

theorem Fits.start_nonneg (h : Fits range now) (hnow : now < 2 ^ 64)
    (hrange : range ≤ ROLLUP_KEEP) :
    0 ≤ windowStart range now := by
  by_contra hneg
  have hneg : windowStart range now < 0 := by omega
  rcases windowStart_cases range hnow with ⟨heq, -⟩ | ⟨-, hlatest⟩
  · omega
  · unfold Fits MAX_POINTS at h
    have hw := width_pos range
    have hle := width_le hrange
    have hstart : (windowStart range now).tdiv (width range) ≤ 0 := by
      have hmono := Int.tdiv_le_tdiv (c := (width range : Int)) (by omega) (le_of_lt hneg)
      rwa [Int.zero_tdiv] at hmono
    have hmany : 360 ≤ (latest now).tdiv (width range) := by
      rw [hlatest, Int.tdiv_eq_ediv_of_nonneg (by decide), Int.le_ediv_iff_mul_le (by omega)]
      omega
    omega

/-- The buckets `bs` are those of times of the window, in order. -/
structure Buckets (range now : Nat) (bs : List Int) : Prop where
  sorted : bs.Pairwise (· < ·)
  length_le : bs.length ≤
    ((latest now).tdiv (width range) + 1 - (windowStart range now).tdiv (width range)).toNat
  inside : ∀ b ∈ bs, ∃ ts, windowStart range now ≤ ts ∧ ts < 2 ^ 63 ∧ b = bucketOf (width range) ts

theorem buckets_grouped {ρ : Type} (key : ρ → String × Int) (vm : String) {rows : List ρ}
    (hrows : ∀ r ∈ rows, (key r).2 < 2 ^ 63 ∧ (key r).2 ≤ now) :
    Buckets range now
      ((grouped key (width range) vm (windowStart range now) rows).map Prod.fst) where
  sorted := by
    rw [grouped_fst]
    exact pairwise_sortedSet _
  length_le := by
    have hw := width_pos range
    rw [List.length_map]
    exact length_grouped_le (by omega) fun r hr => le_latest (hrows r hr)
  inside := by
    intro b hb
    rw [grouped_fst, mem_sortedSet] at hb
    obtain ⟨r, hr, rfl⟩ := List.mem_map.mp hb
    obtain ⟨hmem, hsel⟩ := List.mem_filter.mp hr
    exact ⟨(key r).2, (of_decide_eq_true hsel).2, (hrows r hmem).1, rfl⟩

theorem series_buckets {t : Tables} {vm : String} {points : List Point} (ht : t.Until now)
    (h : series t vm range now = .ok points) :
    ∃ bs, Buckets range now bs ∧ points.map (·.avg.ts) = bs.map asU64 := by
  unfold series at h
  split at h
  · cases h
  · split at h
    · refine ⟨_, buckets_grouped (fun r : Row => (r.vm, r.ts)) vm ht.samples, ?_⟩
      rw [mapM_ts (fun _ => readPoint_ts) h, List.map_map]
      rfl
    · refine ⟨_, buckets_grouped (fun r : Rollup => (r.vm, r.ts)) vm ht.rollups, ?_⟩
      rw [mapM_ts (fun _ => readPoint_ts) h, List.map_map]
      rfl

theorem Buckets.pairwise_asU64 {bs : List Int} (h : Buckets range now bs)
    (hstart : 0 ≤ windowStart range now) : (bs.map asU64).Pairwise (· < ·) := by
  have hw := width_pos range
  have hrange : ∀ b ∈ bs, 0 ≤ b ∧ b < 2 ^ 63 := by
    intro b hb
    obtain ⟨ts, hts, hlt, rfl⟩ := h.inside b hb
    unfold bucketOf
    rw [Int.tdiv_eq_ediv_of_nonneg (by omega)]
    have hle := Int.ediv_mul_le ts (b := width range) (by omega)
    have hdiv : 0 ≤ ts / (width range : Int) := Int.ediv_nonneg (by omega) (by omega)
    have hmul := Int.mul_nonneg hdiv (b := width range) (by omega)
    omega
  rw [List.pairwise_map]
  apply h.sorted.imp_of_mem
  intro a b ha hb hab
  have ha := hrange a ha
  have hb := hrange b hb
  unfold asU64
  omega

/-! ## A full table -/

section Full

variable {ρ α : Type} {rows : List ρ}

theorem reduceOption_ne_nil {f : ρ → Option α} (hne : rows ≠ [])
    (h : ∀ r ∈ rows, (f r).isSome = true) : (rows.map f).reduceOption ≠ [] := by
  obtain ⟨r, hr⟩ := List.exists_mem_of_ne_nil rows hne
  obtain ⟨a, ha⟩ := Option.isSome_iff_exists.mp (h r hr)
  have hmem : some a ∈ rows.map f := List.mem_map.mpr ⟨r, hr, ha⟩
  exact List.ne_nil_of_mem (List.reduceOption_mem_iff.mpr hmem)

theorem isSome_average {f : ρ → Option Rat} (hne : rows ≠ [])
    (h : ∀ r ∈ rows, (f r).isSome = true) : (average (rows.map f)).isSome = true := by
  unfold average
  split
  · next hnil => exact absurd hnil (reduceOption_ne_nil hne h)
  · rfl

theorem isSome_peak [LE α] [DecidableLE α] {f : ρ → Option α} (hne : rows ≠ [])
    (h : ∀ r ∈ rows, (f r).isSome = true) : (peak (rows.map f)).isSome = true := by
  unfold peak
  have hne := reduceOption_ne_nil hne h
  generalize (rows.map f).reduceOption = xs at hne
  induction xs using List.reverseRecOn with
  | nil => exact absurd rfl hne
  | append_singleton xs x _ =>
    rw [List.foldl_append, List.foldl_cons, List.foldl_nil]
    split <;> rfl

theorem exists_column {index : Nat} {name : String} {x : Option α} (h : x.isSome = true) :
    ∃ a, column index name x = .ok a := by
  cases x with
  | none => cases h
  | some x => exact ⟨x, rfl⟩

end Full

/-- A row whose number columns are not NULL. -/
def fullRow (vm : String) (ts : Int) : Row where
  vm := vm
  ts := ts
  cpu := some 0
  mem := some 0
  disk := some 0
  rd := some 0
  wr := some 0
  rio := some 0
  wio := some 0
  rx := some 0
  tx := some 0
  rxp := some 0
  txp := some 0
  tcp := none
  udp := none
  ips := none

def fullRollup (vm : String) (ts : Int) : Rollup where
  toRow := fullRow vm ts
  max := (fullRow vm ts).peaks

/-- The tables with a row for each of `times`. -/
def fullTables (vm : String) (times : List Int) : Tables where
  samples := times.map (fullRow vm)
  rollups := times.map (fullRollup vm)

theorem exists_readPoint {names : PeakNames} {b : Int} {vm : String} {times : List Int}
    (hne : times ≠ []) :
    ∃ p, readPoint names b (times.map (fullRow vm))
      (times.map fun ts => (fullRow vm ts).peaks) = .ok p := by
  have havg : ∀ {f : Row → Option Rat}, (∀ ts, (f (fullRow vm ts)).isSome = true) →
      (average ((times.map (fullRow vm)).map f)).isSome = true := by
    intro f hf
    rw [List.map_map]
    exact isSome_average hne fun ts _ => hf ts
  have hpeak : ∀ {α : Type} [LE α] [DecidableLE α] {ρ : Type} {g : Int → ρ} {f : ρ → Option α},
      (∀ ts, (f (g ts)).isSome = true) → (peak ((times.map g).map f)).isSome = true := by
    intro α _ _ ρ g f hf
    rw [List.map_map]
    exact isSome_peak hne fun ts _ => hf ts
  unfold readPoint
  iterate 2 refine exists_bind_ok (exists_column (havg fun _ => rfl)) fun _ => ?_
  refine exists_bind_ok (exists_column (hpeak fun _ => rfl)) fun _ => ?_
  iterate 8 refine exists_bind_ok (exists_column (havg fun _ => rfl)) fun _ => ?_
  iterate 4 refine exists_bind_ok (exists_column (hpeak fun _ => rfl)) fun _ => ?_
  exact ⟨_, rfl⟩

section FullGroups

variable {ρ : Type} {key : ρ → String × Int} {mk : Int → ρ} {w lo : Int} {vm : String}
  {times : List Int}

theorem exists_of_mem_grouped {g : Int × List ρ} (h : g ∈ grouped key w vm lo (times.map mk)) :
    ∃ ts, ts ≠ [] ∧ g.2 = ts.map mk := by
  unfold grouped at h
  obtain ⟨b, hb, rfl⟩ := List.mem_map.mp h
  obtain ⟨r, hr, hbucket⟩ := List.mem_map.mp (mem_sortedSet.mp hb)
  have hmem := (List.mem_filter (p := fun r => bucketOf w (key r).2 = b)).mpr
    ⟨hr, decide_eq_true hbucket⟩
  dsimp only at hmem ⊢
  rw [List.filter_map, List.filter_map] at hmem ⊢
  refine ⟨_, ?_, rfl⟩
  intro hnil
  rw [hnil] at hmem
  cases hmem

theorem length_grouped_full (key : ρ → String × Int) (mk : Int → ρ)
    (hkey : ∀ ts, key (mk ts) = (vm, ts)) (hlo : ∀ ts ∈ times, lo ≤ ts)
    (hnodup : (times.map (bucketOf w)).Nodup) :
    (grouped key w vm lo (times.map mk)).length = times.length := by
  have hall : (times.map mk).filter (fun r => (key r).1 = vm ∧ lo ≤ (key r).2) = times.map mk := by
    rw [List.filter_eq_self]
    intro r hr
    obtain ⟨ts, hts, rfl⟩ := List.mem_map.mp hr
    rw [hkey]
    exact decide_eq_true ⟨rfl, hlo ts hts⟩
  have hbuckets : (times.map mk).map (fun r => bucketOf w (key r).2) = times.map (bucketOf w) := by
    rw [List.map_map]
    refine List.map_congr_left fun ts _ => ?_
    rw [Function.comp_apply, hkey]
  rw [← List.length_map (f := Prod.fst), grouped_fst, hall, hbuckets, length_sortedSet hnodup,
    List.length_map]

end FullGroups

theorem exists_series_full (vm : String) {times : List Int}
    (hrange : 0 < range ∧ range ≤ ROLLUP_KEEP) (hlo : ∀ ts ∈ times, windowStart range now ≤ ts)
    (hnodup : (times.map (bucketOf (width range))).Nodup) :
    ∃ points, series (fullTables vm times) vm range now = .ok points ∧
      points.length = times.length := by
  have hmapM : ∀ {β : Type} {f : β → Except String Point} {gs : List β},
      (∀ g ∈ gs, ∃ p, f g = .ok p) → ∃ points, gs.mapM f = .ok points ∧
        points.length = gs.length := by
    intro β f gs hgs
    obtain ⟨points, hpoints⟩ := exists_mapM hgs
    exact ⟨points, hpoints, (mapM_eq_ok.mp hpoints).length_eq.symm⟩
  unfold series
  rw [if_neg (by omega)]
  split
  · rw [← length_grouped_full (fun r : Row => (r.vm, r.ts)) (fullRow vm) (fun _ => rfl) hlo hnodup]
    apply hmapM
    rintro ⟨b, rows⟩ hg
    obtain ⟨ts, hne, rfl⟩ := exists_of_mem_grouped hg
    dsimp only
    rw [List.map_map]
    exact exists_readPoint hne
  · rw [← length_grouped_full (fun r : Rollup => (r.vm, r.ts)) (fullRollup vm) (fun _ => rfl) hlo
      hnodup]
    apply hmapM
    rintro ⟨b, rows⟩ hg
    obtain ⟨ts, hne, rfl⟩ := exists_of_mem_grouped hg
    dsimp only
    rw [List.map_map, List.map_map]
    exact exists_readPoint hne

/-! ## The limit -/

/-- The first seconds of the `MAX_POINTS + 1` buckets from that of `lo`, and `lo` itself. -/
def crowd (w lo : Int) : List Int :=
  (List.range (MAX_POINTS + 1)).map fun j : Nat => max lo ((lo / w + j) * w)

theorem bucketOf_crowd {w lo : Int} (hw : 0 < w) (hlo : 0 ≤ lo) (j : Nat) :
    bucketOf w (max lo ((lo / w + j) * w)) = (lo / w + j) * w := by
  have hle : lo / w * w ≤ lo := Int.ediv_mul_le lo (by omega)
  have hlt : lo < (lo / w + 1) * w := Int.lt_ediv_add_one_mul_self lo hw
  unfold bucketOf
  rw [Int.tdiv_eq_ediv_of_nonneg (by omega)]
  cases j with
  | zero =>
    rw [Nat.cast_zero, Int.add_zero, max_eq_left hle]
  | succ j =>
    have hnext : (lo / w + 1) * w ≤ (lo / w + (j + 1 : Nat)) * w :=
      Int.mul_le_mul_of_nonneg_right (by omega) (by omega)
    rw [max_eq_right (by omega), Int.mul_ediv_cancel _ (by omega)]

theorem nodup_crowd {w lo : Int} (hw : 0 < w) (hlo : 0 ≤ lo) :
    ((crowd w lo).map (bucketOf w)).Nodup := by
  unfold crowd
  rw [List.map_map]
  refine List.Nodup.map_on (fun i _ j _ hij => ?_) List.nodup_range
  rw [Function.comp_apply, Function.comp_apply, bucketOf_crowd hw hlo, bucketOf_crowd hw hlo] at hij
  have hdiv := Int.eq_of_mul_eq_mul_right (by omega) hij
  omega

/-- The tables with a row in each of these buckets of the window. -/
def crowded (vm : String) (range now : Nat) : Tables :=
  fullTables vm (crowd (width range) (max (windowStart range now) 0))

theorem series_crowded (vm : String) (hnow : now < 2 ^ 64)
    (hrange : 0 < range ∧ range ≤ ROLLUP_KEEP) (h : ¬ Fits range now) :
    (crowded vm range now).Until now ∧ ∃ points,
      series (crowded vm range now) vm range now = .ok points ∧ points.length = MAX_POINTS + 1 := by
  have hw := width_pos range
  have hwle := width_le hrange.2
  let lo := max (windowStart range now) 0
  have hlo : 0 ≤ lo := le_max_right _ _
  have hle : windowStart range now ≤ lo := le_max_left _ _
  have hlast : lo ≤ latest now ∧
      (lo / (width range : Int) + MAX_POINTS) * width range ≤ latest now := by
    unfold Fits at h
    rcases windowStart_cases range hnow with ⟨heq, hlt⟩ | ⟨hneg, hlatest⟩
    · have hstart : lo = windowStart range now := max_eq_left (by omega)
      have hnonneg : 0 ≤ latest now := by
        unfold latest
        omega
      rw [Int.tdiv_eq_ediv_of_nonneg hnonneg, Int.tdiv_eq_ediv_of_nonneg (by omega), ← hstart] at h
      constructor
      · unfold latest
        omega
      · exact (Int.le_ediv_iff_mul_le (by omega)).mp (not_lt.mp h)
    · have hstart : lo = 0 := max_eq_right (by omega)
      rw [hstart, Int.zero_ediv, hlatest]
      unfold MAX_POINTS
      omega
  have hcrowd : ∀ ts ∈ crowd (width range) lo, windowStart range now ≤ ts ∧ ts ≤ latest now := by
    intro ts hts
    obtain ⟨j, hj, rfl⟩ := List.mem_map.mp hts
    have hj : (j : Int) ≤ MAX_POINTS := Int.ofNat_le.mpr (Nat.lt_succ_iff.mp (List.mem_range.mp hj))
    have hmul : (lo / (width range : Int) + j) * width range ≤
        (lo / (width range : Int) + MAX_POINTS) * width range :=
      Int.mul_le_mul_of_nonneg_right (Int.add_le_add_left hj _) (Int.natCast_nonneg _)
    exact ⟨le_max_of_le_left hle, max_le hlast.1 (le_trans hmul hlast.2)⟩
  obtain ⟨points, hpoints, hlen⟩ := exists_series_full vm hrange
    (fun ts hts => (hcrowd ts hts).1) (nodup_crowd (by omega) hlo)
  have huntil : ∀ ts ∈ crowd (width range) lo, ts < 2 ^ 63 ∧ ts ≤ now := by
    intro ts hts
    have hts := (hcrowd ts hts).2
    unfold latest at hts
    omega
  refine ⟨⟨?_, ?_⟩, points, hpoints, ?_⟩
  · intro r hr
    obtain ⟨ts, hts, rfl⟩ := List.mem_map.mp hr
    exact huntil ts hts
  · intro r hr
    obtain ⟨ts, hts, rfl⟩ := List.mem_map.mp hr
    exact huntil ts hts
  · rw [hlen, crowd, List.length_map, List.length_range]

/-- `series` stays within `MAX_POINTS`, in the order of the buckets, for every content of the
tables when the window touches at most that many buckets, and only then. -/
theorem series_bounded_iff {range now : Nat} (hnow : now < 2 ^ 64)
    (hrange : 0 < range ∧ range ≤ ROLLUP_KEEP) (vm : String) :
    (∀ t : Tables, t.Until now → ∀ points, series t vm range now = .ok points →
      points.length ≤ MAX_POINTS ∧ (points.map (·.avg.ts)).Pairwise (· < ·)) ↔
      Fits range now := by
  constructor
  · intro hall
    by_contra hfits
    obtain ⟨huntil, points, hpoints, hlen⟩ := series_crowded vm hnow hrange hfits
    have hle := (hall _ huntil points hpoints).1
    omega
  · intro hfits t ht points hpoints
    obtain ⟨bs, hbs, heq⟩ := series_buckets ht hpoints
    have hlen := hbs.length_le
    have hmap := congrArg List.length heq
    rw [List.length_map, List.length_map] at hmap
    unfold Fits at hfits
    refine ⟨by omega, ?_⟩
    rw [heq]
    exact hbs.pairwise_asU64 (Fits.start_nonneg hfits hnow hrange.2)

theorem hour_bounded : Fits 3600 1800000000 ∧ ∀ t : Tables, t.Until 1800000000 → ∀ points,
    series t "vm" 3600 1800000000 = .ok points →
      points.length ≤ MAX_POINTS ∧ (points.map (·.avg.ts)).Pairwise (· < ·) :=
  ⟨by decide, (series_bounded_iff (by decide) (by decide) "vm").mpr (by decide)⟩

/-- Six hours of samples, one in each of 361 minutes. -/
theorem six_hours_crowded : (crowded "vm" 21600 1800000000).Until 1800000000 ∧ ∃ points,
    series (crowded "vm" 21600 1800000000) "vm" 21600 1800000000 = .ok points ∧
      points.length = 361 :=
  series_crowded "vm" (by decide) (by decide) (by decide)

end RunmanAgent.History
