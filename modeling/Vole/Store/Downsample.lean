import Vole.Store.SeriesMap
import Vole.Go.Decimal
import Mathlib.Data.Int.GCD
import Mathlib.Tactic.LinearCombination

/-!
# Downsampling

`Downsample` cuts time into buckets from the start of the interval on, until one begins at or after
its end: the last bucket may reach beyond the end. And with 64-bit integers the begin of the next
bucket wraps around, so that none may ever begin at or after the end.
-/

namespace Vole.TimeSeries

open Go

variable {R : Runtime} {ts : TimeSeries} {start stop size : Int} {aggType : Bytes}

/-! ## Buckets -/

/-- The buckets of `downsampleLoop`, each with its samples. -/
def bucketsLoop (ts : TimeSeries) (stop size : Int) : Nat → Int → List (Int × List TSSample)
  | 0, _ => []
  | fuel + 1, bucketStart =>
    if bucketStart < stop then
      let rest := bucketsLoop ts stop size fuel (bucketStart + size)
      match ts.range bucketStart (bucketStart + size - 1) 0 with
      | [] => rest
      | samples => (bucketStart, samples) :: rest
    else []

def buckets (ts : TimeSeries) (start stop size : Int) : List (Int × List TSSample) :=
  bucketsLoop ts stop size ((stop - start) / size + 1).toNat start

/-- Each sample of the interval is in one bucket, the one its timestamp falls into, no other sample
is in any, and no bucket is empty. -/
def Tiles (ts : TimeSeries) (start stop size : Int) (bs : List (Int × List TSSample)) : Prop :=
  bs.flatMap (·.2) = ts.samples.filter (fun s => start ≤ s.timestamp ∧ s.timestamp < stop) ∧
    ∀ b ∈ bs, b.2 ≠ [] ∧ ∀ s ∈ b.2, b.1 = start + (s.timestamp - start) / size * size

/-- Where the last bucket ends. -/
def lastEnd (start stop size : Int) : Int := start + (stop - start + size - 1) / size * size

theorem downsampleLoop_eq (fuel : Nat) (start : Int) :
    downsampleLoop R ts stop size aggType fuel start
      = (bucketsLoop ts stop size fuel start).map (fun b => ⟨b.1, aggregate R aggType b.2⟩) := by
  induction fuel generalizing start with
  | zero => rfl
  | succ fuel ih =>
    unfold downsampleLoop bucketsLoop
    dsimp only
    rw [ih]
    split
    · cases ts.range start (start + size - 1) 0 <;> rfl
    · rfl

section
variable {m : Int → Option F64} (h : ts.Refines m) (hsize : 0 < size)
include h in
theorem filter_cut {a b c : Int} (hab : a ≤ b) (hbc : b ≤ c) :
    ts.samples.filter (fun s => a ≤ s.timestamp ∧ s.timestamp < c)
      = ts.samples.filter (fun s => a ≤ s.timestamp ∧ s.timestamp < b)
        ++ ts.samples.filter (fun s => b ≤ s.timestamp ∧ s.timestamp < c) := by
  obtain ⟨front, back, hparts, -, hfront, hback⟩ := exists_parts h.sorted b
  rw [hparts]
  simp only [List.filter_append]
  have hnone : front.filter (fun s => b ≤ s.timestamp ∧ s.timestamp < c) = [] := by
    refine List.filter_eq_nil_iff.mpr fun s hs => ?_
    have hlt := hfront s hs
    simp [hlt]
  have hnone' : back.filter (fun s => a ≤ s.timestamp ∧ s.timestamp < b) = [] := by
    refine List.filter_eq_nil_iff.mpr fun s hs => ?_
    have hle := hback s hs
    simp [hle]
  rw [hnone, hnone', List.append_nil, List.nil_append]
  congr 1
  · refine List.filter_congr fun s hs => decide_eq_decide.mpr ?_
    have hlt := hfront s hs
    omega
  · refine List.filter_congr fun s hs => decide_eq_decide.mpr ?_
    have hle := hback s hs
    omega

theorem lastEnd_of_le (hle : stop ≤ start) (hlt : start < stop + size) :
    lastEnd start stop size = start := by
  unfold lastEnd
  rw [Int.ediv_eq_zero_of_lt (by omega) (by omega)]
  omega
include hsize

theorem lastEnd_next : lastEnd (start + size) stop size = lastEnd start stop size := by
  have hnext : stop - start + size - 1 = stop - (start + size) + size - 1 + 1 * size := by omega
  unfold lastEnd
  rw [hnext, Int.add_mul_ediv_right _ _ hsize.ne', Int.add_mul]
  omega

theorem le_lastEnd (hlt : start < stop + size) : start ≤ lastEnd start stop size := by
  have hnonneg := Int.ediv_nonneg (by omega : 0 ≤ stop - start + size - 1) hsize.le
  exact le_add_of_nonneg_right (Int.mul_nonneg hnonneg hsize.le)

theorem stop_le_lastEnd : stop ≤ lastEnd start stop size := by
  have hlt := Int.lt_ediv_add_one_mul_self (stop - start + size - 1) hsize
  rw [Int.add_mul] at hlt
  unfold lastEnd
  omega
include h

theorem bucketsLoop_spec (fuel : Nat) (origin : Int) (hlt : start < stop + size)
    (hfuel : stop ≤ start + fuel * size) (horigin : size ∣ start - origin) :
    (bucketsLoop ts stop size fuel start).flatMap (·.2)
        = ts.samples.filter (fun s => start ≤ s.timestamp ∧ s.timestamp < lastEnd start stop size) ∧
      ∀ b ∈ bucketsLoop ts stop size fuel start,
        b.2 ≠ [] ∧ ∀ s ∈ b.2, b.1 = origin + (s.timestamp - origin) / size * size := by
  have hdone : ∀ {start}, start < stop + size → stop ≤ start → [] = ts.samples.filter
      (fun s => start ≤ s.timestamp ∧ s.timestamp < lastEnd start stop size) := by
    intro start hlt hle
    rw [lastEnd_of_le hle hlt]
    exact (List.filter_eq_nil_iff.mpr fun s _ => by simp).symm
  induction fuel generalizing start with
  | zero => exact ⟨hdone hlt (by simpa using hfuel), nofun⟩
  | succ fuel ih =>
    rw [bucketsLoop]
    split
    case isFalse hge => exact ⟨hdone hlt (by omega), nofun⟩
    case isTrue hstart =>
      have hrange : ts.range start (start + size - 1) 0
          = ts.samples.filter (fun s => start ≤ s.timestamp ∧ s.timestamp < start + size) := by
        rw [h.range_eq]
        exact List.filter_congr fun s _ => decide_eq_decide.mpr (by omega)
      have hbucket : ∀ s ∈ ts.range start (start + size - 1) 0,
          start = origin + (s.timestamp - origin) / size * size := by
        intro s hs
        rw [hrange, List.mem_filter, decide_eq_true_eq] at hs
        obtain ⟨q, hq⟩ := horigin
        have hsum : s.timestamp - origin = s.timestamp - start + q * size := by
          rw [mul_comm, ← hq]
          omega
        rw [hsum, Int.add_mul_ediv_right _ _ hsize.ne',
          Int.ediv_eq_zero_of_lt (by omega) (by omega), zero_add, mul_comm, ← hq]
        omega
      have hle : start + size ≤ lastEnd (start + size) stop size := le_lastEnd hsize (by omega)
      have hnext : size ∣ start + size - origin := by
        rw [add_sub_right_comm]
        exact Int.dvd_add horigin (Int.dvd_refl size)
      rw [Int.natCast_succ, Int.add_mul] at hfuel
      obtain ⟨hflat, hall⟩ := ih (by omega) (by omega) hnext
      rw [lastEnd_next hsize] at hflat hle
      rw [filter_cut h (by omega) hle, ← hflat, ← hrange]
      dsimp only
      generalize ts.range start (start + size - 1) 0 = samples at hbucket
      cases samples with
      | nil => exact ⟨rfl, hall⟩
      | cons s rest =>
        refine ⟨rfl, fun b hb => ?_⟩
        rcases List.mem_cons.mp hb with rfl | hb
        · exact ⟨List.cons_ne_nil _ _, hbucket⟩
        · exact hall b hb

end

theorem aggregate_count (samples : List TSSample) :
    aggregate R (bytes "count") samples = R.floatOfInt samples.length := by
  unfold aggregate
  dsimp only
  rw [if_neg (by decide), if_neg (by decide), if_neg (by decide), if_neg (by decide), if_pos rfl,
    List.length_map]

/-- **Buckets.** `Downsample` counts the samples of its buckets, and these are as they should be if
and only if no sample lies between the end of the interval and that of the last bucket. -/
theorem downsample_tiles_iff (R : Runtime) (calls : List (Int × F64)) (start stop size : Int)
    (hle : start ≤ stop) (hsize : 0 < size) :
    (ofCalls calls).downsample R start stop size (bytes "count")
        = ((ofCalls calls).buckets start stop size).map (fun b => ⟨b.1, R.floatOfInt b.2.length⟩) ∧
      ((ofCalls calls).Tiles start stop size ((ofCalls calls).buckets start stop size) ↔
        ∀ s ∈ (ofCalls calls).samples, stop ≤ s.timestamp → lastEnd start stop size ≤ s.timestamp) := by
  have h := refines_ofCalls calls
  generalize ofCalls calls = ts at h
  have hfuel : stop ≤ start + ((stop - start) / size + 1).toNat * size := by
    have hlt := Int.lt_ediv_add_one_mul_self (stop - start) hsize
    have hnonneg := Int.ediv_nonneg (by omega : 0 ≤ stop - start) hsize.le
    rw [Int.toNat_of_nonneg (by omega)]
    omega
  obtain ⟨hflat, hall⟩ := bucketsLoop_spec h hsize _ start (by omega) hfuel ⟨0, by omega⟩
  have hflat : (ts.buckets start stop size).flatMap (·.2) = _ := hflat
  refine ⟨?_, fun ⟨heq, _⟩ s hs hstop => ?_, fun hnone => ⟨hflat.trans ?_, hall⟩⟩
  · unfold downsample
    simp only [downsampleLoop_eq, aggregate_count]
    split
    case isTrue hempty =>
      have hnone : ts.buckets start stop size = [] := by
        refine List.eq_nil_iff_forall_not_mem.mpr fun b hb => ?_
        obtain ⟨s, hs⟩ := List.exists_mem_of_ne_nil _ (hall b hb).1
        have hin : s ∈ (ts.buckets start stop size).flatMap (·.2) := List.mem_flatMap.mpr ⟨b, hb, hs⟩
        rw [hflat, hempty.resolve_left (by omega)] at hin
        cases hin
      rw [hnone]
      rfl
    case isFalse => rfl
  · by_contra hlt
    have hin : s ∈ (ts.buckets start stop size).flatMap (·.2) := by
      rw [hflat, List.mem_filter, decide_eq_true_eq]
      exact ⟨hs, hle.trans hstop, not_le.mp hlt⟩
    rw [heq, List.mem_filter, decide_eq_true_eq] at hin
    omega
  · refine List.filter_congr fun s hs => decide_eq_decide.mpr ?_
    have hend : stop ≤ lastEnd start stop size := stop_le_lastEnd hsize
    have hs := hnone s hs
    omega

/-- A sample after the interval is counted: 5 is not in [0, 4), but in its second bucket [3, 6). -/
theorem downsample_counts_beyond : ¬ (ofCalls [(5, F64.zero)]).Tiles 0 4 3
    ((ofCalls [(5, F64.zero)]).buckets 0 4 3) := by
  intro h
  exact absurd h.1 (by decide)

/-- Two samples in the two buckets of an interval that they tile. -/
theorem downsample_tiles_even : (ofCalls [(1, F64.zero), (3, F64.zero)]).Tiles 0 4 2
    ((ofCalls [(1, F64.zero), (3, F64.zero)]).buckets 0 4 2) :=
  (downsample_tiles_iff default _ 0 4 2 (by decide) (by decide)).2.mpr (by decide)

/-! ## 64-bit integers -/

/-- The loop of `Downsample` with the begins and ends of its buckets as the machine computes them;
`none` if it has not ended within `fuel` rounds. -/
def downsampleLoop64 (R : Runtime) (ts : TimeSeries) (stop bucketSize : Int) (aggType : Bytes) :
    Nat → Int → Option (List TSSample)
  | 0, _ => none
  | fuel + 1, bucketStart =>
    if bucketStart < stop then
      let bucketEnd := wrap64 (bucketStart + bucketSize)
      let rest := downsampleLoop64 R ts stop bucketSize aggType fuel bucketEnd
      match ts.range bucketStart (wrap64 (bucketEnd - 1)) 0 with
      | [] => rest
      | samples => rest.map (⟨bucketStart, aggregate R aggType samples⟩ :: ·)
    else some []

/-- The loop ends, if it is entered at all. -/
def DownsampleEnds (R : Runtime) (ts : TimeSeries) (start stop bucketSize : Int)
    (aggType : Bytes) : Prop :=
  bucketSize ≤ 0 ∨ ts.samples = [] ∨
    ∃ fuel, (downsampleLoop64 R ts stop bucketSize aggType fuel start).isSome = true

/-- The largest 64-bit integer that the begin of a bucket can be. -/
def lastBegin (start size : Int) : Int :=
  2 ^ 63 - 1 - (2 ^ 63 - 1 - start) % Int.gcd size (2 ^ 64 : Nat)

/-- As long as nothing wraps around, this is the loop over unbounded integers. -/
theorem loop64_eq (hsize : 0 < size) (hfits : stop + size ≤ 2 ^ 63) (fuel : Nat)
    (hstart : -2 ^ 63 ≤ start) (hfuel : stop ≤ start + fuel * size) :
    downsampleLoop64 R ts stop size aggType (fuel + 1) start
      = some (downsampleLoop R ts stop size aggType fuel start) := by
  induction fuel generalizing start with
  | zero => exact if_neg (by omega)
  | succ fuel ih =>
    rw [Int.natCast_succ, Int.add_mul] at hfuel
    unfold downsampleLoop64 downsampleLoop
    split
    case isFalse => rfl
    case isTrue hlt =>
      dsimp only
      rw [wrap64_of_range (n := start + size) ⟨by omega, by omega⟩,
        wrap64_of_range (n := start + size - 1) ⟨by omega, by omega⟩, ih (by omega) (by omega)]
      cases ts.range start (start + size - 1) 0 <;> rfl

theorem loop64_eq_four : downsampleLoop64 default (ofCalls [(1, F64.zero)]) 4 2 [] 3 0
    = some (downsampleLoop default (ofCalls [(1, F64.zero)]) 4 2 [] 2 0) :=
  loop64_eq (by decide) (by decide) 2 (by decide) (by decide)

theorem loop64_isSome (fuel : Nat) (start : Int) :
    (downsampleLoop64 R ts stop size aggType fuel start).isSome = true
      ↔ ∃ n < fuel, stop ≤ (fun b => wrap64 (b + size))^[n] start := by
  induction fuel generalizing start with
  | zero => simp [downsampleLoop64]
  | succ fuel ih =>
    unfold downsampleLoop64
    split
    case isFalse hge => exact iff_of_true rfl ⟨0, by omega, not_lt.mp hge⟩
    case isTrue hlt =>
      have hrest := ih (wrap64 (start + size))
      have hnext : (∃ n < fuel, stop ≤ (fun b => wrap64 (b + size))^[n] (wrap64 (start + size)))
          ↔ ∃ n < fuel + 1, stop ≤ (fun b => wrap64 (b + size))^[n] start := by
        constructor
        · rintro ⟨n, hn, hle⟩
          exact ⟨n + 1, by omega, hle⟩
        · rintro ⟨n, hn, hle⟩
          cases n with
          | zero => exact absurd hle (not_le.mpr hlt)
          | succ n => exact ⟨n, by omega, hle⟩
      rw [← hnext, ← hrest]
      dsimp only
      split
      · rfl
      · rw [Option.isSome_map]

theorem iterate_wrap64 (hstart : Int64Range start) (n : Nat) :
    (fun b => wrap64 (b + size))^[n] start = wrap64 (start + n * size) := by
  induction n with
  | zero => simpa using (wrap64_of_range hstart).symm
  | succ n ih =>
    rw [Function.iterate_succ_apply', ih]
    unfold wrap64
    rw [Int.bmod_add_bmod, Int.natCast_succ, Int.add_mul, Int.one_mul, Int.add_assoc]

theorem emod_le_self {a g : Int} (ha : 0 ≤ a) (hg : 0 ≤ g) : a % g ≤ a := by
  have hsum := Int.emod_add_mul_ediv a g
  have hnonneg := Int.mul_nonneg hg (Int.ediv_nonneg ha hg)
  omega

/-- The begins of the buckets are the 64-bit integers that leave the rest of the first one, modulo
what the size of a bucket has in common with 2^64. -/
theorem begins_iff (hstart : Int64Range start) :
    (∃ n : Nat, stop ≤ wrap64 (start + n * size)) ↔ stop ≤ lastBegin start size := by
  have hsize : (Int.gcd size (2 ^ 64 : Nat) : Int) ∣ size := Int.gcd_dvd_left ..
  have hword : (Int.gcd size (2 ^ 64 : Nat) : Int) ∣ (2 ^ 64 : Nat) := Int.gcd_dvd_right ..
  have hbezout := fun n => (Int.gcd_dvd_iff (a := size) (b := (2 ^ 64 : Nat)) (n := n)).mp
  have hpos : 0 < Int.gcd size (2 ^ 64 : Nat) := Int.gcd_pos_of_ne_zero_right _ (by decide)
  unfold lastBegin
  generalize Int.gcd size (2 ^ 64 : Nat) = g at *
  constructor
  · rintro ⟨n, hn⟩
    have hrange := wrap64_range (start + n * size)
    have hdvd : (g : Int) ∣ wrap64 (start + n * size) - start := by
      have hwrap : (g : Int) ∣ wrap64 (start + n * size) - (start + n * size) :=
        Int.dvd_trans hword Int.dvd_bmod_sub_self
      have hsum := Int.dvd_add hwrap (Int.dvd_mul_of_dvd_right hsize (b := n))
      rwa [sub_add, add_sub_cancel_right] at hsum
    generalize wrap64 (start + n * size) = v at *
    obtain ⟨k, hk⟩ := hdvd
    have hrest : (2 ^ 63 - 1 - start) % (g : Int) = (2 ^ 63 - 1 - v) % (g : Int) := by
      rw [← Int.add_mul_emod_self_left (2 ^ 63 - 1 - v) g k, ← hk]
      congr 1
      omega
    obtain ⟨hlo, hhi⟩ := hrange
    have hle := emod_le_self (by omega : 0 ≤ 2 ^ 63 - 1 - v) (Int.natCast_nonneg g)
    omega
  · intro hstop
    obtain ⟨hlo, hhi⟩ := hstart
    have hle := emod_le_self (by omega : 0 ≤ 2 ^ 63 - 1 - start) (Int.natCast_nonneg g)
    have hnonneg := Int.emod_nonneg (2 ^ 63 - 1 - start) (by omega : (g : Int) ≠ 0)
    have hdvd := Int.dvd_self_sub_emod (x := 2 ^ 63 - 1 - start) (m := g)
    generalize (2 ^ 63 - 1 - start) % (g : Int) = rest at *
    obtain ⟨x, y, hxy⟩ := hbezout (2 ^ 63 - 1 - start - rest).toNat
      (Int.natCast_dvd_natCast.mp (by rwa [Int.toNat_of_nonneg (by omega)]))
    rw [Int.toNat_of_nonneg (by omega)] at hxy
    refine ⟨(x % (2 ^ 64 : Nat)).toNat, hstop.trans_eq ?_⟩
    have hx := Int.emod_add_mul_ediv x (2 ^ 64 : Nat)
    have hbegin : start + (x % (2 ^ 64 : Nat)) * size
        = 2 ^ 63 - 1 - rest + (-(y + x / (2 ^ 64 : Nat) * size)) * (2 ^ 64 : Nat) := by
      linear_combination size * hx - hxy
    rw [Int.toNat_of_nonneg (Int.emod_nonneg _ (by decide)), hbegin]
    unfold wrap64
    rw [Int.add_mul_bmod_self_right]
    exact (wrap64_of_range ⟨by omega, by omega⟩).symm

/-- **Termination.** The loop ends if and only if a bucket can begin at or after the end of the
interval. -/
theorem downsample_ends_iff (R : Runtime) (ts : TimeSeries) (start stop size : Int)
    (aggType : Bytes) (hne : ts.samples ≠ []) (hstart : Int64Range start) :
    ts.DownsampleEnds R start stop size aggType ↔ size ≤ 0 ∨ stop ≤ lastBegin start size := by
  unfold DownsampleEnds
  rw [← begins_iff hstart]
  simp only [hne, false_or, loop64_isSome, iterate_wrap64 hstart]
  refine or_congr_right ⟨fun ⟨_, n, _, hn⟩ => ⟨n, hn⟩, fun ⟨n, hn⟩ => ⟨n + 1, n, by omega, hn⟩⟩

theorem downsample_ends_odd :
    (ofCalls [(0, F64.zero)]).DownsampleEnds default 0 10 3 (bytes "count") :=
  (downsample_ends_iff default _ 0 10 3 _ (by decide) ⟨by decide, by decide⟩).mpr
    (.inr (by decide))

/-- Every bucket begins at an even time, and the largest 64-bit integer is odd. -/
theorem downsample_never_ends :
    ¬ (ofCalls [(0, F64.zero)]).DownsampleEnds default 0 (2 ^ 63 - 1) 2 (bytes "count") := by
  have hstart : Int64Range 0 := ⟨by decide, by decide⟩
  rintro (h | h | ⟨fuel, h⟩)
  · cases h
  · cases h
  · obtain ⟨n, -, hn⟩ := (loop64_isSome fuel 0).mp h
    rw [iterate_wrap64 hstart] at hn
    exact absurd ((begins_iff hstart).mp ⟨n, hn⟩) (by decide)

end Vole.TimeSeries
