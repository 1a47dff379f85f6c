import Vole.Go.Runtime
import Mathlib.Data.Int.Order.Basic

/-!
# Sorted sets, time series and cardinality sketches

The container types of `sortedset.go`, `timeseries.go` and `hyperloglog.go`. Positions are
found by binary search exactly as in the source, so a sorted set that holds a NaN score,
for which the comparison is not monotone, is modelled too.
-/

namespace Vole

open Go

/-- `normalizeRange`: an inclusive range with negative indices counted from the end. -/
def normalizeRange (start stop : Int) (length : Nat) : Option (Nat × Nat) :=
  let start := if start < 0 then length + start else start
  let stop := if stop < 0 then length + stop else stop
  let start := if start < 0 then 0 else start
  let stop := if (length : Int) ≤ stop then (length : Int) - 1 else stop
  if stop < start ∨ length ≤ start ∨ stop < 0 then none
  else some (start.toNat, stop.toNat)

theorem normalizeRange_eq_some {start stop : Int} {n a b : Nat}
    (h : normalizeRange start stop n = some (a, b)) : a ≤ b ∧ b < n := by
  unfold normalizeRange at h
  dsimp only at h
  split_ifs at h <;> cases h <;> omega

/-- The index a range argument stands for: a negative one counts from the end. -/
def fromEnd (i : Int) (length : Nat) : Int := if i < 0 then length + i else i

/-- The elements of an inclusive range, `Deque.Range` and `SortedSet.Range`. -/
def rangeOf {α : Type} (items : List α) (start stop : Int) : List α :=
  match normalizeRange start stop items.length with
  | none => []
  | some (start, stop) => (items.drop start).take (stop - start + 1)

/-! ## Scores -/

/-- What `sortedset.go` needs of a score: how it compares. A score that is not a number equals
nothing, and is neither less nor greater than anything. -/
class Score (σ : Type) where
  Rank : Type
  order : LinearOrder Rank
  rank : σ → Rank
  isNaN : σ → Bool

variable {σ : Type}

namespace Score

attribute [reducible, instance] Score.order

variable [Score σ]

/-- `x < y` -/
def lt (x y : σ) : Bool := !isNaN x && !isNaN y && decide (rank x < rank y)

/-- `x <= y` -/
def le (x y : σ) : Bool := !isNaN x && !isNaN y && decide (rank x ≤ rank y)

/-- `x == y` -/
def eq (x y : σ) : Bool := !isNaN x && !isNaN y && decide (rank x = rank y)

end Score

/-- The scores of the store. -/
instance : Score F64 := ⟨Int, inferInstance, F64.rank, F64.isNaN⟩

instance Score.ofLinearOrder [LinearOrder σ] : Score σ := ⟨σ, inferInstance, id, fun _ => false⟩

/-! ## Sorted sets -/

structure ZMember (σ : Type := F64) where
  member : Bytes
  score : σ
  deriving DecidableEq

/-- `SortedSet`: the scores and the members in order, kept side by side. The scores of the
source are floating-point numbers; the functions only compare them. -/
structure SortedSet (σ : Type := F64) where
  scores : GoMap σ
  ordered : List (ZMember σ)

namespace SortedSet

/-- `NewSortedSet` -/
def empty : SortedSet σ := ⟨∅, []⟩

variable (z : SortedSet σ)

/-- `Len` -/
def len : Nat := z.scores.size

/-- `Score` -/
def score (member : Bytes) : Option σ := z.scores.get member

/-- `Range` -/
def range (start stop : Int) : List (ZMember σ) := rangeOf z.ordered start stop

/-- The loop of `RevRange`: the slice is read from its end. -/
def readBack {α : Type} (ordered : List α) (start stop : Int) : List α :=
  let n := ordered.length
  match normalizeRange start stop n with
  | none => []
  | some (start, stop) =>
    (List.range (stop - start + 1)).filterMap (fun i => ordered[n - 1 - start - i]?)

def revRange (start stop : Int) : List (ZMember σ) :=
  readBack z.ordered start stop

/-- The number of members a pop takes. -/
def popCount (count : Int) : Nat :=
  min (if count ≤ 0 then 1 else count.toNat) z.ordered.length

/-- Deleting the popped members from the score map. -/
def dropScores (scores : GoMap σ) (members : List (ZMember σ)) : GoMap σ :=
  members.foldl (fun scores m => scores.erase m.member) scores

def popMin (count : Int) : List (ZMember σ) × SortedSet σ :=
  let n := z.popCount count
  let popped := z.ordered.take n
  (popped, ⟨dropScores z.scores popped, z.ordered.drop n⟩)

def popMax (count : Int) : List (ZMember σ) × SortedSet σ :=
  let start := z.ordered.length - z.popCount count
  let popped := (z.ordered.drop start).reverse
  (popped, ⟨dropScores z.scores popped, z.ordered.take start⟩)

variable [Score σ]

def findPos (score : σ) (member : Bytes) : Nat :=
  search z.ordered.length (fun i => z.ordered[i]?.all (fun m =>
    if !Score.eq m.score score then Score.lt score m.score else decide (member ≤ m.member)))

def insertOrdered (member : Bytes) (score : σ) : SortedSet σ :=
  { z with ordered := z.ordered.insertIdx (z.findPos score member) ⟨member, score⟩ }

def removeOrdered (member : Bytes) (score : σ) : SortedSet σ :=
  let pos := z.findPos score member
  if z.ordered[pos]?.map (·.member) = some member then
    { z with ordered := z.ordered.eraseIdx pos }
  else z

theorem removeOrdered_scores (member : Bytes) (score : σ) :
    (z.removeOrdered member score).scores = z.scores := by
  unfold removeOrdered
  dsimp only
  split <;> rfl

/-- `Add`: whether the member is new. -/
def add (member : Bytes) (score : σ) : Bool × SortedSet σ :=
  match z.scores.get member with
  | some oldScore =>
    if Score.eq oldScore score then (false, z)
    else
      let z := z.removeOrdered member oldScore
      let z := { z with scores := z.scores.insert member score }
      (false, z.insertOrdered member score)
  | none =>
    let z := { z with scores := z.scores.insert member score }
    (true, z.insertOrdered member score)

/-- `Remove`: whether the member existed. -/
def remove (member : Bytes) : Bool × SortedSet σ :=
  match z.scores.get member with
  | none => (false, z)
  | some score =>
    let z := { z with scores := z.scores.erase member }
    (true, z.removeOrdered member score)

/-- `NewSortedSet` and an `Add` for each member, as `Copy` and `Load` rebuild a set. -/
def ofMembers (members : List (ZMember σ)) : SortedSet σ :=
  members.foldl (fun z m => (z.add m.member m.score).2) empty

def rank (member : Bytes) : Option Nat :=
  (z.scores.get member).bind (fun score =>
    let pos := z.findPos score member
    if z.ordered[pos]?.map (·.member) = some member then some pos else none)

/-- The loop of `RangeByScore` and `RangeByLex`: members are passed over, the walk stops, or the
member is skipped for the offset or taken for the count. -/
def walk {α : Type} (pass stop : α → Bool) (offset count : Int) :
    Nat → List α → List α → List α
  | _, result, [] => result
  | skipped, result, m :: rest =>
    if pass m then walk pass stop offset count skipped result rest
    else if stop m then result
    else if 0 < offset ∧ (skipped : Int) < offset then
      walk pass stop offset count (skipped + 1) result rest
    else if 0 < count ∧ count ≤ (result ++ [m]).length then result ++ [m]
    else walk pass stop offset count skipped (result ++ [m]) rest

/-- The first position with a score of at least `min`. -/
def scoreStart (min : σ) : Nat :=
  search z.ordered.length (fun i => z.ordered[i]?.all (fun m => Score.le min m.score))

def rangeByScore (min max : σ) (offset count : Int) : List (ZMember σ) :=
  walk (fun _ => false) (fun m => Score.lt max m.score) offset count 0 []
    (z.ordered.drop (z.scoreStart min))

/-- The loop of `CountByScore`. -/
def countLoop (max : σ) : Nat → List (ZMember σ) → Nat
  | n, [] => n
  | n, m :: rest => if Score.lt max m.score then n else countLoop max (n + 1) rest

def countByScore (min max : σ) : Nat :=
  countLoop max 0 (z.ordered.drop (z.scoreStart min))

/-- `lexGTE` -/
def lexGTE (member bound : Bytes) : Bool :=
  if bound = bytes "-" then true
  else if bound = bytes "+" then false
  else
    match bound with
    | 91 :: rest => decide (rest ≤ member)
    | 40 :: rest => decide (rest < member)
    | _ => decide (bound ≤ member)

/-- `lexLTE` -/
def lexLTE (member bound : Bytes) : Bool :=
  if bound = bytes "+" then true
  else if bound = bytes "-" then false
  else
    match bound with
    | 91 :: rest => decide (member ≤ rest)
    | 40 :: rest => decide (member < rest)
    | _ => decide (member ≤ bound)

def rangeByLex (min max : Bytes) (offset count : Int) : List (ZMember σ) :=
  walk (fun m => !lexGTE m.member min) (fun m => !lexLTE m.member max) offset count 0 [] z.ordered

end SortedSet

/-! ## Time series -/

structure TSSample where
  timestamp : Int
  value : F64
  deriving DecidableEq

structure TimeSeries where
  samples : List TSSample
  labels : GoMap Bytes

namespace TimeSeries

/-- `NewTimeSeries` -/
def empty : TimeSeries := ⟨[], ∅⟩

/-- The position of the first sample that is not older than `timestamp`. -/
def position (samples : List TSSample) (timestamp : Int) : Nat :=
  search samples.length (fun i =>
    match samples[i]? with
    | none => true
    | some s => decide (timestamp ≤ s.timestamp))

/-- `Add` -/
def add (ts : TimeSeries) (timestamp : Int) (value : F64) : TimeSeries :=
  let idx := position ts.samples timestamp
  if ts.samples[idx]?.map (·.timestamp) = some timestamp then
    { ts with samples := ts.samples.set idx ⟨timestamp, value⟩ }
  else { ts with samples := ts.samples.insertIdx idx ⟨timestamp, value⟩ }

/-- The labels of a `TS.ADD`, written over those the series has. -/
def addLabels (ts : TimeSeries) (labels : List (Bytes × Bytes)) : TimeSeries :=
  { ts with labels := labels.foldl (fun m p => m.insert p.1 p.2) ts.labels }

/-- `Range` -/
def range (ts : TimeSeries) (start stop : Int) (count : Int) : List TSSample :=
  let run := (ts.samples.drop (position ts.samples start)).takeWhile
    (fun s => decide (s.timestamp ≤ stop))
  if 0 < count then run.take count.toNat else run

/-- `Last` -/
def last (ts : TimeSeries) : Option TSSample := ts.samples.getLast?

/-- One bucket of `Downsample`, for a non-empty list of samples. -/
def aggregate (R : Runtime) (aggType : Bytes) (samples : List TSSample) : F64 :=
  let values := samples.map (·.value)
  let first := values.headD F64.zero
  if aggType = bytes "avg" then
    R.divFloat (values.foldl R.addFloat F64.zero) (R.floatOfInt values.length)
  else if aggType = bytes "sum" then values.foldl R.addFloat F64.zero
  else if aggType = bytes "min" then
    values.foldl (fun val v => if v.lt val then v else val) F64.posInf
  else if aggType = bytes "max" then
    values.foldl (fun val v => if val.lt v then v else val) F64.negInf
  else if aggType = bytes "count" then R.floatOfInt values.length
  else if aggType = bytes "first" then first
  else if aggType = bytes "last" then values.getLastD F64.zero
  else first

/-- The loop of `Downsample`; `fuel` bounds the number of buckets. -/
def downsampleLoop (R : Runtime) (ts : TimeSeries) (stop bucketSize : Int)
    (aggType : Bytes) : Nat → Int → List TSSample
  | 0, _ => []
  | fuel + 1, bucketStart =>
    if bucketStart < stop then
      let bucketEnd := bucketStart + bucketSize
      let rest := downsampleLoop R ts stop bucketSize aggType fuel bucketEnd
      match ts.range bucketStart (bucketEnd - 1) 0 with
      | [] => rest
      | samples => ⟨bucketStart, aggregate R aggType samples⟩ :: rest
    else []

/-- `Downsample`. -/
def downsample (R : Runtime) (ts : TimeSeries) (start stop bucketSize : Int)
    (aggType : Bytes) : List TSSample :=
  if bucketSize ≤ 0 ∨ ts.samples = [] then []
  else
    let buckets := ((stop - start) / bucketSize + 1).toNat
    downsampleLoop R ts stop bucketSize aggType buckets start

end TimeSeries

/-! ## Cardinality sketches -/

/-- `HyperLogLog`: one byte for each of the 2^14 registers. -/
structure HyperLogLog where
  registers : Fin 16384 → UInt8

namespace HyperLogLog

/-- `NewHyperLogLog` -/
def empty : HyperLogLog := ⟨fun _ => 0⟩

/-- `hash/fnv`'s 64-bit FNV-1a. -/
def fnv64a (data : Bytes) : UInt64 :=
  data.foldl (fun h c => (h ^^^ c.toUInt64) * 0x100000001b3) 0xcbf29ce484222325

/-- `mix64` -/
def mix64 (x : UInt64) : UInt64 :=
  let x := x ^^^ (x >>> 30)
  let x := x * 0xbf58476d1ce4e5b9
  let x := x ^^^ (x >>> 27)
  let x := x * 0x94d049bb133111eb
  x ^^^ (x >>> 31)

/-- One step of the bisection in `clz64`. -/
def clzStep (mask shift : UInt64) (acc : UInt8 × UInt64) : UInt8 × UInt64 :=
  if acc.2 &&& mask = 0 then (acc.1 + shift.toUInt8, acc.2 <<< shift) else acc

/-- `clz64` -/
def clz64 (x : UInt64) : UInt8 :=
  if x = 0 then 64
  else
    let acc := clzStep 0xFFFFFFFF00000000 32 (0, x)
    let acc := clzStep 0xFFFF000000000000 16 acc
    let acc := clzStep 0xFF00000000000000 8 acc
    let acc := clzStep 0xF000000000000000 4 acc
    let acc := clzStep 0xC000000000000000 2 acc
    if acc.2 &&& 0x8000000000000000 = 0 then acc.1 + 1 else acc.1

/-- The register an element falls into, and the value it would put there. -/
def locate (element : Bytes) : Fin 16384 × UInt8 :=
  let x := mix64 (fnv64a element)
  let idx := (x >>> 50).toNat
  let remaining := (x <<< 14) ||| 0x2000
  (Fin.ofNat 16384 idx, clz64 remaining + 1)

/-- `Add`: whether a register changed. -/
def add (h : HyperLogLog) (element : Bytes) : Bool × HyperLogLog :=
  let (idx, rho) := locate element
  if h.registers idx < rho then
    (true, ⟨fun i => if i = idx then rho else h.registers i⟩)
  else (false, h)

/-- `Merge` -/
def merge (h other : HyperLogLog) : HyperLogLog :=
  ⟨fun i => if h.registers i < other.registers i then other.registers i else h.registers i⟩

/-- `hllAlpha` -/
def alpha (R : Runtime) : F64 :=
  R.divFloat (R.constant 0.7213)
    (R.addFloat (R.constant 1) (R.divFloat (R.constant 1.079) (R.floatOfInt 16384)))

/-- `Count` -/
def count (R : Runtime) (h : HyperLogLog) : Int :=
  let m := R.floatOfInt 16384
  let sum := (List.finRange 16384).foldl (fun sum i =>
    R.addFloat sum (R.pow (R.constant 2) (R.floatOfInt (h.registers i).toNat).neg)) F64.zero
  let zeros := (List.finRange 16384).countP (fun i => h.registers i = 0)
  let estimate := R.divFloat (R.mulFloat (R.mulFloat (alpha R) m) m) sum
  let estimate := if estimate.le (R.mulFloat (R.constant 2.5) m) ∧ 0 < zeros then
    R.mulFloat m (R.log (R.divFloat m (R.floatOfInt zeros))) else estimate
  R.int64OfFloat (R.round estimate)

end HyperLogLog

end Vole
