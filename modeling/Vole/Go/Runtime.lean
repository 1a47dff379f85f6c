import Vole.Go.Strings
import Mathlib.Algebra.GroupWithZero.Nat
import Mathlib.Data.FinEnum
import Mathlib.Data.Finmap
import Mathlib.Order.Lex
import Mathlib.Data.List.Lex
import Mathlib.Data.Finset.Sort

/-!
# The Go runtime under the store

Times, 64-bit integers, maps, `sort.Search` and floating-point comparisons as the store
uses them. Floating-point arithmetic, the functions of `math`, and the text of numbers and of
JSON documents are collected in `Runtime`: the store only passes their results on, so everything
is stated for an arbitrary one.
-/

namespace Vole.Go

/-! ## Integers and times -/

/-- Two's complement wrap-around of `int64`. -/
def wrap64 (n : Int) : Int := Int.bmod n (2 ^ 64)

/-- An instant, in nanoseconds since the Unix epoch. -/
abbrev Time := Int

/-- A `time.Duration`, in nanoseconds. -/
abbrev Duration := Int

def millisecond : Duration := 1000000
def second : Duration := 1000000000

/-- The zero value of `time.Time`, midnight of the first day of year 1. -/
def zeroTime : Time := -62135596800 * second

/-- `Time.IsZero`. -/
def isZero (t : Time) : Bool := t = zeroTime

def maxDuration : Duration := 2 ^ 63 - 1
def minDuration : Duration := -(2 ^ 63)

/-- `Time.Sub`, which saturates. -/
def timeSub (t u : Time) : Duration := max minDuration (min maxDuration (t - u))

theorem timeSub_nonneg {t now : Int} (h : ¬ t ≤ now) : 0 ≤ timeSub t now := by
  show (0 : Int) ≤ max (-(2 ^ 63)) (min (2 ^ 63 - 1) (t - now))
  omega

/-- `Time.UnixMilli`. -/
def unixMilli (t : Time) : Int := wrap64 (t / millisecond)

/-- `Time.Unix`. -/
def unixSec (t : Time) : Int := wrap64 (t / second)

/-- `Time.UnixNano`, undefined outside the 64-bit range; the implementation wraps. -/
def unixNano (t : Time) : Int := wrap64 t

/-! ## Text of integers -/

/-- The unsigned part of `strconv.ParseInt`. -/
def parseSigned (neg : Bool) (digits : Bytes) : Option Int :=
  (parseUint digits 10 64).bind (fun n =>
    if neg then (if n ≤ 2 ^ 63 then some (-(n : Int)) else none)
    else (if n < 2 ^ 63 then some (n : Int) else none))

/-- `strconv.ParseInt(s, 10, 64)`, and `strconv.Atoi` on a 64-bit platform. -/
def parseInt : Bytes → Option Int
  | 43 :: digits => parseSigned false digits
  | 45 :: digits => parseSigned true digits
  | digits => parseSigned false digits

/-- The digits of a 64-bit number, read from the left: the first foreign byte makes the
text invalid (`error false`), the first overflow makes it too large (`error true`). -/
def scanDigits : Nat → Bytes → Except Bool Nat
  | n, [] => .ok n
  | n, c :: rest =>
    if 48 ≤ c ∧ c ≤ 57 then
      let m := n * 10 + (c.toNat - 48)
      if m < 2 ^ 64 then scanDigits m rest else .error true
    else .error false

/-- Whether a number is negative, and its digits. -/
def splitSign : Bytes → Bool × Bytes
  | 43 :: digits => (false, digits)
  | 45 :: digits => (true, digits)
  | digits => (false, digits)

/-- The value `strconv.ParseInt(s, 10, 64)` returns when its error is ignored: `0` for an
invalid text, the nearest bound for one out of range. -/
def parseIntValue (s : Bytes) : Int :=
  let (neg, digits) := splitSign s
  let magnitude : Except Bool Nat := match digits with
    | [] => .error false
    | _ => scanDigits 0 digits
  match magnitude with
  | .error false => 0
  | .error true => if neg then -(2 ^ 63) else 2 ^ 63 - 1
  | .ok n =>
    if neg then max (-(n : Int)) (-(2 ^ 63)) else min (n : Int) (2 ^ 63 - 1)

/-- `strconv.FormatInt(n, 10)`. -/
def formatInt (n : Int) : Bytes :=
  let digits := (Nat.toDigits 10 n.natAbs).map (fun c => UInt8.ofNat c.toNat)
  if n < 0 then 45 :: digits else digits

/-- `strings.ToUpper`, as far as a comparison with an ASCII word can tell: besides the
letters of ASCII, the dotless `i` and the long `s` have ASCII upper cases. -/
def toUpper : Bytes → Bytes
  | 0xC4 :: 0xB1 :: rest => 73 :: toUpper rest
  | 0xC5 :: 0xBF :: rest => 83 :: toUpper rest
  | c :: rest => (if 97 ≤ c ∧ c ≤ 122 then c - 32 else c) :: toUpper rest
  | [] => []

/-! ## Maps and searches -/

instance byteLinearOrder : LinearOrder UInt8 where
  le_refl := UInt8.le_refl
  le_trans _ _ _ := UInt8.le_trans
  le_antisymm _ _ := UInt8.le_antisymm
  le_total := UInt8.le_total
  lt_iff_le_not_ge _ _ := by
    rw [UInt8.not_le]
    exact ⟨fun h => ⟨UInt8.le_of_lt h, h⟩, fun h => h.2⟩
  toDecidableLE := inferInstance
  toDecidableLT := inferInstance

/-! The laws of the order of `sort.Strings` have names, so that definitions refer to them and
not to proofs of their own. -/

instance bytesLawfulBEq : LawfulBEq Bytes := inferInstance

instance bytesTrans : IsTrans Bytes (fun a b => a ≤ b) := inferInstance

instance bytesAntisymm : Std.Antisymm (fun a b : Bytes => a ≤ b) := inferInstance

instance bytesTotal : Std.Total (fun a b : Bytes => a ≤ b) := inferInstance

/-- A Go map with string keys. -/
abbrev GoMap (β : Type) := Finmap (fun _ : Bytes => β)

namespace GoMap

variable {β : Type}

variable (m : GoMap β)

/-- `m[key]`, with its presence. -/
def get (key : Bytes) : Option β := m.lookup key

/-- The keys in the order of `sort.Strings`. -/
def sortedKeys : List Bytes := m.keys.sort (· ≤ ·)

def size : Nat := m.keys.card

def isEmpty : Bool := m.keys.card = 0

theorem isEmpty_iff : m.isEmpty = true ↔ m = ∅ := by
  rw [isEmpty, decide_eq_true_iff, Finset.card_eq_zero]
  constructor
  · intro hkeys
    refine Finmap.ext_lookup (fun k => ?_)
    rw [Finmap.lookup_empty, Finmap.lookup_eq_none, ← Finmap.mem_keys, hkeys]
    exact Finset.notMem_empty k
  · rintro rfl
    exact Finmap.keys_empty

theorem insert_ne_empty (k : Bytes) (v : β) : Finmap.insert k v m ≠ ∅ := by
  intro h
  have hlookup := Finmap.lookup_insert m (a := k) (b := v)
  rw [h, Finmap.lookup_empty] at hlookup
  cases hlookup

theorem get_erase (key k : Bytes) :
    get (m.erase key) k = if k = key then none else m.get k := by
  unfold get
  split
  · rename_i hk
    rw [hk, Finmap.lookup_erase]
  · rename_i hk
    rw [Finmap.lookup_erase_ne hk]

theorem get_insert (key k : Bytes) (v : β) :
    get (m.insert key v) k = if k = key then some v else m.get k := by
  unfold get
  split
  · rename_i hk
    rw [hk, Finmap.lookup_insert]
  · rename_i hk
    rw [Finmap.lookup_insert_of_ne _ hk]

theorem ext_get {m m' : GoMap β} (h : ∀ k, m.get k = m'.get k) : m = m' := Finmap.ext_lookup h

theorem insert_erase (key : Bytes) (v : β) :
    (m.erase key).insert key v = m.insert key v := by
  refine ext_get (fun k => ?_)
  rw [get_insert, get_insert, get_erase]
  split <;> rfl

theorem insert_of_get {m : GoMap β} {key : Bytes} {v : β} (h : m.get key = some v) :
    m.insert key v = m := by
  refine ext_get (fun k => ?_)
  rw [get_insert]
  split
  · rename_i hk
    rw [hk, h]
  · rfl

end GoMap

/-- The loop of `sort.Search`; `fuel` bounds its rounds, and `j - i` falls in each. -/
def searchLoop (f : Nat → Bool) : Nat → Nat → Nat → Nat
  | 0, i, _ => i
  | fuel + 1, i, j =>
    if i < j then
      let h := (i + j) / 2
      if f h then searchLoop f fuel i h else searchLoop f fuel (h + 1) j
    else i

/-- `sort.Search(n, f)`: a binary search, whether or not `f` is monotone. -/
def search (n : Nat) (f : Nat → Bool) : Nat := searchLoop f n 0 n

/-! ## Floating point -/

/-- A `float64`, by its bits. -/
structure F64 where
  bits : UInt64
  deriving DecidableEq, Inhabited

namespace F64

def zero : F64 := ⟨0⟩
def posInf : F64 := ⟨0x7FF0000000000000⟩
def negInf : F64 := ⟨0xFFF0000000000000⟩

/-- The bits without the sign. -/
def magnitude (x : F64) : Nat := (x.bits &&& 0x7FFFFFFFFFFFFFFF).toNat

def isNaN (x : F64) : Bool := 0x7FF0000000000000 < x.magnitude

/-- A number with the order of the floating-point values; both zeros are `0`. -/
def rank (x : F64) : Int :=
  if x.bits &&& 0x8000000000000000 = 0 then x.magnitude else -(x.magnitude : Int)

/-- `x < y`. -/
def lt (x y : F64) : Bool := !x.isNaN && !y.isNaN && decide (x.rank < y.rank)

/-- `x <= y`. -/
def le (x y : F64) : Bool := !x.isNaN && !y.isNaN && decide (x.rank ≤ y.rank)

/-- `x == y`. -/
def eq (x y : F64) : Bool := !x.isNaN && !y.isNaN && decide (x.rank = y.rank)

/-- `-x` -/
def neg (x : F64) : F64 := ⟨x.bits ^^^ 0x8000000000000000⟩

end F64

/-! ## JSON values -/

/-- A parsed JSON document. The members of an object are sorted by name. -/
inductive JVal where
  | null
  | bool (b : Bool)
  | num (x : F64)
  | str (s : Bytes)
  | arr (items : List JVal)
  | obj (members : List (Bytes × JVal))
  deriving Inhabited

/-- The library functions whose results the store only passes on. -/
structure Runtime where
  /-- `strconv.ParseFloat(s, 64)` -/
  parseFloat : Bytes → Option F64
  /-- the text of its error -/
  parseFloatError : Bytes → Bytes
  /-- what `fmt.Sscan(s, &x)` leaves in `x` -/
  sscanFloat : Bytes → F64
  /-- `strconv.FormatFloat(x, 'f', -1, 64)` -/
  formatFloat : F64 → Bytes
  /-- `strconv.FormatFloat(x, 'f', 4, 64)` -/
  formatFloat4 : F64 → Bytes
  /-- `math.Nextafter(x, math.Inf(1))` or, with `false`, `math.Nextafter(x, math.Inf(-1))` -/
  nextAfter : Bool → F64 → F64
  (addFloat subFloat mulFloat divFloat : F64 → F64 → F64)
  /-- `math.Max`, `math.Min`, `math.Pow` and `math.Atan2` -/
  (maxFloat minFloat pow atan2 : F64 → F64 → F64)
  /-- `math.Sin`, `math.Cos`, `math.Sqrt`, `math.Log` and `math.Round` -/
  (sin cos sqrt log round : F64 → F64)
  floatOfInt : Int → F64
  /-- a constant of the source, rounded to a `float64` -/
  constant : Rat → F64
  /-- the conversions `uint32(x)`, `uint64(x)` and `int64(x)`, out of range as on the machine -/
  uint32OfFloat : F64 → UInt32
  uint64OfFloat : F64 → UInt64
  int64OfFloat : F64 → Int
  /-- `json.Unmarshal` into an empty interface; the error is its text -/
  unmarshal : Bytes → Except Bytes JVal
  /-- `json.Marshal` of such a value -/
  marshal : JVal → Except Bytes Bytes
  /-- `strconv.Quote`, the verb `%q` -/
  quote : Bytes → Bytes
  /-- `strings.ToLower` -/
  lower : Bytes → Bytes
  deriving Inhabited

end Vole.Go
