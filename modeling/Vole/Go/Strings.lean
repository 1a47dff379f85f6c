import Mathlib.Algebra.Group.Nat.Defs
import Mathlib.Data.List.Infix

/-!
# Byte strings

The part of Go's `strings`, `strconv`, `fmt` and `hash/crc32` packages that the server uses on its
on-disk text formats. A Go string is a list of bytes; nothing is assumed about its
encoding.

* `replaceAll` — `strings.ReplaceAll`, with the equations for one- and two-byte patterns
* `lastIndex` — `strings.LastIndex` for a one-byte separator
* `parseUint` — `strconv.ParseUint` with an explicit base and bit size
* `formatHex08` — the verb `%08x` on a 32-bit value; `parseUint_formatHex08` is its
  round trip
* `checksumIEEE` — `crc32.ChecksumIEEE`
-/

namespace Vole.Go

open List

/-- A Go string. -/
abbrev Bytes := List UInt8

/-- The bytes of a string literal. -/
def bytes (s : String) : Bytes := s.toByteArray.data.toList

section
variable {α : Type} [DecidableEq α]

/-- The scan of `strings.ReplaceAll`: matches are taken from the left and never overlap.
`skip` counts the symbols of the current match that are still to be passed over. -/
def replaceFrom (old new : List α) : Nat → List α → List α
  | _, [] => []
  | skip + 1, _ :: rest => replaceFrom old new skip rest
  | 0, c :: rest =>
    if old.isPrefixOf (c :: rest) then
      new ++ replaceFrom old new (old.length - 1) rest
    else
      c :: replaceFrom old new 0 rest

/-- `strings.ReplaceAll(s, old, new)` for a non-empty `old`. -/
def replaceAll (s old new : List α) : List α := replaceFrom old new 0 s

theorem replaceAll_singleton (s : List α) (c : α) (new : List α) :
    replaceAll s [c] new = s.flatMap (fun x => if x = c then new else [x]) := by
  unfold replaceAll
  induction s with
  | nil => rfl
  | cons x rest ih =>
    by_cases hx : x = c
    · subst hx
      simp [replaceFrom, ih]
    · simp [replaceFrom, Ne.symm hx, hx, ih]

theorem replaceAll_pair_cons_cons (x y : α) (s : List α) (c d : α) (new : List α) :
    replaceAll (x :: y :: s) [c, d] new = if c = x ∧ d = y then new ++ replaceAll s [c, d] new
        else x :: replaceAll (y :: s) [c, d] new := by
  by_cases hx : c = x
  · by_cases hy : d = y <;> simp [replaceAll, replaceFrom, hx, hy]
  · simp [replaceAll, replaceFrom, hx]

theorem replaceAll_pair_of_head_ne {x c : α} (s : List α) (d : α) (new : List α) (hx : c ≠ x) :
    replaceAll (x :: s) [c, d] new = x :: replaceAll s [c, d] new := by
  simp [replaceAll, replaceFrom, hx]

theorem replaceAll_pair_of_next_ne {c d : α} {s : List α} (new : List α) (hs : s.head? ≠ some d) :
    replaceAll (c :: s) [c, d] new = c :: replaceAll s [c, d] new := by
  cases s with
  | nil => simp [replaceAll, replaceFrom]
  | cons y rest =>
    have hy : d ≠ y := by
      rintro rfl
      exact hs rfl
    simp [replaceAll, replaceFrom, hy]

theorem replaceAll_pair_of_not_mem {c : α} (d : α) (s new : List α) (hs : c ∉ s) :
    replaceAll s [c, d] new = s := by
  induction s with
  | nil => rfl
  | cons x rest ih =>
    rw [mem_cons, not_or] at hs
    rw [replaceAll_pair_of_head_ne rest d new hs.1, ih hs.2]

end

theorem intercalate_concat {α : Type} (x : α) (field last : List α) (fields : List (List α)) :
    [x].intercalate (field :: fields ++ [last])
      = [x].intercalate (field :: fields) ++ x :: last := by
  induction fields generalizing field with
  | nil => simp [intercalate]
  | cons next fields ih =>
    have hnext := ih next
    rw [cons_append] at hnext
    rw [cons_append, cons_append, intercalate_cons_cons, hnext,
      intercalate_cons_cons, append_assoc _ _ (x :: last)]

/-- `strings.LastIndex(s, c)` for a one-byte separator; `none` is the result `-1`. -/
def lastIndex {α : Type} [DecidableEq α] (c : α) : List α → Option Nat
  | [] => none
  | x :: rest =>
    match lastIndex c rest with
    | some i => some (i + 1)
    | none => if x = c then some 0 else none

theorem lastIndex_of_not_mem {α : Type} [DecidableEq α] {c : α} {t : List α}
    (ht : c ∉ t) : lastIndex c t = none := by
  induction t with
  | nil => rfl
  | cons x rest ih =>
    rw [mem_cons, not_or] at ht
    simp [lastIndex, ih ht.2, Ne.symm ht.1]

theorem lastIndex_append_cons {α : Type} [DecidableEq α] (s : List α) {t : List α} {c : α}
    (ht : c ∉ t) : lastIndex c (s ++ c :: t) = some s.length := by
  induction s with
  | nil => simp [lastIndex, lastIndex_of_not_mem ht]
  | cons x rest ih => simp [lastIndex, ih]

/-! ## Numbers in text -/

/-- The value of a digit in `strconv`'s loops: `0-9`, `a-z` and `A-Z`. -/
def digitVal (c : UInt8) : Option Nat :=
  if 48 ≤ c ∧ c ≤ 57 then some (c.toNat - 48)
  else
    let lower := c ||| 32
    if 97 ≤ lower ∧ lower ≤ 122 then some (lower.toNat - 97 + 10) else none

/-- One round of the loop of `strconv.ParseUint`. -/
def parseDigit (base n : Nat) (c : UInt8) : Option Nat :=
  (digitVal c).bind (fun d => if d < base then some (n * base + d) else none)

/-- `strconv.ParseUint(s, base, bitSize)` for an explicit base; `none` is any error. -/
def parseUint (s : Bytes) (base bitSize : Nat) : Option Nat :=
  if s = [] then none
  else (s.foldlM (parseDigit base) 0).bind (fun n => if n < 2 ^ bitSize then some n else none)

/-- A lower-case hexadecimal digit. -/
def hexDigit (d : Nat) : UInt8 := if d < 10 then UInt8.ofNat (48 + d) else UInt8.ofNat (87 + d)

/-- `fmt`'s `%08x` on a 32-bit value. -/
def formatHex08 (n : UInt32) : Bytes :=
  [7, 6, 5, 4, 3, 2, 1, 0].map (fun i => hexDigit (n.toNat / 16 ^ i % 16))

@[simp] theorem length_formatHex08 (n : UInt32) : (formatHex08 n).length = 8 := by
  simp [formatHex08]

theorem digitVal_hexDigit {d : Nat} (hd : d < 16) : digitVal (hexDigit d) = some d := by
  have h : ∀ e : Fin 16, digitVal (hexDigit e.val) = some e.val := by decide
  exact h ⟨d, hd⟩

theorem mem_formatHex08 {n : UInt32} {c : UInt8} (hc : c ∈ formatHex08 n) :
    ∃ d < 16, c = hexDigit d := by
  obtain ⟨i, -, rfl⟩ := mem_map.mp hc
  exact ⟨_, Nat.mod_lt _ (by decide), rfl⟩

theorem not_mem_formatHex08 (n : UInt32) {c : UInt8} (hc : ∀ d < 16, c ≠ hexDigit d) :
    c ∉ formatHex08 n := by
  intro hmem
  obtain ⟨d, hd, rfl⟩ := mem_formatHex08 hmem
  exact hc d hd rfl

theorem parseUint_formatHex08 (n : UInt32) : parseUint (formatHex08 n) 16 32 = some n.toNat := by
  have hlt : n.toNat < 2 ^ 32 := n.toNat_lt
  have hdigit : ∀ m i : Nat, parseDigit 16 m (hexDigit (n.toNat / 16 ^ i % 16))
      = some (m * 16 + n.toNat / 16 ^ i % 16) := by
    intro m i
    have hi : n.toNat / 16 ^ i % 16 < 16 := Nat.mod_lt _ (by decide)
    simp [parseDigit, digitVal_hexDigit hi, hi]
  simp only [parseUint, formatHex08, map_cons, map_nil, cons_ne_nil,
    if_false, foldlM_cons, foldlM_nil, hdigit, Option.bind_eq_bind,
    Option.bind_some, Option.pure_def]
  have hsum : (((((((0 * 16 + n.toNat / 16 ^ 7 % 16) * 16 + n.toNat / 16 ^ 6 % 16) * 16
      + n.toNat / 16 ^ 5 % 16) * 16 + n.toNat / 16 ^ 4 % 16) * 16
      + n.toNat / 16 ^ 3 % 16) * 16 + n.toNat / 16 ^ 2 % 16) * 16
      + n.toNat / 16 ^ 1 % 16) * 16 + n.toNat / 16 ^ 0 % 16 = n.toNat := by
    omega
  rw [hsum, if_pos hlt]

/-! ## Checksums -/

/-- One bit of the reflected CRC-32 with the IEEE polynomial. -/
def crc32Bit (crc : UInt32) : UInt32 :=
  if crc &&& 1 = 1 then (crc >>> 1) ^^^ 0xEDB88320 else crc >>> 1

def crc32Byte (crc : UInt32) (c : UInt8) : UInt32 :=
  (List.range 8).foldl (fun crc _ => crc32Bit crc) (crc ^^^ c.toUInt32)

/-- `crc32.ChecksumIEEE`. -/
def checksumIEEE (data : Bytes) : UInt32 := ~~~(data.foldl crc32Byte (~~~0))

example : checksumIEEE (bytes "123456789") = 0xCBF43926 := by decide +kernel

end Vole.Go
