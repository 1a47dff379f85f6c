import Vole.Store.Strings

/-!
# Ranges with negative ends

`normalizeRange` and the three copies of it in `GetRange`, `BitCount` and `BitPos`, which differ in
their tests for an empty range.
-/

namespace Vole

open Go Entry Cell

/-- The range covers position `i` of `n` elements. -/
def Covers (start stop : Int) (n i : Nat) : Prop :=
  i < n ∧ fromEnd start n ≤ i ∧ (i : Int) ≤ fromEnd stop n

/-- The clamped range has the byte of this bit. -/
def InBits (range : Int × Int) (o : Nat) : Prop :=
  range.1 ≤ (o / 8 : Nat) ∧ ((o / 8 : Nat) : Int) ≤ range.2

/-- A reader finds the text. -/
structure Entry.Shows (e : Entry) (now : Time) (data : Bytes) : Prop where
  kv : e.kv = some data
  fresh : e.expired now = false
  free : e.readConflict now .string = false

section
variable {start stop : Int} {n : Nat}

/-- The clamped ends lie in the text. -/
theorem clampRange_bounds : 0 ≤ (clampRange start stop n).1 ∧ (clampRange start stop n).2 < n := by
  unfold clampRange
  dsimp only
  split_ifs <;> omega

theorem bitRange_bounds {hasBounds : Bool} :
    0 ≤ (bitRange start stop hasBounds n).1 ∧ (bitRange start stop hasBounds n).2 < n := by
  unfold bitRange
  split <;> exact clampRange_bounds

theorem inText_clampRange : inText (clampRange start stop n) n = true :=
  decide_eq_true clampRange_bounds

theorem inText_bitRange {hasBounds : Bool} : inText (bitRange start stop hasBounds n) n = true :=
  decide_eq_true bitRange_bounds

theorem covers_iff (i : Nat) : Covers start stop n i
    ↔ (clampRange start stop n).1 ≤ i ∧ (i : Int) ≤ (clampRange start stop n).2 := by
  unfold clampRange Covers fromEnd
  dsimp only
  split_ifs <;> omega

/-- `normalizeRange` makes one test more than it has to. -/
theorem normalizeRange_eq : normalizeRange start stop n
    = if (clampRange start stop n).2 < (clampRange start stop n).1 then none
      else some ((clampRange start stop n).1.toNat, (clampRange start stop n).2.toNat) := by
  unfold normalizeRange clampRange
  dsimp only
  split_ifs <;> first | rfl | omega

theorem rangeOf_eq (data : Bytes) : rangeOf data start stop
    = if (clampRange start stop data.length).2 < (clampRange start stop data.length).1 then []
      else slice data (clampRange start stop data.length) := by
  have hbounds := @clampRange_bounds start stop data.length
  unfold rangeOf slice
  rw [normalizeRange_eq]
  by_cases h : (clampRange start stop data.length).2 < (clampRange start stop data.length).1
  · rw [if_pos h, if_pos h]
  · rw [if_neg h, if_neg h]
    dsimp only
    congr 1
    omega

/-- The search of `BitPos`: it ends at the first offset of the range that holds the bit, or without
one. -/
theorem bitPos_cases {e : Entry} {now : Time} {data : Bytes} (h : e.Shows now data)
    (bit start stop : Int) (hasBounds : Bool) {range : Int × Int}
    (hrange : bitRange start stop hasBounds data.length = range) :
    (∃ o : Nat, e.bitPos now bit start stop hasBounds = .ok o ∧ InBits range o ∧
      (bitAt data o).toNat = bit ∧ ∀ o' < o, InBits range o' → (bitAt data o').toNat ≠ bit) ∨
    ((∀ o, InBits range o → (bitAt data o).toNat ≠ bit) ∧
      e.bitPos now bit start stop hasBounds = .ok (if range.1 ≤ range.2 ∧ bit = 0 ∧
        hasBounds = false then 8 * data.length else -1)) := by
  have hbounds := @bitRange_bounds start stop data.length hasBounds
  have htext := @inText_bitRange start stop data.length hasBounds
  unfold bitPos
  rw [h.fresh, h.free, h.kv]
  dsimp only [InBits]
  rw [hrange] at hbounds htext ⊢
  rw [if_neg Bool.false_ne_true, if_neg Bool.false_ne_true]
  split
  · rename_i hempty
    refine .inr ⟨fun o ho => by omega, ?_⟩
    rw [if_neg (fun h => by omega)]
  rename_i hne
  rw [htext, if_neg (by decide), List.find?_map]
  cases hfind : (List.range (8 * (range.2 - range.1 + 1).toNat)).find?
      ((fun o => decide (((bitAt data o).toNat : Int) = bit)) ∘ (· + 8 * range.1.toNat)) with
  | some i =>
    obtain ⟨hi, hmem, hfirst⟩ := List.find?_range_eq_some.mp hfind
    have hi := of_decide_eq_true hi
    have hmem := List.mem_range.mp hmem
    refine .inl ⟨i + 8 * range.1.toNat, rfl, by omega, hi, fun o ho hin hbit => ?_⟩
    have hskip := hfirst (o - 8 * range.1.toNat) (by omega)
    simp [show o - 8 * range.1.toNat + 8 * range.1.toNat = o by omega, hbit] at hskip
  | none =>
    have hnone := List.find?_range_eq_none.mp hfind
    refine .inr ⟨fun o hin hbit => ?_, ?_⟩
    · have hskip := hnone (o - 8 * range.1.toNat) (by omega)
      simp [show o - 8 * range.1.toNat + 8 * range.1.toNat = o by omega, hbit] at hskip
    · cases hasBounds <;> by_cases hbit : bit = 0 <;> simp [Int.not_lt.mp hne, hbit]

end

/-- **Ranges.** `normalizeRange` accepts a range that covers a position, and returns the least and
the greatest one; the ends that `GetRange`, `BitCount` and `BitPos` come to lie in the text, and
they read the positions that the range covers. -/
theorem ranges_agree (start stop : Int) (n : Nat) :
    ((normalizeRange start stop n).isSome = true ↔ ∃ i, Covers start stop n i) ∧
    (∀ a b, normalizeRange start stop n = some (a, b) → Covers start stop n a ∧
      Covers start stop n b ∧ ∀ i, Covers start stop n i → a ≤ i ∧ i ≤ b) ∧
    inText (clampRange start stop n) n = true ∧
    (∀ hasBounds, inText (bitRange start stop hasBounds n) n = true) ∧
    ∀ (e : Entry) (now : Time) (data : Bytes) (bit : Int), data.length = n → e.Shows now data →
      e.getRange now start stop = .ok (rangeOf data start stop) ∧
      e.bitCount now start stop true = .ok ((rangeOf data start stop).map popcount).sum ∧
      ((∃ o : Nat, e.bitPos now bit start stop true = .ok o ∧ Covers start stop n (o / 8) ∧
          (bitAt data o).toNat = bit) ∨
        e.bitPos now bit start stop true = .ok (-1) ∧
          ∀ o : Nat, Covers start stop n (o / 8) → (bitAt data o).toNat ≠ bit) := by
  have hbounds := @clampRange_bounds start stop n
  refine ⟨?_, fun a b h => ?_, inText_clampRange, fun _ => inText_bitRange,
    fun e now data bit hn h => ?_⟩
  · simp only [covers_iff, normalizeRange_eq]
    split
    · exact iff_of_false (by simp) (by rintro ⟨i, hi⟩; omega)
    · exact iff_of_true rfl ⟨(clampRange start stop n).1.toNat, by omega⟩
  · rw [normalizeRange_eq] at h
    simp only [covers_iff]
    split at h <;> cases h
    exact ⟨by omega, by omega, fun i hi => by omega⟩
  · subst hn
    simp only [covers_iff]
    refine ⟨?_, ?_, ?_⟩
    · rw [rangeOf_eq]
      simp only [getRange, h.fresh, h.free, h.kv, inText_clampRange, Bool.not_true,
        Bool.false_eq_true, if_false]
      split_ifs <;> first | rfl | omega
    · rw [rangeOf_eq]
      simp only [bitCount, bitRange, h.fresh, h.free, h.kv, inText_clampRange, Bool.not_true,
        Bool.false_eq_true, if_false, if_true]
      split_ifs <;> rfl
    · rcases bitPos_cases h bit start stop true rfl with ⟨o, heq, hin, hbit, -⟩ | ⟨hnone, heq⟩
      · exact .inl ⟨o, heq, hin, hbit⟩
      · rw [if_neg (by simp)] at heq
        exact .inr ⟨heq, hnone⟩

end Vole
