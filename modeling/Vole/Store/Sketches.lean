import Vole.Store.SortedSet

/-!
# Sketches

A sketch is the pointwise maximum of what its elements put into the registers, so that neither
their order nor their number matters, and `Merge` is the union.
-/

namespace Vole.HyperLogLog

open Go

/-- What `Merge` reports: whether a register changed. -/
def mergeChanged (h other : HyperLogLog) : Bool :=
  (List.finRange 16384).any (fun i => h.registers i < other.registers i)

/-- The elements are added one by one. -/
def sketch (xs : List Bytes) : HyperLogLog := xs.foldl (fun h x => (h.add x).2) empty

variable {h other : HyperLogLog} {x : Bytes} {i : Fin 16384} {c : UInt8}

theorem ext_le {a b : HyperLogLog} (h : ∀ i c, c ≤ a.registers i ↔ c ≤ b.registers i) : a = b := by
  have hregisters : a.registers = b.registers := by
    funext i
    exact le_antisymm ((h i _).mp le_rfl) ((h i _).mpr le_rfl)
  cases a
  cases b
  cases hregisters
  rfl

theorem add_eq {idx : Fin 16384} {rho : UInt8} (hloc : locate x = (idx, rho)) :
    h.add x = if h.registers idx < rho
      then (true, ⟨fun i => if i = idx then rho else h.registers i⟩) else (false, h) := by
  unfold add
  rw [hloc]

theorem le_add : c ≤ (h.add x).2.registers i
    ↔ c ≤ h.registers i ∨ ((locate x).1 = i ∧ c ≤ (locate x).2) := by
  rcases hloc : locate x with ⟨idx, rho⟩
  rw [add_eq hloc]
  split
  case isTrue hlt =>
    by_cases hi : i = idx
    · subst hi
      dsimp only
      rw [if_pos rfl]
      exact ⟨fun hc => .inr ⟨rfl, hc⟩, fun hc => hc.elim (fun hc => hc.trans hlt.le) (·.2)⟩
    · dsimp only
      rw [if_neg hi]
      exact ⟨.inl, fun hc => hc.resolve_right (fun hc => hi hc.1.symm)⟩
  case isFalse hge =>
    refine ⟨.inl, fun hc => hc.elim id fun hc => ?_⟩
    rw [← hc.1]
    exact hc.2.trans (not_lt.mp hge)

theorem le_merge : c ≤ (h.merge other).registers i ↔ c ≤ h.registers i ∨ c ≤ other.registers i := by
  unfold merge
  dsimp only
  split
  case isTrue hlt => exact ⟨.inr, fun hc => hc.elim (fun hc => hc.trans hlt.le) id⟩
  case isFalse hge => exact ⟨.inl, fun hc => hc.elim id (fun hc => hc.trans (not_lt.mp hge))⟩

theorem le_foldl_add (xs : List Bytes) (h : HyperLogLog) :
    c ≤ (xs.foldl (fun h x => (h.add x).2) h).registers i
      ↔ c ≤ h.registers i ∨ ∃ x ∈ xs, (locate x).1 = i ∧ c ≤ (locate x).2 := by
  induction xs generalizing h with
  | nil => simp
  | cons x xs ih =>
    rw [List.foldl_cons, ih, le_add, List.exists_mem_cons_iff, or_assoc]

theorem le_sketch (xs : List Bytes) : c ≤ (sketch xs).registers i
    ↔ c ≤ 0 ∨ ∃ x ∈ xs, (locate x).1 = i ∧ c ≤ (locate x).2 := le_foldl_add xs empty

/-! ## Bounds -/

/-- The bisection of `clz64` shifts by as much as it counts. -/
def Counted (y : UInt64) (acc : UInt8 × UInt64) : Prop := acc.2.toNat = y.toNat * 2 ^ acc.1.toNat

section
variable {y : UInt64} (hy : 2 ^ 13 ≤ y.toNat) {acc : UInt8 × UInt64} (hacc : Counted y acc)

theorem lt_of_masked {mask : UInt64} {k : Nat} (hzero : acc.2 &&& mask = 0)
    (hmask : ∀ i < 64, k ≤ i → mask.toNat.testBit i = true) : acc.2.toNat < 2 ^ k := by
  refine Nat.lt_pow_two_of_testBit _ fun i hi => ?_
  by_cases hlt : i < 64
  · have hbit := congrArg (fun v : UInt64 => v.toNat.testBit i) hzero
    simpa [hmask i hlt hi] using hbit
  · refine Nat.testBit_lt_two_pow (acc.2.toNat_lt.trans_le ?_)
    exact Nat.pow_le_pow_right (by decide) (by omega)
include hy hacc

/-- Bit 13 is not shifted out. -/
theorem Counted.le {k : Nat} (hk : acc.2.toNat < 2 ^ k) : acc.1.toNat + 13 < k := by
  rw [hacc] at hk
  have hpow : 2 ^ (acc.1.toNat + 13) < 2 ^ k := by
    refine lt_of_le_of_lt ?_ hk
    rw [pow_add, mul_comm]
    exact Nat.mul_le_mul_right _ hy
  exact (Nat.pow_lt_pow_iff_right (by decide)).mp hpow

theorem Counted.step (mask shift : UInt64) (hshift : shift.toNat ≤ 32)
    (hmask : ∀ i < 64, 64 - shift.toNat ≤ i → mask.toNat.testBit i = true) :
    Counted y (clzStep mask shift acc) := by
  unfold clzStep
  split
  case isTrue hzero =>
    have hlt := lt_of_masked hzero hmask
    have hle := hacc.le hy hlt
    have hcount : (acc.1 + shift.toUInt8).toNat = acc.1.toNat + shift.toNat := by
      rw [UInt8.toNat_add, UInt64.toNat_toUInt8]
      omega
    have hfits : acc.2.toNat * 2 ^ shift.toNat < 2 ^ 64 := by
      have hpow : 2 ^ (64 - shift.toNat) * 2 ^ shift.toNat = 2 ^ 64 := by
        rw [← pow_add]
        congr 1
        omega
      rw [← hpow]
      exact Nat.mul_lt_mul_of_pos_right hlt (Nat.two_pow_pos _)
    unfold Counted
    rw [hcount, UInt64.toNat_shiftLeft, Nat.mod_eq_of_lt (by omega : shift.toNat < 64),
      Nat.shiftLeft_eq, Nat.mod_eq_of_lt hfits, hacc, pow_add, mul_assoc]
  case isFalse => exact hacc

end

theorem clz64_le {y : UInt64} (hy : 2 ^ 13 ≤ y.toNat) : (clz64 y).toNat ≤ 50 := by
  have hne : y ≠ 0 := by
    rintro rfl
    exact absurd hy (by decide)
  unfold clz64
  rw [if_neg hne]
  dsimp only
  have hacc : Counted y (0, y) := (Nat.mul_one _).symm
  have hacc := hacc.step hy 0xFFFFFFFF00000000 32 (by decide) (by decide)
  have hacc := hacc.step hy 0xFFFF000000000000 16 (by decide) (by decide)
  have hacc := hacc.step hy 0xFF00000000000000 8 (by decide) (by decide)
  have hacc := hacc.step hy 0xF000000000000000 4 (by decide) (by decide)
  have hacc := hacc.step hy 0xC000000000000000 2 (by decide) (by decide)
  split
  case isTrue hzero =>
    have hle := hacc.le hy (lt_of_masked (k := 63) hzero (by decide))
    rw [UInt8.toNat_add, show UInt8.toNat 1 = 1 from rfl]
    omega
  case isFalse =>
    have hle := hacc.le hy (UInt64.toNat_lt _)
    omega

theorem rho_le (x : Bytes) : (locate x).2 ≤ 51 := by
  have hlow : 2 ^ 13 ≤ ((mix64 (fnv64a x) <<< 14) ||| 0x2000).toNat := by
    rw [UInt64.toNat_or]
    exact Nat.right_le_or
  have hclz := clz64_le hlow
  rw [UInt8.le_iff_toNat_le]
  show (clz64 _ + 1).toNat ≤ 51
  rw [UInt8.toNat_add, show UInt8.toNat 1 = 1 from rfl]
  omega

/-- **Sketches.** The sketch of a list is that of the set of its elements; merging is the union; `Add`
and `Merge` report a change of a register; no index and no value is out of bounds. -/
theorem sketch_laws (xs ys : List Bytes) : sketch xs = sketch (xs.toFinset.sort (· ≤ ·)) ∧
    (sketch xs).merge (sketch ys) = sketch (xs ++ ys) ∧
    (∀ a b c : HyperLogLog, a.merge b = b.merge a ∧
      (a.merge b).merge c = a.merge (b.merge c) ∧ a.merge a = a) ∧ (∀ (h : HyperLogLog) x,
      (h.add x).1 = true ↔ ∃ i, (h.add x).2.registers i ≠ h.registers i) ∧ (∀ a b : HyperLogLog,
      a.mergeChanged b = true ↔ ∃ i, (a.merge b).registers i ≠ a.registers i) ∧
    (∀ x, (mix64 (fnv64a x) >>> 50).toNat < 16384) ∧ ∀ i, (sketch xs).registers i ≤ 51 := by
  refine ⟨ext_le fun i c => ?_, ext_le fun i c => ?_, fun a b c => ⟨?_, ?_, ?_⟩, fun h x => ?_,
    fun a b => ?_, fun x => ?_, fun i => ?_⟩
  · simp only [le_sketch, Finset.mem_sort, List.mem_toFinset]
  · rw [le_merge]
    simp only [le_sketch, List.mem_append, or_and_right, exists_or]
    exact or_or_distrib_left.symm
  · exact ext_le fun i c => by rw [le_merge, le_merge, or_comm]
  · exact ext_le fun i c => by rw [le_merge, le_merge, le_merge, le_merge, or_assoc]
  · exact ext_le fun i c => by rw [le_merge, or_self]
  · rcases hloc : locate x with ⟨idx, rho⟩
    rw [add_eq hloc]
    split
    case isTrue hlt => exact iff_of_true rfl ⟨idx, by simpa using hlt.ne'⟩
    case isFalse => simp
  · simp only [mergeChanged, List.any_eq_true, List.mem_finRange, true_and, decide_eq_true_eq]
    refine exists_congr fun i => ?_
    unfold merge
    dsimp only
    split
    case isTrue hlt => exact iff_of_true hlt hlt.ne'
    case isFalse hge => exact iff_of_false hge (fun hne => hne rfl)
  · have hlt := (mix64 (fnv64a x)).toNat_lt
    rw [UInt64.toNat_shiftRight, Nat.shiftRight_eq_div_pow, show UInt64.toNat 50 % 64 = 50 from rfl]
    omega
  · rcases (le_sketch xs).mp (le_refl ((sketch xs).registers i)) with hzero | ⟨x, -, -, hx⟩
    · exact hzero.trans (by decide)
    · exact hx.trans (rho_le x)

end Vole.HyperLogLog
