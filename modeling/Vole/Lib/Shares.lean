import Mathlib.Data.List.Sort
import Mathlib.Data.List.Count

/-!
# Equal shares of an interval

The numbers below `total` are divided among `n` holders: each gets a range of `total / n`
numbers, and the last one gets the rest as well. With more holders than numbers the width is
zero, and the last holder has everything.
-/

namespace Vole.Shares

/-- The first and the last number of the share of holder `j`. -/
def share (total n j : Nat) : Int × Int :=
  (j * (total / n : Nat), if j + 1 = n then total - 1 else (j + 1) * (total / n : Nat) - 1)

/-- The holder of the number `x`. -/
def holder (total n x : Nat) : Nat :=
  if total / n = 0 then n - 1 else min (x / (total / n)) (n - 1)

section
variable {total n j x : Nat}

theorem holder_lt (hn : 0 < n) : holder total n x < n := by
  unfold holder
  split
  · omega
  · omega

theorem mem_share_iff (hj : j < n) (hx : x < total) :
    (share total n j).1 ≤ x ∧ (x : Int) ≤ (share total n j).2 ↔ j = holder total n x := by
  unfold share holder
  dsimp only
  generalize total / n = width
  have hstart : (j : Int) * (width : Int) ≤ x ↔ j * width ≤ x := by
    exact_mod_cast Iff.rfl
  have hstop : (x : Int) ≤ ((j : Int) + 1) * (width : Int) - 1 ↔ x < (j + 1) * width := by
    have hcast : ((j : Int) + 1) * (width : Int) = (((j + 1) * width : Nat) : Int) := by
      push_cast
      rfl
    omega
  rw [hstart]
  by_cases hwidth : width = 0
  · -- only the last share has numbers in it
    subst hwidth
    rw [if_pos rfl]
    split
    · omega
    · omega
  · rw [if_neg hwidth]
    have hpos : 0 < width := Nat.pos_of_ne_zero hwidth
    have hlow : j * width ≤ x ↔ j ≤ x / width := (Nat.le_div_iff_mul_le hpos).symm
    have hhigh : x < (j + 1) * width ↔ x / width < j + 1 := (Nat.div_lt_iff_lt_mul hpos).symm
    rw [hlow]
    split
    · omega
    · rw [hstop, hhigh]
      omega

end

/-! ## Items that hold the shares -/

section
variable {α : Type*} {total : Nat} {range : α → Int × Int} {items : List α} {order : List Nat}

/-- The item holds the number. -/
def covers (range : α → Int × Int) (x : Nat) (a : α) : Bool :=
  decide ((range a).1 ≤ x ∧ (x : Int) ≤ (range a).2)

/-- The items at the positions of `order` hold the shares, one after the other; the others
hold nothing. -/
structure Divided (total : Nat) (range : α → Int × Int) (items : List α) (order : List Nat) :
    Prop where
  nonempty : order ≠ []
  nodup : order.Nodup
  share : ∀ j i, order[j]? = some i →
    ∃ a, items[i]? = some a ∧ range a = Shares.share total order.length j
  idle : ∀ i a, items[i]? = some a → i ∉ order → (range a).2 < 0

/-- The position whose item holds the number. -/
def position (total : Nat) (order : List Nat) (x : Nat) : Nat :=
  order.getD (holder total order.length x) 0

namespace Divided

variable (h : Divided total range items order)
include h

theorem position_eq (x : Nat) :
    order[holder total order.length x]? = some (position total order x) := by
  have hlt : holder total order.length x < order.length :=
    holder_lt (List.length_pos_iff.mpr h.nonempty)
  unfold position
  rw [List.getD_eq_getElem?_getD, List.getElem?_eq_getElem hlt, Option.getD_some]

theorem covers_iff {x i : Nat} {a : α} (hx : x < total)
    (ha : items[i]? = some a) : covers range x a = true ↔ i = position total order x := by
  unfold covers
  rw [decide_eq_true_iff]
  by_cases hi : i ∈ order
  · obtain ⟨j, hj⟩ := List.mem_iff_getElem?.mp hi
    obtain ⟨b, hb, hrange⟩ := h.share j i hj
    obtain rfl : b = a := Option.some.inj (hb.symm.trans ha)
    have hlt : j < order.length := (List.getElem?_eq_some_iff.mp hj).1
    rw [hrange, mem_share_iff hlt hx]
    have hpos := h.position_eq x
    constructor
    · rintro rfl
      exact Option.some.inj (hj.symm.trans hpos)
    · rintro rfl
      exact (List.getElem?_inj hlt h.nodup).mp (hj.trans hpos.symm)
  · have hidle := h.idle i a ha hi
    constructor
    · rintro ⟨-, hle⟩
      omega
    · intro heq
      exact absurd (List.mem_iff_getElem?.mpr ⟨_, heq ▸ h.position_eq x⟩) hi

theorem position_item (x : Nat) :
    ∃ a, items[position total order x]? = some a := by
  obtain ⟨a, ha, -⟩ := h.share _ _ (h.position_eq x)
  exact ⟨a, ha⟩

end Divided

theorem countP_eq_one_of_position {p : α → Bool} {l : List α} {k : Nat} (hk : k < l.length)
    (h : ∀ i a, l[i]? = some a → (p a = true ↔ i = k)) : l.countP p = 1 := by
  have hat : p l[k] = true := (h k _ (List.getElem?_eq_getElem hk)).mpr rfl
  rw [← List.take_append_drop k l, List.countP_append, List.drop_eq_getElem_cons hk,
    List.countP_cons_of_pos hat, List.countP_eq_zero.mpr, List.countP_eq_zero.mpr]
  · intro a ha
    obtain ⟨i, hi, rfl⟩ := List.mem_drop_iff_getElem.mp ha
    rw [h (k + 1 + i) _ (List.getElem?_eq_getElem (by omega))]
    omega
  · intro a ha
    obtain ⟨i, hi, rfl⟩ := List.mem_take_iff_getElem.mp ha
    rw [h i _ (List.getElem?_eq_getElem (by omega))]
    omega

theorem find?_eq_of_position {p : α → Bool} {l : List α} {k : Nat} {b : α} (hb : l[k]? = some b)
    (h : ∀ i a, l[i]? = some a → (p a = true ↔ i = k)) : l.find? p = some b := by
  obtain ⟨hk, hget⟩ := List.getElem?_eq_some_iff.mp hb
  refine List.find?_eq_some_iff_getElem.mpr ⟨(h k b hb).mpr rfl, k, hk, hget, fun j hj => ?_⟩
  rw [Bool.not_eq_true', Bool.eq_false_iff, Ne, h j _ (List.getElem?_eq_getElem (by omega))]
  exact hj.ne

namespace Divided

theorem countP_eq_one (h : Divided total range items order) {x : Nat} (hx : x < total) :
    items.countP (covers range x) = 1 := by
  obtain ⟨a, ha⟩ := h.position_item x
  exact countP_eq_one_of_position (List.getElem?_eq_some_iff.mp ha).1
    (fun i b hb => h.covers_iff hx hb)

theorem find_eq (h : Divided total range items order) {x : Nat} (hx : x < total) :
    items.find? (covers range x) = items[position total order x]? := by
  obtain ⟨a, ha⟩ := h.position_item x
  rw [ha]
  exact find?_eq_of_position ha (fun i b hb => h.covers_iff hx hb)

end Divided

end

end Vole.Shares
