import Vole.Store.StoreOps
import Mathlib.Order.Defs.Unbundled

/-!
# The order of `Sort`

Two numbers are compared by value, and any other two elements as texts.
-/

namespace Vole.Store

open Go List

section

variable {α β : Type} [LinearOrder α] [LinearOrder β] {value : α → Option β} {a b c : α}

/-- Elements with a value are compared by it, and all others as they are. -/
def MixedLt (value : α → Option β) (a b : α) : Prop :=
  match value a, value b with
  | some x, some y => x < y
  | _, _ => a < b

/-- An element without a value that stands behind one with a value stands behind all those of
smaller value. -/
def Splits (value : α → Option β) : Prop :=
  ∀ a b t, ∀ x ∈ value a, ∀ y ∈ value b, value t = none → x ≤ y → b < t → a < t

theorem MixedLt.asymm (h : MixedLt value a b) : ¬ MixedLt value b a := by
  unfold MixedLt at h ⊢
  cases hx : value a <;> cases hy : value b <;> simp [hx, hy] at h ⊢ <;> exact h.le

theorem Splits.trans (h : Splits value) (hab : ¬ MixedLt value b a) (hbc : ¬ MixedLt value c b) :
    ¬ MixedLt value c a := by
  have habc := h a b c
  have hbca := h b c a
  have hcab := h c a b
  unfold MixedLt at hab hbc ⊢
  cases hx : value a <;> cases hy : value b <;> cases hz : value c <;>
    simp [hx, hy, hz] at hab hbc habc hbca hcab ⊢ <;> grind

theorem strictWeak_iff_splits : IsStrictWeakOrder α (MixedLt value) ↔ Splits value := by
  constructor
  · intro h a b t x hx y hy htext hle hbt
    by_contra hat
    have hta : t < a := lt_of_le_of_ne (not_lt.mp hat) (fun heq => by simp_all)
    have hback : MixedLt value b a :=
      h.trans b t a (by simpa [MixedLt, htext]) (by simpa [MixedLt, htext])
    simp only [MixedLt, Option.mem_def.mp hx, Option.mem_def.mp hy] at hback
    exact absurd hback hle.not_gt
  · intro h
    have hstrict : IsStrictOrder α (MixedLt value) :=
      { irrefl := fun a haa => haa.asymm haa
        trans := fun a b c hab hbc => by
          by_contra hac
          exact h.trans hbc.asymm hac hab }
    exact ⟨fun a b c hab hbc => ⟨h.trans hbc.1 hab.1, h.trans hab.2 hbc.2⟩⟩

end

/-- What a numeric `Sort` sees of an element: its value, or the text if it is no number. -/
def sortClass (R : Runtime) (a : Bytes) : Bytes ⊕ Int :=
  (R.parseFloat a).elim (.inl a) (.inr ·.rank)

/-- The value by which a number is sorted. -/
def sortValue (R : Runtime) (S : Set Bytes) (a : S) : Option Int := (R.parseFloat a).map (·.rank)

variable {R : Runtime} {S : Set Bytes}

section
variable (hnan : ∀ a ∈ S, ∀ x ∈ R.parseFloat a, x.isNaN = false)
include hnan

theorem sortLess_iff (a b : S) : sortLess R a b = true ↔ MixedLt (sortValue R S) a b := by
  have ha := hnan a a.2
  have hb := hnan b b.2
  unfold sortLess MixedLt sortValue
  cases hx : R.parseFloat a <;> cases hy : R.parseFloat b <;> simp_all [F64.lt]

theorem sortClass_eq_iff (a b : S) : sortClass R a = sortClass R b ↔
    sortLess R a b = false ∧ sortLess R b a = false := by
  rw [← Bool.not_eq_true, ← Bool.not_eq_true, sortLess_iff hnan, sortLess_iff hnan]
  unfold sortClass MixedLt sortValue
  cases hx : R.parseFloat a <;> cases hy : R.parseFloat b <;> simp <;> grind

theorem Splits.weakOn (h : Splits (sortValue R S)) : WeakOn (sortLess R) S where
  asymm a ha b hb hab := by
    have hlt := (sortLess_iff hnan ⟨a, ha⟩ ⟨b, hb⟩).mp hab
    exact Bool.eq_false_iff.mpr fun hba => hlt.asymm ((sortLess_iff hnan ⟨b, hb⟩ ⟨a, ha⟩).mp hba)
  trans a ha b hb c hc hba hcb := by
    rw [← Bool.not_eq_true] at hba hcb ⊢
    rw [sortLess_iff hnan ⟨b, hb⟩ ⟨a, ha⟩] at hba
    rw [sortLess_iff hnan ⟨c, hc⟩ ⟨b, hb⟩] at hcb
    rw [sortLess_iff hnan ⟨c, hc⟩ ⟨a, ha⟩]
    exact h.trans hba hcb

/-- Two ways to sort the same elements differ in the order of equal ones only. -/
theorem sortedElements_class (h : Splits (sortValue R S)) (desc : Bool) {l₁ l₂ : List Bytes}
    (hl : ∀ a ∈ l₁, a ∈ S) (hperm : l₁ ~ l₂) :
    (sortedElements R false desc l₁).map (sortClass R)
      = (sortedElements R false desc l₂).map (sortClass R) := by
  have hweak := h.weakOn hnan
  have hl₂ : ∀ a ∈ l₂, a ∈ S := fun a ha => hl a (hperm.mem_iff.mpr ha)
  have hsorted := OrderedIn.map_eq hweak
    (fun a ha b hb => sortClass_eq_iff hnan ⟨a, ha⟩ ⟨b, hb⟩)
    (sliceStable_ordered hweak hl) (sliceStable_ordered hweak hl₂)
    (((sliceStable_perm l₁).trans hperm).trans (sliceStable_perm l₂).symm)
  unfold sortedElements
  cases desc with
  | false => exact hsorted
  | true => exact (map_reverse ..).trans ((congrArg reverse hsorted).trans (map_reverse ..).symm)

end

/-- **Sorting.** The comparison of a numeric `Sort` is a strict weak order on elements none of
which is NaN if and only if each text among them splits the numbers. Then the result, a panic
included, does not depend on the order in which the elements are read, except for that of equal
numbers. -/
theorem sort_strictWeak_iff (hnan : ∀ a ∈ S, ∀ x ∈ R.parseFloat a, x.isNaN = false) :
    (IsStrictWeakOrder S (fun a b => sortLess R a b = true) ↔ Splits (sortValue R S)) ∧
    (Splits (sortValue R S) → ∀ desc offset count, ∀ l₁ l₂ : List Bytes, (∀ a ∈ l₁, a ∈ S) →
      l₁ ~ l₂ → (sortResult R false desc offset count l₁).map (map (sortClass R))
        = (sortResult R false desc offset count l₂).map (map (sortClass R))) := by
  refine ⟨?_, fun h desc offset count l₁ l₂ hl hperm => ?_⟩
  · simp only [sortLess_iff hnan]
    exact strictWeak_iff_splits
  have hclass := sortedElements_class hnan h desc hl hperm
  unfold sortResult
  dsimp only
  generalize sortedElements R false desc l₁ = r₁ at hclass
  generalize sortedElements R false desc l₂ = r₂ at hclass
  split_ifs <;> simp only [Except.map, map_take, map_drop, hclass]

/-- A runtime that reads two texts as numbers. -/
def nineAndTen : Runtime := { (default : Runtime) with
  parseFloat := fun a => if a = bytes "9" then some ⟨0x4022000000000000⟩
    else if a = bytes "10" then some ⟨0x4024000000000000⟩ else none }

theorem sort_not_strictWeak :
    ¬ IsStrictWeakOrder (Set.univ : Set Bytes) (fun a b => sortLess nineAndTen a b = true) := by
  have hnan : ∀ a ∈ Set.univ, ∀ x ∈ nineAndTen.parseFloat a, x.isNaN = false := by
    intro a _ x hx
    simp only [nineAndTen, Option.mem_def] at hx
    split_ifs at hx <;> cases hx <;> rfl
  intro h
  have hsplit := (sort_strictWeak_iff hnan).1.mp h ⟨bytes "9", trivial⟩ ⟨bytes "10", trivial⟩
    ⟨bytes "1a", trivial⟩ _ rfl _ rfl rfl (by decide) (by decide)
  exact absurd hsplit (by decide)

/-- `9` comes before `10`, which comes before `1a`, which comes before `9`. -/
theorem sort_depends_on_order :
    sortResult nineAndTen false false 0 0 [bytes "9", bytes "10", bytes "1a"]
      = .ok [bytes "9", bytes "10", bytes "1a"] ∧
    sortResult nineAndTen false false 0 0 [bytes "1a", bytes "9", bytes "10"]
      = .ok [bytes "1a", bytes "9", bytes "10"] := by
  decide

end Vole.Store
