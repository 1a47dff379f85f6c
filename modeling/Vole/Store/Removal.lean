import Vole.Store.LawfulOps
import Vole.Go.Decimal

/-!
# Removal from lists

`LRem` by its meaning: which occurrences of an element go, and what becomes of the key.
-/

namespace Vole.Cell

open Go List

variable {element : Bytes} {items kept : List Bytes}

/-- The first `n` occurrences are taken out, and nothing else. -/
def DropsFirst (n : Nat) (element : Bytes) (items kept : List Bytes) : Prop :=
  ∃ front back, items = front ++ back ∧ front.count element = n
    ∧ kept = front.filter (· ≠ element) ++ back

/-- How many of `m` occurrences are to go. -/
def lRemWanted (count : Int) (m : Nat) : Nat := if count = 0 then m else min count.natAbs m

/-- From the front, or from the back for a negative count. -/
def Drops (count : Int) (element : Bytes) (items kept : List Bytes) : Prop :=
  if count < 0 then
    DropsFirst (lRemWanted count (items.count element)) element items.reverse kept.reverse
  else DropsFirst (lRemWanted count (items.count element)) element items kept

theorem DropsFirst.length {n : Nat} (h : DropsFirst n element items kept) :
    kept.length + n = items.length := by
  obtain ⟨front, back, rfl, rfl, rfl⟩ := h
  have hfront := front.length_eq_countP_add_countP (· == element)
  have hkept : (front.filter (· ≠ element)).length = front.countP (fun x => ¬ (x == element)) := by
    rw [← countP_eq_length_filter]
    simp
  rw [length_append, length_append, hkept, count]
  omega

theorem Drops.length {count : Int} (h : Drops count element items kept) :
    kept.length + lRemWanted count (items.count element) = items.length := by
  unfold Drops at h
  split at h
  · simpa using h.length
  · exact h.length

theorem removeFirst_drops (element : Bytes) (n : Nat) (items : List Bytes) :
    DropsFirst (min n (items.count element)) element items (removeFirst element n items) := by
  induction items generalizing n with
  | nil => exact ⟨[], [], rfl, by simp, by cases n <;> rfl⟩
  | cons item rest ih =>
    cases n with
    | zero => exact ⟨[], item :: rest, rfl, by simp, rfl⟩
    | succ n =>
      unfold removeFirst
      split
      case isTrue heq =>
        obtain ⟨front, back, hparts, hcount, hkept⟩ := ih n
        refine ⟨item :: front, back, by rw [hparts]; rfl, ?_, by simpa [heq] using hkept⟩
        rw [heq, count_cons_self, count_cons_self, hcount]
        omega
      case isFalse hne =>
        obtain ⟨front, back, hparts, hcount, hkept⟩ := ih (n + 1)
        refine ⟨item :: front, back, by rw [hparts]; rfl, ?_, by simp [hne, hkept]⟩
        rw [count_cons_of_ne hne, count_cons_of_ne hne, hcount]

/-- The smallest count is its own negative: nothing is removed. -/
theorem lRemKept_min : lRemKept (-2 ^ 63) element items = items := by
  have hwrap : (wrap64 (-(-2 ^ 63))).toNat = 0 := by decide
  have hnone : removeFirst element 0 items.reverse = items.reverse := by
    cases items.reverse <;> rfl
  unfold lRemKept
  rw [if_neg (by decide), if_pos (by decide), hwrap, hnone, reverse_reverse]

theorem lRemKept_drops {count : Int} (hrange : Int64Range count)
    (hcount : count = -2 ^ 63 → element ∉ items) :
    Drops count element items (lRemKept count element items) := by
  obtain ⟨hlo, hhi⟩ := hrange
  unfold Drops lRemWanted
  by_cases hmin : count = -2 ^ 63
  · have habsent := count_eq_zero.mpr (hcount hmin)
    rw [hmin, lRemKept_min, habsent]
    exact ⟨[], items.reverse, rfl, rfl, rfl⟩
  unfold lRemKept
  rcases lt_trichotomy count 0 with hneg | rfl | hpos
  · have habs : (wrap64 (-count)).toNat = count.natAbs := by
      rw [wrap64_of_range ⟨by omega, by omega⟩]
      omega
    have hdrops := removeFirst_drops element count.natAbs items.reverse
    rw [count_reverse] at hdrops
    rw [if_pos hneg, if_neg hneg.ne, if_neg hneg.not_gt, if_pos hneg, habs, reverse_reverse]
    exact hdrops
  · exact ⟨items, [], (append_nil _).symm, rfl, (append_nil _).symm⟩
  · have hdrops := removeFirst_drops element count.natAbs items
    have habs : count.toNat = count.natAbs := by omega
    rw [if_neg hpos.not_gt, if_neg hpos.ne', if_pos hpos, habs]
    exact hdrops

/-- The answer is the number removed; the list that remains is in place, with its expiry, or the
key is gone. -/
def LRemMeets (count : Int) (element : Bytes) (items : List Bytes) (c : Cell)
    (r : Except Err Nat × Cell) : Prop :=
  ∃ kept, Drops count element items kept
    ∧ r.1 = .ok (lRemWanted count (items.count element))
    ∧ r.2.lists = (if kept = [] then none else some kept)
    ∧ r.2.expires = if kept = [] then none else c.expires

/-- On a list that is live, `LRem` does this unless the count is the smallest and the element is
there. -/
theorem lRem_iff (now : Time) (c : Cell) (items : List Bytes) (count : Int) (element : Bytes)
    (hlive : c.expired now = false) (hconf : c.conflicts .list = false)
    (hlist : c.lists = some items) (hne : items ≠ []) (hrange : Int64Range count) :
    LRemMeets count element items c (c.lRem now count element)
      ↔ ¬ (count = -2 ^ 63 ∧ element ∈ items) := by
  have hrun : c.lRem now count element
      = (.ok (items.length - (lRemKept count element items).length),
          if 0 < items.length - (lRemKept count element items).length
          then (c.setList (lRemKept count element items)).touch
          else c.setList (lRemKept count element items)) := by
    unfold lRem
    simp [hlive, hconf, hlist, hne]
  constructor
  · rintro ⟨kept, -, hcount, -⟩ ⟨rfl, hmem⟩
    rw [hrun, lRemKept_min, Nat.sub_self] at hcount
    have hpos := count_pos_iff.mpr hmem
    have hzero : 0 = min (2 ^ 63) (items.count element) := Except.ok.inj hcount
    omega
  · intro hcount
    have hdrops := lRemKept_drops hrange (fun hmin hmem => hcount ⟨hmin, hmem⟩)
    have hlength := hdrops.length
    refine ⟨_, hdrops, ?_, ?_⟩
    · rw [hrun]
      exact congrArg Except.ok (by omega)
    · rw [hrun]
      unfold setList
      split <;> split <;> exact ⟨rfl, rfl⟩

/-- One of two occurrences goes, from the back. -/
theorem lRem_iff_back :
    LRemMeets (-1) [1] [[1], [2], [1]] ⟨{ Entry.empty with lists := some [[1], [2], [1]] }, 0⟩
      (Cell.lRem 0 (-1) [1] ⟨{ Entry.empty with lists := some [[1], [2], [1]] }, 0⟩) :=
  (lRem_iff 0 _ _ (-1) [1] rfl rfl rfl (by decide) ⟨by decide, by decide⟩).mpr (by decide)

/-- The smallest count removes nothing. -/
theorem lRem_min_keeps :
    ¬ LRemMeets (-2 ^ 63) [1] [[1]] ⟨{ Entry.empty with lists := some [[1]] }, 0⟩
      (Cell.lRem 0 (-2 ^ 63) [1] ⟨{ Entry.empty with lists := some [[1]] }, 0⟩) := by
  rintro ⟨kept, -, hcount, -⟩
  cases hcount

end Vole.Cell
