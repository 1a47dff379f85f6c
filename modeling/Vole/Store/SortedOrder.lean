import Vole.Lib.SortedLists
import Vole.Go.SliceStable
import Vole.Store.Collections
import Mathlib.Data.Prod.Lex

/-!
# Sorted sets in order

A sorted set without NaN scores is kept in order, and then the binary search of `findPos`
finds every member. Popping members from either end leaves what removing them one by one
leaves.
-/

namespace Vole

open Go SortedLists List

variable {σ : Type} [Score σ] {z : SortedSet σ}

/-! ## Binary search -/

theorem Go.search_eq {f : Nat → Bool} {p n : Nat} (hp : p ≤ n) (hlo : ∀ i < p, f i = false)
    (hhi : ∀ i, p ≤ i → i < n → f i = true) : search n f = p := by
  obtain ⟨hle, hbelow, hat⟩ := search_edge n f
  rcases lt_trichotomy (search n f) p with hlt | heq | hgt
  · rw [hlo _ hlt] at hat
    cases hat (by omega)
  · exact heq
  · rw [hhi (search n f - 1) (by omega) (by omega)] at hbelow
    cases hbelow (by omega)

section
variable {α : Type} {f : Nat → Bool} {p : α → Bool} {l front back : List α}

theorem Go.search_append (hf : ∀ i a, (front ++ back)[i]? = some a → f i = p a)
    (hfront : ∀ a ∈ front, p a = false) (hback : ∀ a ∈ back, p a = true) :
    search (front ++ back).length f = front.length := by
  refine search_eq (by simp) (fun i hi => ?_) (fun i hi hlt => ?_)
  · rw [hf i front[i] (by rw [getElem?_append_left hi, getElem?_eq_getElem hi])]
    exact hfront _ (getElem_mem hi)
  · rw [length_append] at hlt
    have hj : i - front.length < back.length := by omega
    rw [hf i back[i - front.length]
      (by rw [getElem?_append_right hi, getElem?_eq_getElem hj])]
    exact hback _ (getElem_mem hj)

theorem Go.drop_search (h : Rising p l) (hf : ∀ i a, l[i]? = some a → f i = p a) :
    l.drop (search l.length f) = l.filter p := by
  obtain ⟨front, back, rfl, hfront, hback⟩ := h.exists_parts
  rw [search_append hf hfront hback, drop_left, filter_append, filter_eq_self.mpr hback,
    filter_eq_nil_iff.mpr (fun a ha => by simp [hfront a ha]), nil_append]

end

/-- Members are compared by score, then by name. -/
def ZMember.key (m : ZMember σ) : Lex (Score.Rank σ × Bytes) :=
  toLex (Score.rank m.score, m.member)

namespace SortedSet

/-! ## The order -/

theorem findPos_test {x y : ZMember σ} (hx : Score.isNaN x.score = false)
    (hy : Score.isNaN y.score = false) : (if !Score.eq y.score x.score then
      Score.lt x.score y.score else decide (x.member ≤ y.member)) = decide (x.key ≤ y.key) := by
  unfold ZMember.key
  by_cases heq : Score.rank y.score = Score.rank x.score
  · simp [Score.eq, hx, hy, heq, Prod.Lex.toLex_le_toLex]
  · simp [Score.eq, Score.lt, hx, hy, heq, Ne.symm heq, Prod.Lex.toLex_le_toLex]

theorem findPos_of_parts {x : ZMember σ} {front back : List (ZMember σ)}
    (hz : z.ordered = front ++ back) (hnumber : ∀ y ∈ z.ordered, Score.isNaN y.score = false)
    (hx : Score.isNaN x.score = false) (hfront : ∀ y ∈ front, y.key < x.key)
    (hback : ∀ y ∈ back, x.key ≤ y.key) : z.findPos x.score x.member = front.length := by
  unfold findPos
  rw [hz] at hnumber ⊢
  refine search_append (p := fun y => decide (x.key ≤ y.key)) (fun i y hy => ?_)
    (fun y hy => decide_eq_false (not_le.mpr (hfront y hy)))
    (fun y hy => decide_eq_true (hback y hy))
  rw [hy]
  exact findPos_test hx (hnumber y (mem_of_getElem? hy))

/-- The members stand in order, with the scores that the map has for them. -/
structure Ordered (z : SortedSet σ) : Prop where
  number : ∀ m ∈ z.ordered, Score.isNaN m.score = false
  sorted : z.ordered.Pairwise (fun a b => a.key < b.key)
  scores : ∀ m ∈ z.ordered, z.scores.get m.member = some m.score

namespace Ordered

variable {front back : List (ZMember σ)} {m : ZMember σ}

theorem findPos_eq (h : z.Ordered) (hz : z.ordered = front ++ m :: back) :
    z.findPos m.score m.member = front.length := by
  have hsorted := h.sorted
  rw [hz, pairwise_append, pairwise_cons] at hsorted
  exact findPos_of_parts hz h.number (h.number m (by simp [hz]))
    (fun y hy => hsorted.2.2 y hy m (.head _))
    (forall_mem_cons.mpr ⟨le_refl _, fun y hy => (hsorted.2.1.1 y hy).le⟩)

theorem eq_of_member (h : z.Ordered) {a b : ZMember σ} (ha : a ∈ z.ordered) (hb : b ∈ z.ordered)
    (hmember : a.member = b.member) : a = b := by
  have hscore := h.scores a ha
  rw [hmember, h.scores b hb] at hscore
  obtain ⟨_, _⟩ := b
  cases hmember
  cases hscore
  rfl

theorem nodup (h : z.Ordered) : z.ordered.Nodup :=
  h.sorted.imp (fun hab => ne_of_apply_ne ZMember.key hab.ne)

theorem member_ne (h : z.Ordered) (hz : z.ordered = front ++ m :: back) :
    ∀ x ∈ front ++ back, x.member ≠ m.member := by
  intro x hx hmember
  have hnodup := h.nodup
  rw [hz, nodup_middle, nodup_cons] at hnodup
  have hin : x ∈ z.ordered := by
    rw [hz]
    simp only [mem_append, mem_cons] at hx ⊢
    tauto
  exact hnodup.1 (h.eq_of_member hin (by simp [hz]) hmember ▸ hx)

theorem remove_at (h : z.Ordered) (hz : z.ordered = front ++ m :: back) :
    z.remove m.member = (true, ⟨z.scores.erase m.member, front ++ back⟩) := by
  have hpos : findPos { z with scores := z.scores.erase m.member } m.score m.member
      = front.length := h.findPos_eq hz
  unfold remove
  rw [h.scores m (by simp [hz])]
  unfold removeOrdered
  dsimp only
  rw [hpos, if_pos (by simp [hz]), hz, eraseIdx_append_of_length_le le_rfl,
    Nat.sub_self]
  rfl

theorem remove_ordered (h : z.Ordered) (hz : z.ordered = front ++ m :: back) :
    Ordered ⟨z.scores.erase m.member, front ++ back⟩ where
  number x hx := h.number x (by
    rw [hz]
    simp only [mem_append, mem_cons] at hx ⊢
    tauto)
  sorted := by
    have hsorted := h.sorted
    rw [hz] at hsorted
    exact hsorted.sublist (List.Sublist.append (List.Sublist.refl _) (sublist_cons_self _ _))
  scores x hx := by
    show (z.scores.erase m.member).lookup x.member = some x.score
    rw [Finmap.lookup_erase_ne (h.member_ne hz x hx)]
    refine h.scores x ?_
    rw [hz]
    simp only [mem_append, mem_cons] at hx ⊢
    tauto

/-! ## Popping -/

theorem foldl_remove_front (h : z.Ordered) (hz : z.ordered = front ++ back) (n : Nat) :
    (front.map (·.member)).foldl Cell.zsetRemove (n, z)
      = (n + front.length, ⟨dropScores z.scores front, back⟩) := by
  induction front generalizing z n with
  | nil =>
    obtain ⟨scores, ordered⟩ := z
    cases hz
    rfl
  | cons m rest ih =>
    have hz' : z.ordered = [] ++ m :: (rest ++ back) := hz
    rw [map_cons, foldl_cons]
    unfold Cell.zsetRemove
    dsimp only
    rw [h.remove_at hz']
    refine (ih (h.remove_ordered hz') rfl (n + 1)).trans ?_
    rw [length_cons, Nat.add_right_comm, Nat.add_assoc]
    rfl

theorem foldl_remove_back (h : z.Ordered) (hz : z.ordered = front ++ back.reverse) (n : Nat) :
    (back.map (·.member)).foldl Cell.zsetRemove (n, z)
      = (n + back.length, ⟨dropScores z.scores back, front⟩) := by
  induction back generalizing z n with
  | nil =>
    obtain ⟨scores, ordered⟩ := z
    obtain rfl : ordered = front := by simpa using hz
    rfl
  | cons m rest ih =>
    have hz' : z.ordered = (front ++ rest.reverse) ++ m :: [] := by
      rw [hz, reverse_cons, append_assoc]
    rw [map_cons, foldl_cons]
    unfold Cell.zsetRemove
    dsimp only
    rw [h.remove_at hz']
    refine (ih (h.remove_ordered hz') (append_nil _) (n + 1)).trans ?_
    rw [length_cons, Nat.add_right_comm, Nat.add_assoc]
    rfl

end Ordered

/-- **What a pop leaves is what removing the popped members leaves.** -/
theorem foldl_remove_popMin (h : z.Ordered) (count : Int) :
    ((z.popMin count).1.map (·.member)).foldl Cell.zsetRemove (0, z)
      = ((z.popMin count).1.length, (z.popMin count).2) := by
  unfold popMin
  dsimp only
  rw [h.foldl_remove_front (take_append_drop _ _).symm, Nat.zero_add]

theorem foldl_remove_popMax (h : z.Ordered) (count : Int) :
    ((z.popMax count).1.map (·.member)).foldl Cell.zsetRemove (0, z)
      = ((z.popMax count).1.length, (z.popMax count).2) := by
  unfold popMax
  dsimp only
  rw [h.foldl_remove_back (by rw [reverse_reverse, take_append_drop]), Nat.zero_add]

end SortedSet

end Vole
