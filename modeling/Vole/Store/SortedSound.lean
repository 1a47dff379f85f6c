import Vole.Store.SortedOrder

/-!
# Sorted sets that match their score map

A sorted set keeps its members twice, in a map and in an ordered list. As long as no score
is NaN the two agree: every change finds its place by binary search, and a set is determined
by its list. A NaN compares as neither less nor greater than anything, so a member that has
one is never found in the list again, and stays there when it is removed from the map.
-/

namespace Vole

open Go List

variable {σ : Type} [Score σ] {l : List (ZMember σ)}

namespace SortedSet

/-! ## Sound sets -/

/-- The list and the map hold the same members with the same scores, and the list is in
order. -/
structure Sound (z : SortedSet σ) : Prop extends Ordered z where
  covered : ∀ member score, z.scores.get member = some score → ⟨member, score⟩ ∈ z.ordered

namespace Sound

variable {z : SortedSet σ} {member : Bytes} {score : σ}

theorem empty : Sound (SortedSet.empty : SortedSet σ) where
  number := by simp [SortedSet.empty]
  sorted := .nil
  scores := by simp [SortedSet.empty]
  covered member score h := absurd h (by simp [SortedSet.empty, GoMap.get])

section
variable (h : z.Sound)
include h

theorem ext {z' : SortedSet σ} (h' : z'.Sound) (hlist : z.ordered = z'.ordered) :
    z = z' := by
  have hscores : z.scores = z'.scores := by
    refine Finmap.ext_lookup fun member => Option.ext fun score => ⟨fun hget => ?_, fun hget => ?_⟩
    · have hmem : ⟨member, score⟩ ∈ z'.ordered := hlist ▸ h.covered member score hget
      exact h'.scores _ hmem
    · have hmem : ⟨member, score⟩ ∈ z.ordered := hlist ▸ h'.covered member score hget
      exact h.scores _ hmem
  obtain ⟨scores, ordered⟩ := z
  obtain ⟨scores', ordered'⟩ := z'
  cases hscores
  cases hlist
  rfl

theorem member_ne_of_none (hnone : z.scores.get member = none) :
    ∀ y ∈ z.ordered, y.member ≠ member := by
  intro y hy heq
  have hget := h.scores y hy
  rw [heq, hnone] at hget
  cases hget

/-- A new member goes between those before it and those after it. -/
theorem exists_parts (hnone : z.scores.get member = none) (score : σ) :
    ∃ front back, z.ordered = front ++ back ∧ (∀ y ∈ front, y.key < (ZMember.mk member score).key)
      ∧ ∀ y ∈ back, (ZMember.mk member score).key < y.key := by
  have hrising : SortedLists.Rising (fun y => decide ((ZMember.mk member score).key ≤ y.key))
      z.ordered :=
    h.sorted.imp (fun hab ha => decide_eq_true ((of_decide_eq_true ha).trans hab.le))
  obtain ⟨front, back, hz, hfront, hback⟩ := hrising.exists_parts
  refine ⟨front, back, hz, fun y hy => not_le.mp (of_decide_eq_false (hfront y hy)), fun y hy => ?_⟩
  refine lt_of_le_of_ne (of_decide_eq_true (hback y hy)) (fun heq => ?_)
  have hmember : member = y.member := congrArg (fun k => (ofLex k).2) heq
  exact h.member_ne_of_none hnone y (by simp [hz, hy]) hmember.symm

theorem insert (hnone : z.scores.get member = none) (hscore : Score.isNaN score = false) :
    Sound (insertOrdered { z with scores := z.scores.insert member score } member score) := by
  obtain ⟨front, back, hz, hfront, hback⟩ := h.exists_parts hnone score
  have hpos : findPos { z with scores := z.scores.insert member score } score member
      = front.length :=
    findPos_of_parts (x := ⟨member, score⟩) hz h.number hscore hfront
      (fun y hy => (hback y hy).le)
  have hlist : (insertOrdered { z with scores := z.scores.insert member score } member
      score).ordered = front ++ ⟨member, score⟩ :: back := by
    show insertIdx _ _ _ = _
    rw [hpos, hz, SortedLists.insertIdx_length_append]
  have hmem : ∀ y, y ∈ front ++ ⟨member, score⟩ :: back ↔ y = ⟨member, score⟩ ∨ y ∈ z.ordered := by
    intro y
    rw [hz]
    simp only [mem_append, mem_cons]
    tauto
  have hget := fun k => z.scores.get_insert member k score
  constructor
  · constructor
    · intro y hy
      rw [hlist, hmem] at hy
      rcases hy with rfl | hy
      · exact hscore
      · exact h.number y hy
    · rw [hlist]
      exact SortedLists.pairwise_insert (hz ▸ h.sorted) hfront hback
    · intro y hy
      rw [hlist, hmem] at hy
      show GoMap.get (z.scores.insert member score) y.member = some y.score
      rw [hget]
      rcases hy with rfl | hy
      · exact if_pos rfl
      · rw [if_neg (h.member_ne_of_none hnone y hy)]
        exact h.scores y hy
  · intro k s hk
    have hk : GoMap.get (z.scores.insert member score) k = some s := hk
    rw [hlist, hmem]
    rw [hget] at hk
    split at hk
    · rename_i heq
      cases hk
      exact .inl (by rw [heq])
    · exact .inr (h.covered k s hk)

theorem remove (member : Bytes) : (z.remove member).2.Sound := by
  cases hget : z.scores.get member with
  | none =>
    unfold SortedSet.remove
    rw [hget]
    exact h
  | some score =>
    obtain ⟨front, back, hz⟩ := append_of_mem (h.covered member score hget)
    have hremoved : z.remove member = (true, ⟨z.scores.erase member, front ++ back⟩) :=
      h.toOrdered.remove_at (m := ⟨member, score⟩) hz
    rw [hremoved]
    refine ⟨h.toOrdered.remove_ordered (m := ⟨member, score⟩) hz, ?_⟩
    intro k s hk
    rw [GoMap.get_erase] at hk
    split at hk
    · cases hk
    have hmem := h.covered k s hk
    rw [hz] at hmem
    simp only [mem_append, mem_cons, ZMember.mk.injEq] at hmem ⊢
    tauto

theorem add (member : Bytes) (hscore : Score.isNaN score = false) : (z.add member score).2.Sound:= by
  unfold SortedSet.add
  cases hget : z.scores.get member with
  | none => exact h.insert hget hscore
  | some old =>
    dsimp only
    split
    · exact h
    · -- an update is a removal and an insertion, up to the order of the two map writes
      obtain ⟨front, back, hz⟩ := append_of_mem (h.covered member old hget)
      have hremoved := h.remove member
      rw [h.toOrdered.remove_at (m := ⟨member, old⟩) hz] at hremoved
      have hpos : z.findPos old member = front.length :=
        h.toOrdered.findPos_eq (m := ⟨member, old⟩) hz
      have hlist : (z.removeOrdered member old).ordered = front ++ back := by
        unfold removeOrdered
        dsimp only
        rw [hpos, if_pos (by simp [hz]), hz, eraseIdx_append_of_length_le le_rfl,
          Nat.sub_self]
        rfl
      have hnone : GoMap.get (z.scores.erase member) member = none := Finmap.lookup_erase _ _
      have hinserted := hremoved.insert hnone hscore
      rw [removeOrdered_scores, hlist, ← z.scores.insert_erase member score]
      exact hinserted

theorem foldl_add {members : List (ZMember σ)}
    (hmembers : ∀ m ∈ members, Score.isNaN m.score = false) (n : Nat) :
    (members.foldl Cell.zsetAdd (n, z)).2.Sound := by
  induction members generalizing z n with
  | nil => exact h
  | cons m members ih =>
    exact ih (h.add m.member (hmembers m (.head _)))
      (fun w hw => hmembers w (.tail _ hw)) _

theorem foldl_remove (members : List Bytes) (n : Nat) :
    (members.foldl Cell.zsetRemove (n, z)).2.Sound := by
  induction members generalizing z n with
  | nil => exact h
  | cons m members ih => exact ih (h.remove m) _

theorem popMin (count : Int) : (z.popMin count).2.Sound := by
  have hpopped := h.foldl_remove ((z.popMin count).1.map (·.member)) 0
  rwa [foldl_remove_popMin h.toOrdered] at hpopped

theorem popMax (count : Int) : (z.popMax count).2.Sound := by
  have hpopped := h.foldl_remove ((z.popMax count).1.map (·.member)) 0
  rwa [foldl_remove_popMax h.toOrdered] at hpopped

end

/-! ## Rebuilding a set -/

theorem ofMembers_concat (l : List (ZMember σ)) (x : ZMember σ) :
    ofMembers (l ++ [x]) = ((ofMembers l).add x.member x.score).2 := by
  unfold ofMembers
  rw [foldl_concat]

theorem ofMembers_of_numbers (hl : ∀ y ∈ l, Score.isNaN y.score = false) : (ofMembers l).Sound := by
  induction l using reverseRecOn with
  | nil => exact .empty
  | append_singleton l x ih =>
    rw [ofMembers_concat]
    exact (ih (fun y hy => hl y (by simp [hy]))).add x.member (hl x (by simp))

theorem ofMembers_subset (l : List (ZMember σ)) : (ofMembers l).ordered ⊆ l := by
  have hadd : ∀ (z : SortedSet σ) (x : ZMember σ),
      (z.add x.member x.score).2.ordered ⊆ z.ordered ++ [x] := by
    intro z x y hy
    have hinsert : ∀ w : SortedSet σ, w.ordered ⊆ z.ordered →
        y ∈ (w.insertOrdered x.member x.score).ordered → y ∈ z.ordered ++ [x] := by
      intro w hw hy
      rcases eq_or_mem_of_mem_insertIdx hy with rfl | hy
      · simp
      · exact mem_append_left _ (hw hy)
    unfold SortedSet.add at hy
    split at hy
    · split at hy
      · exact mem_append_left _ hy
      · refine hinsert _ ?_ hy
        unfold removeOrdered
        dsimp only
        split
        · exact (eraseIdx_sublist _ _).subset
        · exact List.Subset.refl _
    · exact hinsert _ (List.Subset.refl _) hy
  induction l using reverseRecOn with
  | nil => exact List.Subset.refl _
  | append_singleton l x ih =>
    rw [ofMembers_concat]
    intro y hy
    rcases mem_append.mp (hadd _ _ hy) with hy | hy
    · exact mem_append_left _ (ih hy)
    · exact mem_append_right _ hy

theorem add_last {x : ZMember σ} (h : z.Sound) (hx : Score.isNaN x.score = false)
    (hnone : z.scores.get x.member = none) (hlast : ∀ y ∈ z.ordered, y.key < x.key) :
    (z.add x.member x.score).2.ordered = z.ordered ++ [x] := by
  unfold SortedSet.add
  rw [hnone]
  show insertIdx _ _ _ = _
  have hpos : findPos { z with scores := z.scores.insert x.member x.score } x.score x.member
      = z.ordered.length :=
    findPos_of_parts (append_nil _).symm h.number hx hlast (by simp)
  rw [hpos, insertIdx_length_self]

theorem ofMembers_sorted (hl : ∀ y ∈ l, Score.isNaN y.score = false)
    (hsorted : l.Pairwise (fun a b => a.key < b.key ∧ a.member ≠ b.member)) :
    (ofMembers l).Sound ∧ (ofMembers l).ordered = l := by
  induction l using reverseRecOn with
  | nil => exact ⟨.empty, rfl⟩
  | append_singleton l x ih =>
    obtain ⟨hfront, -, hx⟩ := pairwise_append.mp hsorted
    obtain ⟨hsound, hlist⟩ := ih (fun y hy => hl y (by simp [hy])) hfront
    have hnone : (ofMembers l).scores.get x.member = none := by
      by_contra hsome
      obtain ⟨score, hget⟩ := Option.ne_none_iff_exists'.mp hsome
      have hmem := hsound.covered _ _ hget
      rw [hlist] at hmem
      exact (hx _ hmem x (by simp)).2 rfl
    rw [ofMembers_concat]
    refine ⟨hsound.add x.member (hl x (by simp)), ?_⟩
    rw [hsound.add_last (hl x (by simp)) hnone, hlist]
    rw [hlist]
    exact fun y hy => (hx y hy x (by simp)).1

/-- **A sound set is what its members give**, added in order to an empty set. -/
theorem ofMembers_ordered (h : z.Sound) : ofMembers z.ordered = z := by
  have hsorted : z.ordered.Pairwise (fun a b => a.key < b.key ∧ a.member ≠ b.member) :=
    h.sorted.imp_of_mem (fun ha hb hab =>
      ⟨hab, fun heq => hab.ne (congrArg ZMember.key (h.eq_of_member ha hb heq))⟩)
  obtain ⟨hsound, hlist⟩ := ofMembers_sorted h.number hsorted
  exact hsound.ext h hlist

end Sound

end SortedSet

end Vole
