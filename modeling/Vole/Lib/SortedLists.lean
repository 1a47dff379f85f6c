import Mathlib.Data.List.Sort
import Mathlib.Data.List.TakeWhile

/-!
# Lists in order

How a predicate that changes once cuts a list in two, and what inserting an element between the
two parts leaves.
-/

namespace Vole.SortedLists

open List

variable {α : Type} {l : List α} {p : α → Bool}

/-! ## Predicates that change once -/

/-- Along the list the predicate, once true, stays true. -/
def Rising (p : α → Bool) (l : List α) : Prop := l.Pairwise (fun a b => p a = true → p b = true)

/-- Along the list the predicate, once false, stays false. -/
def Falling (p : α → Bool) (l : List α) : Prop := l.Pairwise (fun a b => p b = true → p a = true)

theorem Rising.exists_parts (h : Rising p l) : ∃ front back, l = front ++ back ∧
    (∀ a ∈ front, p a = false) ∧ ∀ b ∈ back, p b = true := by
  induction l with
  | nil => exact ⟨[], [], rfl, by simp, by simp⟩
  | cons a l ih =>
    obtain ⟨hhead, htail⟩ := pairwise_cons.mp h
    cases ha : p a with
    | true => exact ⟨[], a :: l, rfl, by simp, forall_mem_cons.mpr ⟨ha, fun b hb => hhead b hb ha⟩⟩
    | false =>
      obtain ⟨front, back, rfl, hfront, hback⟩ := ih htail
      exact ⟨a :: front, back, rfl, forall_mem_cons.mpr ⟨ha, hfront⟩, hback⟩

theorem takeWhile_eq_filter (h : Falling p l) : l.takeWhile p = l.filter p := by
  induction l with
  | nil => rfl
  | cons a l ih =>
    obtain ⟨hhead, htail⟩ := pairwise_cons.mp h
    cases ha : p a with
    | true => rw [takeWhile_cons_of_pos ha, ih htail, filter_cons_of_pos ha]
    | false =>
      have hnone : ∀ b ∈ l, ¬ p b = true := by
        intro b hb hpb
        rw [hhead b hb hpb] at ha
        cases ha
      rw [takeWhile_cons_of_neg (by simp [ha]), filter_cons_of_neg (by simp [ha]),
        filter_eq_nil_iff.mpr hnone]

theorem Falling.sublist {l l' : List α} (h : Falling p l) (hsub : l'.Sublist l) : Falling p l' :=
  List.Pairwise.sublist hsub h

theorem insertIdx_length_append (front back : List α) (x : α) :
    (front ++ back).insertIdx front.length x = front ++ x :: back := by
  induction front with
  | nil => rfl
  | cons y front ih =>
    rw [cons_append, length_cons, insertIdx_succ_cons, ih, cons_append]

theorem pairwise_insert {r : α → α → Prop} {front back : List α} {x : α}
    (h : (front ++ back).Pairwise r) (hfront : ∀ a ∈ front, r a x) (hback : ∀ b ∈ back, r x b) :
    (front ++ x :: back).Pairwise r := by
  obtain ⟨hl, hr, hcross⟩ := pairwise_append.mp h
  rw [pairwise_append, pairwise_cons]
  exact ⟨hl, ⟨hback, hr⟩, fun a ha => forall_mem_cons.mpr ⟨hfront a ha, hcross a ha⟩⟩

end Vole.SortedLists
