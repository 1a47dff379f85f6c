import Vole.Store.JsonDoc

/-!
# Reading back what was set in a document

`Get` walks along all parts of a path. `Set` walks to the parent and writes into it, with its own
reading of the last part.
-/

namespace Vole.JsonDoc

open Go List

variable {doc doc' value : JVal} {items : List JVal} {part : Bytes} {parts : List Bytes} {i : Nat}

theorem member_setMember (part : Bytes) (value : JVal) (members : List (Bytes × JVal)) :
    member part (setMember part value members) = some value := by
  induction members with
  | nil => simp [setMember, member]
  | cons m rest ih =>
    unfold setMember
    split_ifs with heq hlt
    · simp [member]
    · simp [member]
    · rw [member, if_neg heq, ih]

theorem arrayIndex_lt {n : Nat} (h : arrayIndex part n = .ok i) : i < n := by
  unfold arrayIndex at h
  split at h
  · cases h
  · rename_i idx _
    dsimp only at h
    generalize (if idx < 0 then (n : Int) + idx else idx) = j at h
    split_ifs at h with hrange
    cases h
    omega

theorem navigate_item (h : arrayIndex part items.length = .ok i) (rest : List Bytes) :
    navigate (.arr (items.set i value)) (part :: rest) = navigate value rest := by
  rw [navigate, length_set, h]
  dsimp only
  rw [getD_eq_getElem?_getD, getElem?_set_self (arrayIndex_lt h)]
  rfl

theorem navigate_setChild {other : Err} (h : setChild part value other doc = .ok doc') :
    navigate doc' [part] = .ok value := by
  unfold setChild at h
  split at h
  · cases h
    rw [navigate, member_setMember]
    rfl
  · rename_i items
    split at h
    · cases h
    · rename_i idx hidx
      split_ifs at h with hrange
      cases h
      -- an index that `Set` takes is read the same way by `navigate`
      refine navigate_item ?_ []
      have hneg : ¬ idx < 0 := fun hneg => hrange (.inl hneg)
      unfold arrayIndex
      rw [hidx]
      simp only [if_neg hneg, if_neg hrange]
  · cases h

/-- What is found below a part of the document that was replaced. -/
theorem navigate_update {f : JVal → Except Err JVal} (h : update f doc parts = .ok doc') :
    ∃ child child', f child = .ok child' ∧
      ∀ rest, navigate doc' (parts ++ rest) = navigate child' rest := by
  induction parts generalizing doc doc' with
  | nil =>
    rw [update] at h
    exact ⟨doc, doc', h, fun _ => rfl⟩
  | cons part parts ih =>
    cases doc with
    | obj members =>
      rw [update] at h
      split at h
      · cases h
      · split at h
        · cases h
        · rename_i hchild
          cases h
          obtain ⟨child, child', hf, hrest⟩ := ih hchild
          refine ⟨child, child', hf, fun rest => ?_⟩
          rw [cons_append, navigate, member_setMember]
          exact hrest rest
    | arr items =>
      rw [update] at h
      split at h
      · cases h
      · rename_i hindex
        split at h
        · cases h
        · rename_i hchild
          cases h
          obtain ⟨child, child', hf, hrest⟩ := ih hchild
          refine ⟨child, child', hf, fun rest => ?_⟩
          rw [cons_append, navigate_item hindex]
          exact hrest rest
    | _ => cases h

/-- **`Get` returns what `Set` has set**, whatever the document and the path. -/
theorem get_set {path : Bytes} (h : set doc path value = .ok doc') : get doc' path = .ok value := by
  unfold set at h
  unfold get
  split at h
  · rename_i hroot
    rw [if_pos hroot, Except.ok.inj h]
  · rename_i hroot
    rw [if_neg hroot]
    generalize partsOf path = parts at h
    unfold setPath at h
    split at h
    · rw [navigate, Except.ok.inj h]
    · exact navigate_setChild h
    · rename_i part next rest
      obtain ⟨parent, parent', hparent, hrest⟩ := navigate_update h
      have hparts := dropLast_concat_getLast (cons_ne_nil part (next :: rest))
      rw [← hparts, hrest]
      exact navigate_setChild hparent

theorem get_set_nested : get (.obj [(bytes "a", .arr [.bool true])]) (bytes "$.a[0]")
    = .ok (.bool true) :=
  @get_set (.obj [(bytes "a", .arr [.null])]) _ _ _ rfl

end Vole.JsonDoc
