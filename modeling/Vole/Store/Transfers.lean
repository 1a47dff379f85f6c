import Vole.Store.Blocking
import Vole.Store.Mirror

/-!
# Moving an element

`LMove` and `SMove` take an element from one key and give it to another one or to the same one.
-/

namespace Vole.Store

open Go Cell

/-- What the key holds unless it has expired. -/
abbrev live (s : Store) (now : Time) (k : Bytes) : Entry := (s.entries k).purged now

/-- What `src` holds was changed by `take` and then what `dst` holds by `give`, no other key was
changed, and a key that moved an element to itself keeps its expiry. -/
structure Transferred {β : Type} (now : Time) (view : Entry → β) (take give : β → β)
    (src dst : Bytes) (s s' : Store) : Prop where
  taken : src ≠ dst → view (s'.entries src) = take (view (s.live now src))
  given : view (s'.entries dst)
    = give (if src = dst then take (view (s.live now src)) else view (s.live now dst))
  others : ∀ k, k ≠ src → k ≠ dst → s'.entries k = s.entries k
  expires : src = dst → (s'.entries src).expires = (s.live now src).expires

variable {now : Time} {src dst : Bytes} {s : Store}

/-- Two writes to the purged keys, of which the second leaves the expiry alone. -/
theorem transferred_iff {β : Type} {view : Entry → β} {take give : β → β} {f g : Cell → Cell}
    {s' : Store} (hwrites : s'.entries
      = ((((s.purgeKey now src).purgeKey now dst).modify src f).modify dst g).entries)
    (hf : view (f ⟨s.live now src, 0⟩).toEntry = take (view (s.live now src)))
    (hg : ∀ c, view (g c).toEntry = give (view c.toEntry) ∧ (g c).expires = c.expires) :
    Transferred now view take give src dst s s' ↔
      (src = dst → (f ⟨s.live now src, 0⟩).expires = (s.live now src).expires) := by
  have hcell : ((s.purgeKey now src).purgeKey now dst).cell src = ⟨s.live now src, 0⟩ :=
    congrArg (Cell.mk · 0) (purgeBoth_src s src dst now)
  have hdst : s'.entries dst = (g ⟨if src = dst then (f ⟨s.live now src, 0⟩).toEntry
      else s.live now dst, 0⟩).toEntry := by
    rw [hwrites, modify_entries, if_pos rfl, cell, modify_entries, hcell, purgeBoth_dst]
    simp only [eq_comm]
  have hother : ∀ k, k ≠ dst → s'.entries k
      = if k = src then (f ⟨s.live now src, 0⟩).toEntry else s.entries k := by
    intro k hk
    rw [hwrites, modify_entries, if_neg hk, modify_entries, hcell, purgeBoth_entries]
    grind
  constructor
  · intro h heq
    have hexp := h.expires heq
    subst heq
    rwa [hdst, (hg _).2, if_pos rfl] at hexp
  · intro hexp
    refine ⟨fun hne => ?_, ?_, fun k hsrc hk => ?_, fun heq => ?_⟩
    · rw [hother src hne, if_pos rfl, hf]
    · rw [hdst, (hg _).1]
      split
      · rw [hf]
      · rfl
    · rw [hother k hk, if_neg hsrc]
    · subst heq
      rw [hdst, (hg _).2, if_pos rfl]
      exact hexp rfl

/-- **Moves.** A move is a pop and a push, or a removal and an insertion, also from a key to
itself; but there a single element takes the expiry with it. -/
theorem moves_conserve_iff (hs : s.Idle) :
    (∀ srcLeft dstLeft value, (s.lMove now src dst srcLeft dstLeft).1 = .ok (some value) →
      ∃ rest, popValue srcLeft ((s.live now src).lists.getD []) = some (value, rest) ∧
        ((s.live now src).lists.getD [] : Multiset Bytes) = rest + {value} ∧
        (Transferred now (·.lists.getD []) (fun _ => rest) (pushValues dstLeft [value]) src dst s
            (s.lMove now src dst srcLeft dstLeft).2 ↔
          (src = dst → ((s.live now src).lists.getD []).length = 1 →
            (s.live now src).expires = none))) ∧
    ∀ member, (s.sMove now src dst member).1 = .ok true →
      member ∈ (s.live now src).sets.getD ∅ ∧
        insert member (((s.live now src).sets.getD ∅).erase member)
          = (s.live now src).sets.getD ∅ ∧
        (Transferred now (·.sets.getD ∅) (·.erase member) (insert member) src dst s
            (s.sMove now src dst member).2 ↔
          (src = dst → (s.live now src).sets.getD ∅ = {member} →
            (s.live now src).expires = none)) := by
  refine ⟨fun srcLeft dstLeft value hok => ?_, fun member hok => ?_⟩
  · rcases lMove_cases now src dst srcLeft dstLeft s with
      ⟨r, hr, heq⟩ | ⟨value', rest, hpop, -, -, heq⟩
    · have hr' : (s.lMove now src dst srcLeft dstLeft).1 = r := by
        rcases heq with heq | heq <;> rw [heq]
      exact absurd (hr'.symm.trans hok) (hr value)
    · rw [heq] at hok ⊢
      cases hok
      refine ⟨rest, hpop, popValue_eq_some hpop, ?_⟩
      have hwrites : (((s.purgeKey now src).purgeKey now dst).lMoveWrite src dst dstLeft value
          rest).entries = ((((s.purgeKey now src).purgeKey now dst).modify src
            (setList rest)).modify dst (fun c => { c with
              lists := some (pushValues dstLeft [value] (c.lists.getD [])) })).entries := by
        show (wakeLoop dst (s.listWaits dst) _).entries = _
        rw [hs dst]
        rfl
      rw [transferred_iff hwrites (setList_listAt _ rest) (fun c => ⟨rfl, rfl⟩),
        popValue_length hpop]
      unfold setList
      cases rest with
      | nil => simp [eq_comm]
      | cons v rest => simp
  · unfold sMove at hok ⊢
    dsimp only at hok ⊢
    split at hok
    · cases hok
    split at hok
    · cases hok
    rename_i hfree hmem
    rw [if_neg hfree, if_neg hmem]
    rw [purgeBoth_src, not_not] at hmem
    refine ⟨hmem, Finset.insert_erase hmem, Iff.trans (transferred_iff
      (f := fun c => c.setSet ((c.sets.getD ∅).erase member))
      (g := fun c => { c with sets := some (insert member (c.sets.getD ∅)) }) rfl ?_
      (fun c => ⟨rfl, rfl⟩)) ?_⟩
    · unfold setSet
      split
      · rename_i hempty
        exact hempty.symm
      · rfl
    · have hone : ((s.live now src).sets.getD ∅).erase member = ∅
          ↔ (s.live now src).sets.getD ∅ = {member} := by
        rw [Finset.erase_eq_empty_iff]
        grind
      unfold setSet
      by_cases hempty : ((s.live now src).sets.getD ∅).erase member = ∅
      · simp [hone.mp hempty, eq_comm]
      · simp [hempty, mt hone.mpr hempty]

/-- The key `k` with these elements and an expiry. -/
def timedList (items : List Bytes) : Store :=
  after default [(1, .pushList (bytes "k") false items), (1, .cell (bytes "k") (.expire 9))]

theorem rotation_conserves : Transferred 2 (·.lists.getD []) (fun _ => [bytes "w"])
    (pushValues false [bytes "v"]) (bytes "k") (bytes "k") (timedList [bytes "v", bytes "w"])
    (lMove 2 (bytes "k") (bytes "k") true false (timedList [bytes "v", bytes "w"])).2 := by
  obtain ⟨rest, hpop, -, hiff⟩ := (@moves_conserve_iff 2 (bytes "k") (bytes "k")
    (timedList [bytes "v", bytes "w"]) (fun _ => rfl)).1 true false (bytes "v") (by decide)
  cases hpop
  exact hiff.mpr (fun _ hone => absurd hone (by decide))

/-- Moved to its own key, the only element of a list takes the expiry away. -/
theorem lMove_loses_expiry : ((timedList [bytes "v"]).entries (bytes "k")).expires = some 10 ∧
    ((lMove 2 (bytes "k") (bytes "k") true false (timedList [bytes "v"])).2.entries
      (bytes "k")).expires = none := by
  decide

end Vole.Store
