import Vole.Store.KeySpace

/-!
# The language of a glob pattern

`MatchGlob` goes through its pattern in a loop, and calls itself for what stands behind a star.
-/

namespace Vole

open Go List

/-- The texts that a pattern stands for. A class of bytes is read by `matchBracket`. -/
inductive Glob : Bytes → Bytes → Prop where
  | nil : Glob [] []
  | star {p s t : Bytes} : t <:+ s → Glob p t → Glob (42 :: p) s
  | any {p s : Bytes} {c : UInt8} : Glob p s → Glob (63 :: p) (c :: s)
  | bracket {p q s : Bytes} {c : UInt8} : matchBracket p c = some q → Glob q s →
      Glob (91 :: p) (c :: s)
  | escaped {p s : Bytes} {c : UInt8} : Glob p s → Glob (92 :: c :: p) (c :: s)
  | plain {p s : Bytes} {c : UInt8} : c ∉ [42, 63, 91, 92] → Glob p s → Glob (c :: p) (c :: s)

variable {p s : Bytes}

theorem glob_star_iff : Glob (42 :: p) s ↔ ∃ t, t <:+ s ∧ Glob p t := by
  constructor
  · intro h
    cases h with
    | star hsuffix h => exact ⟨_, hsuffix, h⟩
    | plain hc => exact absurd hc (by decide)
  · rintro ⟨t, hsuffix, h⟩
    exact .star hsuffix h

theorem glob_bracket_iff {c : UInt8} :
    Glob (91 :: p) (c :: s) ↔ ∃ q, matchBracket p c = some q ∧ Glob q s := by
  constructor
  · intro h
    cases h with
    | bracket hclass h => exact ⟨_, hclass, h⟩
    | plain hc => exact absurd hc (by decide)
  · rintro ⟨q, hclass, h⟩
    exact .bracket hclass h

/-- Several stars in a row are one. -/
theorem glob_stars_iff : Glob (42 :: p) s ↔ ∃ t, t <:+ s ∧ Glob (p.dropWhile (· = 42)) t := by
  rw [glob_star_iff]
  induction p generalizing s with
  | nil => rfl
  | cons c p ih =>
    by_cases hc : c = 42
    · rw [hc, dropWhile_cons_of_pos (by rfl)]
      constructor
      · rintro ⟨t, hts, h⟩
        obtain ⟨u, hut, h⟩ := ih.mp (glob_star_iff.mp h)
        exact ⟨u, hut.trans hts, h⟩
      · intro h
        obtain ⟨t, hts, h⟩ := ih.mpr h
        exact ⟨t, hts, .star suffix_rfl h⟩
    · rw [dropWhile_cons_of_neg (by simp [hc])]

theorem length_bracketLoop {ch : UInt8} {first matched : Bool} {r : Bool × Bytes}
    (h : bracketLoop ch first matched p = some r) : r.2.length < p.length := by
  fun_induction bracketLoop ch first matched p <;> grind

theorem length_matchBracket {c : UInt8} {q : Bytes} (h : matchBracket p c = some q) :
    q.length < p.length := by
  unfold matchBracket at h
  dsimp only at h
  split at h
  · cases h
  · rename_i matched rest hloop
    have hlt := length_bracketLoop hloop
    have htail : p.tail.length ≤ p.length := (tail_suffix p).length_le
    grind

theorem matchGlobLoop_iff {fuel : Nat} (hfuel : p.length < fuel) :
    matchGlobLoop fuel p s = true ↔ Glob p s := by
  induction fuel generalizing p s with
  | zero => exact absurd hfuel (Nat.not_lt_zero _)
  | succ fuel ih =>
    unfold matchGlobLoop
    split
    · rename_i hzero
      cases hzero
    · -- the pattern is used up
      rename_i hsucc
      constructor
      · intro h
        cases of_decide_eq_true h
        exact .nil
      · intro h
        cases h
        rfl
    · rename_i p hsucc
      cases hsucc
      have hlen : (p.dropWhile (· = 42)).length < fuel :=
        (dropWhile_suffix _).length_le.trans_lt (Nat.lt_of_succ_lt_succ hfuel)
      rw [glob_stars_iff]
      split
      · rename_i hstars
        rw [hstars]
        exact iff_of_true rfl ⟨[], nil_suffix, .nil⟩
      · simp only [any_eq_true, mem_tails, ih hlen]
    · grind [cases Glob]
    · grind [Glob, cases Glob]
    · rename_i p c s hsucc
      cases hsucc
      rw [glob_bracket_iff]
      cases hclass : matchBracket p c with
      | none => simp
      | some q =>
        have hlen := length_matchBracket hclass
        simp [ih (hlen.trans (Nat.lt_of_succ_lt_succ hfuel))]
    · grind [Glob, cases Glob]
    · grind [Glob, cases Glob]

/-- **`MatchGlob` decides the language of its pattern.** -/
theorem matchGlob_iff (p s : Bytes) : matchGlob p s = true ↔ Glob p s :=
  matchGlobLoop_iff (Nat.lt_succ_self _)

/-- **`Keys` lists what it should:** the keys that exist and match, or all without a pattern. -/
theorem mem_keys_iff (st : Store) (now : Time) (pattern k : Bytes) : k ∈ st.keys now pattern
    ↔ (st.entries k).existsAt now = true ∧ (pattern = [] ∨ Glob pattern k) := by
  unfold Store.keys
  split
  · rename_i hall
    rw [Store.mem_allKeys]
    refine (and_iff_left (hall.imp_right fun hstar => ?_)).symm
    exact hstar ▸ .star nil_suffix .nil
  · rename_i hplain
    rw [mem_filter, Store.mem_allKeys, matchGlob, matchGlobLoop_iff (Nat.lt_succ_self _),
      or_iff_right (fun h => hplain (.inl h))]

end Vole
