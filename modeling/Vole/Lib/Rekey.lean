import Mathlib.Data.List.Nodup

/-!
# Rewriting a map under other names

A map is copied entry by entry, in the order of a list, and the entry of `k` is written under
the name `f k`. Two keys may get the same name; then the later one is written over the
earlier. A step is described by what a lookup sees afterwards.
-/

namespace Vole.Lib

variable {σ κ γ : Type} [DecidableEq κ]

/-- The step for `k` writes under `f k`, and there only, what `new k` makes of the entry. -/
def Rekeys (look : σ → κ → γ) (step : σ → κ → σ) (f : κ → κ) (new : κ → γ → γ) : Prop :=
  ∀ q k k', look (step q k) k' = if k' = f k then new k (look q k') else look q k'

namespace Rekeys

variable {look : σ → κ → γ} {step : σ → κ → σ} {f : κ → κ} {new : κ → γ → γ} {ks : List κ}

theorem foldl_of_ne (h : Rekeys look step f new) {k' : κ} (hne : ∀ k ∈ ks, f k ≠ k') (q : σ) :
    look (ks.foldl step q) k' = look q k' := by
  induction ks generalizing q with
  | nil => rfl
  | cons k ks ih =>
    have hk : k' ≠ f k := (hne k (.head _)).symm
    rw [List.foldl_cons, ih (fun j hj => hne j (.tail _ hj)), h, if_neg hk]

theorem foldl_of_fixed (h : Rekeys look step f new) (hnodup : ks.Nodup)
    (hfix : ∀ k ∈ ks, f k = k) (q : σ) (k' : κ) :
    look (ks.foldl step q) k' = if k' ∈ ks then new k' (look q k') else look q k' := by
  induction ks generalizing q with
  | nil => rfl
  | cons k ks ih =>
    obtain ⟨hk, hks⟩ := List.nodup_cons.mp hnodup
    have hfix' : ∀ j ∈ ks, f j = j := fun j hj => hfix j (.tail _ hj)
    rw [List.foldl_cons, ih hks hfix', h, hfix k (.head _)]
    by_cases heq : k' = k
    · subst heq
      rw [if_neg hk, if_pos rfl, if_pos (.head _)]
    · rw [if_neg heq]
      simp [heq]

end Rekeys

end Vole.Lib
