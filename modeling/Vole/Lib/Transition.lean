import Mathlib.Algebra.BigOperators.Group.Finset.Basic

/-!
# Guarded transition systems

A system that moves by a partial step function, and what holds along its runs.
-/

namespace Vole.Transition

variable {σ α : Type*}

/-- A run from `s` to `t` whose steps are all enabled and all meet `ok`. -/
inductive Reaches (step : σ → α → Option σ) (ok : σ → α → Prop) (s : σ) : σ → Prop where
  | refl : Reaches step ok s s
  | tail {t u : σ} (a : α) (run : Reaches step ok s t) (meets : ok t a)
      (enabled : step t a = some u) : Reaches step ok s u

variable {step : σ → α → Option σ} {ok : σ → α → Prop} {s t : σ}

/-- The invariant rule: one step keeps `Inv`, so every run does. -/
theorem Reaches.invariant {Inv : σ → Prop} (hrun : Reaches step ok s t) (hstart : Inv s)
    (hstep : ∀ t u a, Inv t → ok t a → step t a = some u → Inv u) : Inv t := by
  induction hrun with
  | refl => exact hstart
  | tail a _ hok hen ih => exact hstep _ _ a ih hok hen

/-- A run of a list of actions, if each is enabled in turn. -/
def runAll (step : σ → α → Option σ) : σ → List α → Option σ
  | s, [] => some s
  | s, a :: rest => (step s a).bind (fun t => runAll step t rest)

theorem Reaches.head {u : σ} (a : α) (hok : ok s a) (hen : step s a = some t)
    (hrun : Reaches step ok t u) : Reaches step ok s u := by
  induction hrun with
  | refl => exact .tail a .refl hok hen
  | tail b _ hok' hen' ih => exact .tail b ih hok' hen'

/-- Every step of a list of actions that is taken meets `ok`. -/
def RunMeets (step : σ → α → Option σ) (ok : σ → α → Prop) : σ → List α → Prop
  | _, [] => True
  | s, a :: rest =>
    ok s a ∧ match step s a with
      | none => True
      | some t => RunMeets step ok t rest

theorem reaches_of_runMeets {as : List α} (hmeets : RunMeets step ok s as)
    (h : runAll step s as = some t) : Reaches step ok s t := by
  induction as generalizing s with
  | nil =>
    cases h
    exact .refl
  | cons a rest ih =>
    obtain ⟨u, hen, hrest⟩ := Option.bind_eq_some_iff.mp h
    obtain ⟨hok, hnext⟩ := hmeets
    rw [hen] at hnext
    exact .head a hok hen (ih hnext hrest)

theorem runMeets_of_forall {as : List α} (h : ∀ a ∈ as, ∀ s, ok s a) : RunMeets step ok s as := by
  induction as generalizing s with
  | nil => trivial
  | cons a rest ih =>
    refine ⟨h a (.head _) s, ?_⟩
    split
    · trivial
    · exact ih (fun b hb => h b (.tail _ hb))

theorem reaches_of_runAll {as : List α} (h : runAll step s as = some t) :
    Reaches step (fun _ _ => True) s t :=
  reaches_of_runMeets (runMeets_of_forall (fun _ _ _ => trivial)) h

/-- A list of actions that all meet `ok`, and what follows of the state it leads to. -/
theorem exists_of_runMeets (ok : σ → α → Prop) {as : List α} {P : σ → Prop}
    (hmeets : RunMeets step ok s as) (h : runAll step s as = some t)
    (hP : Reaches step ok s t → P t) : ∃ t, runAll step s as = some t ∧ P t :=
  ⟨t, h, hP (reaches_of_runMeets hmeets h)⟩

variable {ι M : Type*} [DecidableEq ι] [AddCommMonoid M]

theorem sum_change_one {S : Finset ι} {f g : ι → M} {i : ι} {a b : M} (hi : i ∈ S)
    (hchange : g i + a = f i + b) (hsame : ∀ j, j ≠ i → g j = f j) :
    ∑ j ∈ S, g j + a = ∑ j ∈ S, f j + b := by
  have hrest : ∑ j ∈ S.erase i, g j = ∑ j ∈ S.erase i, f j :=
    Finset.sum_congr rfl (fun j hj => hsame j (Finset.ne_of_mem_erase hj))
  rw [← Finset.add_sum_erase S g hi, ← Finset.add_sum_erase S f hi, hrest]
  calc g i + ∑ j ∈ S.erase i, f j + a
      = (g i + a) + ∑ j ∈ S.erase i, f j := by rw [add_right_comm]
    _ = (f i + b) + ∑ j ∈ S.erase i, f j := by rw [hchange]
    _ = f i + ∑ j ∈ S.erase i, f j + b := by rw [add_right_comm]

end Vole.Transition
