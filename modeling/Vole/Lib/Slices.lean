import Vole.Lib.Readers
import Mathlib.Data.List.Basic
import Mathlib.Data.List.TakeDrop

/-!
# Checked index expressions

What a run-time system checks when a program indexes a sequence or allocates one: the index lies
in the sequence, the length is not negative. An operation whose check fails is a `Crash`.
-/

namespace Vole.Slices

variable {i : Int}

inductive Crash where
  | index (i : Int) (length : Nat)
  | makeslice (n : Int)
  | divide
  deriving DecidableEq

variable {α : Type}

/-- `s[i]` -/
def indexAt (s : List α) (i : Int) : Except Crash α :=
  if 0 ≤ i then (s[i.toNat]?).elim (.error (.index i s.length)) .ok
  else .error (.index i s.length)

/-- `make([]T, n)` -/
def makeZeroed (zero : α) (n : Int) : Except Crash (List α) :=
  if 0 ≤ n then .ok (List.replicate n.toNat zero) else .error (.makeslice n)

/-- `a % b`, the remainder that is truncated towards zero. -/
def modulo (a b : Int) : Except Crash Int := if b = 0 then .error .divide else .ok (a.tmod b)

/-- `s[i] = a` -/
def setAt (s : List α) (i : Int) (a : α) : Except Crash (List α) :=
  if 0 ≤ i ∧ i < s.length then .ok (s.set i.toNat a) else .error (.index i s.length)

variable {σ : Type}

/-- `for i := ...; n times; i++ { body }` -/
def forUp (body : Int → σ → Except Crash σ) : Nat → Int → σ → Except Crash σ
  | 0, _, st => .ok st
  | n + 1, i, st => do
      let st ← body i st
      forUp body n (i + 1) st

/-- `for i := ...; n times; i-- { body }` -/
def forDown (body : Int → σ → Except Crash σ) : Nat → Int → σ → Except Crash σ
  | 0, _, st => .ok st
  | n + 1, i, st => do
      let st ← body i st
      forDown body n (i - 1) st

theorem modulo_eq_ok {a b : Int} (ha : 0 ≤ a) (hb : 0 < b) : modulo a b = .ok (a % b) := by
  unfold modulo
  rw [if_neg (by omega), Int.tmod_eq_emod_of_nonneg ha]

theorem setAt_eq_ok {s : List α} {a : α} (h0 : 0 ≤ i) (hi : i < s.length) :
    setAt s i a = .ok (s.set i.toNat a) := if_pos ⟨h0, hi⟩

theorem makeZeroed_eq_ok {zero : α} {n : Int} (h : 0 ≤ n) :
    makeZeroed zero n = .ok (List.replicate n.toNat zero) := if_pos h

/-- A loop keeps an invariant that each of its rounds keeps, and does not crash if none of them
does. -/
theorem forUp_invariant (body : Int → σ → Except Crash σ) (inv : Int → σ → Prop) {n : Nat}
    {st : σ} (hst : inv i st)
    (hbody : ∀ k st, i ≤ k → k < i + n → inv k st → ∃ st', body k st = .ok st' ∧ inv (k + 1) st') :
    ∃ st', forUp body n i st = .ok st' ∧ inv (i + n) st' := by
  induction n generalizing i st with
  | zero => exact ⟨st, rfl, by simpa using hst⟩
  | succ n ih =>
    obtain ⟨st₁, hround, hst₁⟩ := hbody i st (Int.le_refl i) (by omega) hst
    obtain ⟨st', hrest, hst'⟩ := ih hst₁
      (fun k st hk hlt => hbody k st (by omega) (by omega))
    refine ⟨st', ?_, ?_⟩
    · rw [forUp, hround]
      exact hrest
    · have hend : i + 1 + (n : Int) = i + (n + 1 : Nat) := by omega
      rwa [hend] at hst'

theorem forDown_invariant (body : Int → σ → Except Crash σ) (inv : Int → σ → Prop) {n : Nat}
    {st : σ} (hst : inv i st)
    (hbody : ∀ k st, i - n < k → k ≤ i → inv k st → ∃ st', body k st = .ok st' ∧ inv (k - 1) st') :
    ∃ st', forDown body n i st = .ok st' ∧ inv (i - n) st' := by
  induction n generalizing i st with
  | zero => exact ⟨st, rfl, by simpa using hst⟩
  | succ n ih =>
    obtain ⟨st₁, hround, hst₁⟩ := hbody i st (by omega) (Int.le_refl i) hst
    obtain ⟨st', hrest, hst'⟩ := ih hst₁
      (fun k st hk hlt => hbody k st (by omega) (by omega))
    refine ⟨st', ?_, ?_⟩
    · rw [forDown, hround]
      exact hrest
    · have hend : i - 1 - (n : Int) = i - (n + 1 : Nat) := by omega
      rwa [hend] at hst'

end Vole.Slices
