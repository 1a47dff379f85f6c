import Mathlib.Data.List.Basic

/-!
# Readers

A reader takes a value from the front of its input or fails, and `times read n` calls it `n`
times in a row.
-/

namespace Vole.Readers

variable {σ ε α β : Type}

@[simp] theorem ok_bind (a : α) (f : α → Except ε β) : (Except.ok a >>= f) = f a := rfl

theorem bind_eq_ok {x : Except ε α} {f : α → Except ε β} {b : β} :
    (x >>= f) = .ok b ↔ ∃ a, x = .ok a ∧ f a = .ok b := by
  cases x with
  | error e => simp [bind, Except.bind]
  | ok a => simp [bind, Except.bind]

theorem bind_eq_error {x : Except ε α} {f : α → Except ε β} {e : ε} :
    (x >>= f) = .error e ↔ x = .error e ∨ ∃ a, x = .ok a ∧ f a = .error e := by
  cases x with
  | error e' => simp [bind, Except.bind]
  | ok a => simp [bind, Except.bind]

/-- `n` calls of a reader, each on what the one before has left. -/
def times (read : σ → Except ε (α × σ)) : Nat → σ → Except ε (List α × σ)
  | 0, s => .ok ([], s)
  | n + 1, s => do
      let (a, s) ← read s
      let (as, s) ← times read n s
      .ok (a :: as, s)

variable {read : σ → Except ε (α × σ)} {n : Nat} {s t : σ} {a : α} {e : ε}

theorem times_succ_of_error (h : read s = .error e) : times read (n + 1) s = .error e := by
  rw [times, h]
  rfl

theorem times_succ_of_ok (h : read s = .ok (a, t)) :
    times read (n + 1) s = (times read n t).map (fun p => (a :: p.1, p.2)) := by
  rw [times, h]
  cases ht : times read n t <;> simp [bind, Except.bind, Except.map, ht]

theorem times_eq_error_iff : times read n s = .error e
      ↔ ∃ k < n, ∃ as t, times read k s = .ok (as, t) ∧ read t = .error e := by
  induction n generalizing s with
  | zero => simp [times]
  | succ n ih =>
    cases h : read s with
    | error e' =>
      rw [times_succ_of_error h]
      constructor
      · intro he
        cases he
        exact ⟨0, by omega, [], s, rfl, h⟩
      · rintro ⟨k, -, as, t, hk, ht⟩
        cases k with
        | zero =>
          cases hk
          rw [h] at ht
          cases ht
          rfl
        | succ k =>
          rw [times_succ_of_error h] at hk
          cases hk
    | ok p =>
      obtain ⟨a, u⟩ := p
      have hmap : times read (n + 1) s = .error e ↔ times read n u = .error e := by
        rw [times_succ_of_ok h]
        cases times read n u <;> simp [Except.map]
      rw [hmap, ih]
      constructor
      · rintro ⟨k, hk, as, t, has, ht⟩
        refine ⟨k + 1, by omega, a :: as, t, ?_, ht⟩
        rw [times_succ_of_ok h, has]
        rfl
      · rintro ⟨k, hk, as, t, has, ht⟩
        cases k with
        | zero =>
          cases has
          rw [h] at ht
          cases ht
        | succ k =>
          rw [times_succ_of_ok h] at has
          cases hu : times read k u with
          | error e' =>
            rw [hu] at has
            cases has
          | ok q =>
            rw [hu] at has
            cases has
            exact ⟨k, by omega, q.1, q.2, hu, ht⟩

/-- What is written value by value is read back, and what follows it is left. -/
theorem times_encode {γ : Type} {encode : α → List γ}
    {read : List γ → Except ε (α × List γ)} {as : List α}
    (h : ∀ a ∈ as, ∀ rest, read (encode a ++ rest) = .ok (a, rest)) (rest : List γ) :
    times read as.length (as.flatMap encode ++ rest) = .ok (as, rest) := by
  induction as with
  | nil => rfl
  | cons a as ih =>
    have hread := h a (by simp) (as.flatMap encode ++ rest)
    have hrest := ih (fun b hb => h b (by simp [hb]))
    rw [List.flatMap_cons, List.append_assoc, List.length_cons, times_succ_of_ok hread, hrest]
    rfl

section
variable {size : σ → Nat}

/-- A reader leaves no more than it was given. -/
def Consumes (size : σ → Nat) (read : σ → Except ε (α × σ)) : Prop :=
  ∀ s a t, read s = .ok (a, t) → size t ≤ size s

theorem Consumes.bind {k : α → σ → Except ε (β × σ)} (h : Consumes size read)
    (hk : ∀ a, Consumes size (k a)) : Consumes size (fun s => read s >>= fun p => k p.1 p.2) := by
  intro s b t hs
  obtain ⟨p, hp, hb⟩ := bind_eq_ok.mp hs
  exact Nat.le_trans (hk _ _ _ _ hb) (h _ _ _ hp)

theorem Consumes.pure (f : α → β) (h : Consumes size read) :
    Consumes size (fun s => read s >>= fun p => .ok (f p.1, p.2)) := by
  refine h.bind (k := fun a s => .ok (f a, s)) ?_
  intro a s b t hs
  cases hs
  exact Nat.le_refl _

theorem Consumes.times (h : Consumes size read) (n : Nat) : Consumes size (times read n) := by
  induction n with
  | zero =>
    intro s as t hs
    cases hs
    exact Nat.le_refl _
  | succ n ih =>
    intro s as t hs
    cases hr : read s with
    | error e =>
      rw [times_succ_of_error hr] at hs
      cases hs
    | ok p =>
      rw [times_succ_of_ok hr] at hs
      cases hn : Readers.times read n p.2 with
      | error e =>
        rw [hn] at hs
        cases hs
      | ok q =>
        rw [hn] at hs
        cases hs
        exact Nat.le_trans (ih _ _ _ hn) (h _ _ _ hr)

theorem times_congr {read' : σ → Except ε (α × σ)} (hsize : Consumes size read) {bound : Nat}
    (h : ∀ s, size s ≤ bound → read s = read' s) (hs : size s ≤ bound) :
    times read n s = times read' n s := by
  induction n generalizing s with
  | zero => rfl
  | succ n ih =>
    cases hr : read s with
    | error e => rw [times_succ_of_error hr, times_succ_of_error ((h s hs).symm.trans hr)]
    | ok p =>
      have hp : size p.2 ≤ bound := Nat.le_trans (hsize _ _ _ hr) hs
      rw [times_succ_of_ok hr, times_succ_of_ok ((h s hs).symm.trans hr), ih hp]

end

end Vole.Readers
