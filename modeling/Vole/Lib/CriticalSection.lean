import Vole.Lib.Schedule

/-!
# Programs that touch the shared state only under the mutex

Between two steps of the holder of the mutex nobody else takes a step on the state. A program
whose steps all lie between its locking and its unlocking can therefore be reasoned about as if
it were alone from the one to the other: what it relies on at a step, it found out under the same
lock.
-/

namespace Vole.Schedule

open Transition

variable {ι σ : Type*} {good : σ → Prop} {rel : σ → σ → Prop}

/-- The program, which holds the mutex or does not, keeps `good` with each of its steps and
relates the states before and after it. What it finds when it locks is any good state. -/
def Prog.Kept (good : σ → Prop) (rel : σ → σ → Prop) : Prog σ → Bool → σ → Prop
  | .done, held, _ => held = false
  | .lock next, held, _ => held = false ∧ ∀ s, good s → next.Kept good rel true s
  | .unlock next, held, _ => held = true ∧ ∀ s, next.Kept good rel false s
  | .step run next, held, s =>
    held = true ∧ good (run s) ∧ rel s (run s) ∧ (next s).Kept good rel true (run s)
  | .await _ next timeout, held, _ =>
    held = false ∧ (∀ s, next.Kept good rel false s) ∧ ∀ s, timeout.Kept good rel false s

namespace System

/-- The jobs that are given out are all allowed. -/
def Starts (allowed : ι → Prop) (_ : System ι σ) : Action ι → Prop
  | .start _ job => allowed job
  | _ => True

/-- What holds along a run. The program of the holder goes on from the state there is, those of
the others from any. -/
structure Locked (good : σ → Prop) (rel : σ → σ → Prop) (x : System ι σ) : Prop where
  now : good x.st
  holder : ∀ p, x.holder = some p → (x.threads p).prog.Kept good rel true x.st
  others : ∀ p, x.holder ≠ some p → ∀ s, (x.threads p).prog.Kept good rel false s

namespace Locked

variable {program : ι → Prog σ} {x y : System ι σ} {p : Nat}

theorem idle {s : σ} (hs : good s) : Locked good rel (System.idle (ι := ι) s) :=
  ⟨hs, nofun, fun _ _ _ => rfl⟩

variable (h : Locked good rel x)
include h

theorem replace (hp : x.holder ≠ some p) {t : Thread ι σ} (ht : ∀ s, t.prog.Kept good rel false s) :
    Locked good rel { x with threads := Function.update x.threads p t } := by
  refine ⟨h.now, fun q hq => ?_, fun q hq s => ?_⟩
  · have hqp : q ≠ p := fun hqp => hp (hqp ▸ hq)
    dsimp only
    rw [Function.update_of_ne hqp]
    exact h.holder q hq
  · dsimp only
    by_cases hqp : q = p
    · rw [hqp, Function.update_self]
      exact ht s
    · rw [Function.update_of_ne hqp]
      exact h.others q hq s

theorem holds_of_kept
    (hprog : ∀ s, ¬ (x.threads p).prog.Kept good rel false s) : x.holder = some p := by
  by_contra hother
  exact hprog x.st (h.others p hother x.st)

theorem lock {next : Prog σ} (hfree : x.holder = none)
    (hprog : (x.threads p).prog = .lock next) : Locked good rel (x.passed p (some p) next) := by
  refine ⟨h.now, fun q hq => ?_, fun q hq s => ?_⟩
  · cases hq
    have hlock := h.others p (by simp [hfree]) x.st
    rw [hprog] at hlock
    unfold System.passed
    dsimp only
    rw [Function.update_self]
    exact hlock.2 x.st h.now
  · have hqp : q ≠ p := fun hqp => hq (hqp ▸ rfl)
    unfold System.passed
    dsimp only
    rw [Function.update_of_ne hqp]
    exact h.others q (by simp [hfree]) s

theorem unlock {next : Prog σ}
    (hprog : (x.threads p).prog = .unlock next) : Locked good rel (x.passed p none next) := by
  have hholds : x.holder = some p :=
    h.holds_of_kept (fun s hkept => by rw [hprog] at hkept; exact absurd hkept.1 (by simp))
  refine ⟨h.now, fun q hq => absurd hq (by simp [System.passed]), fun q _ s => ?_⟩
  unfold System.passed
  dsimp only
  by_cases hqp : q = p
  · have hunlock := h.holder p hholds
    rw [hprog] at hunlock
    rw [hqp, Function.update_self]
    exact hunlock.2 s
  · rw [Function.update_of_ne hqp]
    exact h.others q (fun hq => hqp (Option.some.inj (hq.symm.trans hholds))) s

theorem move {timedOut : Bool} {r : σ × Prog σ}
    (hmove : (x.threads p).prog.move timedOut x.st = some r) :
    Locked good rel (x.moved p r) ∧ (r.1 = x.st ∨ rel x.st r.1) := by
  cases hprog : (x.threads p).prog with
  | done | lock | unlock =>
    rw [hprog] at hmove
    cases hmove
  | step run next =>
    have hholds : x.holder = some p :=
      h.holds_of_kept (fun s hkept => by rw [hprog] at hkept; exact absurd hkept.1 (by simp))
    have hkept := h.holder p hholds
    rw [hprog] at hkept hmove
    obtain ⟨-, hgood, hrel, hnext⟩ := hkept
    have hr : r = (run x.st, next x.st) := by
      have hmove : (if timedOut = true then none else some (run x.st, next x.st)) = some r := hmove
      split at hmove
      · cases hmove
      · exact (Option.some.inj hmove).symm
    subst hr
    refine ⟨⟨hgood, fun q hq => ?_, fun q hq s => ?_⟩, .inr hrel⟩
    · have hqp : q = p := Option.some.inj (hq.symm.trans hholds)
      rw [hqp, moved_self]
      exact hnext
    · have hqp : q ≠ p := fun hqp => hq (hqp ▸ hholds)
      rw [moved_of_ne x hqp]
      exact h.others q (fun hq' => hqp (Option.some.inj (hq'.symm.trans hholds))) s
  | await ready next timeout =>
    -- the holder does not wait
    have hother : x.holder ≠ some p := by
      intro hholds
      have hkept := h.holder p hholds
      rw [hprog] at hkept
      exact absurd hkept.1 (by simp)
    have hkept := h.others p hother x.st
    rw [hprog] at hkept hmove
    obtain ⟨-, hnext, htimeout⟩ := hkept
    have hr : r.1 = x.st ∧ ∀ s, r.2.Kept good rel false s := by
      have hmove : (if timedOut = true then some (x.st, timeout)
        else if ready x.st = true then some (x.st, next) else none) = some r := hmove
      split at hmove
      · cases hmove
        exact ⟨rfl, htimeout⟩
      · split at hmove
        · cases hmove
          exact ⟨rfl, hnext⟩
        · cases hmove
    obtain ⟨s', next'⟩ := r
    obtain ⟨rfl, hnext'⟩ := hr
    exact ⟨h.replace hother hnext', .inl rfl⟩

theorem step {allowed : ι → Prop}
    (hjobs : ∀ job, allowed job → ∀ s, (program job).Kept good rel false s)
    {a : Action ι} (hok : x.Starts allowed a)
    (hstep : x.step program a = some y) : Locked good rel y ∧ (y.st = x.st ∨ rel x.st y.st) := by
  cases a with
  | start p job =>
    unfold System.step at hstep
    dsimp only at hstep
    split at hstep
    · rename_i hdone
      cases hstep
      have hother : x.holder ≠ some p := by
        intro hholds
        have hkept := h.holder p hholds
        rw [hdone] at hkept
        cases hkept
      exact ⟨h.replace hother (hjobs job hok), .inl rfl⟩
    · cases hstep
  | run p =>
    unfold System.step at hstep
    dsimp only at hstep
    split at hstep
    · rename_i next hprog
      split at hstep
      · rename_i hfree
        cases hstep
        exact ⟨h.lock (Option.isNone_iff_eq_none.mp hfree) hprog, .inl rfl⟩
      · cases hstep
    · rename_i next hprog
      cases hstep
      exact ⟨h.unlock hprog, .inl rfl⟩
    · obtain ⟨r, hmove, rfl⟩ := Option.map_eq_some_iff.mp hstep
      exact h.move hmove
  | timeout p =>
    obtain ⟨r, hmove, rfl⟩ := Option.map_eq_some_iff.mp hstep
    exact h.move hmove

end Locked

end System

section
variable {program : ι → Prog σ} {allowed : ι → Prop} {x y : System ι σ}

variable (hjobs : ∀ job, allowed job → ∀ s, (program job).Kept good rel false s)
include hjobs

theorem System.Locked.run (hx : System.Locked good rel x)
    (hrun : Reaches (System.step program) (System.Starts allowed) x y) : System.Locked good rel y :=
  hrun.invariant hx (fun _ _ _ h hok hstep => (h.step hjobs hok hstep).1)

/-- **Critical sections.** If every job keeps `good` under the lock, the state is good at every
moment of every interleaving. -/
theorem good_of_kept {s : σ} (hs : good s)
    (hrun : Reaches (System.step program) (System.Starts allowed) (System.idle s) x) : good x.st :=
  ((System.Locked.idle hs).run hjobs hrun).now

theorem rel_of_kept (hrefl : ∀ s, rel s s) (htrans : ∀ {s t u}, rel s t → rel t u → rel s u)
    {s : σ} (hs : good s)
    (hrun : Reaches (System.step program) (System.Starts allowed) (System.idle s) x)
    (hrest : Reaches (System.step program) (System.Starts allowed) x y) : rel x.st y.st := by
  have hx := (System.Locked.idle hs).run hjobs hrun
  have hinv : System.Locked good rel y ∧ rel x.st y.st := by
    induction hrest with
    | refl => exact ⟨hx, hrefl _⟩
    | tail a _ hok hstep ih =>
      obtain ⟨hu, hsame | hrel⟩ := ih.1.step hjobs hok hstep
      · exact ⟨hu, hsame ▸ ih.2⟩
      · exact ⟨hu, htrans ih.2 hrel⟩
  exact hinv.2

end

end Vole.Schedule
