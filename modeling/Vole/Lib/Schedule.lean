import Vole.Lib.Transition
import Mathlib.Logic.Function.Basic

/-!
# Programs that share a state and a mutex

Threads run programs on a shared state. A program takes atomic steps, locks and unlocks one
mutex, and may wait for a condition with a timeout. What a program establishes when it runs
alone, it establishes in every interleaving in which no other thread changes the state between
its first step and its last.
-/

namespace Vole.Schedule

open Transition Function

variable {ι σ : Type*}

/-- A program over the shared state. After a step it goes on as the state before it says. -/
inductive Prog (σ : Type*) where
  | done
  | lock (next : Prog σ)
  | unlock (next : Prog σ)
  | step (run : σ → σ) (next : σ → Prog σ)
  | await (ready : σ → Bool) (next timeout : Prog σ)

namespace Prog

/-- The state once the program has run to its end with nobody else around. -/
def finish : Prog σ → σ → σ
  | .done, s => s
  | .lock next, s => next.finish s
  | .unlock next, s => next.finish s
  | .step run next, s => (next s).finish (run s)
  | .await ready next timeout, s => if ready s then next.finish s else timeout.finish s

/-- Whether there is more to do than to lock and to unlock. -/
def working : Prog σ → Bool
  | .done => false
  | .lock next => next.working
  | .unlock next => next.working
  | .step _ _ => true
  | .await _ _ _ => true

/-- A step on the shared state, or the end of a wait: because of the condition, or of the
timeout. -/
def move (timedOut : Bool) (s : σ) : Prog σ → Option (σ × Prog σ)
  | .step run next => if timedOut then none else some (run s, next s)
  | .await ready next timeout =>
    if timedOut then some (s, timeout) else if ready s then some (s, next) else none
  | _ => none

/-- A wait whose condition does not hold. -/
def Unready (s : σ) : Prog σ → Prop
  | .await ready _ _ => ready s = false
  | _ => True

variable {p p' : Prog σ} {s s' : σ} {timedOut : Bool}

theorem finish_of_idle (h : p.working = false) (s : σ) : p.finish s = s := by
  induction p with
  | done => rfl
  | lock next ih => exact ih h
  | unlock next ih => exact ih h
  | step run next _ => cases h
  | await ready next timeout _ _ => cases h

theorem finish_move (h : p.move timedOut s = some (s', p')) (hready : timedOut = true → p.Unready s) :
    p.finish s = p'.finish s' ∧ p.working = true := by
  cases p with
  | done => cases h
  | lock next => cases h
  | unlock next => cases h
  | step run next =>
    have h : (if timedOut = true then none else some (run s, next s)) = some (s', p') := h
    split at h
    · cases h
    · cases h
      exact ⟨rfl, rfl⟩
  | await ready next timeout =>
    have h : (if timedOut = true then some (s, timeout)
      else if ready s = true then some (s, next) else none) = some (s', p') := h
    refine ⟨?_, rfl⟩
    show (if ready s = true then next.finish s else timeout.finish s) = _
    split at h
    · rename_i hout
      cases h
      have hno : ready s = false := hready hout
      rw [hno]
      rfl
    · split at h
      · rename_i hyes
        cases h
        rw [hyes]
        rfl
      · cases h

end Prog

/-! ## Systems -/

/-- A thread: the job it was given, what is left of the program, and whether it has taken a
step. -/
structure Thread (ι σ : Type*) where
  job : Option ι
  prog : Prog σ
  begun : Bool

namespace Thread

/-- The thread has taken its first step and not its last. -/
def halfway (t : Thread ι σ) : Bool := t.begun && t.prog.working

end Thread

/-- The shared state, the holder of the mutex, and the threads. -/
structure System (ι σ : Type*) where
  st : σ
  holder : Option Nat
  threads : Nat → Thread ι σ

/-- A thread is given a job, takes its next step, or gives up waiting. -/
inductive Action (ι : Type*) where
  | start (p : Nat) (job : ι)
  | run (p : Nat)
  | timeout (p : Nat)

namespace System

/-- No thread has anything to do. -/
def idle (s : σ) : System ι σ := ⟨s, none, fun _ => ⟨none, .done, false⟩⟩

/-- Thread `p` takes a step on the shared state. -/
def moved (x : System ι σ) (p : Nat) (r : σ × Prog σ) : System ι σ :=
  { x with st := r.1
           threads := Function.update x.threads p { x.threads p with prog := r.2, begun := true } }

/-- Thread `p` goes on with `next`, and `holder` holds the mutex. -/
def passed (x : System ι σ) (p : Nat) (holder : Option Nat) (next : Prog σ) : System ι σ :=
  { x with holder := holder
           threads := Function.update x.threads p { x.threads p with prog := next } }

def step (program : ι → Prog σ) (x : System ι σ) : Action ι → Option (System ι σ)
  | .start p job =>
    match (x.threads p).prog with
    | .done => some
        { x with threads := Function.update x.threads p ⟨some job, program job, false⟩ }
    | _ => none
  | .run p =>
    match (x.threads p).prog with
    | .lock next => if x.holder.isNone then some (x.passed p (some p) next) else none
    | .unlock next => some (x.passed p none next)
    | prog => (prog.move false x.st).map (x.moved p)
  | .timeout p => ((x.threads p).prog.move true x.st).map (x.moved p)

/-- No other thread is between its first step and its last, and a job is begun in a state that
meets its condition. -/
structure Free (ok : ι → σ → Prop) (x : System ι σ) (p : Nat) : Prop where
  alone : ∀ q, q ≠ p → (x.threads q).halfway = false
  begins : (x.threads p).begun = false → ∀ job, (x.threads p).job = some job → ok job x.st

/-- The step is the only one of its program, and changes nothing. -/
structure Passing (x : System ι σ) (p : Nat) : Prop where
  first : (x.threads p).begun = false
  nothing : ∃ next, (x.threads p).prog.move false x.st = some (x.st, next) ∧ next.working = false

/-- No thread changes the state while another is between its first step and its last, and no
wait is given up whose condition holds. -/
def Undisturbed (ok : ι → σ → Prop) (x : System ι σ) : Action ι → Prop
  | .start _ _ => True
  | .run p => (x.threads p).prog.move false x.st ≠ none → x.Free ok p ∨ x.Passing p
  | .timeout p => x.Free ok p ∧ (x.threads p).prog.Unready x.st

end System

/-! ## What the programs keep -/

/-- What holds along a run: a job that is not begun would keep `good`; with nobody halfway the
state is good; and a thread that is halfway is the only one, and will end in a good state. -/
structure System.Sound (ok : ι → σ → Prop) (good : σ → Prop) (x : System ι σ) : Prop where
  jobs : ∀ p, (x.threads p).begun = false → ∀ s, good s →
    (∀ job, (x.threads p).job = some job → ok job s) → good ((x.threads p).prog.finish s)
  quiet : (∀ p, (x.threads p).halfway = false) → good x.st
  halfway : ∀ p, (x.threads p).halfway = true →
    (∀ q, q ≠ p → (x.threads q).halfway = false) ∧ good ((x.threads p).prog.finish x.st)

namespace System

theorem congr_update {α β : Type*} {f : Nat → α} {p : Nat} {a : α} {g : α → β}
    (h : g a = g (f p)) (q : Nat) : g (update f p a q) = g (f q) := by
  by_cases hq : q = p
  · rw [hq, update_self, h]
  · rw [update_of_ne hq]

theorem moved_self (x : System ι σ) (p : Nat) (r : σ × Prog σ) :
    (x.moved p r).threads p = { x.threads p with prog := r.2, begun := true } :=
  update_self ..

theorem moved_of_ne (x : System ι σ) {p q : Nat} (hq : q ≠ p) (r : σ × Prog σ) :
    (x.moved p r).threads q = x.threads q :=
  update_of_ne hq ..

end System

namespace System.Sound

variable {program : ι → Prog σ} {ok : ι → σ → Prop} {good : σ → Prop} {x y : System ι σ} {p : Nat}

variable (h : Sound ok good x)
include h

/-- Jobs are given out and taken up without a change to the state or to a thread that is
halfway. -/
theorem still (hst : y.st = x.st) (hhalfway : ∀ q, (y.threads q).halfway = (x.threads q).halfway)
    (hfinish : ∀ q, (x.threads q).halfway = true →
      (y.threads q).prog.finish x.st = (x.threads q).prog.finish x.st)
    (hjobs : ∀ q, (y.threads q).begun = false → ∀ s, good s →
      (∀ job, (y.threads q).job = some job → ok job s) → good ((y.threads q).prog.finish s)) :
    Sound ok good y := by
  refine ⟨hjobs, fun hnone => ?_, fun q hq => ?_⟩
  · rw [hst]
    exact h.quiet (fun q => (hhalfway q).symm.trans (hnone q))
  · rw [hhalfway] at hq
    rw [hst, hfinish q hq]
    exact ⟨fun r hr => (hhalfway r).trans ((h.halfway q hq).1 r hr), (h.halfway q hq).2⟩

/-- The next step of a thread leaves the jobs of the others to be begun. -/
theorem moved_jobs {r : σ × Prog σ} (q : Nat)
    (hbegun : ((x.moved p r).threads q).begun = false) (s : σ) (hs : good s)
    (hok : ∀ job, ((x.moved p r).threads q).job = some job → ok job s) :
    good (((x.moved p r).threads q).prog.finish s) := by
  by_cases hqp : q = p
  · rw [hqp, moved_self] at hbegun
    cases hbegun
  · rw [moved_of_ne x hqp] at hbegun hok ⊢
    exact h.jobs q hbegun s hs hok

theorem start (hjobs : ∀ job s, good s → ok job s → good ((program job).finish s))
    {job : ι} (hdone : (x.threads p).prog = .done) : Sound ok good
      { x with threads := update x.threads p ⟨some job, program job, false⟩ } := by
  -- neither before nor after is `p` halfway
  have hidle : (x.threads p).halfway = false := by
    unfold Thread.halfway
    rw [hdone]
    exact Bool.and_false _
  refine h.still rfl (congr_update hidle.symm) (fun q hq => ?_) (fun q hbegun s hs hok => ?_)
  · have hqp : q ≠ p := fun hqp => absurd (hqp ▸ hq) (by simp [hidle])
    dsimp only
    rw [update_of_ne hqp]
  · dsimp only at hbegun hok ⊢
    by_cases hqp : q = p
    · rw [hqp, update_self] at hok ⊢
      exact hjobs job s hs (hok job rfl)
    · rw [update_of_ne hqp] at hbegun hok ⊢
      exact h.jobs q hbegun s hs hok

/-- Locking and unlocking do not change what the thread comes to. -/
theorem passed {next : Prog σ} {holder : Option Nat}
    (hfinish : ∀ s, (x.threads p).prog.finish s = next.finish s)
    (hworking : (x.threads p).prog.working = next.working) :
    Sound ok good (x.passed p holder next) := by
  have hthread : ∀ q, ((x.passed p holder next).threads q).job = (x.threads q).job ∧
      ((x.passed p holder next).threads q).begun = (x.threads q).begun ∧
      ((x.passed p holder next).threads q).halfway = (x.threads q).halfway ∧
      ∀ s, ((x.passed p holder next).threads q).prog.finish s = (x.threads q).prog.finish s := by
    intro q
    unfold System.passed
    dsimp only
    by_cases hq : q = p
    · rw [hq, update_self]
      refine ⟨rfl, rfl, ?_, fun s => (hfinish s).symm⟩
      unfold Thread.halfway
      rw [hworking]
    · rw [update_of_ne hq]
      exact ⟨rfl, rfl, rfl, fun _ => rfl⟩
  refine h.still rfl (fun q => (hthread q).2.2.1) (fun q _ => (hthread q).2.2.2 x.st)
    (fun q hbegun s hs hok => ?_)
  obtain ⟨hjob, hbegun', -, hfinish'⟩ := hthread q
  rw [hfinish']
  rw [hbegun'] at hbegun
  rw [hjob] at hok
  exact h.jobs q hbegun s hs hok

theorem free {timedOut : Bool} {r : σ × Prog σ} (hfree : x.Free ok p)
    (hready : timedOut = true → (x.threads p).prog.Unready x.st)
    (hmove : (x.threads p).prog.move timedOut x.st = some r) : Sound ok good (x.moved p r) := by
  obtain ⟨s', next⟩ := r
  obtain ⟨hfinish, hworking⟩ := Prog.finish_move hmove hready
  have hgood : good (next.finish s') := by
    rw [← hfinish]
    by_cases hbegun : (x.threads p).begun = true
    · refine (h.halfway p ?_).2
      unfold Thread.halfway
      rw [hbegun, hworking]
      rfl
    · have hbegun : (x.threads p).begun = false := Bool.not_eq_true _ ▸ hbegun
      refine h.jobs p hbegun x.st (h.quiet (fun q => ?_)) (hfree.begins hbegun)
      by_cases hq : q = p
      · unfold Thread.halfway
        rw [hq, hbegun]
        rfl
      · exact hfree.alone q hq
  refine ⟨h.moved_jobs, fun hnone => ?_, fun q hq => ?_⟩
  · have hidle := hnone p
    rw [moved_self] at hidle
    rw [Prog.finish_of_idle hidle] at hgood
    exact hgood
  · have hqp : q = p := by
      by_contra hqp
      rw [moved_of_ne x hqp, hfree.alone q hqp] at hq
      cases hq
    subst hqp
    refine ⟨fun r hr => ?_, ?_⟩
    · rw [moved_of_ne x hr]
      exact hfree.alone r hr
    · rw [moved_self]
      exact hgood

/-- A step that changes nothing and has none after it. -/
theorem passing {r : σ × Prog σ} (hpassing : x.Passing p)
    (hmove : (x.threads p).prog.move false x.st = some r) : Sound ok good (x.moved p r) := by
  obtain ⟨next, hnext, hidle⟩ := hpassing.nothing
  rw [hnext] at hmove
  cases hmove
  have hbefore : (x.threads p).halfway = false := by
    unfold Thread.halfway
    rw [hpassing.first]
    rfl
  refine h.still rfl (congr_update (hidle.trans hbefore.symm)) (fun q hq => ?_) h.moved_jobs
  have hqp : q ≠ p := fun hqp => absurd (hqp ▸ hq) (by simp [hbefore])
  rw [moved_of_ne x hqp]

theorem step (hjobs : ∀ job s, good s → ok job s → good ((program job).finish s))
    {a : Action ι} (hok : x.Undisturbed ok a)
    (hstep : x.step program a = some y) : Sound ok good y := by
  cases a with
  | start p job =>
    unfold System.step at hstep
    dsimp only at hstep
    split at hstep
    · rename_i hdone
      cases hstep
      exact h.start hjobs hdone
    · cases hstep
  | run p =>
    unfold System.step at hstep
    dsimp only at hstep
    split at hstep
    · rename_i next hprog
      split at hstep
      · cases hstep
        exact h.passed (fun s => by rw [hprog]; rfl) (by rw [hprog]; rfl)
      · cases hstep
    · rename_i next hprog
      cases hstep
      exact h.passed (fun s => by rw [hprog]; rfl) (by rw [hprog]; rfl)
    · obtain ⟨r, hmove, rfl⟩ := Option.map_eq_some_iff.mp hstep
      rcases hok (by rw [hmove]; simp) with hfree | hpassing
      · exact h.free hfree (fun hout => absurd hout Bool.false_ne_true) hmove
      · exact h.passing hpassing hmove
  | timeout p =>
    obtain ⟨r, hmove, rfl⟩ := Option.map_eq_some_iff.mp hstep
    exact h.free hok.1 (fun _ => hok.2) hmove

end System.Sound

end Vole.Schedule
