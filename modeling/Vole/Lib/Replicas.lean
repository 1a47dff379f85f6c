import Mathlib.Algebra.Notation.Pi.Basic
import Mathlib.Logic.Function.Basic

/-!
# Two replicas of a map

Two replicas of a map from keys to values, with a first-in first-out link in each direction.
A replica makes an update and sends it to the other, which makes it when it arrives; nothing
orders the updates of the two against each other. A link that was closed is opened again by a
copy of the sender's map, which the receiver takes only if its own map is zero.
-/

namespace Vole.Replica

open Function

variable {K V : Type*} [DecidableEq K] [Zero V]

/-! ## Updates -/

/-- The same change to the values of some keys. -/
structure Update (K V : Type*) where
  keys : List K
  value : V → V

namespace Update

variable {u v : Update K V}

def apply (u : Update K V) (m : K → V) : K → V :=
  fun k => if k ∈ u.keys then u.value (m k) else m k

/-- The updates have no key in common. -/
def Apart (u v : Update K V) : Prop := ∀ k ∈ u.keys, k ∉ v.keys

omit [Zero V] in
theorem Apart.comm (h : Apart u v) (m : K → V) : v.apply (u.apply m) = u.apply (v.apply m) := by
  funext k
  unfold apply
  by_cases hu : k ∈ u.keys
  · simp [hu, h k hu]
  · simp [hu]

end Update

/-! ## What is on its way -/

/-- An update, or a copy of the sender's map. -/
inductive Item (K V : Type*) where
  | update (u : Update K V)
  | copy (m : K → V)

namespace Item

def IsCopy (i : Item K V) : Prop := ∃ m, i = .copy m

open Classical in
/-- What a replica makes of an item. -/
noncomputable def arrive (m : K → V) : Item K V → K → V
  | .update u => u.apply m
  | .copy c => if m = 0 then c else m

variable {m : K → V} {i : Item K V}

theorem arrive_copy_of_ne (c : K → V) (h : m ≠ 0) : (Item.copy c).arrive m = m := if_neg h

theorem arrive_copy_zero (c : K → V) : (Item.copy c).arrive 0 = c := if_pos rfl

end Item

/-- What a replica makes of several items in turn. -/
noncomputable def arriveAll (items : List (Item K V)) (m : K → V) : K → V :=
  items.foldl (fun m i => i.arrive m) m

section
variable {items : List (Item K V)} {m : K → V} {u : Update K V}

theorem arriveAll_concat (i : Item K V) :
    arriveAll (items ++ [i]) m = i.arrive (arriveAll items m) := by
  unfold arriveAll
  rw [List.foldl_append]
  rfl

theorem arriveAll_apply (h : ∀ i ∈ items, ∃ v, i = .update v ∧ u.Apart v) :
    arriveAll items (u.apply m) = u.apply (arriveAll items m) := by
  induction items generalizing m with
  | nil => rfl
  | cons i rest ih =>
    obtain ⟨v, rfl, hapart⟩ := h i (.head _)
    show arriveAll rest (v.apply (u.apply m)) = u.apply (arriveAll rest (v.apply m))
    rw [hapart.comm]
    exact ih (fun j hj => h j (.tail _ hj))

theorem arriveAll_copies (h : ∀ i ∈ items, i.IsCopy) (hm : m ≠ 0) : arriveAll items m = m := by
  induction items with
  | nil => rfl
  | cons i rest ih =>
    obtain ⟨c, rfl⟩ := h i (.head _)
    show arriveAll rest ((Item.copy c).arrive m) = m
    rw [Item.arrive_copy_of_ne c hm]
    exact ih (fun j hj => h j (.tail _ hj))

theorem arriveAll_blank (h : ∀ i ∈ items, i = .copy 0) : arriveAll items m = m := by
  by_cases hm : m = 0
  · subst hm
    induction items with
    | nil => rfl
    | cons i rest ih =>
      rw [h i (.head _)]
      show arriveAll rest ((Item.copy 0).arrive 0) = 0
      rw [Item.arrive_copy_zero]
      exact ih (fun j hj => h j (.tail _ hj))
  · exact arriveAll_copies (fun i hi => ⟨0, h i hi⟩) hm

end

/-! ## The replicas -/

/-- How far the sender of a link is: closed, a copy has been sent, or open for updates. -/
inductive Phase where
  | down | copying | up
  deriving DecidableEq

/-- Two replicas; `flight x` is what `x` has sent and `!x` has not received. -/
structure Replicas (K V : Type*) where
  map : Bool → K → V
  phase : Bool → Phase
  flight : Bool → List (Item K V)

namespace Replicas

/-- What `x` will have once everything has arrived that is on its way to it. -/
noncomputable def final (p : Replicas K V) (x : Bool) : K → V := arriveAll (p.flight (!x)) (p.map x)

/-- The other replica has nothing, has sent nothing, and will be sent a copy of `x`. -/
structure Joining (p : Replicas K V) (x : Bool) : Prop where
  down : p.phase x = .down
  zero : p.map (!x) = 0
  blank : ∀ i ∈ p.flight (!x), i = .copy 0

/-- A closed link carries nothing; and the replicas will agree, or one of them is still to be
sent a copy of the other. -/
structure Coherent (p : Replicas K V) : Prop where
  quiet : ∀ x, p.phase x = .down → p.flight x = []
  agree : (∀ x, p.final x = p.final (!x)) ∨ ∃ x, p.Joining x

variable {p q : Replicas K V} {x : Bool}

omit [DecidableEq K] [Zero V] in
theorem forall_of_side {f : Bool → K → V} (h : f x = f (!x)) (y : Bool) : f y = f (!y) := by
  cases x <;> cases y <;> first | exact h | exact h.symm

omit [DecidableEq K] in
theorem joining_side (h : ∃ y, p.Joining y) (x : Bool) : p.Joining x ∨ p.Joining (!x) := by
  obtain ⟨y, hy⟩ := h
  by_cases hxy : y = x
  · exact .inl (hxy ▸ hy)
  · exact .inr (Bool.eq_not.mpr hxy ▸ hy)

variable (h : p.Coherent)
include h

/-- An update that is sent: the link is open, what is on its way to the writer is apart from
it, and the writer is not one that is still to be sent a copy. -/
theorem Coherent.write {u : Update K V} (hup : p.phase x = .up)
    (hopen : p.phase (!x) = .down → p.map x ≠ 0)
    (hapart : ∀ i ∈ p.flight (!x), ∃ v, i = .update v ∧ u.Apart v)
    (hx : q.map x = u.apply (p.map x)) (hother : q.map (!x) = p.map (!x))
    (hphase : q.phase = p.phase) (hsent : q.flight x = p.flight x ++ [.update u])
    (hkept : q.flight (!x) = p.flight (!x)) : q.Coherent := by
  have hquiet : ∀ y, q.phase y = .down → q.flight y = [] := by
    intro y hy
    rw [hphase] at hy
    by_cases hyx : y = x
    · rw [hyx, hup] at hy
      cases hy
    · rw [Bool.eq_not.mpr hyx] at hy ⊢
      rw [hkept]
      exact h.quiet _ hy
  refine ⟨hquiet, .inl (forall_of_side (x := x) ?_)⟩
  rcases h.agree with hagree | hjoining
  · unfold final
    rw [Bool.not_not, hx, hkept, hother, hsent, arriveAll_concat, arriveAll_apply hapart]
    have hfinal := hagree x
    unfold final at hfinal
    rw [Bool.not_not] at hfinal
    rw [hfinal]
    rfl
  · rcases joining_side hjoining x with hj | hj
    · exact absurd (hup.symm.trans hj.down) (by decide)
    · have hzero := hj.zero
      rw [Bool.not_not] at hzero
      exact absurd hzero (hopen hj.down)

/-- An update that is not sent, while the other replica has nothing and has sent nothing. -/
theorem Coherent.writeAlone (hdown : p.phase x = .down) (hzero : p.map (!x) = 0)
    (hnone : p.flight (!x) = []) (hother : q.map (!x) = p.map (!x)) (hphase : q.phase = p.phase)
    (hflight : q.flight = p.flight) : q.Coherent := by
  refine ⟨by rw [hphase, hflight]; exact h.quiet, .inr ⟨x, ?_, ?_, ?_⟩⟩
  · rw [hphase]
    exact hdown
  · rw [hother]
    exact hzero
  · rw [hflight, hnone]
    exact nofun

theorem Coherent.congr (hmap : q.map = p.map) (hphase : q.phase = p.phase)
    (hflight : q.flight = p.flight) : q.Coherent := by
  obtain ⟨map, phase, flight⟩ := q
  cases hmap
  cases hphase
  cases hflight
  exact h

theorem Coherent.arrive {i : Item K V} {rest : List (Item K V)}
    (hfirst : p.flight (!x) = i :: rest) (hx : q.map x = i.arrive (p.map x))
    (hother : q.map (!x) = p.map (!x)) (hphase : q.phase = p.phase)
    (hrest : q.flight (!x) = rest) (hkept : q.flight x = p.flight x) : q.Coherent := by
  have hopen : p.phase (!x) ≠ .down := by
    intro hdown
    rw [h.quiet _ hdown] at hfirst
    cases hfirst
  refine ⟨fun y hy => ?_, ?_⟩
  · rw [hphase] at hy
    by_cases hyx : y = x
    · rw [hyx] at hy ⊢
      rw [hkept]
      exact h.quiet _ hy
    · rw [Bool.eq_not.mpr hyx] at hy
      exact absurd hy hopen
  rcases h.agree with hagree | hjoining
  · refine .inl (forall_of_side (x := x) ?_)
    have hfinal := hagree x
    unfold final at hfinal ⊢
    rw [Bool.not_not] at hfinal ⊢
    rw [hx, hother, hrest, hkept, ← hfinal, hfirst]
    rfl
  · rcases joining_side hjoining x with hj | hj
    · refine .inr ⟨x, by rw [hphase]; exact hj.down, by rw [hother]; exact hj.zero, ?_⟩
      rw [hrest]
      exact fun j hj' => hj.blank j (hfirst ▸ .tail _ hj')
    · exact absurd hj.down hopen

/-- A closed link is opened with a copy of the sender's map. If the receiver has nothing, only
copies may be on their way from it. -/
theorem Coherent.copy (hdown : p.phase x = .down)
    (hcopies : p.map (!x) = 0 → ∀ i ∈ p.flight (!x), i.IsCopy)
    (hmap : q.map = p.map) (hphase : q.phase = update p.phase x .copying)
    (hsent : q.flight x = [.copy (p.map x)]) (hkept : q.flight (!x) = p.flight (!x)) :
    q.Coherent := by
  have hne : (!x) ≠ x := by cases x <;> decide
  have hphase' : q.phase (!x) = p.phase (!x) := by
    rw [hphase, update_of_ne hne]
  have hfinal : q.final x = p.final x := by
    unfold final
    rw [hkept, hmap]
  have hfinal' : q.final (!x) = (Item.copy (p.map x)).arrive (p.map (!x)) := by
    unfold final
    rw [Bool.not_not, hsent, hmap]
    rfl
  refine ⟨fun y hy => ?_, ?_⟩
  · by_cases hyx : y = x
    · rw [hyx, hphase, update_self] at hy
      cases hy
    · rw [Bool.eq_not.mpr hyx] at hy ⊢
      rw [hkept]
      exact h.quiet _ (hphase' ▸ hy)
  -- a replica that is still to be sent a copy of the receiver, and so has nothing
  have hstill (hj : p.Joining (!x)) : q.Joining (!x) := by
    have hzero := hj.zero
    rw [Bool.not_not] at hzero
    refine ⟨hphase'.trans hj.down, ?_, fun i hi => ?_⟩
    · rw [Bool.not_not, hmap]
      exact hzero
    · rw [Bool.not_not, hsent, hzero] at hi
      exact List.mem_singleton.mp hi
  rcases h.agree with hagree | hjoining
  · refine .inl (forall_of_side (x := x) ?_)
    have hp : p.final x = p.map (!x) := by
      rw [hagree x]
      unfold final
      rw [Bool.not_not, h.quiet x hdown]
      rfl
    rw [hfinal, hfinal', hp]
    by_cases hzero : p.map (!x) = 0
    · rw [hzero, Item.arrive_copy_zero]
      by_contra hx
      have hskipped : p.final x = p.map x :=
        arriveAll_copies (hcopies hzero) (fun h0 => hx h0.symm)
      exact hx ((hzero.symm.trans hp.symm).trans hskipped)
    · rw [Item.arrive_copy_of_ne _ hzero]
  · rcases joining_side hjoining x with hj | hj
    · refine .inl (forall_of_side (x := x) ?_)
      rw [hfinal, hfinal', hj.zero, Item.arrive_copy_zero]
      exact arriveAll_blank hj.blank
    · exact .inr ⟨!x, hstill hj⟩

/-- A link is opened or closed: what is closed carries nothing, and no link is opened that a
copy is still to be sent on. -/
theorem Coherent.rephase (hmap : q.map = p.map) (hflight : q.flight = p.flight)
    (hquiet : ∀ y, q.phase y = .down → p.flight y = [])
    (hdown : ∀ y, p.phase y = .down → q.phase y = .down) : q.Coherent := by
  refine ⟨fun y hy => ?_, ?_⟩
  · rw [hflight]
    exact hquiet y hy
  rcases h.agree with hagree | ⟨y, hj⟩
  · refine .inl (fun y => ?_)
    have hfinal := hagree y
    unfold final at hfinal ⊢
    rw [hmap, hflight]
    exact hfinal
  · exact .inr ⟨y, hdown y hj.down, by rw [hmap]; exact hj.zero, by rw [hflight]; exact hj.blank⟩

theorem Coherent.reopen (hcopying : p.phase x = .copying) (hmap : q.map = p.map)
    (hphase : q.phase = update p.phase x .up) (hflight : q.flight = p.flight) : q.Coherent := by
  have hdown : ∀ y, q.phase y = .down ↔ p.phase y = .down := by
    intro y
    rw [hphase]
    by_cases hyx : y = x
    · rw [hyx, update_self, hcopying]
      decide
    · rw [update_of_ne hyx]
  exact h.rephase hmap hflight (fun y hy => h.quiet y ((hdown y).mp hy)) (fun y => (hdown y).mpr)

theorem Coherent.close (hnone : p.flight x = []) (hmap : q.map = p.map)
    (hphase : q.phase = update p.phase x .down) (hflight : q.flight = p.flight) : q.Coherent := by
  refine h.rephase hmap hflight (fun y hy => ?_) (fun y hy => ?_)
  · by_cases hyx : y = x
    · rw [hyx]
      exact hnone
    · rw [hphase, update_of_ne hyx] at hy
      exact h.quiet y hy
  · rw [hphase]
    by_cases hyx : y = x
    · rw [hyx, update_self]
    · rw [update_of_ne hyx]
      exact hy

theorem Coherent.settled (hup : ∀ x, p.phase x = .up)
    (hnone : ∀ x, p.flight x = []) : p.map true = p.map false := by
  rcases h.agree with hagree | ⟨x, hj⟩
  · have hfinal := hagree true
    unfold final at hfinal
    rw [hnone, hnone] at hfinal
    exact hfinal
  · exact absurd ((hup x).symm.trans hj.down) (by decide)

end Replicas

end Vole.Replica
