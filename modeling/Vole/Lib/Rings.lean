import Vole.Lib.Slices
import Vole.Lib.SortedLists
import Mathlib.Data.List.Rotate
import Mathlib.Data.Nat.ModEq

/-!
# Ring buffers

A buffer that is used as a ring: the place `i` of the ring lies `i` positions after the head, and
what runs over the end of the buffer goes on at its start. Reads and writes are checked, the
remainder as well as the index. Read from the head on, the ring is the buffer rotated.
-/

namespace Vole.Rings

open Slices List Readers

variable {α : Type}

/-- `buf[(head+i)%len(buf)]` -/
def readRing (buf : List α) (head i : Int) : Except Crash α := do
  let j ← modulo (head + i) buf.length
  indexAt buf j

/-- `buf[(head+i)%len(buf)] = a` -/
def writeRing (buf : List α) (head i : Int) (a : α) : Except Crash (List α) := do
  let j ← modulo (head + i) buf.length
  setAt buf j a

/-- `buf[(head+dst)%len(buf)] = buf[(head+src)%len(buf)]` -/
def moveRing (buf : List α) (head src dst : Int) : Except Crash (List α) := do
  let src ← modulo (head + src) buf.length
  let dst ← modulo (head + dst) buf.length
  let a ← indexAt buf src
  setAt buf dst a

/-- The buffer from the head on. -/
def ring (buf : List α) (head : Int) : List α := buf.rotate head.toNat

/-- The position `i` places after the head. -/
def place (buf : List α) (head : Int) (i : Nat) : Nat := (head.toNat + i) % buf.length

def ringSet (buf : List α) (head : Int) (i : Nat) (a : α) : List α := buf.set (place buf head i) a

/-- The head lies in the buffer. -/
structure HeadIn (buf : List α) (head : Int) : Prop where
  nonneg : 0 ≤ head
  lt : head < buf.length

@[simp] theorem length_ring (buf : List α) (head : Int) : (ring buf head).length = buf.length :=
  length_rotate ..

theorem place_ringSet (buf : List α) (head : Int) (i j : Nat) (a : α) :
    place (ringSet buf head i a) head j = place buf head j := by
  unfold place ringSet
  rw [length_set]

/-- A ring that starts `i` places later. -/
theorem ring_place (buf : List α) (head : Int) (i : Nat) :
    ring buf (place buf head i) = (ring buf head).rotate i := by
  unfold ring place
  rw [Int.toNat_natCast, rotate_mod, rotate_rotate]

section
variable {buf : List α} {head : Int} {i j : Nat} {a : α}

theorem ring_ringSet (hi : i < buf.length) :
    ring (Rings.ringSet buf head i a) head = (ring buf head).set i a := by
  refine ext_getElem? (fun k => ?_)
  unfold ring Rings.ringSet
  by_cases hk : k < buf.length
  · have hplaces : (head.toNat + i) % buf.length = (k + head.toNat) % buf.length ↔ i = k := by
      rw [Nat.add_comm k]
      exact ⟨fun heq => (Nat.ModEq.add_left_cancel' head.toNat heq).eq_of_lt_of_lt hi hk,
        fun heq => heq ▸ rfl⟩
    rw [getElem?_rotate (by rwa [length_set]), length_set, getElem?_set, getElem?_set,
      getElem?_rotate hk, length_rotate, Rings.place]
    simp only [hplaces, if_pos hi, if_pos (Nat.mod_lt _ (Nat.zero_lt_of_lt hi))]
  · rw [getElem?_eq_none (by simp; omega), getElem?_eq_none (by simp; omega)]

theorem indexAt_place (ha : (ring buf head)[i]? = some a) :
    indexAt buf (Rings.place buf head i) = .ok a := by
  obtain ⟨hi, -⟩ := List.getElem?_eq_some_iff.mp ha
  rw [length_ring] at hi
  rw [ring, getElem?_rotate hi, Nat.add_comm] at ha
  unfold indexAt
  rw [if_pos (Int.natCast_nonneg _), Int.toNat_natCast, Rings.place, ha]
  rfl

variable (h : HeadIn buf head)
include h

theorem HeadIn.place (i : Nat) : HeadIn buf (place buf head i) := by
  have hlt := h.lt
  have hnonneg := h.nonneg
  exact ⟨Int.natCast_nonneg _, Int.ofNat_lt.mpr (Nat.mod_lt _ (by omega))⟩

theorem HeadIn.ringSet : HeadIn (ringSet buf head i a) head :=
  ⟨h.nonneg, by unfold Rings.ringSet; rw [length_set]; exact h.lt⟩

theorem modulo_eq_place : modulo (head + i) buf.length = .ok (Rings.place buf head i : Int) := by
  have hlt := h.lt
  have hnonneg := h.nonneg
  rw [modulo_eq_ok (by omega) (by omega), Rings.place, Int.natCast_emod, Int.natCast_add,
    Int.toNat_of_nonneg hnonneg]

theorem place_zero : (Rings.place buf head 0 : Int) = head := by
  have hlt := h.lt
  have hnonneg := h.nonneg
  rw [Rings.place, Nat.add_zero, Nat.mod_eq_of_lt (by omega), Int.toNat_of_nonneg hnonneg]

theorem setAt_place : setAt buf (Rings.place buf head i) a = .ok (Rings.ringSet buf head i a) :=
  setAt_eq_ok (h.place i).nonneg (h.place i).lt

theorem readRing_eq_ok (ha : (ring buf head)[i]? = some a) : readRing buf head i = .ok a := by
  unfold readRing
  rw [modulo_eq_place h, ok_bind, indexAt_place ha]

theorem writeRing_eq_ok : writeRing buf head i a = .ok (Rings.ringSet buf head i a) := by
  unfold writeRing
  rw [modulo_eq_place h, ok_bind, setAt_place h]

theorem moveRing_eq_ok (ha : (ring buf head)[i]? = some a) :
    moveRing buf head i j = .ok (Rings.ringSet buf head j a) := by
  unfold moveRing
  rw [modulo_eq_place h, ok_bind, modulo_eq_place h, ok_bind, indexAt_place ha, ok_bind,
    setAt_place h]

end

/-- The elements stand in the ring with the place `j` left open. -/
def Gap (buf : List α) (head : Int) (items : List α) (j : Int) : Prop :=
  HeadIn buf head ∧ ∃ front back x free, items = front ++ back ∧ (front.length : Int) = j ∧
    ring buf head = front ++ x :: (back ++ free)

namespace Gap

variable {buf : List α} {head j : Int} {items : List α} {a : α}

theorem lt_length (h : Gap buf head items j) : j < buf.length := by
  obtain ⟨-, front, back, x, free, -, rfl, hring⟩ := h
  rw [← length_ring buf head, hring, length_append, length_cons]
  omega

/-- A place behind the elements is open. -/
theorem at_end {x : α} {free : List α} (hhead : HeadIn buf head)
    (hring : ring buf head = items ++ x :: free) : Gap buf head items items.length :=
  ⟨hhead, items, [], x, free, (append_nil _).symm, rfl, hring⟩

/-- So is the place before them, where a ring starts whose head is the last place of this one. -/
theorem at_start {x : α} {free : List α} (hhead : HeadIn buf head)
    (hring : ring buf head = items ++ x :: free) :
    Gap buf (place buf head (buf.length - 1)) items 0 := by
  obtain ⟨init, last, hlast⟩ : ∃ init last, x :: free = init ++ [last] :=
    ⟨_, _, (dropLast_append_getLast (cons_ne_nil x free)).symm⟩
  rw [hlast, ← append_assoc] at hring
  have hlen : buf.length - 1 = (items ++ init).length := by
    rw [← length_ring buf head, hring, length_append, length_singleton, Nat.add_sub_cancel]
  refine ⟨hhead.place _, [], items, last, init, rfl, rfl, ?_⟩
  rw [ring_place, hring, hlen, rotate_append_length_eq]
  rfl

theorem up (h : Gap buf head items j) (hj : j < items.length) :
    ∃ buf', moveRing buf head (1 + j) j = .ok buf' ∧
      Gap buf' head items (j + 1) := by
  have hlt := h.lt_length
  obtain ⟨hhead, front, back, x, free, rfl, rfl, hring⟩ := h
  cases back with
  | nil => simp at hj
  | cons b back =>
    have hmove := moveRing_eq_ok (i := 1 + front.length) (j := front.length) (a := b) hhead
      (by simp [hring, Nat.add_comm 1])
    refine ⟨_, hmove, hhead.ringSet, front ++ [b], back, b, free, by simp, by simp, ?_⟩
    rw [ring_ringSet (by omega), hring, set_append_right _ _ (Nat.le_refl _)]
    simp

theorem down (h : Gap buf head items j) (hj : 0 < j) :
    ∃ buf', moveRing buf head (j - 1) j = .ok buf' ∧
      Gap buf' head items (j - 1) := by
  have hlt := h.lt_length
  obtain ⟨hhead, front, back, x, free, rfl, rfl, hring⟩ := h
  rcases front.eq_nil_or_concat with rfl | ⟨front, f, rfl⟩
  · simp at hj
  · rw [concat_eq_append] at *
    have hmove := moveRing_eq_ok (i := front.length) (j := front.length + 1) (a := f) hhead
      (by simp [hring])
    have hbefore : ((front ++ [f]).length : Int) - 1 = front.length := by simp
    have hhere : ((front ++ [f]).length : Int) = (front.length + 1 : Nat) := by simp
    rw [hbefore, hhere]
    refine ⟨_, hmove, hhead.ringSet, front, f :: back, f, free, by simp, rfl, ?_⟩
    rw [ring_ringSet (by omega), hring, set_append_right _ _ (by simp)]
    simp

theorem fill {k : Nat} (h : Gap buf head items k) (a : α) :
    items.insertIdx k a <+: ring (ringSet buf head k a) head := by
  have hlt := h.lt_length
  obtain ⟨hhead, front, back, x, free, rfl, hk, hring⟩ := h
  cases Int.ofNat.inj hk
  refine ⟨free, ?_⟩
  rw [ring_ringSet (by omega), hring, set_append_right _ _ (Nat.le_refl _),
    SortedLists.insertIdx_length_append]
  simp

end Gap

end Vole.Rings
