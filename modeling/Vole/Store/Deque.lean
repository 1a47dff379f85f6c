import Vole.Lib.Rings
import Vole.Store.SortedSet

/-!
# The ring buffer behind a list

`Deque` of `deque.go`: a buffer that is used as a ring, with the position of the first element
and the number of elements. Every access to the buffer and every remainder is checked, so that
an operation that returns has neither left the buffer nor divided by zero.
-/

namespace Vole

open Go Slices Rings List Readers

variable {i : Nat}

structure Deque where
  buf : List Bytes
  head : Int
  count : Int

def dequeMinCap : Int := 8

namespace Deque

/-- The zero value. -/
def zero : Deque := ⟨[], 0, 0⟩

variable (d : Deque)

/-- `len(d.buf)` -/
def cap : Int := d.buf.length

def len : Int := d.count

/-- `at`, and `Get` -/
def get (i : Int) : Except Crash Bytes := readRing d.buf d.head i

/-- The loop of `grow`, `Range` and `ToSlice`: `n` elements from the logical index `start` on
are written to the front of `out`. -/
def copyTo (start : Int) (n : Nat) (out : List Bytes) : Except Crash (List Bytes) :=
  forUp (fun i out => do
    let v ← d.get i
    setAt out (i - start) v) n start out

def grow : Except Crash Deque := do
  let newCap := d.cap * 2
  let newCap := if newCap < dequeMinCap then dequeMinCap else newCap
  let newBuf ← makeZeroed [] newCap
  let newBuf ← d.copyTo 0 d.count.toNat newBuf
  .ok { d with buf := newBuf, head := 0 }

/-- The check for room at the start of a push or an insertion. -/
def room : Except Crash Deque := if d.count = d.cap then d.grow else .ok d

/-- One round of `PushFront`. -/
def pushFrontOne (v : Bytes) : Except Crash Deque := do
  let d ← d.room
  let head ← modulo (d.head - 1 + d.cap) d.cap
  let buf ← setAt d.buf head v
  .ok ⟨buf, head, d.count + 1⟩

def pushFront (vals : List Bytes) : Except Crash Deque := vals.foldlM pushFrontOne d

/-- One round of `PushBack`. -/
def pushBackOne (v : Bytes) : Except Crash Deque := do
  let d ← d.room
  let buf ← writeRing d.buf d.head d.count v
  .ok { d with buf := buf, count := d.count + 1 }

def pushBack (vals : List Bytes) : Except Crash Deque := vals.foldlM pushBackOne d

def popFront : Except Crash (Option Bytes × Deque) :=
  if d.count = 0 then .ok (none, d)
  else do
    let val ← indexAt d.buf d.head
    let buf ← setAt d.buf d.head []
    let head ← modulo (d.head + 1) d.cap
    .ok (some val, ⟨buf, head, d.count - 1⟩)

def popBack : Except Crash (Option Bytes × Deque) :=
  if d.count = 0 then .ok (none, d)
  else do
    let idx ← modulo (d.head + d.count - 1) d.cap
    let val ← indexAt d.buf idx
    let buf ← setAt d.buf idx []
    .ok (some val, { d with buf := buf, count := d.count - 1 })

def set (i : Int) (val : Bytes) : Except Crash Deque := do
  let buf ← writeRing d.buf d.head i val
  .ok { d with buf := buf }

def range (start stop : Int) : Except Crash (List Bytes) :=
  match normalizeRange start stop d.count.toNat with
  | none => .ok []
  | some (start, stop) => do
      let out ← makeZeroed [] ((stop : Int) - start + 1)
      d.copyTo start (stop - start + 1) out

def toSlice : Except Crash (List Bytes) :=
  if d.count = 0 then .ok []
  else do
    let out ← makeZeroed [] d.count
    d.copyTo 0 d.count.toNat out

/-- The shift of `Insert`: the shorter side moves by one place. -/
def openAt (i : Int) : Except Crash Deque :=
  if i ≤ d.count.tdiv 2 then do
    let head ← modulo (d.head - 1 + d.cap) d.cap
    let buf ← forUp (fun j buf => moveRing buf head (1 + j) j) i.toNat 0 d.buf
    .ok { d with buf := buf, head := head }
  else do
    let buf ← forDown (fun j buf => moveRing buf d.head (j - 1) j) (d.count - i).toNat d.count d.buf
    .ok { d with buf := buf }

def insert (i : Int) (val : Bytes) : Except Crash Deque := do
  let d ← d.room
  let d ← d.openAt i
  let buf ← writeRing d.buf d.head i val
  .ok { d with buf := buf, count := d.count + 1 }

end Deque

/-! ## What the ring holds -/

/-- The ring holds the elements of the list, the first one at its head. -/
structure Deque.Represents (d : Deque) (items : List Bytes) : Prop where
  /-- only the zero value has an empty buffer -/
  head_in : 0 < d.cap → HeadIn d.buf d.head
  count_eq : d.count = items.length
  holds : items <+: ring d.buf d.head

theorem set_take_append_drop {l out : List Bytes} {k : Nat} (hl : k < l.length)
    (hout : k < out.length) :
    (l.take k ++ out.drop k).set k (l.get ⟨k, hl⟩) = l.take (k + 1) ++ out.drop (k + 1) := by
  have hlen : (l.take k).length = k := length_take_of_le hl.le
  rw [set_append_right k _ hlen.le, hlen, Nat.sub_self, drop_eq_getElem_cons hout,
    set_cons_zero, take_succ_eq_append_getElem hl, append_assoc]
  rfl

namespace Deque

variable {d : Deque} {items : List Bytes}

/-- The place before the head is the last one of the ring. -/
theorem modulo_before (h : HeadIn d.buf d.head) :
    modulo (d.head - 1 + d.cap) d.cap = .ok (place d.buf d.head (d.buf.length - 1) : Int) := by
  have hlt : d.head < d.cap := h.lt
  have hnonneg := h.nonneg
  have hsum : d.head - 1 + d.cap = d.head + (d.buf.length - 1 : Nat) := by
    unfold cap at hlt ⊢
    omega
  rw [hsum]
  exact modulo_eq_place h

namespace Represents

variable (h : d.Represents items)
include h

theorem length_le : items.length ≤ d.buf.length := by
  have hle := h.holds.length_le
  rwa [length_ring] at hle

theorem headIn (hpos : 0 < items.length) : HeadIn d.buf d.head := by
  have hle := h.length_le
  exact h.head_in (by unfold cap; omega)

theorem getElem?_ring (hi : i < items.length) :
    (ring d.buf d.head)[i]? = some (items.get ⟨i, hi⟩) := by
  obtain ⟨free, hring⟩ := h.holds
  rw [← hring, getElem?_append_left hi, getElem?_eq_getElem hi]
  rfl

/-- If there is room, some place is free behind the elements. -/
theorem exists_free (hroom : d.count < d.cap) :
    HeadIn d.buf d.head ∧ ∃ x free, ring d.buf d.head = items ++ x :: free := by
  have hcount := h.count_eq
  unfold cap at hroom
  obtain ⟨free, hring⟩ := h.holds
  refine ⟨h.head_in (by unfold cap; omega), ?_⟩
  cases free with
  | nil =>
    have hlen := congrArg length hring
    rw [append_nil, length_ring] at hlen
    omega
  | cons x free => exact ⟨x, free, hring.symm⟩

theorem get_eq (hi : i < items.length) : d.get i = .ok (items.get ⟨i, hi⟩) :=
  readRing_eq_ok (h.headIn (Nat.zero_lt_of_lt hi)) (h.getElem?_ring hi)

theorem copyTo_eq (start n : Nat) (hn : start + n ≤ items.length)
    (out : List Bytes) (hout : n ≤ out.length) :
    d.copyTo start n out = .ok ((items.drop start).take n ++ out.drop n) := by
  have hloop : ∃ out', d.copyTo start n out = .ok out'
      ∧ out' = (items.drop start).take ((start + n : Int) - start).toNat
        ++ out.drop ((start + n : Int) - start).toNat := by
    refine forUp_invariant _ (fun i out' => out' = (items.drop start).take (i - start).toNat
      ++ out.drop (i - start).toNat) (by simp) ?_
    rintro i out' hi0 hi rfl
    obtain ⟨k, rfl⟩ : ∃ k : Nat, i = start + k := ⟨(i - start).toNat, by omega⟩
    have hk : start + k < items.length := by omega
    have hget : d.get ((start : Int) + k) = .ok (items.get ⟨start + k, hk⟩) := h.get_eq hk
    have hpos : ((start : Int) + k - start).toNat = k := by omega
    have hnext : ((start : Int) + k + 1 - start).toNat = k + 1 := by omega
    have hfront : (items.drop start).get ⟨k, by rw [length_drop]; omega⟩
        = items.get ⟨start + k, hk⟩ := by simp
    refine ⟨_, ?_, rfl⟩
    rw [hget, hpos, hnext, ← hfront, ok_bind,
      setAt_eq_ok (by omega) (by simp; omega), hpos, set_take_append_drop _ (by omega)]
  obtain ⟨out', hout', rfl⟩ := hloop
  rw [hout']
  simp

theorem grow : ∃ d', d.grow = .ok d' ∧ d'.Represents items ∧ d'.count < d'.cap := by
  have hcount := h.count_eq
  have hle := h.length_le
  unfold Deque.grow
  dsimp only
  generalize hnew : (if d.cap * 2 < dequeMinCap then dequeMinCap else d.cap * 2) = newCap
  have hroom : d.count < newCap := by
    unfold dequeMinCap cap at hnew
    split at hnew <;> omega
  have hlen : d.count.toNat = items.length := by omega
  have hcopy : d.copyTo 0 items.length (replicate newCap.toNat [])
      = .ok (items ++ replicate (newCap.toNat - items.length) []) := by
    have hall := h.copyTo_eq 0 items.length (by omega) (replicate newCap.toNat [])
      (by rw [length_replicate]; omega)
    rwa [drop_zero, take_length, drop_replicate] at hall
  rw [makeZeroed_eq_ok (by omega), hlen, ok_bind, hcopy, ok_bind]
  refine ⟨_, rfl, ⟨fun hpos => ⟨le_rfl, hpos⟩, hcount, ?_⟩, ?_⟩
  · unfold ring
    rw [Int.toNat_zero, rotate_zero]
    exact prefix_append _ _
  · simp only [cap, length_append, length_replicate]
    omega

theorem room : ∃ d', d.room = .ok d' ∧ d'.Represents items ∧ d'.count < d'.cap := by
  have hcount := h.count_eq
  have hle := h.length_le
  unfold Deque.room
  split
  · exact h.grow
  · exact ⟨d, rfl, h, by unfold cap at *; omega⟩

omit h in
theorem of_gap {buf : List Bytes} {head : Int} (hgap : Gap buf head items i) (hi : i ≤ items.length)
    (v : Bytes) : Represents ⟨ringSet buf head i v, head, items.length + 1⟩ (items.insertIdx i v) :=
  ⟨fun _ => hgap.1.ringSet, by rw [length_insertIdx_of_le_length hi]; rfl, hgap.fill v⟩

theorem pushBackOne (v : Bytes) :
    ∃ d', d.pushBackOne v = .ok d' ∧ d'.Represents (items ++ [v]) := by
  obtain ⟨d₁, hroom, h₁, hlt⟩ := h.room
  obtain ⟨hhead, x, free, hring⟩ := h₁.exists_free hlt
  rw [Deque.pushBackOne, hroom, ok_bind, h₁.count_eq, writeRing_eq_ok hhead, ok_bind,
    ← insertIdx_length_self]
  exact ⟨_, rfl, of_gap (.at_end hhead hring) le_rfl v⟩

theorem pushFrontOne (v : Bytes) :
    ∃ d', d.pushFrontOne v = .ok d' ∧ d'.Represents (v :: items) := by
  obtain ⟨d₁, hroom, h₁, hlt⟩ := h.room
  obtain ⟨hhead, x, free, hring⟩ := h₁.exists_free hlt
  have hgap := Gap.at_start hhead hring
  have hwrite := setAt_place (a := v) (i := 0) hgap.1
  rw [place_zero hgap.1] at hwrite
  rw [Deque.pushFrontOne, hroom, ok_bind, modulo_before hhead, ok_bind, hwrite, ok_bind,
    h₁.count_eq]
  exact ⟨_, rfl, of_gap (i := 0) hgap (Nat.zero_le _) v⟩

theorem pushBack (vals : List Bytes) :
    ∃ d', d.pushBack vals = .ok d' ∧ d'.Represents (items ++ vals) := by
  induction vals generalizing d items with
  | nil => exact ⟨d, rfl, by rwa [append_nil]⟩
  | cons v vals ih =>
    obtain ⟨d₁, hone, h₁⟩ := h.pushBackOne v
    obtain ⟨d₂, hrest, h₂⟩ := ih h₁
    refine ⟨d₂, ?_, by rwa [append_assoc] at h₂⟩
    rw [Deque.pushBack, foldlM_cons, hone, ok_bind]
    exact hrest

theorem pushFront (vals : List Bytes) :
    ∃ d', d.pushFront vals = .ok d' ∧ d'.Represents (vals.reverse ++ items) := by
  induction vals generalizing d items with
  | nil => exact ⟨d, rfl, h⟩
  | cons v vals ih =>
    obtain ⟨d₁, hone, h₁⟩ := h.pushFrontOne v
    obtain ⟨d₂, hrest, h₂⟩ := ih h₁
    refine ⟨d₂, ?_, ?_⟩
    · rw [Deque.pushFront, foldlM_cons, hone, ok_bind]
      exact hrest
    · rwa [reverse_cons, append_assoc, singleton_append]

theorem popFront : ∃ d', d.popFront = .ok (items.head?, d') ∧ d'.Represents items.tail := by
  have hcount := h.count_eq
  unfold Deque.popFront
  cases items with
  | nil =>
    have hnone : d.count = 0 := hcount
    rw [if_pos hnone]
    exact ⟨d, rfl, h⟩
  | cons v items =>
    rw [length_cons] at hcount
    have hhead := h.headIn (Nat.succ_pos _)
    have hread := indexAt_place (h.getElem?_ring (i := 0) (Nat.succ_pos _))
    have hwrite := setAt_place (a := ([] : Bytes)) (i := 0) hhead
    have hnext : modulo (d.head + 1) d.cap = _ := modulo_eq_place (i := 1) hhead
    obtain ⟨free, hring⟩ := h.holds
    rw [place_zero hhead] at hread hwrite
    rw [if_neg (by omega), hread, ok_bind, hwrite, ok_bind, hnext, ok_bind,
      ← place_ringSet d.buf d.head 0 1 []]
    refine ⟨_, rfl, fun _ => hhead.ringSet.place 1, by rw [tail_cons]; dsimp only; omega,
      free ++ [[]], ?_⟩
    rw [ring_place, ring_ringSet (Nat.zero_lt_of_lt h.length_le), ← hring]
    simp

theorem popBack : ∃ d', d.popBack = .ok (items.getLast?, d') ∧ d'.Represents items.dropLast := by
  have hcount := h.count_eq
  unfold Deque.popBack
  rcases items.eq_nil_or_concat with rfl | ⟨items, v, rfl⟩
  · have hnone : d.count = 0 := hcount
    rw [if_pos hnone]
    exact ⟨d, rfl, h⟩
  · rw [concat_eq_append] at h hcount ⊢
    have hle := h.length_le
    rw [length_append, length_singleton] at hcount hle
    have hhead := h.headIn (by simp)
    have hread : indexAt d.buf (place d.buf d.head items.length) = .ok v := by
      refine indexAt_place ((h.getElem?_ring (by simp)).trans ?_)
      simp
    have hidx : d.head + d.count - 1 = d.head + items.length := by omega
    obtain ⟨free, hring⟩ := h.holds
    rw [if_neg (by omega), hidx, cap, modulo_eq_place hhead, ok_bind, hread, ok_bind,
      setAt_place hhead, ok_bind, getLast?_concat, dropLast_concat]
    refine ⟨_, rfl, fun _ => hhead.ringSet, by dsimp only; omega, [] :: free, ?_⟩
    rw [ring_ringSet (by omega), ← hring, append_assoc, set_append_right _ _ le_rfl]
    simp

theorem set (hi : i < items.length) (v : Bytes) :
    ∃ d', d.set i v = .ok d' ∧ d'.Represents (items.set i v) := by
  have hhead := h.headIn (Nat.zero_lt_of_lt hi)
  obtain ⟨free, hring⟩ := h.holds
  rw [Deque.set, writeRing_eq_ok hhead, ok_bind]
  refine ⟨_, rfl, fun _ => hhead.ringSet, by rw [length_set]; exact h.count_eq, free, ?_⟩
  rw [ring_ringSet (hi.trans_le h.length_le), ← hring, set_append_left _ _ hi]

/-- Either side may move: there is a gap at the index afterwards. -/
theorem openAt (hroom : d.count < d.cap) (hi : i ≤ items.length) :
    ∃ d', d.openAt i = .ok d' ∧ d'.count = items.length ∧ Gap d'.buf d'.head items i := by
  obtain ⟨hhead, x, free, hring⟩ := h.exists_free hroom
  unfold Deque.openAt
  split
  · rw [modulo_before hhead, ok_bind]
    have hloop := forUp_invariant (n := i) (fun j buf => moveRing buf _ (1 + j) j)
      (fun j buf => Gap buf _ items j) (Gap.at_start hhead hring)
      (fun j buf _ hj hopen => hopen.up (by omega))
    obtain ⟨buf, hbuf, hopen⟩ := hloop
    rw [zero_add] at hopen
    rw [Int.toNat_natCast, hbuf, ok_bind]
    exact ⟨_, rfl, h.count_eq, hopen⟩
  · have hloop := forDown_invariant (n := items.length - i)
      (fun j buf => moveRing buf _ (j - 1) j) (fun j buf => Gap buf _ items j) (Gap.at_end hhead hring)
      (fun j buf hj _ hopen => hopen.down (by omega))
    obtain ⟨buf, hbuf, hopen⟩ := hloop
    have hrounds : ((items.length : Int) - i).toNat = items.length - i := by omega
    have hend : (items.length : Int) - (items.length - i : Nat) = i := by omega
    rw [hend] at hopen
    rw [h.count_eq, hrounds, hbuf, ok_bind]
    exact ⟨_, rfl, rfl, hopen⟩

theorem insert (hi : i ≤ items.length) (v : Bytes) :
    ∃ d', d.insert i v = .ok d' ∧ d'.Represents (items.insertIdx i v) := by
  obtain ⟨d₁, hroom, h₁, hlt⟩ := h.room
  obtain ⟨d₂, hopen, hcount, hgap⟩ := h₁.openAt hlt hi
  rw [Deque.insert, hroom, ok_bind, hopen, ok_bind, writeRing_eq_ok hgap.1, ok_bind, hcount]
  exact ⟨_, rfl, of_gap hgap hi v⟩

theorem range_eq (start stop : Int) : d.range start stop = .ok (rangeOf items start stop) := by
  have hcount : d.count.toNat = items.length := by
    have := h.count_eq
    omega
  unfold Deque.range rangeOf
  rw [hcount]
  cases hnorm : normalizeRange start stop items.length with
  | none => rfl
  | some bounds =>
    obtain ⟨a, b⟩ := bounds
    obtain ⟨hle, hlt⟩ := normalizeRange_eq_some hnorm
    have hpart := h.copyTo_eq a (b - a + 1) (by omega) (replicate (b - a + 1) [])
      (by rw [length_replicate])
    rw [drop_replicate, Nat.sub_self, replicate_zero, append_nil] at hpart
    have hsize : ((b : Int) - a + 1).toNat = b - a + 1 := by omega
    dsimp only
    rw [makeZeroed_eq_ok (by omega), ok_bind, hsize]
    exact hpart

theorem toSlice_eq : d.toSlice = .ok items := by
  have hcount := h.count_eq
  unfold Deque.toSlice
  split
  · rw [length_eq_zero_iff.1 (by omega : items.length = 0)]
  · have hlen : d.count.toNat = items.length := by omega
    have hall := h.copyTo_eq 0 items.length (by omega) (replicate items.length [])
      (by rw [length_replicate])
    rw [drop_zero, take_length, drop_replicate, Nat.sub_self,
      replicate_zero, append_nil] at hall
    rw [makeZeroed_eq_ok (by omega), ok_bind, hlen]
    exact hall

end Represents

end Deque

/-! ## The same operations on a plain list -/

/-- The elements whose index lies between the two ends of a range. -/
def between {α : Type} (items : List α) (start stop : Int) : List α :=
  (items.zipIdx.filter fun p =>
    fromEnd start items.length ≤ p.2 ∧ p.2 ≤ fromEnd stop items.length).map Prod.fst

theorem filter_zipIdx_between {α : Type} (items : List α) (k : Nat) (a b : Int) :
    ((items.zipIdx k).filter fun p => a ≤ p.2 ∧ p.2 ≤ b).map Prod.fst
      = (items.drop (a - k).toNat).take (b + 1 - max a k).toNat := by
  induction items generalizing k with
  | nil => simp
  | cons v items ih =>
    rw [zipIdx_cons, filter_cons]
    by_cases hlow : a ≤ k
    · have hdrop : (a - k).toNat = 0 := by omega
      have hdrop' : (a - (k + 1 : Nat)).toNat = 0 := by omega
      by_cases hhigh : (k : Int) ≤ b
      · have htake : (b + 1 - max a k).toNat = (b + 1 - max a (k + 1 : Nat)).toNat + 1 := by omega
        rw [if_pos (by simpa using ⟨hlow, hhigh⟩), map_cons, ih, hdrop, hdrop', htake]
        rfl
      · have htake : (b + 1 - max a k).toNat = 0 := by omega
        have htake' : (b + 1 - max a (k + 1 : Nat)).toNat = 0 := by omega
        rw [if_neg (by simp; omega), ih, htake, htake', take_zero, take_zero]
    · have hdrop : (a - k).toNat = (a - (k + 1 : Nat)).toNat + 1 := by omega
      have htake : (b + 1 - max a k).toNat = (b + 1 - max a (k + 1 : Nat)).toNat := by omega
      rw [if_neg (by simp; omega), ih, hdrop, htake, drop_succ_cons]

theorem rangeOf_eq_between {α : Type} (items : List α) (start stop : Int) :
    rangeOf items start stop = between items start stop := by
  unfold between
  rw [filter_zipIdx_between]
  unfold rangeOf
  cases hnorm : normalizeRange start stop items.length with
  | none =>
    refine (eq_nil_of_length_eq_zero ?_).symm
    rw [length_take, length_drop]
    unfold normalizeRange at hnorm
    unfold fromEnd
    dsimp only at hnorm
    split_ifs at hnorm ⊢ <;> omega
  | some bounds =>
    obtain ⟨a, b⟩ := bounds
    have hstart : (fromEnd start items.length - (0 : Nat)).toNat = a := by
      unfold normalizeRange at hnorm
      unfold fromEnd
      dsimp only at hnorm
      split_ifs at hnorm ⊢ <;> cases hnorm <;> omega
    rw [hstart, take_eq_take_iff, length_drop]
    unfold normalizeRange at hnorm
    unfold fromEnd
    dsimp only at hnorm
    split_ifs at hnorm ⊢ <;> cases hnorm <;> omega

/-- A call of one of the operations. -/
inductive DequeOp where
  | pushFront (vals : List Bytes)
  | pushBack (vals : List Bytes)
  | popFront
  | popBack
  | get (i : Int)
  | set (i : Int) (val : Bytes)
  | insert (i : Int) (val : Bytes)
  | range (start stop : Int)
  | len
  | toSlice

/-- What a call returns. -/
inductive DequeOut where
  | done
  | popped (val : Option Bytes)
  | value (val : Bytes)
  | items (vals : List Bytes)
  | length (n : Int)
  deriving DecidableEq

namespace DequeOp

def run (d : Deque) : DequeOp → Except Crash (DequeOut × Deque)
  | pushFront vals => (d.pushFront vals).map (.done, ·)
  | pushBack vals => (d.pushBack vals).map (.done, ·)
  | popFront => d.popFront.map fun (val, d) => (.popped val, d)
  | popBack => d.popBack.map fun (val, d) => (.popped val, d)
  | get i => (d.get i).map (.value ·, d)
  | set i val => (d.set i val).map (.done, ·)
  | insert i val => (d.insert i val).map (.done, ·)
  | range start stop => (d.range start stop).map (.items ·, d)
  | len => .ok (.length d.len, d)
  | toSlice => d.toSlice.map (.items ·, d)

/-- The operation on a plain list: the last of several values pushed to the front comes first. -/
def onList (items : List Bytes) : DequeOp → DequeOut × List Bytes
  | pushFront vals => (.done, vals.reverse ++ items)
  | pushBack vals => (.done, items ++ vals)
  | popFront => (.popped items.head?, items.tail)
  | popBack => (.popped items.getLast?, items.dropLast)
  | get i => (.value (items.getD i.toNat []), items)
  | set i val => (.done, items.set i.toNat val)
  | insert i val => (.done, items.insertIdx i.toNat val)
  | range start stop => (.items (between items start stop), items)
  | len => (.length items.length, items)
  | toSlice => (.items items, items)

/-- The bounds the comments of `Get`, `Set` and `Insert` ask of the caller. -/
def InBounds (items : List Bytes) : DequeOp → Prop
  | get i | set i _ => 0 ≤ i ∧ i < items.length
  | insert i _ => 0 ≤ i ∧ i ≤ items.length
  | _ => True

instance decidableInBounds (items : List Bytes) : (op : DequeOp) → Decidable (op.InBounds items)
  | pushFront _ | pushBack _ | popFront | popBack | range _ _ | len | toSlice =>
    inferInstanceAs (Decidable True)
  | get i | set i _ => inferInstanceAs (Decidable (0 ≤ i ∧ i < (items.length : Int)))
  | insert i _ => inferInstanceAs (Decidable (0 ≤ i ∧ i ≤ (items.length : Int)))

/-- One call: what the ring returns is what the list returns, and the ring goes on to hold the
elements of the list. -/
theorem run_eq {d : Deque} {items : List Bytes} (h : d.Represents items) (op : DequeOp)
    (hop : op.InBounds items) :
    ∃ d', op.run d = .ok ((op.onList items).1, d') ∧ d'.Represents (op.onList items).2 := by
  cases op with
  | pushFront vals =>
    obtain ⟨d', hd, h'⟩ := h.pushFront vals
    exact ⟨d', congrArg (Except.map _) hd, h'⟩
  | pushBack vals =>
    obtain ⟨d', hd, h'⟩ := h.pushBack vals
    exact ⟨d', congrArg (Except.map _) hd, h'⟩
  | popFront =>
    obtain ⟨d', hd, h'⟩ := h.popFront
    exact ⟨d', congrArg (Except.map _) hd, h'⟩
  | popBack =>
    obtain ⟨d', hd, h'⟩ := h.popBack
    exact ⟨d', congrArg (Except.map _) hd, h'⟩
  | get i =>
    obtain ⟨hi0, hi⟩ := hop
    obtain ⟨k, rfl⟩ := Int.eq_ofNat_of_zero_le hi0
    have hk : k < items.length := by omega
    have hitem : items.getD k [] = items.get ⟨k, hk⟩ := by
      rw [getD_eq_getElem?_getD, getElem?_eq_getElem hk]
      rfl
    refine ⟨d, ?_, h⟩
    rw [run, onList, h.get_eq hk, Int.toNat_natCast, hitem]
    rfl
  | set i val =>
    obtain ⟨hi0, hi⟩ := hop
    obtain ⟨k, rfl⟩ := Int.eq_ofNat_of_zero_le hi0
    obtain ⟨d', hd, h'⟩ := h.set (by omega : k < items.length) val
    exact ⟨d', congrArg (Except.map _) hd, h'⟩
  | insert i val =>
    obtain ⟨hi0, hi⟩ := hop
    obtain ⟨k, rfl⟩ := Int.eq_ofNat_of_zero_le hi0
    obtain ⟨d', hd, h'⟩ := h.insert (by omega : k ≤ items.length) val
    exact ⟨d', congrArg (Except.map _) hd, h'⟩
  | range start stop =>
    refine ⟨d, ?_, h⟩
    rw [run, onList, h.range_eq, rangeOf_eq_between]
    rfl
  | len => exact ⟨d, congrArg (fun n => Except.ok (DequeOut.length n, d)) h.count_eq, h⟩
  | toSlice => exact ⟨d, congrArg (Except.map _) h.toSlice_eq, h⟩

/-- The results of a sequence of calls. -/
def runAll : Deque → List DequeOp → Except Crash (List DequeOut)
  | _, [] => .ok []
  | d, op :: ops => do
      let result ← op.run d
      let outs ← runAll result.2 ops
      .ok (result.1 :: outs)

def onListAll : List Bytes → List DequeOp → List DequeOut
  | _, [] => []
  | items, op :: ops => (op.onList items).1 :: onListAll (op.onList items).2 ops

/-- Each call keeps the bounds of the list as the calls before it have left it. -/
def AllInBounds : List Bytes → List DequeOp → Prop
  | _, [] => True
  | items, op :: ops => op.InBounds items ∧ AllInBounds (op.onList items).2 ops

theorem runAll_eq {d : Deque} {items : List Bytes} (h : d.Represents items) (ops : List DequeOp)
    (hops : AllInBounds items ops) : runAll d ops = .ok (onListAll items ops) := by
  induction ops generalizing d items with
  | nil => rfl
  | cons op ops ih =>
    obtain ⟨d', hrun, h'⟩ := run_eq h op hops.1
    rw [runAll, hrun, ok_bind, ih h' hops.2]
    rfl

end DequeOp

/-- A sequence of calls on the zero `Deque`, within the documented bounds, returns what the same
calls on the empty list return; no access leaves the buffer and no remainder is taken by zero. -/
theorem deque_refines (ops : List DequeOp) (hops : DequeOp.AllInBounds [] ops) :
    DequeOp.runAll Deque.zero ops = .ok (DequeOp.onListAll [] ops) :=
  have hzero : Deque.zero.Represents [] := ⟨nofun, rfl, nil_prefix⟩
  DequeOp.runAll_eq hzero ops hops

/-- Nine values make the buffer grow, and the insertion goes through its end. -/
theorem deque_refines_grown : DequeOp.runAll Deque.zero
        [.pushFront [[1], [2], [3], [4], [5], [6], [7], [8], [9]], .popBack, .insert 6 [0],
          .set 0 [10], .get 1, .range (-3) (-1), .len]
      = .ok [.done, .popped (some [1]), .done, .done, .value [8],
          .items [[0], [3], [2]], .length 9] :=
  deque_refines _
    ⟨trivial, trivial, by decide, by decide, by decide, trivial, trivial, trivial⟩

end Vole
