import Vole.Resp.Wire
import Vole.Go.Decimal

/-!
# Where the reader panics

`ReadCommand` passes the count of a request to `make` and the length of each argument, plus
two, as well; it then indexes the buffer with the length. `ReadValue` does the same, after it
has taken `-1` for a null. None of these numbers is looked at first.
-/

namespace Vole.Resp

open Vole.Go Vole.Readers

/-- A count that `make` refuses for elements of `size` bytes. -/
def Overcount (size : Nat) (n : Int) : Prop := n < 0 ∨ maxAlloc < n * size

/-- A length of a bulk string with which the reader panics before the bytes `rest`. -/
def Unfit (l : Int) (rest : Bytes) : Prop :=
  l < -2 ∨ maxAlloc < l + 2 ∨ (l < 0 ∧ l + 2 ≤ rest.length)

/-- A request whose count, or the length of one of whose arguments, is unfit. -/
inductive BadRequest : Bytes → Prop where
  | count {s rest : Bytes} {n : Int} :
      Numbered n s rest → Overcount 16 n → BadRequest (42 :: s)
  | length {s rest u t : Bytes} {n l : Int} {k : Nat} {args : List Bytes} :
      Numbered n s rest → ¬ Overcount 16 n → k < n.toNat →
      times readPart k rest = .ok (args, 36 :: u) → Numbered l u t → Unfit l t →
      BadRequest (42 :: s)

/-- A value with an unfit length or count in it, at any depth. -/
inductive BadValue : Bytes → Prop where
  | length {s rest : Bytes} {l : Int} :
      Numbered l s rest → l ≠ -1 → Unfit l rest → BadValue (36 :: s)
  | count {s rest : Bytes} {n : Int} :
      Numbered n s rest → n ≠ -1 → Overcount 64 n → BadValue (42 :: s)
  | item {s rest t : Bytes} {n : Int} {k : Nat} {items : List Value} :
      Numbered n s rest → ¬ Overcount 64 n → k < n.toNat →
      times readValue k rest = .ok (items, t) → BadValue t → BadValue (42 :: s)

/-! ## Panics -/

/-- A call that ends in a panic. -/
def Panics {α : Type} (x : Except Fault α) : Prop := ∃ p, x = .error (.panic p)

section
variable {α β : Type} {x : Except Fault α} {f : α → Except Fault β} {s : Bytes}

theorem not_panics_ok (a : α) : ¬ Panics (Except.ok a : Except Fault α) := nofun

theorem not_panics_err (e : ReadErr) : ¬ Panics (.error (.err e) : Except Fault α) := nofun

theorem panics_bind : Panics (x >>= f) ↔ Panics x ∨ ∃ a, x = .ok a ∧ Panics (f a) := by
  unfold Panics
  cases x with
  | error e => simp [bind, Except.bind]
  | ok a => simp [bind, Except.bind]

theorem panics_pure_bind {f : α → β} : Panics (x >>= fun a => .ok (f a)) ↔ Panics x := by
  rw [panics_bind, or_iff_left (fun ⟨_, _, hp⟩ => not_panics_ok _ hp)]

theorem panics_makeslice_bind {size : Nat} {n : Int} {f : Unit → Except Fault β} :
    Panics (makeslice size n >>= f) ↔ Overcount size n ∨ (¬ Overcount size n ∧ Panics (f ())) := by
  unfold makeslice Overcount
  rw [panics_bind]
  split
  · rename_i hfit
    have hnot : ¬ (n < 0 ∨ maxAlloc < n * size) := by omega
    simp [hnot, not_panics_ok, Unique.exists_iff]
  · rename_i hunfit
    have hover : n < 0 ∨ maxAlloc < n * size := by omega
    simp [hover, Panics]

theorem panics_readNumber_bind {f : Int × Bytes → Except Fault β} :
    Panics (readNumber s >>= f) ↔ ∃ n rest, Numbered n s rest ∧ Panics (f (n, rest)) := by
  rw [panics_bind, or_iff_right (fun ⟨p, hp⟩ => readNumber_ne_panic s p hp), Prod.exists]
  simp only [readNumber_eq_ok_iff]

theorem panics_times {read : Read α} {n : Nat} : Panics (times read n s) ↔
    ∃ k < n, ∃ as t, times read k s = .ok (as, t) ∧ Panics (read t) := by
  constructor
  · rintro ⟨p, hp⟩
    obtain ⟨k, hk, as, t, has, ht⟩ := times_eq_error_iff.mp hp
    exact ⟨k, hk, as, t, has, p, ht⟩
  · rintro ⟨k, hk, as, t, has, p, ht⟩
    exact ⟨p, times_eq_error_iff.mpr ⟨k, hk, as, t, has, ht⟩⟩

end

/-! ## One payload -/

theorem index_eq_ok (buf : Bytes) {i : Int} (h0 : 0 ≤ i) (hi : i < buf.length) :
    ∃ c, index buf i = .ok c := by
  have hlt : i.toNat < buf.length := by omega
  refine ⟨buf[i.toNat], ?_⟩
  unfold index
  rw [if_pos h0, List.getElem?_eq_getElem hlt]

theorem Numbered.range {n : Int} {s rest : Bytes} (h : Numbered n s rest) : Int64Range n := by
  obtain ⟨line, -, hn⟩ := h
  exact parseInt_range hn

/-- With the bytes of the payload there, the reader gets to the terminator and says whether it is
one, unless the length is negative and it looks for the carriage return before the buffer. -/
theorem panics_terminator {l : Int} {s : Bytes} (hmin : -2 ≤ l) (hmax : l + 2 ≤ maxAlloc)
    (hs : l + 2 ≤ s.length) : Panics (do
      let c ← index (s.take (l + 2).toNat) l
      if c ≠ cr then .error (.err .terminator)
      else
        let d ← index (s.take (l + 2).toNat) (wrap64 (l + 1))
        if d ≠ lf then .error (.err .terminator)
        else .ok ((s.take (l + 2).toNat).take l.toNat, s.drop (l + 2).toNat)) ↔ l < 0 := by
  have hbuf : (s.take (l + 2).toNat).length = (l + 2).toNat := List.length_take_of_le (by omega)
  by_cases h0 : 0 ≤ l
  · have hwrap : wrap64 (l + 1) = l + 1 :=
      wrap64_of_range ⟨by omega, by unfold maxAlloc at hmax; omega⟩
    obtain ⟨c, hc⟩ := index_eq_ok (s.take (l + 2).toNat) h0 (by omega)
    obtain ⟨d, hd⟩ := index_eq_ok (s.take (l + 2).toNat) (i := l + 1) (by omega) (by omega)
    refine iff_of_false ?_ (by omega)
    rw [hwrap, hc, ok_bind, hd, ok_bind]
    split_ifs
    · exact not_panics_err _
    · exact not_panics_err _
    · exact not_panics_ok _
  · refine iff_of_true (panics_bind.mpr (.inl ⟨_, if_neg h0⟩)) (by omega)

theorem panics_readPayload {l : Int} (hl : Int64Range l) (s : Bytes) :
    Panics (readPayload l s) ↔ Unfit l s := by
  unfold readPayload
  rw [panics_makeslice_bind]
  -- only the two largest lengths overflow, and they become negative
  have hover : Overcount 1 (wrap64 (l + 2)) ↔ l < -2 ∨ maxAlloc < l + 2 := by
    obtain ⟨hlo, hhi⟩ := hl
    unfold Overcount maxAlloc
    by_cases hlast : l + 2 < 2 ^ 63
    · rw [wrap64_of_range ⟨by omega, hlast⟩]
      omega
    · have hlast : l = 2 ^ 63 - 1 ∨ l = 2 ^ 63 - 2 := by omega
      rcases hlast with rfl | rfl <;> decide
  rw [hover]
  unfold Unfit
  by_cases hbounds : l < -2 ∨ maxAlloc < l + 2
  · simp only [hbounds, true_or, ← or_assoc]
  · have hwrap : wrap64 (l + 2) = l + 2 :=
      wrap64_of_range ⟨by omega, by unfold maxAlloc at hbounds; omega⟩
    simp only [hbounds, not_false_eq_true, true_and, false_or, ← or_assoc, hwrap]
    unfold readFull
    by_cases hfull : (l + 2).toNat ≤ s.length
    · rw [if_pos hfull]
      refine (panics_terminator (by omega) (by omega) (by omega)).trans ?_
      omega
    · rw [if_neg hfull]
      exact iff_of_false (not_panics_err _) (by omega)

/-! ## Requests -/

theorem panics_readPart (s : Bytes) :
    Panics (readPart s) ↔ ∃ u t l, s = 36 :: u ∧ Numbered l u t ∧ Unfit l t := by
  cases s with
  | nil => exact iff_of_false (not_panics_err _) (by simp)
  | cons b u =>
    have hstep : readPart (b :: u) = if b ≠ 36 then .error (.err (.expectedBulk b))
        else readNumber u >>= fun p => readPayload p.1 p.2 := rfl
    rw [hstep]
    split
    · rename_i hb
      exact iff_of_false (not_panics_err _) (by simp [hb])
    · rename_i hb
      have hb : b = 36 := not_not.mp hb
      subst hb
      rw [panics_readNumber_bind]
      constructor
      · rintro ⟨l, t, hnum, hp⟩
        exact ⟨u, t, l, rfl, hnum, (panics_readPayload hnum.range t).mp hp⟩
      · rintro ⟨u', t, l, hu, hnum, hl⟩
        cases hu
        exact ⟨l, t, hnum, (panics_readPayload hnum.range t).mpr hl⟩

theorem panics_readCommand (input : Bytes) : Panics (readCommand input) ↔ BadRequest input := by
  cases input with
  | nil => exact iff_of_false (not_panics_err _) nofun
  | cons b s =>
    have hstep : readCommand (b :: s) = if b ≠ 42 then
          readString s >>= fun p => .ok (splitInline (b :: p.1), p.2)
        else readNumber s >>= fun p => makeslice 16 p.1 >>= fun _ =>
          times readPart p.1.toNat p.2 := rfl
    rw [hstep]
    split
    · rename_i hb
      rw [panics_pure_bind]
      refine iff_of_false (fun ⟨p, hp⟩ => readString_ne_panic s p hp) (fun h => ?_)
      cases h <;> exact absurd rfl hb
    · rename_i hb
      have hb : b = 42 := not_not.mp hb
      subst hb
      simp only [panics_readNumber_bind, panics_makeslice_bind, panics_times, panics_readPart]
      constructor
      · rintro ⟨n, rest, hnum, hover | ⟨hover, k, hk, args, t, hargs, u, v, l, rfl, hl, hunfit⟩⟩
        · exact .count hnum hover
        · -- the first argument that panics has an unfit length
          exact .length hnum hover hk hargs hl hunfit
      · intro h
        cases h with
        | count hnum hover => exact ⟨_, _, hnum, .inl hover⟩
        | length hnum hover hk hargs hl hunfit =>
          exact ⟨_, _, hnum, .inr ⟨hover, _, hk, _, _, hargs, _, _, _, rfl, hl, hunfit⟩⟩

/-! ## Values -/

theorem panics_readTyped {b : UInt8} {s : Bytes} : Panics (readTyped readValue b s) ↔
    (b = 36 ∧ ∃ l rest, Numbered l s rest ∧ l ≠ -1 ∧ Unfit l rest) ∨
    (b = 42 ∧ ∃ n rest, Numbered n s rest ∧ n ≠ -1 ∧ (Overcount 64 n ∨ (¬ Overcount 64 n ∧
      ∃ k < n.toNat, ∃ items t, times readValue k rest = .ok (items, t) ∧
        Panics (readValue t)))) := by
  unfold readTyped
  split_ifs with h1 h2 h3 h4 h5
  · subst h1
    rw [panics_pure_bind]
    exact iff_of_false (fun ⟨p, hp⟩ => readLine_ne_panic s p hp) (by simp)
  · subst h2
    rw [panics_pure_bind]
    exact iff_of_false (fun ⟨p, hp⟩ => readLine_ne_panic s p hp) (by simp)
  · subst h3
    rw [panics_pure_bind]
    exact iff_of_false (fun ⟨p, hp⟩ => readNumber_ne_panic s p hp) (by simp)
  · subst h4
    simp only [readLen, panics_readNumber_bind, true_and, show ¬ (36 : UInt8) = 42 by decide,
      false_and, or_false]
    refine exists_congr fun l => exists_congr fun rest => and_congr_right fun hnum => ?_
    split
    · exact iff_of_false (not_panics_ok _) (fun h => h.1 ‹_›)
    · rw [panics_pure_bind, panics_readPayload hnum.range, and_iff_right ‹_›]
  · subst h5
    simp only [readLen, panics_readNumber_bind, true_and, show ¬ (42 : UInt8) = 36 by decide,
      false_and, false_or]
    refine exists_congr fun n => exists_congr fun rest => and_congr_right fun _ => ?_
    split
    · exact iff_of_false (not_panics_ok _) (fun h => h.1 ‹_›)
    · rw [panics_makeslice_bind, panics_pure_bind, panics_times]
      exact (and_iff_right ‹_›).symm
  · exact iff_of_false (not_panics_err _) (by simp [h4, h5])

theorem panics_readValue (input : Bytes) : Panics (readValue input) ↔ BadValue input := by
  constructor
  · induction hn : input.length using Nat.strongRecOn generalizing input with
    | _ n ih =>
      intro hp
      cases input with
      | nil => exact absurd hp (not_panics_err _)
      | cons b s =>
        rw [readValue_cons, panics_readTyped] at hp
        rcases hp with ⟨rfl, l, rest, hnum, hne, hunfit⟩ | ⟨rfl, n, rest, hnum, hne, hover |
          ⟨hover, k, hk, items, t, hitems, ht⟩⟩
        · exact .length hnum hne hunfit
        · exact .count hnum hne hover
        · have hle : t.length ≤ rest.length := readValue_consumes.times k _ _ _ hitems
          have hlt := hnum.length_lt
          refine .item hnum hover hk hitems (ih t.length ?_ t rfl ht)
          rw [← hn, List.length_cons]
          omega
  · intro h
    induction h with
    | length hnum hne hunfit =>
      rw [readValue_cons, panics_readTyped]
      exact .inl ⟨rfl, _, _, hnum, hne, hunfit⟩
    | count hnum hne hover =>
      rw [readValue_cons, panics_readTyped]
      exact .inr ⟨rfl, _, _, hnum, hne, .inl hover⟩
    | item hnum hover hk hitems _ ih =>
      rw [readValue_cons, panics_readTyped]
      exact .inr ⟨rfl, _, _, hnum, by omega, .inr ⟨hover, _, hk, _, _, hitems, ih⟩⟩

/-- `ReadCommand` and `ReadValue` yield a value or an error on every stream but those with an
unfit header where they read one. -/
theorem reader_panics_iff (input : Bytes) :
    ((∀ p, readCommand input ≠ .error (.panic p)) ↔ ¬ BadRequest input)
      ∧ ((∀ p, readValue input ≠ .error (.panic p)) ↔ ¬ BadValue input) := by
  rw [← panics_readCommand, ← panics_readValue]
  exact ⟨not_exists.symm, not_exists.symm⟩

/-- The null array of a reply, sent as a request, makes the reader allocate a slice of
capacity minus one; a null argument makes it index with minus one; and a reply may do the
same to a client. -/
theorem reader_panics_on_negative_counts :
    readCommand (bytes "*-1\r\n") = .error (.panic (.makeslice (-1)))
      ∧ readCommand (bytes "*1\r\n$-1\r\nx") = .error (.panic (.index (-1) 1))
      ∧ readValue (bytes "*-2\r\n") = .error (.panic (.makeslice (-2))) :=
  ⟨rfl, rfl, rfl⟩

end Vole.Resp
