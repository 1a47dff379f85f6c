import Vole.Resp.Wire
import Vole.Go.Decimal

/-!
# What is written is read back

Every part of a request and of a value carries its own length, so what follows does not
matter: each lemma takes the rest of the stream as an argument and shows that it is left.
-/

namespace Vole.Resp

open Vole.Go Vole.Readers

variable {text : Bytes}

/-- A command that a process can hold: its slice and each of its strings have been
allocated. -/
structure Held (args : List Bytes) : Prop where
  slice : args.length * 16 ≤ maxAlloc
  strings : ∀ a ∈ args, a.length + 2 ≤ maxAlloc

/-- A value built from lines without a line feed, 64-bit integers, and strings and arrays that
a process can hold. -/
inductive Value.Sendable : Value → Prop where
  | simple {text : Bytes} : lf ∉ text → Sendable (.simple text)
  | error {text : Bytes} : lf ∉ text → Sendable (.error text)
  | integer {n : Int} : Int64Range n → Sendable (.integer n)
  | bulk {text : Bytes} : text.length + 2 ≤ maxAlloc → Sendable (.bulk text)
  | nullBulk : Sendable .nullBulk
  | array {items : List Value} : items.length * 64 ≤ maxAlloc →
      (∀ item ∈ items, Sendable item) → Sendable (.array items)
  | nullArray : Sendable .nullArray

/-! ## Headers and payloads -/

theorem line_crlf {text rest : Bytes} (h : lf ∉ text) :
    Line (text ++ [cr]) (text ++ crlf ++ rest) rest := by
  refine ⟨?_, by simp [crlf]⟩
  simp only [List.mem_append, List.mem_singleton, not_or]
  exact ⟨h, by decide⟩

theorem readLine_crlf (h : lf ∉ text) (rest : Bytes) :
    readLine (text ++ crlf ++ rest) = .ok (text, rest) :=
  readLine_eq_ok_iff.mpr ⟨text ++ [cr], line_crlf h, (trimSuffix_concat cr text).symm⟩

theorem lf_not_mem_formatInt (n : Int) : lf ∉ formatInt n := by
  intro h
  rcases mem_formatInt h with h | ⟨h, -⟩
  · cases h
  · exact absurd h (by decide)

theorem numbered_formatInt {n : Int} (h : Int64Range n) (rest : Bytes) :
    Numbered n (formatInt n ++ crlf ++ rest) rest := by
  refine ⟨formatInt n ++ [cr], line_crlf (lf_not_mem_formatInt n), ?_⟩
  rw [trimSuffix_concat]
  exact parseInt_formatInt h

theorem readNumber_formatInt {n : Int} (h : Int64Range n) (rest : Bytes) :
    readNumber (formatInt n ++ crlf ++ rest) = .ok (n, rest) :=
  readNumber_eq_ok_iff.mpr (numbered_formatInt h rest)

theorem readLen_formatInt {n : Nat} (h : n ≤ maxAlloc) (rest : Bytes) :
    readLen (formatInt n ++ crlf ++ rest) = .ok ((n : Int), rest) := by
  refine readNumber_formatInt ⟨by omega, ?_⟩ rest
  unfold maxAlloc at h
  omega

theorem index_append_crlf (text : Bytes) : index (text ++ crlf) text.length = .ok cr
      ∧ index (text ++ crlf) ((text.length : Int) + 1) = .ok lf := by
  have hpos : ((text.length : Int) + 1).toNat = text.length + 1 := by omega
  constructor
  · rw [index, if_pos (by omega)]
    simp [crlf]
  · rw [index, if_pos (by omega), hpos]
    simp [crlf]

/-- The payload may hold any bytes, its own terminator included: only its length counts. -/
theorem readPayload_crlf (h : text.length + 2 ≤ maxAlloc) (rest : Bytes) :
    readPayload text.length (text ++ crlf ++ rest) = .ok (text, rest) := by
  have hmax : (text.length : Int) + 2 < 2 ^ 63 := by
    unfold maxAlloc at h
    omega
  have hwrap : wrap64 ((text.length : Int) + 2) = text.length + 2 :=
    wrap64_of_range ⟨by omega, hmax⟩
  have hwrap' : wrap64 ((text.length : Int) + 1) = text.length + 1 :=
    wrap64_of_range ⟨by omega, by omega⟩
  have hmake : makeslice 1 ((text.length : Int) + 2) = .ok () := by
    unfold makeslice
    exact if_pos (by omega)
  have hn : ((text.length : Int) + 2).toNat = (text ++ crlf).length := by
    simp only [List.length_append, crlf, List.length_cons, List.length_nil]
    omega
  have hfull : readFull (text ++ crlf).length (text ++ crlf ++ rest)
      = .ok (text ++ crlf, rest) := by
    unfold readFull
    rw [if_pos (by simp), List.take_left, List.drop_left]
  obtain ⟨hcr, hlf⟩ := index_append_crlf text
  unfold readPayload
  dsimp only
  rw [hwrap, hwrap', hmake, ok_bind, hn, hfull, ok_bind]
  dsimp only
  rw [hcr, ok_bind, if_neg (by simp), hlf, ok_bind, if_neg (by simp), Int.toNat_natCast,
    List.take_left]

/-! ## Requests -/

theorem writeBulk_append (text rest : Bytes) : writeBulk text ++ rest
    = 36 :: (formatInt text.length ++ crlf ++ (text ++ crlf ++ rest)) := by simp [writeBulk]

theorem readPart_writeBulk (h : text.length + 2 ≤ maxAlloc) (rest : Bytes) :
    readPart (writeBulk text ++ rest) = .ok (text, rest) := by
  have hlen := @readLen_formatInt text.length (by omega)
  rw [writeBulk_append, readPart_cons, hlen, ok_bind]
  exact readPayload_crlf h rest

theorem readCommand_writeCommand {args : List Bytes} (h : Held args) (rest : Bytes) :
    readCommand (writeCommand args ++ rest) = .ok (args, rest) := by
  have hlen := @readLen_formatInt args.length (by have := h.slice; omega)
  have hmake : makeslice 16 args.length = .ok () := by
    have hslice := h.slice
    unfold makeslice
    exact if_pos (by omega)
  have hparts : times readPart args.length (args.flatMap writeBulk ++ rest) = .ok (args, rest) :=
    times_encode (fun a ha rest => readPart_writeBulk (h.strings a ha) rest) rest
  have hsplit : writeCommand args ++ rest
      = 42 :: (formatInt args.length ++ crlf ++ (args.flatMap writeBulk ++ rest)) := by
    simp [writeCommand, writeArrayLen]
  rw [hsplit, readCommand_cons, hlen, ok_bind, hmake, ok_bind, Int.toNat_natCast]
  exact hparts

/-! ## Values -/

theorem writeValues_eq_flatMap (items : List Value) :
    writeValues items = items.flatMap writeValue := by
  induction items with
  | nil => rw [writeValues, List.flatMap_nil]
  | cons item items ih => rw [writeValues, List.flatMap_cons, ih]

theorem readValue_simple (h : lf ∉ text) (rest : Bytes) :
    readValue (writeSimple text ++ rest) = .ok (.simple text, rest) := by
  rw [show writeSimple text ++ rest = 43 :: (text ++ crlf ++ rest) by simp [writeSimple],
    readValue_cons, readTyped_simple, readLine_crlf h, ok_bind]

theorem readValue_error (h : lf ∉ text) (rest : Bytes) :
    readValue (writeError text ++ rest) = .ok (.error text, rest) := by
  rw [show writeError text ++ rest = 45 :: (text ++ crlf ++ rest) by simp [writeError],
    readValue_cons, readTyped_error, readLine_crlf h, ok_bind]

theorem readValue_int {n : Int} (h : Int64Range n) (rest : Bytes) :
    readValue (writeInt n ++ rest) = .ok (.integer n, rest) := by
  rw [show writeInt n ++ rest = 58 :: (formatInt n ++ crlf ++ rest) by simp [writeInt],
    readValue_cons, readTyped_integer, readNumber_formatInt h, ok_bind]

theorem readValue_bulk (h : text.length + 2 ≤ maxAlloc) (rest : Bytes) :
    readValue (writeBulk text ++ rest) = .ok (.bulk text, rest) := by
  have hlen := @readLen_formatInt text.length (by omega)
  rw [writeBulk_append, readValue_cons, readTyped_bulk, hlen, ok_bind, if_neg (by omega),
    readPayload_crlf h, ok_bind]

theorem readLen_null (rest : Bytes) : readLen (formatInt (-1) ++ crlf ++ rest) = .ok (-1, rest) :=
  readNumber_formatInt ⟨by decide, by decide⟩ rest

theorem readValue_null (rest : Bytes) : readValue (writeNull ++ rest) = .ok (.nullBulk, rest) := by
  show readValue (36 :: (formatInt (-1) ++ crlf ++ rest)) = _
  rw [readValue_cons, readTyped_bulk, readLen_null, ok_bind, if_pos rfl]

theorem readValue_nullArray (rest : Bytes) :
    readValue (writeNullArray ++ rest) = .ok (.nullArray, rest) := by
  show readValue (42 :: (formatInt (-1) ++ crlf ++ rest)) = _
  rw [readValue_cons, readTyped_array, readLen_null, ok_bind, if_pos rfl]

theorem readValue_array {n : Nat} (hn : n * 64 ≤ maxAlloc) {s rest : Bytes} {items : List Value}
    (h : times readValue n s = .ok (items, rest)) :
    readValue (writeArrayLen n ++ s) = .ok (.array items, rest) := by
  have hlen := @readLen_formatInt n (by omega)
  have hmake : makeslice 64 n = .ok () := by
    unfold makeslice
    exact if_pos (by omega)
  rw [show writeArrayLen n ++ s = 42 :: (formatInt n ++ crlf ++ s) by simp [writeArrayLen],
    readValue_cons, readTyped_array, hlen, ok_bind, if_neg (by omega), hmake, ok_bind,
    Int.toNat_natCast, h, ok_bind]

theorem readValue_writeValue {v : Value} (h : v.Sendable) :
    ∀ rest, readValue (writeValue v ++ rest) = .ok (v, rest) := by
  induction h with
  | simple hline =>
    intro rest
    rw [writeValue]
    exact readValue_simple hline rest
  | error hline =>
    intro rest
    rw [writeValue]
    exact readValue_error hline rest
  | integer hrange =>
    intro rest
    rw [writeValue]
    exact readValue_int hrange rest
  | bulk hlen =>
    intro rest
    rw [writeValue]
    exact readValue_bulk hlen rest
  | nullBulk =>
    intro rest
    rw [writeValue]
    exact readValue_null rest
  | nullArray =>
    intro rest
    rw [writeValue]
    exact readValue_nullArray rest
  | array hlen _ ih =>
    intro rest
    rw [writeValue, writeValues_eq_flatMap, List.append_assoc]
    exact readValue_array hlen (times_encode ih rest)

/-- Pipelined commands are read back one by one and a value as it was, and whatever follows
is left in the stream. -/
theorem resp_round_trip :
    (∀ (commands : List (List Bytes)) (tail : Bytes), (∀ args ∈ commands, Held args) →
      times readCommand commands.length (commands.flatMap writeCommand ++ tail)
        = .ok (commands, tail)) ∧ ∀ (v : Value) (tail : Bytes), v.Sendable →
      readValue (writeValue v ++ tail) = .ok (v, tail) := by
  constructor
  · intro commands tail h
    exact times_encode (fun args hargs rest => readCommand_writeCommand (h args hargs) rest) tail
  · intro v tail h
    exact readValue_writeValue h tail

/-- A key with the delimiters in it and an empty value, and a nested value. -/
theorem resp_round_trip_delimiters :
    times readCommand 1 (writeCommand [bytes "SET", bytes "*1\r\n$2\r\n", []] ++ bytes "$")
        = .ok ([[bytes "SET", bytes "*1\r\n$2\r\n", []]], bytes "$")
      ∧ readValue (writeValue (.array [.array [], .bulk (bytes "\n"), .nullArray]) ++ bytes "+")
        = .ok (.array [.array [], .bulk (bytes "\n"), .nullArray], bytes "+") := by
  constructor
  · have hheld : Held [bytes "SET", bytes "*1\r\n$2\r\n", []] := ⟨by decide, by decide⟩
    simpa using resp_round_trip.1 [[bytes "SET", bytes "*1\r\n$2\r\n", []]] (bytes "$")
      (by simpa using hheld)
  · refine resp_round_trip.2 _ (bytes "+") (.array (by decide) ?_)
    simp only [List.mem_cons, List.not_mem_nil, or_false, forall_eq_or_imp, forall_eq]
    exact ⟨.array (by decide) (by simp), .bulk (by decide), .nullArray⟩

end Vole.Resp
