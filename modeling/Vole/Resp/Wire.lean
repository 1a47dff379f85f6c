import Vole.Lib.Readers
import Vole.Go.Runtime

/-!
# The wire protocol

The reader and the writer of `resp.go`. The reader works on the bytes that the other side has
sent before it closes the connection; a call yields a value and the bytes that are left, an
error, or a panic of the Go runtime. Counts and lengths are 64-bit integers taken from the
stream, and the reader allocates and indexes with them.
-/

namespace Vole.Resp

open Vole.Go Vole.Readers

/-- `resp.Value`. The zero value of the struct has none of the five types. -/
inductive Value where
  | zero
  | simple (text : Bytes)
  | error (text : Bytes)
  | integer (n : Int)
  | bulk (text : Bytes)
  | nullBulk
  | array (items : List Value)
  | nullArray

/-! ## The writer -/

def cr : UInt8 := 13
def lf : UInt8 := 10

def crlf : Bytes := [cr, lf]

/-- `Writer.Simple` -/
def writeSimple (s : Bytes) : Bytes := 43 :: s ++ crlf

/-- `Writer.Error` -/
def writeError (s : Bytes) : Bytes := 45 :: s ++ crlf

/-- `Writer.Int` -/
def writeInt (n : Int) : Bytes := 58 :: formatInt n ++ crlf

/-- `Writer.Bulk` -/
def writeBulk (s : Bytes) : Bytes := 36 :: formatInt s.length ++ crlf ++ s ++ crlf

/-- `Writer.Null` -/
def writeNull : Bytes := bytes "$-1\r\n"

/-- `Writer.ArrayLen` -/
def writeArrayLen (n : Nat) : Bytes := 42 :: formatInt n ++ crlf

/-- `Writer.NullArray` -/
def writeNullArray : Bytes := bytes "*-1\r\n"

/-- `Writer.Command` -/
def writeCommand (args : List Bytes) : Bytes :=
  writeArrayLen args.length ++ args.flatMap writeBulk

mutual

/-- `writeValue` of `scripting.go`. -/
def writeValue : Value → Bytes
  | .simple text => writeSimple text
  | .error text => writeError text
  | .integer n => writeInt n
  | .bulk text => writeBulk text
  | .nullBulk => writeNull
  | .array items => writeArrayLen items.length ++ writeValues items
  | .nullArray => writeNullArray
  | .zero => writeNull

/-- The loop of `writeValue` over the items of an array. -/
def writeValues : List Value → Bytes
  | [] => []
  | item :: items => writeValue item ++ writeValues items

end

/-! ## The reader -/

/-- The panics of the Go runtime that the reader can run into. -/
inductive Panic where
  /-- `make` with a length or capacity that is negative or too large. -/
  | makeslice (n : Int)
  | index (i : Int) (length : Nat)
  deriving DecidableEq

inductive ReadErr where
  | eof
  | unexpectedEOF
  | expectedBulk (t : UInt8)
  | terminator
  | number (line : Bytes)
  | unknownType (b : UInt8)
  deriving DecidableEq

/-- Why a call of the reader yields no value. -/
inductive Fault where
  | err (e : ReadErr)
  | panic (p : Panic)
  deriving DecidableEq

abbrev Read (α : Type) := Bytes → Except Fault (α × Bytes)

/-- The largest allocation of the runtime on a 64-bit platform. -/
def maxAlloc : Nat := 2 ^ 48

/-- `make` with the length or capacity `n`, for elements of `size` bytes. -/
def makeslice (size : Nat) (n : Int) : Except Fault Unit :=
  if 0 ≤ n ∧ n * size ≤ maxAlloc then .ok () else .error (.panic (.makeslice n))

/-- `buf[i]` -/
def index (buf : Bytes) (i : Int) : Except Fault UInt8 :=
  if 0 ≤ i then
    match buf[i.toNat]? with
    | some c => .ok c
    | none => .error (.panic (.index i buf.length))
  else .error (.panic (.index i buf.length))

/-- `ReadByte` -/
def readByte : Read UInt8
  | [] => .error (.err .eof)
  | b :: rest => .ok (b, rest)

/-- `ReadString('\n')`: the line with its delimiter. -/
def readString : Read Bytes
  | [] => .error (.err .eof)
  | c :: rest => do
      if c = lf then .ok ([c], rest)
      else
        let (line, rest) ← readString rest
        .ok (c :: line, rest)

/-- `io.ReadFull` into a buffer of `n` bytes. -/
def readFull (n : Nat) : Read Bytes := fun s =>
  if n ≤ s.length then .ok (s.take n, s.drop n)
  else .error (.err (if s = [] then .eof else .unexpectedEOF))

/-- `strings.TrimSuffix` for a suffix of one byte. -/
def trimSuffix (c : UInt8) (s : Bytes) : Bytes :=
  if s.getLast? = some c then s.dropLast else s

/-- `readLine` -/
def readLine : Read Bytes := fun s => do
  let (line, s) ← readString s
  .ok (trimSuffix cr (trimSuffix lf line), s)

/-- A line that `ParseInt` or `Atoi` makes a number of. -/
def readNumber : Read Int := fun s => do
  let (line, s) ← readLine s
  match parseInt line with
  | some n => .ok (n, s)
  | none => .error (.err (.number line))

/-- `readLen` -/
def readLen : Read Int := readNumber

/-- The payload of a bulk string of length `l`, and its terminator. The same lines stand in
`ReadCommand` and in `ReadValue`. -/
def readPayload (l : Int) : Read Bytes := fun s => do
  let n := wrap64 (l + 2)
  makeslice 1 n
  let (buf, s) ← readFull n.toNat s
  let c ← index buf l
  if c ≠ cr then .error (.err .terminator)
  else
    let d ← index buf (wrap64 (l + 1))
    if d ≠ lf then .error (.err .terminator)
    else .ok (buf.take l.toNat, s)

/-! `strings.Fields` separates at the white space of Unicode. None of its encodings begins
with a continuation byte, so they are found byte by byte. -/

/-- The length of the white space that a text begins with, `0` if it begins with another
character. -/
def spaceLen : Bytes → Nat
  | 0xC2 :: c :: _ => if c = 0x85 ∨ c = 0xA0 then 2 else 0
  | 0xE1 :: 0x9A :: 0x80 :: _ => 3
  | 0xE2 :: 0x80 :: c :: _ =>
    if (0x80 ≤ c ∧ c ≤ 0x8A) ∨ c = 0xA8 ∨ c = 0xA9 ∨ c = 0xAF then 3 else 0
  | 0xE2 :: 0x81 :: 0x9F :: _ => 3
  | 0xE3 :: 0x80 :: 0x80 :: _ => 3
  | c :: _ => if c = 32 ∨ (9 ≤ c ∧ c ≤ 13) then 1 else 0
  | [] => 0

/-- The fields of a text; `skip` bytes belong to a white space already seen, and `field` is
the field so far. -/
def fieldsFrom : Nat → Bytes → Bytes → List Bytes
  | _, field, [] => if field = [] then [] else [field]
  | skip + 1, field, _ :: rest => fieldsFrom skip field rest
  | 0, field, c :: rest =>
    match spaceLen (c :: rest) with
    | 0 => fieldsFrom 0 (field ++ [c]) rest
    | n + 1 =>
      if field = [] then fieldsFrom n [] rest
      else field :: fieldsFrom n [] rest

/-- `splitInline`. Trimming the line first changes nothing: white space at the ends of it
separates no fields. -/
def splitInline (line : Bytes) : List Bytes := fieldsFrom 0 [] line

/-- One argument of a request. -/
def readPart : Read Bytes := fun s => do
  let (t, s) ← readByte s
  if t ≠ 36 then .error (.err (.expectedBulk t))
  else
    let (l, s) ← readLen s
    readPayload l s

/-- `ReadCommand`. The header of a string takes sixteen bytes. -/
def readCommand : Read (List Bytes) := fun s => do
  let (b, s) ← readByte s
  if b ≠ 42 then
    let (line, s) ← readString s
    .ok (splitInline (b :: line), s)
  else
    let (n, s) ← readLen s
    makeslice 16 n
    times readPart n.toNat s

/-- `ReadValue` after its first byte, where `readItem` is the recursive call. A `Value` takes
sixty-four bytes. -/
def readTyped (readItem : Read Value) (b : UInt8) : Read Value := fun s =>
  if b = 43 then do
    let (line, s) ← readLine s
    .ok (.simple line, s)
  else if b = 45 then do
    let (line, s) ← readLine s
    .ok (.error line, s)
  else if b = 58 then do
    let (n, s) ← readNumber s
    .ok (.integer n, s)
  else if b = 36 then do
    let (l, s) ← readLen s
    if l = -1 then .ok (.nullBulk, s)
    else
      let (text, s) ← readPayload l s
      .ok (.bulk text, s)
  else if b = 42 then do
    let (n, s) ← readLen s
    if n = -1 then .ok (.nullArray, s)
    else
      makeslice 64 n
      let (items, s) ← times readItem n.toNat s
      .ok (.array items, s)
  else .error (.err (.unknownType b))

/-- `ReadValue` on an input of at most `bound` bytes. Each call takes a byte, so the recursion
ends before the input does. -/
def readValueWithin : Nat → Read Value
  | 0, _ => .error (.err .eof)
  | bound + 1, s => do
      let (b, s) ← readByte s
      readTyped (readValueWithin bound) b s

/-- `ReadValue` -/
def readValue : Read Value := fun s => readValueWithin s.length s

theorem readPart_cons (s : Bytes) :
    readPart (36 :: s) = readLen s >>= fun p => readPayload p.1 p.2 := rfl

theorem readCommand_cons (s : Bytes) :
    readCommand (42 :: s) = readLen s >>= fun p =>
      makeslice 16 p.1 >>= fun _ => times readPart p.1.toNat p.2 := rfl

/-! ## Lines and payloads -/

/-- A line that ends in `n`, and what follows it. -/
def Line (line s rest : Bytes) : Prop := lf ∉ line ∧ s = line ++ lf :: rest

/-- The input begins with a line for the number `n`. -/
def Numbered (n : Int) (s rest : Bytes) : Prop :=
  ∃ line, Line line s rest ∧ parseInt (trimSuffix cr line) = some n

theorem readString_eq_ok_iff {s l rest : Bytes} :
    readString s = .ok (l, rest) ↔ ∃ line, Line line s rest ∧ l = line ++ [lf] := by
  induction s generalizing l with
  | nil => simp [readString, Line]
  | cons c s ih =>
    rw [readString]
    split
    · rename_i hc
      subst hc
      constructor
      · intro h
        cases h
        exact ⟨[], ⟨by simp, rfl⟩, rfl⟩
      · rintro ⟨line, ⟨hline, hs⟩, rfl⟩
        cases line with
        | nil =>
          cases hs
          rfl
        | cons d line =>
          cases hs
          exact absurd (by simp) hline
    · rename_i hc
      rw [bind_eq_ok]
      constructor
      · rintro ⟨⟨l', rest'⟩, hread, hl⟩
        cases hl
        obtain ⟨line, ⟨hline, rfl⟩, rfl⟩ := ih.mp hread
        refine ⟨c :: line, ⟨?_, rfl⟩, rfl⟩
        simp [hline, Ne.symm hc]
      · rintro ⟨line, ⟨hline, hs⟩, rfl⟩
        cases line with
        | nil =>
          cases hs
          exact absurd rfl hc
        | cons d line =>
          cases hs
          have hl : lf ∉ line := fun h => hline (by simp [h])
          exact ⟨(line ++ [lf], rest), ih.mpr ⟨line, ⟨hl, rfl⟩, rfl⟩, rfl⟩

theorem readString_ne_panic (s : Bytes) (p : Panic) : readString s ≠ .error (.panic p) := by
  induction s with
  | nil => simp [readString]
  | cons c s ih =>
    rw [readString]
    split
    · simp
    · rw [ne_eq, bind_eq_error]
      rintro (h | ⟨q, -, h⟩)
      · exact ih h
      · cases h

theorem trimSuffix_concat (c : UInt8) (s : Bytes) : trimSuffix c (s ++ [c]) = s := by
  simp [trimSuffix]

theorem readLine_eq_ok_iff {s l rest : Bytes} :
    readLine s = .ok (l, rest) ↔ ∃ line, Line line s rest ∧ l = trimSuffix cr line := by
  unfold readLine
  rw [bind_eq_ok]
  constructor
  · rintro ⟨⟨l', rest'⟩, hread, hl⟩
    obtain ⟨line, hline, rfl⟩ := readString_eq_ok_iff.mp hread
    cases hl
    exact ⟨line, hline, by rw [trimSuffix_concat]⟩
  · rintro ⟨line, hline, rfl⟩
    refine ⟨(line ++ [lf], rest), readString_eq_ok_iff.mpr ⟨line, hline, rfl⟩, ?_⟩
    dsimp only
    rw [trimSuffix_concat]

theorem readLine_ne_panic (s : Bytes) (p : Panic) : readLine s ≠ .error (.panic p) := by
  unfold readLine
  rw [ne_eq, bind_eq_error]
  rintro (h | ⟨q, -, h⟩)
  · exact readString_ne_panic s p h
  · cases h

theorem readNumber_eq_ok_iff {s rest : Bytes} {n : Int} :
    readNumber s = .ok (n, rest) ↔ Numbered n s rest := by
  unfold readNumber
  rw [bind_eq_ok]
  constructor
  · rintro ⟨⟨l, rest'⟩, hread, hn⟩
    obtain ⟨line, hline, rfl⟩ := readLine_eq_ok_iff.mp hread
    dsimp only at hn
    cases hp : parseInt (trimSuffix cr line) with
    | none =>
      rw [hp] at hn
      cases hn
    | some m =>
      rw [hp] at hn
      cases hn
      exact ⟨line, hline, hp⟩
  · rintro ⟨line, hline, hp⟩
    refine ⟨(trimSuffix cr line, rest), readLine_eq_ok_iff.mpr ⟨line, hline, rfl⟩, ?_⟩
    dsimp only
    rw [hp]

theorem readNumber_ne_panic (s : Bytes) (p : Panic) : readNumber s ≠ .error (.panic p) := by
  unfold readNumber
  rw [ne_eq, bind_eq_error]
  rintro (h | ⟨q, -, h⟩)
  · exact readLine_ne_panic s p h
  · dsimp only at h
    cases hp : parseInt q.1 with
    | none =>
      rw [hp] at h
      cases h
    | some n =>
      rw [hp] at h
      cases h

theorem Numbered.length_lt {n : Int} {s rest : Bytes} (h : Numbered n s rest) :
    rest.length < s.length := by
  obtain ⟨line, ⟨-, rfl⟩, -⟩ := h
  simp only [List.length_append, List.length_cons]
  omega

theorem readLine_consumes : Consumes List.length readLine := by
  intro s l rest h
  obtain ⟨line, ⟨-, rfl⟩, -⟩ := readLine_eq_ok_iff.mp h
  simp only [List.length_append, List.length_cons]
  omega

theorem readNumber_consumes : Consumes List.length readNumber := by
  intro s n rest h
  exact Nat.le_of_lt (readNumber_eq_ok_iff.mp h).length_lt

theorem readPayload_consumes (l : Int) : Consumes List.length (readPayload l) := by
  intro s text rest h
  obtain ⟨-, -, h⟩ := bind_eq_ok.mp h
  obtain ⟨⟨buf, u⟩, hfull, h⟩ := bind_eq_ok.mp h
  obtain ⟨c, -, h⟩ := bind_eq_ok.mp h
  have hu : u.length ≤ s.length := by
    unfold readFull at hfull
    split at hfull
    · cases hfull
      simp
    · cases hfull
  split at h
  · cases h
  · obtain ⟨d, -, h⟩ := bind_eq_ok.mp h
    split at h
    · cases h
    · cases h
      exact hu

/-! ## Values -/

section
variable (readItem : Read Value) (s : Bytes)

theorem readTyped_simple :
    readTyped readItem 43 s = readLine s >>= fun p => .ok (.simple p.1, p.2) := rfl

theorem readTyped_error :
    readTyped readItem 45 s = readLine s >>= fun p => .ok (.error p.1, p.2) := rfl

theorem readTyped_integer :
    readTyped readItem 58 s = readNumber s >>= fun p => .ok (.integer p.1, p.2) := rfl

theorem readTyped_bulk :
    readTyped readItem 36 s = readLen s >>= fun p =>
      if p.1 = -1 then .ok (.nullBulk, p.2)
      else readPayload p.1 p.2 >>= fun q => .ok (.bulk q.1, q.2) := rfl

theorem readTyped_array :
    readTyped readItem 42 s = readLen s >>= fun p =>
      if p.1 = -1 then .ok (.nullArray, p.2)
      else makeslice 64 p.1 >>= fun _ =>
        times readItem p.1.toNat p.2 >>= fun q => .ok (.array q.1, q.2) := rfl

end

theorem readTyped_consumes {readItem : Read Value} (h : Consumes List.length readItem)
    (b : UInt8) : Consumes List.length (readTyped readItem b) := by
  intro s v rest hs
  unfold readTyped at hs
  split_ifs at hs
  · exact readLine_consumes.pure Value.simple _ _ _ hs
  · exact readLine_consumes.pure Value.error _ _ _ hs
  · exact readNumber_consumes.pure Value.integer _ _ _ hs
  · obtain ⟨⟨l, u⟩, hl, hs⟩ := bind_eq_ok.mp hs
    have hu := readNumber_consumes _ _ _ hl
    dsimp only at hs
    split at hs
    · cases hs
      exact hu
    · exact ((readPayload_consumes l).pure Value.bulk _ _ _ hs).trans hu
  · obtain ⟨⟨n, u⟩, hn, hs⟩ := bind_eq_ok.mp hs
    have hu := readNumber_consumes _ _ _ hn
    dsimp only at hs
    split at hs
    · cases hs
      exact hu
    · obtain ⟨-, -, hs⟩ := bind_eq_ok.mp hs
      exact ((h.times n.toNat).pure Value.array _ _ _ hs).trans hu

theorem readValueWithin_consumes (bound : Nat) : Consumes List.length (readValueWithin bound) := by
  induction bound with
  | zero =>
    intro s v rest hs
    cases hs
  | succ bound ih =>
    intro s v rest hs
    cases s with
    | nil => cases hs
    | cons b s => exact (readTyped_consumes ih b s v rest hs).trans (by simp)

/-- Items are read from what is left after the first byte, so recursive calls that agree on
such inputs are interchangeable. -/
theorem readTyped_congr {readItem readItem' : Read Value} (hsize : Consumes List.length readItem)
    {b : UInt8} {s : Bytes} (h : ∀ t : Bytes, t.length ≤ s.length → readItem t = readItem' t) :
    readTyped readItem b s = readTyped readItem' b s := by
  unfold readTyped
  split_ifs
  · rfl
  · rfl
  · rfl
  · rfl
  · cases hn : readLen s with
    | error e => rfl
    | ok p =>
      have hp : p.2.length ≤ s.length := readNumber_consumes _ _ _ hn
      have htimes : times readItem p.1.toNat p.2 = times readItem' p.1.toNat p.2 :=
        times_congr hsize h hp
      show (if p.1 = -1 then _ else _) = _
      rw [htimes]
      rfl
  · rfl

theorem readValueWithin_eq (bound : Nat) :
    ∀ s : Bytes, s.length ≤ bound → readValueWithin bound s = readValue s := by
  induction bound using Nat.strongRecOn with
  | _ bound ih =>
    intro s hs
    cases s with
    | nil =>
      cases bound with
      | zero => rfl
      | succ bound => rfl
    | cons b t =>
      cases bound with
      | zero => simp at hs
      | succ bound =>
        have ht : t.length ≤ bound := by simpa using hs
        refine readTyped_congr (readValueWithin_consumes bound) ?_
        intro u hu
        rw [ih bound (by omega) u (by omega), ih t.length (by omega) u hu]

theorem readValue_consumes : Consumes List.length readValue := by
  intro s v rest hs
  exact readValueWithin_consumes s.length s v rest hs

theorem readValue_cons (b : UInt8) (s : Bytes) : readValue (b :: s) = readTyped readValue b s := by
  refine readTyped_congr (readValueWithin_consumes s.length) ?_
  intro t ht
  exact readValueWithin_eq s.length t ht

end Vole.Resp
