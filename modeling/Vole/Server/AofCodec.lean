import Vole.Go.Strings

/-!
# The record codec of the append-only file

One record is one line: the arguments, escaped and joined by tabs, then a tab, `#` and
the CRC of everything before it. The checksum function is a parameter: nothing below
depends on which one it is.

* `escape`, `unescapeLine`, `appendLine`, `verifyAndParseLine` — the functions of
  `aof.go`
* `unescape_escape` — what three replacements make of the output of the other three: the
  text comes back, except that an `n` or `t` after a backslash has become a newline or a
  tab
* `verifyAndParseLine_recordLine` — every written line passes its checksum and yields the
  arguments up to that change
-/

namespace Vole.Server

open Vole.Go List

def backslash : UInt8 := 92
def tab : UInt8 := 9
def newline : UInt8 := 10
def letterN : UInt8 := 110
def letterT : UInt8 := 116
def hash : UInt8 := 35

/-! ## The functions of the source -/

/-- `escape`: three whole-string replacements. -/
def escape (s : Bytes) : Bytes :=
  let s := replaceAll s [backslash] [backslash, backslash]
  let s := replaceAll s [tab] [backslash, letterT]
  replaceAll s [newline] [backslash, letterN]

/-- The loop body of `unescapeLine`: three replacements, in another order. -/
def unescape (part : Bytes) : Bytes :=
  let part := replaceAll part [backslash, letterN] [newline]
  let part := replaceAll part [backslash, letterT] [tab]
  replaceAll part [backslash, backslash] [backslash]

def unescapeLine (line : Bytes) : List Bytes := (line.splitOn tab).map unescape

/-- The content part of a line: the escaped arguments, joined by tabs. -/
def lineContent (args : List Bytes) : Bytes := [tab].intercalate (args.map escape)

section
variable (crc : Bytes → UInt32)

/-- The checksum field, `#` and eight hexadecimal digits. -/
def checksumField (content : Bytes) : Bytes := hash :: formatHex08 (crc content)

/-- The line of `AOF.Append` without its final newline. -/
def recordLine (args : List Bytes) : Bytes :=
  lineContent args ++ tab :: checksumField crc (lineContent args)

/-- What `AOF.Append` writes to the file. -/
def appendLine (args : List Bytes) : Bytes := recordLine crc args ++ [newline]

/-- `verifyAndParseLine`. A line whose last field does not look like a checksum is
accepted as it is. -/
def verifyAndParseLine (line : Bytes) : List Bytes × Bool :=
  let args := unescapeLine line
  match args.getLast? with
  | none => ([], true)
  | some last =>
    if last.length = 9 ∧ last.head? = some hash then
      match lastIndex tab line with
      | none => ([], false)
      | some contentEnd =>
        let content := line.take contentEnd
        match parseUint last.tail 16 32 with
        | none => ([], false)
        | some expected =>
          if expected ≠ (crc content).toNat then ([], false)
          else (args.dropLast, true)
    else (args, true)

end

/-! ## Escaping, byte by byte -/

/-- The escape sequence of one byte. -/
def escapeByte (c : UInt8) : Bytes :=
  if c = backslash then [backslash, backslash]
  else if c = tab then [backslash, letterT]
  else if c = newline then [backslash, letterN]
  else [c]

theorem escape_eq_flatMap (s : Bytes) : escape s = s.flatMap escapeByte := by
  simp only [escape, replaceAll_singleton, flatMap_assoc]
  congr 1
  funext c
  unfold escapeByte
  by_cases hb : c = backslash
  · subst hb
    decide
  · by_cases ht : c = tab
    · subst ht
      decide
    · by_cases hn : c = newline
      · subst hn
        decide
      · simp [hb, ht, hn]

@[simp] theorem escape_cons (c : UInt8) (s : Bytes) :
    escape (c :: s) = escapeByte c ++ escape s := by
  simp [escape_eq_flatMap]

/-- An escaped text has no tab and no newline of its own, so these only separate fields and
lines. -/
theorem not_mem_escape {c : UInt8} (hc : c = tab ∨ c = newline) (s : Bytes) : c ∉ escape s := by
  rw [escape_eq_flatMap, mem_flatMap]
  rintro ⟨b, -, hb⟩
  unfold escapeByte at hb
  rcases hc with rfl | rfl <;> split_ifs at hb
  all_goals first | exact absurd hb (by decide) | exact absurd (mem_singleton.mp hb).symm ‹_›

/-! ## Unescaping, pass by pass

`pend true` is the second backslash of an escaped backslash: whether it pairs with the
first or is swallowed by the byte that follows is decided by that byte. -/

def pend (afterBackslash : Bool) : Bytes := if afterBackslash then [backslash] else []

/-- The text after the first replacement, in terms of the source text. -/
def afterNewlines : Bool → Bytes → Bytes
  | b, [] => pend b
  | b, c :: s =>
    if b = true ∧ c = letterN then newline :: afterNewlines false s
    else if c = backslash then pend b ++ backslash :: afterNewlines true s
    else if c = tab then pend b ++ backslash :: letterT :: afterNewlines false s
    else pend b ++ c :: afterNewlines false s

/-- The text after the second replacement. -/
def afterTabs : Bool → Bytes → Bytes
  | b, [] => pend b
  | b, c :: s =>
    if b = true ∧ c = letterN then newline :: afterTabs false s
    else if b = true ∧ c = letterT then tab :: afterTabs false s
    else if c = backslash then pend b ++ backslash :: afterTabs true s
    else pend b ++ c :: afterTabs false s

/-- The text that comes back: an `n` or `t` after a backslash has turned into a control
character. -/
def mangle : Bool → Bytes → Bytes
  | _, [] => []
  | b, c :: s =>
    if b = true ∧ c = letterN then newline :: mangle false s
    else if b = true ∧ c = letterT then tab :: mangle false s
    else c :: mangle (c = backslash) s

theorem replace_newlines (b : Bool) (s : Bytes) :
    replaceAll (pend b ++ escape s) [backslash, letterN] [newline] = afterNewlines b s := by
  induction s generalizing b with
  | nil => cases b <;> rfl
  | cons c s ih =>
    have ihTrue := ih true
    have ihFalse := ih false
    simp only [pend, if_true, cons_append, nil_append] at ihTrue
    simp only [pend, Bool.false_eq_true, if_false, nil_append] at ihFalse
    rw [escape_cons]
    unfold escapeByte afterNewlines
    -- which byte is it, and is a backslash waiting in front of it?
    by_cases hb : c = backslash
    · subst hb
      cases b <;> simp +decide [pend, replaceAll_pair_cons_cons, ihTrue]
    · by_cases ht : c = tab
      · subst ht
        cases b <;> simp +decide [pend, replaceAll_pair_cons_cons,
          replaceAll_pair_of_head_ne, ihFalse]
      · by_cases hn : c = newline
        · subst hn
          cases b <;> simp +decide [pend, replaceAll_pair_cons_cons, ihFalse]
        · cases b
          · simp [pend, hb, ht, hn, replaceAll_pair_of_head_ne _ _ _ (Ne.symm hb), ihFalse]
          · by_cases hl : c = letterN
            · subst hl
              simp +decide [pend, replaceAll_pair_cons_cons, ihFalse]
            · simp [pend, hb, ht, hn, hl, Ne.symm hl, replaceAll_pair_cons_cons,
                replaceAll_pair_of_head_ne _ _ _ (Ne.symm hb), ihFalse]

/-- Behind a pending backslash the text never continues with a plain letter. -/
theorem head?_afterNewlines_true (s : Bytes) : (afterNewlines true s).head? ≠ some letterT := by
  cases s with
  | nil => decide
  | cons c s =>
    unfold afterNewlines
    split
    · simp +decide
    · split
      · simp +decide [pend]
      · split <;> simp +decide [pend]

theorem replace_tabs (b : Bool) (s : Bytes) :
    replaceAll (afterNewlines b s) [backslash, letterT] [tab] = afterTabs b s := by
  induction s generalizing b with
  | nil => cases b <;> rfl
  | cons c s ih =>
    have hpending : replaceAll (backslash :: afterNewlines true s) [backslash, letterT] [tab]
        = backslash :: afterTabs true s := by
      rw [replaceAll_pair_of_next_ne _ (head?_afterNewlines_true s), ih true]
    unfold afterNewlines afterTabs
    by_cases hl : b = true ∧ c = letterN
    · obtain ⟨rfl, rfl⟩ := hl
      simp +decide [replaceAll_pair_of_head_ne, ih false]
    · rw [if_neg hl, if_neg hl]
      by_cases hb : c = backslash
      · subst hb
        cases b <;> simp +decide [pend, replaceAll_pair_cons_cons, hpending]
      · by_cases ht : c = tab
        · subst ht
          cases b <;> simp +decide [pend, replaceAll_pair_cons_cons, ih false]
        · cases b
          · simp [pend, hb, ht, replaceAll_pair_of_head_ne _ _ _ (Ne.symm hb), ih false]
          · by_cases hlt : c = letterT
            · subst hlt
              simp +decide [pend, replaceAll_pair_cons_cons, ih false]
            · simp [pend, hb, ht, hlt, Ne.symm hlt, replaceAll_pair_cons_cons,
                replaceAll_pair_of_head_ne _ _ _ (Ne.symm hb), ih false]

theorem replace_backslashes (s : Bytes) :
    replaceAll (afterTabs false s) [backslash, backslash] [backslash] = mangle false s ∧
    replaceAll (backslash :: afterTabs true s) [backslash, backslash] [backslash]
      = backslash :: mangle true s := by
  induction s with
  | nil => exact ⟨rfl, rfl⟩
  | cons c s ih =>
    obtain ⟨ihFalse, ihTrue⟩ := ih
    unfold afterTabs mangle
    by_cases hb : c = backslash
    · subst hb
      constructor <;> simp +decide [pend, replaceAll_pair_cons_cons, ihTrue]
    · by_cases hl : c = letterN
      · subst hl
        constructor <;> simp +decide [pend, replaceAll_pair_cons_cons,
          replaceAll_pair_of_head_ne, ihFalse]
      · by_cases ht : c = letterT
        · subst ht
          constructor <;> simp +decide [pend, replaceAll_pair_cons_cons,
            replaceAll_pair_of_head_ne, ihFalse]
        · constructor <;> simp [pend, hb, hl, ht, replaceAll_pair_cons_cons,
            replaceAll_pair_of_head_ne _ _ _ (Ne.symm hb), ihFalse]

theorem unescape_escape (s : Bytes) : unescape (escape s) = mangle false s := by
  have hnewlines : replaceAll (escape s) [backslash, letterN] [newline]
      = afterNewlines false s := replace_newlines false s
  simp only [unescape, hnewlines, replace_tabs, (replace_backslashes s).1]

/-! ## When a text survives -/

/-- The texts that come back from the file as they were: none of their backslashes is
followed by `n` or `t`. -/
def Survives (s : Bytes) : Prop :=
  ¬ [backslash, letterN] <:+: s ∧ ¬ [backslash, letterT] <:+: s

instance (s : Bytes) : Decidable (Survives s) := by
  unfold Survives
  infer_instance

theorem survives_cons_of_ne {c : UInt8} (hc : c ≠ backslash) (s : Bytes) :
    Survives (c :: s) ↔ Survives s := by
  simp [Survives, infix_cons_iff, Ne.symm hc]

theorem survives_backslash_cons (c : UInt8) (s : Bytes) :
    Survives (backslash :: c :: s) ↔ c ≠ letterN ∧ c ≠ letterT ∧ Survives (c :: s) := by
  have hstep : ∀ d : UInt8, [backslash, d] <:+: backslash :: c :: s
      ↔ c = d ∨ [backslash, d] <:+: c :: s := by
    intro d
    rw [infix_cons_iff]
    simp [eq_comm]
  unfold Survives
  rw [hstep, hstep]
  tauto

theorem mangle_eq_self_iff (b : Bool) (s : Bytes) : mangle b s = s ↔ Survives (pend b ++ s) := by
  induction s generalizing b with
  | nil => cases b <;> decide
  | cons c s ih =>
    -- without the special letters the head is kept and only its being a backslash matters
    have hkeep : mangle (c = backslash) s = s ↔ Survives (c :: s) := by
      rw [ih]
      by_cases hb : c = backslash
      · simp [hb, pend]
      · simp [hb, pend, survives_cons_of_ne]
    unfold mangle
    cases b with
    | false => simpa [pend] using hkeep
    | true =>
      have hsplit := survives_backslash_cons c s
      simp only [pend, if_true, cons_append, nil_append, hsplit]
      by_cases hn : c = letterN
      · subst hn
        simp +decide
      · by_cases ht : c = letterT
        · subst ht
          simp +decide
        · simpa [hn, ht] using hkeep

/-! ## Whole lines -/

section
variable (crc : Bytes → UInt32)

theorem checksumField_clean {content : Bytes} {c : UInt8}
    (hc : c ∈ [tab, backslash, newline, 13]) : c ∉ checksumField crc content := by
  have hdigits : c ∉ formatHex08 (crc content) := by
    refine not_mem_formatHex08 _ ?_
    simp only [mem_cons, not_mem_nil, or_false] at hc
    rcases hc with rfl | rfl | rfl | rfl <;> decide
  have hhash : c ≠ hash := by
    rintro rfl
    exact absurd hc (by decide)
  simp [checksumField, hdigits, hhash]

theorem unescape_checksumField (content : Bytes) :
    unescape (checksumField crc content) = checksumField crc content := by
  have hb : backslash ∉ checksumField crc content := checksumField_clean crc (by decide)
  simp only [unescape, replaceAll_pair_of_not_mem _ _ _ hb]

theorem splitOn_recordLine (arg : Bytes) (args : List Bytes) :
    (recordLine crc (arg :: args)).splitOn tab
      = (arg :: args).map escape ++ [checksumField crc (lineContent (arg :: args))] := by
  have hline : recordLine crc (arg :: args) = [tab].intercalate
      ((arg :: args).map escape ++ [checksumField crc (lineContent (arg :: args))]) := by
    rw [map_cons, intercalate_concat]
    rfl
  rw [hline]
  refine splitOn_intercalate tab ?_ (by simp)
  intro field hfield
  rcases mem_append.mp hfield with hescaped | hchecksum
  · obtain ⟨a, -, rfl⟩ := mem_map.mp hescaped
    exact not_mem_escape (.inl rfl) a
  · rw [mem_singleton.mp hchecksum]
    exact checksumField_clean crc (by decide)

/-- Every line `AOF.Append` writes passes its own checksum, and reads back as the
arguments with the letters after backslashes mangled. -/
theorem verifyAndParseLine_recordLine (arg : Bytes) (args : List Bytes) :
    verifyAndParseLine crc (recordLine crc (arg :: args))
      = ((arg :: args).map (mangle false), true) := by
  have hfields : unescapeLine (recordLine crc (arg :: args))
      = (arg :: args).map (mangle false)
        ++ [checksumField crc (lineContent (arg :: args))] := by
    rw [unescapeLine, splitOn_recordLine, map_append, map_map,
      map_singleton, unescape_checksumField]
    simp [unescape_escape]
  have hend : lastIndex tab (recordLine crc (arg :: args))
      = some (lineContent (arg :: args)).length :=
    lastIndex_append_cons _ (checksumField_clean crc (by decide))
  have hcontent : (recordLine crc (arg :: args)).take (lineContent (arg :: args)).length
      = lineContent (arg :: args) := take_left
  simp only [verifyAndParseLine, hfields, hend, hcontent, getLast?_concat,
    dropLast_concat]
  simp [checksumField, parseUint_formatHex08]

/-- **Codec round trip.** A record reads back exactly when no argument has a backslash
in front of an `n` or a `t`. -/
theorem verifyAndParseLine_recordLine_eq_iff (arg : Bytes) (args : List Bytes) :
    verifyAndParseLine crc (recordLine crc (arg :: args)) = (arg :: args, true)
      ↔ ∀ a ∈ arg :: args, Survives a := by
  rw [verifyAndParseLine_recordLine, Prod.mk.injEq, eq_self, and_true]
  have hmap : ∀ l : List Bytes, l.map (mangle false) = l ↔ ∀ a ∈ l, Survives a := by
    intro l
    induction l with
    | nil => simp
    | cons a l ih =>
      have hhead : mangle false a = a ↔ Survives a := mangle_eq_self_iff false a
      simp [ih, hhead]
  exact hmap (arg :: args)

/-- A two-byte argument, a backslash and an `n`, comes back as a backslash and a
newline. -/
theorem verifyAndParseLine_backslash_n : verifyAndParseLine checksumIEEE
        (recordLine checksumIEEE [bytes "SET", bytes "path", [backslash, letterN]])
      ≠ ([bytes "SET", bytes "path", [backslash, letterN]], true) := by
  decide +kernel

end

end Vole.Server
