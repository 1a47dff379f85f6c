import Vole.Server.AofCodec
import Vole.Server.Replay
import Mathlib.Data.Set.Function

/-!
# A log with a torn tail

What `ReplayAOF` makes of the bytes of a file when the last write before a crash stopped
inside a line. `OpenAOF` opens the file for appending and does not look at its end, so the
lines written after the restart begin where the torn line broke off.
-/

namespace Vole.Server

open Vole.Go List

variable {records : List Record} {t : Bytes} {args : Record} {line : Bytes}

/-! ## The scanner -/

def carriageReturn : UInt8 := 13

/-- `dropCR` of `bufio`. -/
def dropCR (line : Bytes) : Bytes :=
  if line.getLast? = some carriageReturn then line.dropLast else line

/-- `bufio.ScanLines` over a whole file: what stands before each newline, and what is left
at the end of the file unless it is empty. -/
def scanLines (file : Bytes) : List Bytes :=
  let parts := file.splitOn newline
  (if parts.getLast? = some [] then parts.dropLast else parts).map dropCR

theorem splitOn_append_cons (c : UInt8) (s t : Bytes) :
    (s ++ c :: t).splitOn c = s.splitOn c ++ t.splitOn c :=
  splitOnP_append_cons (p := (· == c)) s t (beq_self_eq_true c)

theorem scanLines_append_newline (hline : newline ∉ line) (rest : Bytes) :
    scanLines (line ++ newline :: rest) = dropCR line :: scanLines rest := by
  have hsplit : (line ++ newline :: rest).splitOn newline = line :: rest.splitOn newline := by
    refine splitOnP_append_cons_of_forall_mem ?_ newline (by simp) rest
    intro c hc
    exact beq_false_of_ne fun heq => hline (heq ▸ hc)
  have hne : rest.splitOn newline ≠ [] := splitOn_ne_nil newline rest
  unfold scanLines
  dsimp only
  rw [hsplit, getLast?_cons_of_ne_nil hne, dropLast_cons_of_ne_nil hne]
  split <;> rfl

theorem scanLines_unterminated (hline : newline ∉ line) (hne : line ≠ []) :
    scanLines line = [dropCR line] := by
  have hsplit : line.splitOn newline = [line] := by
    refine splitOnP_eq_singleton ?_
    intro c hc
    exact beq_false_of_ne fun heq => hline (heq ▸ hc)
  unfold scanLines
  rw [hsplit]
  simp [hne]

/-! ## The records of a file -/

section
variable (crc : Bytes → UInt32)

/-- The head of the loop of `ReplayAOF`: a corrupted or empty line is skipped. -/
def readRecord (line : Bytes) : Option Record :=
  let (args, valid) := verifyAndParseLine crc line
  if valid = false then none
  else if args.length = 0 then none
  else some args

/-- The records that `ReplayAOF` hands to its switch, in the order of the file. -/
def executed (file : Bytes) : List Record := (scanLines file).filterMap (readRecord crc)

/-- `ReplayAOF` on the bytes of a file. -/
def replayAOF (R : Runtime) (now : Time) (file : Bytes) (s : Store) : Store :=
  replay R now (executed crc file) s

/-- The bytes that a list of calls of `AOF.Append` writes. -/
def written (records : List Record) : Bytes := records.flatMap (appendLine crc)

/-- A record that the codec gives back unchanged. -/
def Readable (args : Record) : Prop := args ≠ [] ∧ ∀ a ∈ args, Survives a

instance (args : Record) : Decidable (Readable args) := by
  unfold Readable
  infer_instance

/-! ## Whole lines -/

theorem newline_not_mem_lineContent (args : List Bytes) : newline ∉ lineContent args := by
  unfold lineContent
  induction args with
  | nil => simp
  | cons arg args ih =>
    cases args with
    | nil => simpa using not_mem_escape (.inr rfl) arg
    | cons next args =>
      rw [map_cons, map_cons, intercalate_cons_cons, ← map_cons]
      simp only [mem_append, mem_singleton, not_or]
      exact ⟨⟨not_mem_escape (.inr rfl) arg, by decide⟩, ih⟩

theorem newline_not_mem_recordLine (args : List Bytes) : newline ∉ recordLine crc args := by
  unfold recordLine
  rw [mem_append, mem_cons, not_or, not_or]
  exact ⟨newline_not_mem_lineContent args, by decide, checksumField_clean crc (by decide)⟩

theorem dropCR_append_recordLine (t : Bytes) (args : List Bytes) :
    dropCR (t ++ recordLine crc args) = t ++ recordLine crc args := by
  refine if_neg fun hlast => ?_
  have hfield : (t ++ recordLine crc args).getLast?
      = (checksumField crc (lineContent args)).getLast? := by
    unfold recordLine checksumField
    rw [← append_assoc, getLast?_append_cons, getLast?_cons_cons]
  rw [hfield] at hlast
  exact checksumField_clean crc (by decide) (mem_of_getLast? hlast)

theorem readRecord_recordLine (hargs : Readable args) :
    readRecord crc (recordLine crc args) = some args := by
  obtain ⟨hne, hsurvives⟩ := hargs
  cases args with
  | nil => exact absurd rfl hne
  | cons arg args =>
    have hline := (verifyAndParseLine_recordLine_eq_iff crc arg args).mpr hsurvives
    simp [readRecord, hline]

theorem executed_append (hargs : Readable args) (rest : Bytes) :
    executed crc (appendLine crc args ++ rest) = args :: executed crc rest := by
  have hfile : appendLine crc args ++ rest = recordLine crc args ++ newline :: rest := by
    simp [appendLine]
  have hcr : dropCR (recordLine crc args) = recordLine crc args :=
    dropCR_append_recordLine crc [] args
  rw [executed, hfile, scanLines_append_newline (newline_not_mem_recordLine crc args), hcr,
    filterMap_cons_some (readRecord_recordLine crc hargs)]
  rfl

section
variable (hrecords : ∀ args ∈ records, Readable args)
include hrecords

theorem executed_written (rest : Bytes) :
    executed crc (written crc records ++ rest) = records ++ executed crc rest := by
  induction records with
  | nil => rfl
  | cons args records ih =>
    have hargs : Readable args := hrecords args (.head _)
    have hrest := ih fun a ha => hrecords a (.tail _ ha)
    have hfile : written crc (args :: records) ++ rest
        = appendLine crc args ++ (written crc records ++ rest) := by
      simp [written]
    rw [hfile, executed_append crc hargs, hrest]
    rfl

theorem executed_whole :
    executed crc (written crc records) = records := by
  have hwhole := executed_written crc hrecords []
  rwa [append_nil, show executed crc [] = [] from rfl, append_nil] at hwhole

/-- On a file without a torn line, replay is replay of the records appended: the other
modules keep the log as a list of records. -/
theorem replayAOF_written (R : Runtime) (now : Time) (s : Store) :
    replayAOF crc R now (written crc records) s = replay R now records s := by
  rw [replayAOF, executed_whole crc hrecords]

end

/-! ## A torn line -/

/-- A line behind a torn one: the checksum field is the second line's, the content it is
compared with begins with the torn one. -/
theorem readRecord_merged {args : List Bytes}
    (hcrc : crc (t ++ lineContent args) ≠ crc (lineContent args)) :
    readRecord crc (t ++ recordLine crc args) = none := by
  have hfield : tab ∉ checksumField crc (lineContent args) := checksumField_clean crc (by decide)
  have hline : t ++ recordLine crc args
      = (t ++ lineContent args) ++ tab :: checksumField crc (lineContent args) := by
    simp [recordLine]
  have hsplit : (t ++ recordLine crc args).splitOn tab
      = (t ++ lineContent args).splitOn tab ++ [checksumField crc (lineContent args)] := by
    have hsingle : (checksumField crc (lineContent args)).splitOn tab
        = [checksumField crc (lineContent args)] := by
      refine splitOnP_eq_singleton ?_
      intro c hc
      exact beq_false_of_ne fun heq => hfield (heq ▸ hc)
    rw [hline, splitOn_append_cons, hsingle]
  have hlast : (unescapeLine (t ++ recordLine crc args)).getLast?
      = some (checksumField crc (lineContent args)) := by
    rw [unescapeLine, hsplit, map_append, map_singleton, unescape_checksumField,
      getLast?_concat]
  have hend : lastIndex tab (t ++ recordLine crc args)
      = some (t ++ lineContent args).length := by
    rw [hline]
    exact lastIndex_append_cons _ hfield
  have hcontent : (t ++ recordLine crc args).take (t ++ lineContent args).length
      = t ++ lineContent args := by
    rw [hline]
    exact take_left
  have hne : (crc (lineContent args)).toNat ≠ (crc (t ++ lineContent args)).toNat :=
    fun heq => hcrc (UInt32.toNat_inj.mp heq.symm)
  simp only [readRecord, verifyAndParseLine, hlast, hend, hcontent]
  simp [checksumField, parseUint_formatHex08, hne]

theorem readRecord_isSome (hvalid : (verifyAndParseLine crc line).2 = true) :
    (readRecord crc line).isSome := by
  have hargs : (verifyAndParseLine crc line).1 ≠ [] := by
    have hfields : unescapeLine line ≠ [] := by
      simp [unescapeLine, splitOn_ne_nil]
    revert hvalid
    unfold verifyAndParseLine
    dsimp only
    cases hlast : (unescapeLine line).getLast? with
    | none => exact fun _ => absurd (getLast?_eq_none_iff.mp hlast) hfields
    | some last =>
      dsimp only
      split
      · cases hend : lastIndex tab line with
        | none => exact fun hvalid => absurd hvalid Bool.false_ne_true
        | some contentEnd =>
          dsimp only
          have htab : tab ∈ line := by
            by_contra hmissing
            rw [lastIndex_of_not_mem hmissing] at hend
            cases hend
          obtain ⟨s, u, hsu⟩ := append_of_mem htab
          -- one field on each side of the tab
          have htwo : (unescapeLine line).dropLast ≠ [] := by
            rw [unescapeLine, hsu, splitOn_append_cons, map_append,
              dropLast_append_of_ne_nil (by simp [splitOn_ne_nil])]
            simp [splitOn_ne_nil]
          split
          · exact fun hvalid => absurd hvalid Bool.false_ne_true
          · split
            · exact fun hvalid => absurd hvalid Bool.false_ne_true
            · exact fun _ => htwo
      · exact fun _ => hfields
  simp [readRecord, hvalid, hargs]

theorem readRecord_eq_none_iff (line : Bytes) :
    readRecord crc line = none ↔ (verifyAndParseLine crc line).2 = false := by
  constructor
  · intro hnone
    by_contra hvalid
    have hsome := readRecord_isSome crc (Bool.not_eq_false _ ▸ hvalid)
    rw [hnone] at hsome
    cases hsome
  · intro hinvalid
    simp [readRecord, hinvalid]

theorem executed_unterminated (hline : newline ∉ t) (hne : t ≠ []) :
    executed crc t = (readRecord crc (dropCR t)).toList := by
  rw [executed, scanLines_unterminated hline hne]
  cases h : readRecord crc (dropCR t) <;> simp [h]

/-- Behind a torn line the first whole line is lost and the others are read. -/
theorem executed_torn_append (hline : newline ∉ t) (hrecords : ∀ r ∈ records, Readable r)
    (hcrc : crc (t ++ lineContent args) ≠ crc (lineContent args)) :
    executed crc (t ++ written crc (args :: records)) = records := by
  have hfile : t ++ written crc (args :: records)
      = (t ++ recordLine crc args) ++ newline :: written crc records := by
    simp [written, appendLine]
  have hmerged : newline ∉ t ++ recordLine crc args := by
    rw [mem_append, not_or]
    exact ⟨hline, newline_not_mem_recordLine crc args⟩
  rw [executed, hfile, scanLines_append_newline hmerged, dropCR_append_recordLine,
    filterMap_cons_none (readRecord_merged crc hcrc)]
  exact executed_whole crc hrecords

theorem newline_not_mem_torn {args : List Bytes} (hpre : t <+: appendLine crc args)
    (hproper : t ≠ appendLine crc args) : newline ∉ t := by
  have hline : t <+: recordLine crc args := by
    rcases prefix_concat_iff.mp hpre with heq | hshort
    · exact absurd heq hproper
    · exact hshort
  exact fun hmem => newline_not_mem_recordLine crc args (hline.subset hmem)

/-- **Torn log tail.** `records` were written whole, of the line of one more command only `t`
reached the file, and after the restart `later` were appended. Exactly `records` and `later`
are executed if and only if nothing of the torn line was written, or nothing was appended
behind it and its last field looks like a checksum that does not match. -/
theorem executed_torn_iff {records later : List Record} {args : Record} {t : Bytes}
    (hrecords : ∀ r ∈ records, Readable r) (hlater : ∀ r ∈ later, Readable r)
    (hpre : t <+: appendLine crc args) (hproper : t ≠ appendLine crc args)
    (hcrc : ∀ r ∈ later, Set.InjOn crc {lineContent r, t ++ lineContent r}) :
    executed crc (written crc records ++ (t ++ written crc later)) = records ++ later
      ↔ t = [] ∨ (later = [] ∧ (verifyAndParseLine crc (dropCR t)).2 = false) := by
  have hline : newline ∉ t := newline_not_mem_torn crc hpre hproper
  rw [executed_written crc hrecords, append_cancel_left_eq]
  by_cases hempty : t = []
  · subst hempty
    simp [executed_whole crc hlater]
  · cases later with
    | nil =>
      have htail : executed crc (t ++ written crc []) = (readRecord crc (dropCR t)).toList := by
        rw [show written crc [] = [] from rfl, append_nil]
        exact executed_unterminated crc hline hempty
      rw [htail, Option.toList_eq_nil_iff, readRecord_eq_none_iff]
      simp [hempty]
    | cons r later =>
      -- the line behind the tear carries a checksum of its own content only
      have hne : crc (t ++ lineContent r) ≠ crc (lineContent r) := by
        intro heq
        have hsame := hcrc r (.head _) (by simp) (by simp) heq
        exact hempty (by simpa using hsame)
      rw [executed_torn_append crc hline
        (fun q hq => hlater q (.tail _ hq)) hne]
      simp [hempty]

/-- A cut behind nine bytes of an argument that begins with `#` is the harmless kind; with a
line behind it, it is not. -/
theorem executed_torn_iff_hash :
    let whole := [[bytes "SET", bytes "a", bytes "1"]]
    let later := [[bytes "SET", bytes "b", bytes "2"]]
    let t := bytes "SET\tk\t#12345678"
    executed checksumIEEE (written checksumIEEE whole ++ (t ++ written checksumIEEE []))
        = whole ++ []
      ∧ executed checksumIEEE (written checksumIEEE whole ++ (t ++ written checksumIEEE later))
        ≠ whole ++ later := by
  intro whole later t
  have hwhole : ∀ r ∈ whole, Readable r := by decide +kernel
  have hlater : ∀ r ∈ later, Readable r := by decide +kernel
  have hpre : t <+: appendLine checksumIEEE [bytes "SET", bytes "k", bytes "#123456789"] := by
    decide +kernel
  have hproper : t ≠ appendLine checksumIEEE [bytes "SET", bytes "k", bytes "#123456789"] := by
    decide +kernel
  have hcrc : ∀ r ∈ later, Set.InjOn checksumIEEE {lineContent r, t ++ lineContent r} := by
    intro r hr
    rw [mem_singleton.mp hr, Set.injOn_pair]
    intro heq
    exact absurd heq (by decide +kernel)
  constructor
  · exact (executed_torn_iff checksumIEEE hwhole (by decide) hpre hproper (by simp)).mpr
      (.inr ⟨rfl, by decide +kernel⟩)
  · intro heq
    exact absurd ((executed_torn_iff checksumIEEE hwhole hlater hpre hproper hcrc).mp heq)
      (by decide +kernel)

/-- The line of `DEL job:12` breaks off in its last argument. Replay deletes `job:1`; and if
two more records are appended after the restart, the first of them is lost. -/
theorem torn_line_is_executed :
    let t := bytes "DEL\tjob:1"
    let later := [[bytes "SADD", bytes "s", bytes "a"], [bytes "SADD", bytes "s", bytes "b"]]
    t <+: appendLine checksumIEEE [bytes "DEL", bytes "job:12"]
      ∧ executed checksumIEEE t = [[bytes "DEL", bytes "job:1"]]
      ∧ executed checksumIEEE (t ++ written checksumIEEE later)
        = [[bytes "SADD", bytes "s", bytes "b"]] := by
  decide +kernel

end

end Vole.Server
