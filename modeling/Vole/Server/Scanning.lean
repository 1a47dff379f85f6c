import Vole.Server.TornTail

/-!
# The limit of the line scanner

`ReplayAOF` reads the file through a `bufio.Scanner` with its default buffer: a line that does
not fit into 64 KiB together with its newline stops the scanner, and `ReplayAOF` returns its
error. `AOF.Append` writes lines of any length.
-/

namespace Vole.Server

open Vole.Go List

/-- `bufio.MaxScanTokenSize` -/
def maxScanTokenSize : Nat := 64 * 1024

/-- `bufio.ErrTooLong` is the only error of a scanner over a file that can be read. -/
inductive ScanError where
  | tooLong
  deriving DecidableEq

/-- The calls of `Scan` on the parts of a file between its newlines. The buffer has to hold a
line and its newline; at the end of the file it is full before the end is seen. -/
def scanParts : List Bytes → List Bytes × Option ScanError
  | [] => ([], none)
  | [last] =>
    if last = [] then ([], none)
    else if maxScanTokenSize ≤ last.length then ([], some .tooLong)
    else ([dropCR last], none)
  | line :: next :: rest =>
    if maxScanTokenSize ≤ line.length then ([], some .tooLong)
    else ((scanParts (next :: rest)).map (dropCR line :: ·) id)

/-- The lines that the scanner of `ReplayAOF` delivers, and `scanner.Err()`. -/
def scan (file : Bytes) : List Bytes × Option ScanError := scanParts (file.splitOn newline)

/-- `ReplayAOF` with its error: what was read before the scanner stopped has been executed. -/
def replayScanned (crc : Bytes → UInt32) (R : Runtime) (now : Time) (file : Bytes) (s : Store) :
    Store × Option ScanError :=
  (replay R now ((scan file).1.filterMap (readRecord crc)) s, (scan file).2)

/-! ## Without an error the limit is not seen -/

theorem scanParts_eq {parts : List Bytes} (h : (scanParts parts).2 = none) : (scanParts parts).1
      = (if parts.getLast? = some [] then parts.dropLast else parts).map dropCR := by
  induction parts using scanParts.induct with
  | case1 => rfl
  | case2 => rfl
  | case3 last hne hlong =>
    rw [scanParts, if_neg hne, if_pos hlong] at h
    cases h
  | case4 last hne hfits =>
    rw [scanParts, if_neg hne, if_neg hfits]
    simp [hne]
  | case5 line next rest hlong =>
    rw [scanParts, if_pos hlong] at h
    cases h
  | case6 line next rest hfits ih =>
    rw [scanParts, if_neg hfits] at h ⊢
    rw [Prod.map_fst, ih h, getLast?_cons_cons, dropLast_cons_cons]
    split <;> rfl

/-- A replay without an error is the replay without a limit. -/
theorem replayScanned_eq {crc : Bytes → UInt32} {R : Runtime} {now : Time} {file : Bytes}
    {s : Store} (h : (replayScanned crc R now file s).2 = none) :
    (replayScanned crc R now file s).1 = replayAOF crc R now file s := by
  unfold replayScanned replayAOF executed
  rw [show (scan file).1 = scanLines file from scanParts_eq h]

/-! ## The lines of a log -/

section
variable (crc : Bytes → UInt32)

theorem length_recordLine (args : List Bytes) :
    (recordLine crc args).length = (lineContent args).length + 10 := by
  simp [recordLine, checksumField]

theorem length_le_escape (s : Bytes) : s.length ≤ (escape s).length := by
  induction s with
  | nil => exact Nat.le_refl _
  | cons c s ih =>
    have hbyte : 0 < (escapeByte c).length := by
      unfold escapeByte
      split_ifs <;> exact Nat.succ_pos _
    rw [escape_cons, length_append, length_cons]
    omega

theorem length_le_lineContent {args : List Bytes} {arg : Bytes} (h : arg ∈ args) :
    arg.length ≤ (lineContent args).length := by
  refine (length_le_escape arg).trans (List.IsInfix.length_le ?_)
  unfold lineContent
  induction args with
  | nil => cases h
  | cons first rest ih =>
    cases rest with
    | nil =>
      rw [mem_singleton.mp h]
      simp
    | cons next rest =>
      rw [map_cons, map_cons, intercalate_cons_cons, ← map_cons]
      rcases mem_cons.mp h with rfl | hmem
      · rw [append_assoc]
        exact (prefix_append _ _).isInfix
      · exact (ih hmem).trans (suffix_append _ _).isInfix

/-- A record whose line and newline fit into the buffer. -/
def FitsScanner (args : Record) : Prop := (lineContent args).length + 11 ≤ maxScanTokenSize

instance decidableFitsScanner (args : Record) : Decidable (FitsScanner args) :=
  inferInstanceAs (Decidable (_ ≤ _))

theorem not_fitsScanner_iff {args : Record} :
    ¬ FitsScanner args ↔ maxScanTokenSize ≤ (recordLine crc args).length := by
  rw [length_recordLine]
  unfold FitsScanner
  omega

theorem scan_appendLine (args : Record) (rest : Bytes) : scan (appendLine crc args ++ rest)
      = if FitsScanner args then (scan rest).map (recordLine crc args :: ·) id
        else ([], some .tooLong) := by
  have hfile : appendLine crc args ++ rest = recordLine crc args ++ newline :: rest := by
    simp [appendLine]
  have hsplit : (recordLine crc args ++ newline :: rest).splitOn newline
      = recordLine crc args :: rest.splitOn newline := by
    refine splitOnP_append_cons_of_forall_mem ?_ newline (by simp) rest
    intro c hc
    exact beq_false_of_ne fun heq => newline_not_mem_recordLine crc args (heq ▸ hc)
  have hcr : dropCR (recordLine crc args) = recordLine crc args :=
    dropCR_append_recordLine crc [] args
  obtain ⟨next, parts, hrest⟩ := exists_cons_of_ne_nil (splitOn_ne_nil newline rest)
  unfold scan
  rw [hfile, hsplit, hrest, scanParts, hcr]
  by_cases hfits : FitsScanner args
  · rw [if_pos hfits, if_neg (fun hlong => (not_fitsScanner_iff crc).mpr hlong hfits)]
  · rw [if_neg hfits, if_pos ((not_fitsScanner_iff crc).mp hfits)]

/-- A record that does not fit stops the scanner, and nothing behind it is read. -/
theorem scan_written_append {before : List Record} (hbefore : ∀ args ∈ before, FitsScanner args)
    {args : Record} (hlong : ¬ FitsScanner args) (behind : List Record) :
    scan (written crc (before ++ args :: behind))
      = (before.map (recordLine crc), some .tooLong) := by
  induction before with
  | nil =>
    show scan (appendLine crc args ++ written crc behind) = _
    rw [scan_appendLine, if_neg hlong]
    rfl
  | cons first before ih =>
    have hrest := ih fun a ha => hbefore a (.tail _ ha)
    show scan (appendLine crc first ++ written crc (before ++ args :: behind)) = _
    rw [scan_appendLine, if_pos (hbefore first (.head _)), hrest]
    rfl

end

/-- The scanner hands the line of every record on, in order and without an error, if and only
if every line fits into its buffer. -/
theorem records_read_back_iff (crc : Bytes → UInt32) (records : List Record) :
    scan (written crc records) = (records.map (recordLine crc), none)
      ↔ ∀ args ∈ records, FitsScanner args := by
  induction records with
  | nil => exact iff_of_true rfl (by simp)
  | cons args records ih =>
    show scan (appendLine crc args ++ written crc records) = _ ↔ _
    rw [scan_appendLine, forall_mem_cons, ← ih]
    by_cases hfits : FitsScanner args
    · rw [if_pos hfits]
      constructor
      · intro h
        have hlines : (scan (written crc records)).1 = records.map (recordLine crc) :=
          (cons.inj (congrArg Prod.fst h)).2
        have herror : (scan (written crc records)).2 = none := congrArg Prod.snd h
        exact ⟨hfits, Prod.ext hlines herror⟩
      · rintro ⟨-, h⟩
        rw [h]
        rfl
    · rw [if_neg hfits]
      refine iff_of_false (fun h => ?_) (fun h => hfits h.1)
      exact absurd (congrArg Prod.snd h) (by simp)

/-- `SET k v` with a value of 64 KiB is logged; on replay the scanner stops at its line, and
neither this record nor the one behind it is read. -/
theorem long_record_not_read : scan (written checksumIEEE [[bytes "SET", bytes "a", bytes "1"],
        [bytes "SET", bytes "k", List.replicate 65536 118], [bytes "SET", bytes "b", bytes "2"]])
      = ([recordLine checksumIEEE [bytes "SET", bytes "a", bytes "1"]], some .tooLong) := by
  have hlong : ¬ FitsScanner [bytes "SET", bytes "k", replicate 65536 118] := by
    intro hfits
    have hvalue : (replicate 65536 (118 : UInt8)).length
        ≤ (lineContent [bytes "SET", bytes "k", replicate 65536 118]).length :=
      length_le_lineContent (.tail _ (.tail _ (.head _)))
    unfold FitsScanner maxScanTokenSize at hfits
    rw [length_replicate] at hvalue
    omega
  have hfirst : ∀ args ∈ [[bytes "SET", bytes "a", bytes "1"]], FitsScanner args := by
    decide +kernel
  exact scan_written_append checksumIEEE hfirst hlong _

end Vole.Server
