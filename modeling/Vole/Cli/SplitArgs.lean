import Mathlib.Data.List.Basic

/-!
# The arguments of a line

`splitArgs` of the command-line client: a line typed by the user is cut into arguments at blanks,
with quotes and backslashes. The line is given by its code points.
-/

namespace Vole.Cli

open List

/-- What the loop of `splitArgs` keeps: the finished arguments, the builder, the open quote, and
whether the last rune was a backslash. -/
structure Splitter where
  args : List (List Char)
  built : List Char
  quote : Option Char
  escaped : Bool

namespace Splitter

/-- The builder becomes an argument unless it is empty. -/
def flush (x : Splitter) : Splitter :=
  if x.built = [] then x else { x with args := x.args ++ [x.built], built := [] }

/-- One rune of the line. -/
def step (x : Splitter) (r : Char) : Splitter :=
  if x.escaped then
    let r := if r = 'n' then '\n' else if r = 'r' then '\r' else if r = 't' then '\t' else r
    { x with built := x.built ++ [r], escaped := false }
  else if r = '\\' then { x with escaped := true }
  else
    match x.quote with
    | some q => if r = q then { x with quote := none } else { x with built := x.built ++ [r] }
    | none =>
      if r = '\'' ∨ r = '"' then { x with quote := some r }
      else if r = ' ' ∨ r = '\t' then x.flush
      else { x with built := x.built ++ [r] }

end Splitter

/-- `strconv.QuoteRune` of a quote -/
def quoteRune (q : Char) : String := if q = '\'' then "'\\''" else "'" ++ q.toString ++ "'"

/-- `splitArgs` -/
def splitArgs (line : List Char) : Except String (List (List Char)) :=
  let x := line.foldl Splitter.step ⟨[], [], none, false⟩
  let x := if x.escaped then { x with built := x.built ++ ['\\'] } else x
  match x.quote with
  | some q => .error ("unterminated " ++ quoteRune q ++ " string")
  | none => .ok x.flush.args

/-- An argument in double quotes. -/
def quoted (arg : List Char) : List Char :=
  '"' :: arg.flatMap (fun r => if r = '"' ∨ r = '\\' then ['\\', r] else [r]) ++ ['"']

/-- The arguments in double quotes, with a blank between any two. -/
def quotedLine (args : List (List Char)) : List Char := [' '].intercalate (args.map quoted)

variable {args : List (List Char)}

theorem scan_text (built arg : List Char) :
    (arg.flatMap (fun r => if r = '"' ∨ r = '\\' then ['\\', r] else [r])).foldl Splitter.step
      ⟨args, built, some '"', false⟩ = ⟨args, built ++ arg, some '"', false⟩ := by
  induction arg generalizing built with
  | nil => rw [append_nil]; rfl
  | cons r rest ih =>
    have hrune : (if r = '"' ∨ r = '\\' then ['\\', r] else [r]).foldl Splitter.step
        ⟨args, built, some '"', false⟩ = ⟨args, built ++ [r], some '"', false⟩ := by
      split
      · rename_i hspecial
        rcases hspecial with rfl | rfl <;> rfl
      · rename_i hplain
        obtain ⟨hquote, hslash⟩ := not_or.mp hplain
        simp [Splitter.step, hquote, hslash]
    rw [flatMap_cons, foldl_append, hrune, ih, append_assoc]
    rfl

theorem scan_quoted (arg : List Char) :
    (quoted arg).foldl Splitter.step ⟨args, [], none, false⟩ = ⟨args, arg, none, false⟩ := by
  show ((_ ++ ['"']).foldl Splitter.step ⟨args, [], some '"', false⟩) = _
  rw [foldl_append, scan_text]
  rfl

theorem flush_built (arg : List Char) : (Splitter.mk args arg none false).flush
    = ⟨args ++ [arg].filter (· ≠ []), [], none, false⟩ := by
  unfold Splitter.flush
  by_cases hempty : arg = []
  · simp [hempty]
  · simp [hempty]

/-- After the line the last argument is in the builder, and those before it are finished, without
the empty ones. -/
theorem scan_line (rest : List (List Char)) : ∃ done built,
    (quotedLine rest).foldl Splitter.step ⟨args, [], none, false⟩ = ⟨done, built, none, false⟩ ∧
      done ++ [built].filter (· ≠ []) = args ++ rest.filter (· ≠ []) := by
  induction rest generalizing args with
  | nil => exact ⟨args, [], rfl, rfl⟩
  | cons arg rest ih =>
    cases rest with
    | nil =>
      refine ⟨args, arg, ?_, rfl⟩
      rw [quotedLine, map_singleton, intercalate_singleton, scan_quoted]
    | cons next rest =>
      have hline : quotedLine (arg :: next :: rest)
          = quoted arg ++ ' ' :: quotedLine (next :: rest) := by
        simp [quotedLine]
      obtain ⟨done, built, hscan, hargs⟩ := @ih (args ++ [arg].filter (· ≠ []))
      refine ⟨done, built, ?_, ?_⟩
      · have hblank : (Splitter.mk args arg none false).step ' ' = _ := flush_built arg
        rw [hline, foldl_append, scan_quoted, foldl_cons, hblank, hscan]
      · rw [hargs, append_assoc, ← filter_append]
        rfl

/-- **Quoting.** The line of the quoted arguments comes back as the arguments if and only if none
of them is empty: empty arguments are left out. -/
theorem splitArgs_quotedLine_iff (args : List (List Char)) :
    splitArgs (quotedLine args) = .ok args ↔ ∀ arg ∈ args, arg ≠ [] := by
  have hsplit : splitArgs (quotedLine args) = .ok (args.filter (· ≠ [])) := by
    obtain ⟨done, built, hscan, hargs⟩ := @scan_line [] args
    unfold splitArgs
    rw [hscan]
    dsimp only
    rw [if_neg (by simp), flush_built, hargs]
    rfl
  rw [hsplit, Except.ok.injEq, filter_eq_self]
  simp

/-- `""` is no argument at all. -/
theorem splitArgs_drops_empty : splitArgs (quotedLine [[]]) = .ok [] := rfl

end Vole.Cli
