import Vole.Server.Recovery

/-!
# The numbers of the records

`exec` reads an integer with `ParseInt`, and most records repeat its text as the client wrote
it. `ReplayAOF` and `applyReplicatedCommand` read that text again, with `Atoi` in the records of
lists and with `Sscan` in the others, and `Sscan` takes a leading zero for the mark of a base.
`SETBIT` and `SETRANGE` are logged as the string they leave and repeat no number.
-/

namespace Vole.Server

open Go

/-- The integer arguments that a record repeats as the client wrote them. -/
inductive IntArg
  | incrBy | decrBy | hIncrBy | lSet | lRem | timestamp | delay | delayedTTL | enqueueDelay
  deriving DecidableEq, Repr

namespace IntArg

def word : IntArg → RecordWord
  | incrBy => .key .incrBy
  | decrBy => .key .decrBy
  | hIncrBy => .key .hIncrBy
  | lSet => .key .lSet
  | lRem => .key .lRem
  | timestamp => .key .tsAdd
  | delay | delayedTTL => .key .setDelayed
  | enqueueDelay => .store .enqueue

/-- Where the argument stands in the record. -/
def place : IntArg → Nat
  | incrBy | decrBy | lSet | lRem | timestamp => 2
  | hIncrBy | delay => 3
  | enqueueDelay => 4
  | delayedTTL => 5

/-- The integer that `ReplayAOF` and `applyReplicatedCommand` obtain: by `Atoi` for an index or
a count of a list, by `Sscan` otherwise. -/
def read : IntArg → Bytes → Int
  | lSet | lRem => parseIntValue
  | _ => sscanInt

/-- The `SETDELAYED` record with these durations. -/
def setDelayedAt (now : Time) (rest : List Bytes) (delay ttl : Int) (c : Cell) : Cell :=
  if 4 ≤ rest.length + 2 then
    c.setDelayed now (arg rest 2) (Cmd.duration delay second)
      (if 6 ≤ rest.length + 2 ∧ equalFold (arg rest 4) "EX" then Cmd.duration ttl second else 0)
  else c

/-- What the record does once its argument has been read as `n`. -/
def act (R : Runtime) (now : Time) (key : Bytes) (rest : List Bytes) (n : Int) (s : Store) :
    IntArg → Store
  | incrBy => s.modify key (fun c => if rest.length + 2 = 3 then (c.incrBy now n).2 else c)
  | decrBy => s.modify key (fun c => if rest.length + 2 = 3 then (c.decrBy now n).2 else c)
  | hIncrBy => s.modify key (fun c =>
      if rest.length + 2 = 4 then (c.hIncrBy now (arg rest 2) n).2 else c)
  | lSet => s.modify key (fun c =>
      if rest.length + 2 = 4 then (c.lSet now n (arg rest 3)).2 else c)
  | lRem => s.modify key (fun c =>
      if rest.length + 2 = 4 then (c.lRem now n (arg rest 3)).2 else c)
  | timestamp => s.modify key (fun c =>
      if 4 ≤ rest.length + 2 then
        (c.tsAdd now n (R.sscanFloat (arg rest 3)) (Cmd.parseLabels (rest.drop 2))).2
      else c)
  | delay => s.modify key (setDelayedAt now rest n (sscanInt (arg rest 5)))
  | delayedTTL => s.modify key (setDelayedAt now rest (sscanInt (arg rest 3)) n)
  | enqueueDelay =>
    if 3 ≤ rest.length + 2 then
      (s.enqueue now key (arg rest 2)
        (if 5 ≤ rest.length + 2 ∧ equalFold (arg rest 3) "DELAY" then Cmd.duration n second
          else 0)).2
    else s

theorem run_word {w : IntArg} {rest : List Bytes} {n : Int}
    (h : parseInt (arg rest w.place) = some n) (number : Bytes → Int) (R : Runtime) (now : Time)
    (name key : Bytes) (s : Store) : w.word.run number R now (name :: key :: rest) s
      = w.act R now key rest (w.read (arg rest w.place)) s := by
  cases w with
  | timestamp =>
    have hstar : ¬ arg rest 2 = bytes "*" := by
      intro hstar
      have hnone : parseInt (arg rest 2) = none := by
        rw [hstar]
        decide
      exact absurd (h.symm.trans hnone) (by simp)
    dsimp only [word, RecordWord.run, act]
    refine congrArg (s.modify key) (funext (fun c => ?_))
    dsimp only [KeyRecordWord.run]
    rw [if_neg hstar]
    rfl
  | _ => rfl

theorem ofArgs_word {w : IntArg} {name : Bytes} (h : toUpper name = bytes w.word.text)
    (args : List Bytes) : RecordWord.ofArgs (name :: args) = some w.word := by
  show RecordWord.parse (toUpper name) = _
  rw [h, RecordWord.parse_text]

end IntArg

/-- **When a record means the number the client wrote**: the record does what its command does
with the number that it reads, and this number is the client's if the argument belongs to a
list, has no superfluous leading zero, or is below eight. `LREM` records are not propagated. -/
theorem intArg_read_iff (w : IntArg) {rest : List Bytes} {n : Int} {name : Bytes}
    (h : parseInt (arg rest w.place) = some n) (hname : toUpper name = bytes w.word.text)
    (R : Runtime) (now : Time) (key : Bytes) (s : Store) :
    replayRecord R now s (name :: key :: rest)
        = w.act R now key rest (w.read (arg rest w.place)) s ∧
      (w ≠ .lRem → applyReplicatedCommand R now (name :: key :: rest) s
        = w.act R now key rest (w.read (arg rest w.place)) s) ∧ (w.read (arg rest w.place) = n ↔
        w = .lSet ∨ w = .lRem ∨ NoLeadingZero (arg rest w.place) ∨ n.natAbs < 8) := by
  have hword := IntArg.ofArgs_word hname (key :: rest)
  refine ⟨?_, fun hlrem => ?_, ?_⟩
  · rw [replayRecord, hword]
    exact IntArg.run_word h _ R now name key s
  · rw [← IntArg.run_word h parseIntValue R now name key s, applyReplicatedCommand, hword]
    cases w with
    | lRem => exact absurd rfl hlrem
    | _ => rfl
  · cases w with
    | lSet => exact iff_of_true (parseIntValue_of_parseInt h) (.inl rfl)
    | lRem => exact iff_of_true (parseIntValue_of_parseInt h) (.inr (.inl rfl))
    | _ =>
      rw [or_iff_right (fun h => nomatch h), or_iff_right (fun h => nomatch h)]
      exact sscanInt_eq_iff h

theorem intArg_read_iff_seven : IntArg.incrBy.read (bytes "007") = 7 := by
  have hn : parseInt (arg [bytes "007"] IntArg.incrBy.place) = some 7 := by decide +kernel
  have hname : toUpper (bytes "INCRBY") = bytes IntArg.incrBy.word.text := by decide +kernel
  have h := intArg_read_iff .incrBy hn hname integralRuntime 1 (bytes "k") Store.new
  exact h.2.2.mpr (.inr (.inr (.inr (by decide))))

/-- A client that adds `010` adds ten, and `ReplayAOF` adds eight. -/
theorem intArg_octal : parseInt (bytes "010") = some 10 ∧ IntArg.incrBy.read (bytes "010") = 8 ∧
      IntArg.incrBy.read (bytes "09") = 0 := by
  decide +kernel

end Vole.Server
