import Vole.Server.Replay
import Vole.Store.Mirror

/-!
# Records about one key

What a list of records does to the entry of a key, and that replaying them on a store does
just that.
-/

namespace Vole.Server

open Go

variable {R : Runtime} {now : Time} {o : Outcome} {r : KeyRecord}

/-! ## On an entry -/

/-- What a record about one key does to its entry; `none` for a record about other keys. -/
def replayKey (number : Bytes → Int) (R : Runtime) (now : Time) (e : Entry) (r : KeyRecord) :
    Option Entry :=
  match RecordWord.parse (toUpper r.1) with
  | some (.key w) => some (w.run number R now r.2 ⟨e, 0⟩).toEntry
  | some (.store .del) => if r.2 = [] then some (Store.delCell now ⟨e, 0⟩).2.toEntry else none
  | _ => none

/-- The records of a command on an entry do to it what the command did. -/
def Replays (number : Bytes → Int) (env : KeyEnv) (e : Entry) (o : Outcome) : Prop :=
  o.log.foldlM (replayKey number env.R env.now) e = some o.cell.toEntry

theorem RecordWord.toUpper_text (w : RecordWord) : toUpper (bytes w.text) = bytes w.text := by
  rcases w with w | w <;> cases w <;> rfl

section
variable {number : Bytes → Int} {env : KeyEnv} {e : Entry}

theorem replayKey_word {word : Bytes} (w : KeyRecordWord)
    (hword : toUpper word = bytes (RecordWord.text (.key w))) (rest : List Bytes) :
    replayKey number R now e (word, rest) = some (w.run number R now rest ⟨e, 0⟩).toEntry := by
  unfold replayKey
  rw [hword, RecordWord.parse_text]

theorem replayKey_text (w : KeyRecordWord) (rest : List Bytes) :
    replayKey number R now e (bytes (RecordWord.text (.key w)), rest)
      = some (w.run number R now rest ⟨e, 0⟩).toEntry :=
  replayKey_word w (RecordWord.toUpper_text _) rest

theorem replayKey_del :
    replayKey number R now e (bytes "DEL", []) = some (Store.delCell now ⟨e, 0⟩).2.toEntry :=
  rfl

namespace Replays

theorem unlogged (hlog : o.log = []) (hcell : o.cell.toEntry = e) : Replays number env e o := by
  unfold Replays
  rw [hlog, hcell]
  rfl

theorem answer (reply : Reply) : Replays number env e (.answer ⟨e, 0⟩ reply) :=
  unlogged rfl rfl

theorem fail (err : Bytes) : Replays number env e (.fail ⟨e, 0⟩ err) := unlogged rfl rfl

theorem attempt {α : Type} {p : Except Bytes α} {k : α → Outcome}
    (h : ∀ a, p = .ok a → Replays number env e (k a)) :
    Replays number env e (.attempt ⟨e, 0⟩ p k) :=
  Outcome.attempt_elim fail h

theorem one (hlog : o.log = [r]) (h : replayKey number env.R env.now e r = some o.cell.toEntry) :
    Replays number env e o := by
  unfold Replays
  rw [hlog]
  show (replayKey number env.R env.now e r).bind some = _
  rw [h]
  rfl

theorem logged {α : Type} {r : Except Err α × Cell} {record : KeyRecord} {out : α → List Out}
    (h : replayKey number env.R env.now e record = some r.2.toEntry) :
    Replays number env e (.logged env.R record r out) := one rfl h

theorem logging {α : Type} {r : Except Err α × Cell} {out : α → List Out}
    {records : α → List KeyRecord} (herror : ∀ err, r.1 = .error err → r.2.toEntry = e)
    (hok : ∀ a, r.1 = .ok a →
      (records a).foldlM (replayKey number env.R env.now) e = some r.2.toEntry) :
    Replays number env e (.logging env.R r out records) := by
  obtain ⟨a, c⟩ := r
  cases a with
  | error err => exact unlogged rfl (herror err rfl)
  | ok a => exact hok a rfl

end Replays

/-- A command that logs the words the client sent. It fails before that, or it finds that the
key is `gone` and leaves it at that, or its words do to the entry what it did. If it is `safe`,
a failure leaves the entry as it was. -/
inductive Echoes (safe gone : Prop) (w : KeyRecordWord) (number : Bytes → Int) (env : KeyEnv)
    (e : Entry) (word : Bytes) (rest : List Bytes) : Outcome → Prop
  | fail (err : Bytes) : Echoes safe gone w number env e word rest (.fail ⟨e, 0⟩ err)
  | absent (h : gone) (reply : Reply) :
    Echoes safe gone w number env e word rest (.answer ⟨e, 0⟩ reply)
  | logged {o : Outcome} (hlog : o.log = [(word, rest)])
    (hrun : (w.run number env.R env.now rest ⟨e, 0⟩).toEntry = o.cell.toEntry)
    (hkept : safe → o.reply.isOk = false → o.cell.toEntry = e) :
    Echoes safe gone w number env e word rest o

/-- A command on the key `e` that does. -/
abbrev KeyCmd.Echoing (cmd : KeyCmd) (safe gone : Prop) (w : KeyRecordWord) (number : Bytes → Int)
    (env : KeyEnv) (e : Entry) (word : Bytes) (rest : List Bytes) : Prop :=
  Echoes safe gone w number env e word rest (cmd.run env word rest ⟨e, 0⟩)

namespace Echoes

variable {safe gone : Prop} {w : KeyRecordWord} {word : Bytes} {rest : List Bytes}

theorem attempt {α : Type} {p : Except Bytes α} {k : α → Outcome}
    (h : ∀ a, p = .ok a → Echoes safe gone w number env e word rest (k a)) :
    Echoes safe gone w number env e word rest (.attempt ⟨e, 0⟩ p k) :=
  Outcome.attempt_elim fail h

theorem echo {α : Type} {r : Except Err α × Cell} {out : α → List Out}
    (hkept : safe → Untouched e r)
    (h : (w.run number env.R env.now rest ⟨e, 0⟩).toEntry = r.2.toEntry) :
    Echoes safe gone w number env e word rest (.logged env.R (word, rest) r out) := by
  refine .logged rfl h (fun hsafe herr => ?_)
  obtain ⟨a, c⟩ := r
  cases a with
  | error err => exact hkept hsafe err rfl
  | ok a => exact absurd herr.symm Bool.false_ne_true

theorem always (hok : o.reply.isOk = true) (hlog : o.log = [(word, rest)])
    (h : (w.run number env.R env.now rest ⟨e, 0⟩).toEntry = o.cell.toEntry) :
    Echoes safe gone w number env e word rest o :=
  .logged hlog h (fun _ herr => absurd (hok.symm.trans herr) (by decide))

theorem addGuard {own : String} {k : Outcome} (h : Echoes safe gone w number env e word rest k) :
    Echoes safe gone w number env e word rest (Cmd.addGuard env.now own ⟨e, 0⟩ k) :=
  Cmd.addGuard_elim .fail h

theorem takeGuard {own : String} {reply : Reply} {k : Outcome}
    (h : Echoes safe (e.type env.now = bytes "none") w number env e word rest k) :
    Echoes safe (e.type env.now = bytes "none") w number env e word rest
      (Cmd.takeGuard env.now own reply ⟨e, 0⟩ k) := by
  unfold Cmd.takeGuard
  split
  · exact .absent ‹_› _
  split
  · exact .fail _
  · exact h

theorem replays (h : Echoes safe gone w number env e word rest o)
    (hword : toUpper word = bytes (RecordWord.text (.key w))) : Replays number env e o := by
  cases h with
  | fail err => exact .fail err
  | absent _ reply => exact .answer reply
  | logged hlog hrun _ => exact .one hlog (by rw [replayKey_word w hword, hrun])

end Echoes

theorem foldlM_one {e' : Entry}
    (h : replayKey number R now e r = some e') : [r].foldlM (replayKey number R now) e = some e' := by
  show (replayKey number R now e r).bind some = _
  rw [h]
  rfl

end

/-! ## On the store -/

theorem replayRecord_at {e e' : Entry}
    (h : replayKey sscanInt R now e r = some e') {s t : Store} {key : Bytes} {b : Nat}
    (hst : (t.put key ⟨e, b⟩).Same s) : (t.put key ⟨e', b⟩).Same (replayRecord R now s (r.at key)) := by
  have hcell : s.cell key = ⟨e, 0⟩ := by
    have hkey := hst.inside key
    rw [id, Store.put_entries_self] at hkey
    rw [Store.cell, ← hkey]
  unfold replayKey at h
  have hword : RecordWord.ofArgs (r.at key) = RecordWord.parse (toUpper r.1) := rfl
  unfold replayRecord
  rw [hword]
  generalize RecordWord.parse (toUpper r.1) = p at h ⊢
  split at h
  · rename_i w
    cases h
    show (t.put key _).Same (s.modify key (w.run sscanInt R now r.2))
    unfold Store.modify
    rw [hcell]
    exact hst.put_put rfl
  · split at h
    · rename_i hrest
      cases h
      show (t.put key _).Same (StoreRecordWord.run now .del (r.1 :: key :: r.2) s)
      rw [hrest]
      show (t.put key _).Same (s.put key (Store.delCell now (s.cell key)).2)
      rw [hcell]
      exact hst.put_put rfl
    · cases h
  · cases h

/-- **Replaying records about one key does on the store what it does on the entry.** -/
theorem replay_keyRecords {log : List KeyRecord} {e e' : Entry}
    (h : log.foldlM (replayKey sscanInt R now) e = some e') {s t : Store} {key : Bytes} {b : Nat}
    (hst : (t.put key ⟨e, b⟩).Same s) :
    (t.put key ⟨e', b⟩).Same (replay R now (log.map (·.at key)) s) := by
  induction log generalizing e s with
  | nil =>
    cases h
    exact hst
  | cons r rest ih =>
    rw [List.foldlM_cons, Option.bind_eq_bind, Option.bind_eq_some_iff] at h
    obtain ⟨e₁, hr, hrest⟩ := h
    exact ih hrest (replayRecord_at hr hst)

end Vole.Server
