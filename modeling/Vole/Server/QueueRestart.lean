import Vole.Store.QueueSafety
import Vole.Server.Recovery

/-!
# Queues across a restart

`DEQUEUE` is not logged, so nothing is in processing while the log is replayed, and a
replayed `QACK` finds no message to take away: every message that was ever enqueued is
pending again. A message keeps its number across the restart, since the log has its messages
in the order in which they were sent, but not the time in its identifier.
-/

namespace Vole

open Go Cell Store List

variable {h' : History}

/-! ## The messages of a queue -/

/-- The messages that can still be handed out have identifiers in `P`. -/
structure Queue.Named (P : Bytes → Prop) (q : Queue) : Prop where
  pending : ∀ msg ∈ q.pending, P msg.id
  processing : ∀ id msg, q.processing.get id = some msg → msg.id = id ∧ P id

namespace Queue.Named

variable {P : Bytes → Prop} {q : Queue} {now : Time} {id : Bytes} {msg : QueueMessage}

theorem mono {Q : Bytes → Prop} (h : Named P q) (hPQ : ∀ id, P id → Q id) : Named Q q :=
  ⟨fun msg hmsg => hPQ _ (h.pending msg hmsg),
    fun id msg hget => ⟨(h.processing id msg hget).1, hPQ _ (h.processing id msg hget).2⟩⟩

theorem appended (h : Named P q) (hid : P msg.id) :
    Named P { q with pending := q.pending ++ [msg] } := by
  refine ⟨fun m hm => ?_, h.processing⟩
  rcases mem_append.mp hm with hm | hm
  · exact h.pending m hm
  · rw [mem_singleton.mp hm]
    exact hid

theorem retried (h : Named P q) (hid : P msg.id) : Named P (retryMessage now q msg) := by
  unfold retryMessage
  dsimp only
  split
  · exact ⟨h.pending, h.processing⟩
  · exact h.appended hid

end Queue.Named

namespace Cell

variable {P : Bytes → Prop} {now : Time} {c : Cell}

/-- The queue of a key, which is empty if there is none. -/
def queue (c : Cell) : Queue := c.queues.getD .empty

theorem queue_of_some {q : Queue} (h : c.queues = some q) : c.queue = q := by
  unfold queue
  rw [h]
  rfl

end Cell

namespace Server

/-! ## Runs -/

/-- The server, with what its clients have been told about their messages. -/
structure History where
  st : State
  /-- the queues and the identifiers `ENQUEUE` has returned, in this order -/
  sent : List (Bytes × Bytes)
  /-- those for which `QACK` has returned `1` -/
  acked : List (Bytes × Bytes)

open History

/-- The identifier in a reply of `ENQUEUE`. -/
def sentID : Reply → Option Bytes
  | .ok [.bulk id] => some id
  | _ => none

namespace History

def start : History := ⟨State.new, [], []⟩

/-- One command on a queue. -/
def step (h : History) (req : Request) : Option History :=
  let (reply, st) := exec req.1 req.2 h.st
  let key := req.2.getD 1 []
  match Word.ofArgs req.2 with
  | some (.store .enqueue) =>
    some { h with st := st, sent := h.sent ++ ((sentID reply).map (fun id => (key, id))).toList }
  | some (.key .qAck) =>
    let acked := if reply = intReply 1 then (key, req.2.getD 2 []) :: h.acked else h.acked
    some { h with st := st, acked := acked }
  | some (.key .dequeue) | some (.key .qNack) => some { h with st := st }
  | _ => none

end History

section
variable {env : Env} {args : List Bytes} {s : Store}

end

/-! ## Replaying the log -/

/-- Every message that was sent is pending, under the number it was sent with, and nothing is in
processing. -/
structure Restored (now : Time) (sent : List (Bytes × Bytes)) (s : Store) : Prop where
  seq : s.queueSeq = sent.length
  idle : ∀ key id, (s.cell key).queue.processing.get id = none
  back : ∀ i key id, sent[i]? = some (key, id) →
    ∃ msg ∈ (s.cell key).queue.pending, msg.id = Cell.queueID now (i + 1)

namespace Restored

variable {now : Time} {sent : List (Bytes × Bytes)} {s t : Store}

theorem congr (h : Restored now sent s) (hseq : t.queueSeq = s.queueSeq)
    (hentries : ∀ k, t.entries k = s.entries k) : Restored now sent t := by
  have hcell : ∀ k, t.cell k = s.cell k := by
    intro k
    unfold cell
    rw [hentries k]
  exact ⟨hseq.trans h.seq, fun key id => by rw [hcell]; exact h.idle key id,
    fun i key id hi => by rw [hcell]; exact h.back i key id hi⟩

theorem enqueue (h : Restored now sent s) (key id body : Bytes) (delay : Duration) :
    Restored now (sent ++ [(key, id)]) (s.enqueue now key body delay).2 := by
  have hself : ((s.enqueue now key body delay).2.cell key).queue
      = (Cell.enqueue now (s.queueSeq + 1) body delay (s.cell key)).2.queue := by
    unfold queue cell Store.enqueue onKey
    rw [put_entries_self]
    rfl
  have hother : ∀ k, k ≠ key → ((s.enqueue now key body delay).2.cell k).queue
      = (s.cell k).queue := by
    intro k hk
    unfold queue cell Store.enqueue onKey
    rw [put_entries_ne _ _ _ hk]
  have hkept : ∀ k, ∀ msg ∈ (s.cell k).queue.pending,
      msg ∈ ((s.enqueue now key body delay).2.cell k).queue.pending := by
    intro k msg hmsg
    by_cases hk : k = key
    · subst hk
      rw [hself]
      exact mem_append_left _ hmsg
    · rw [hother k hk]
      exact hmsg
  refine ⟨?_, fun k id' => ?_, fun i k id' hi => ?_⟩
  · show s.queueSeq + 1 = _
    rw [h.seq, length_append]
    rfl
  · by_cases hk : k = key
    · subst hk
      rw [hself]
      exact h.idle k id'
    · rw [hother k hk]
      exact h.idle k id'
  · by_cases hlt : i < sent.length
    · rw [getElem?_append_left hlt] at hi
      obtain ⟨msg, hmsg, hid⟩ := h.back i k id' hi
      exact ⟨msg, hkept k msg hmsg, hid⟩
    · rw [getElem?_append_right (Nat.le_of_not_lt hlt)] at hi
      rw [getElem?_singleton] at hi
      split at hi
      · obtain ⟨rfl, rfl⟩ := Prod.mk.inj (Option.some.inj hi)
        have hi : i = s.queueSeq := by
          rw [h.seq]
          omega
        rw [hself, hi]
        exact ⟨_, mem_append_right _ (.head _), rfl⟩
      · cases hi

theorem modify (h : Restored now sent s) {key : Bytes} {f : Cell → Cell}
    (hf : f (s.cell key) = s.cell key) : Restored now sent (s.modify key f) := by
  refine h.congr rfl (fun k => ?_)
  unfold Store.modify
  rw [hf]
  by_cases hk : k = key
  · subst hk
    exact put_entries_self _ _ _
  · exact put_entries_ne _ _ _ hk

end Restored

section
variable {R : Runtime} {now : Time} {h : History} {env : Env} {args : List Bytes}

theorem History.step_cases (hstep : h.step (env, args) = some h') :
    h'.st = (exec env args h.st).2 ∧ ((Word.ofArgs args = some (.store .enqueue) ∧ h' = { h with
        st := (exec env args h.st).2
        sent := h.sent ++ ((sentID (exec env args h.st).1).map
          (fun id => (args.getD 1 [], id))).toList }) ∨
    (Word.ofArgs args = some (.key .qAck) ∧ h' = { h with
        st := (exec env args h.st).2
        acked := if (exec env args h.st).1 = intReply 1 then
          (args.getD 1 [], args.getD 2 []) :: h.acked else h.acked }) ∨
    ((Word.ofArgs args = some (.key .dequeue) ∨ Word.ofArgs args = some (.key .qNack)) ∧
      h' = { h with st := (exec env args h.st).2 })) := by
  unfold step at hstep
  dsimp only at hstep
  split at hstep
  · cases hstep
    exact ⟨rfl, .inl ⟨‹_›, rfl⟩⟩
  · cases hstep
    exact ⟨rfl, .inr (.inl ⟨‹_›, rfl⟩)⟩
  · cases hstep
    exact ⟨rfl, .inr (.inr ⟨.inl ‹_›, rfl⟩)⟩
  · cases hstep
    exact ⟨rfl, .inr (.inr ⟨.inr ‹_›, rfl⟩)⟩
  · cases hstep

end

/-! ## Whole runs -/

open Transition

end Server

end Vole
