import Vole.Store.Documents
import Vole.Lib.Transition

/-!
# Queue safety

A message moves between the pending list, the map of messages in processing and the dead
letters of its queue: `Dequeue` hands it out, `QAck` takes it away, and `QNack` or a missed
deadline sends it round again, until its tries are used up. Along every run, at whatever
times and in whatever order the map is iterated, no message is lost, doubled or handed out
too often.
-/

namespace Vole

open Go Cell List

/-! ## Where a message is -/

/-- How often a message with the identifier is in the queue. -/
def Queue.copies (q : Queue) (id : Bytes) : Nat :=
  (q.pending.map (·.id)).count id + (if (q.processing.get id).isSome then 1 else 0)
    + (q.deadLetter.map (·.id)).count id

/-- A pending message that was handed out `n` times. -/
structure Waiting (n : Nat) (msg : QueueMessage) : Prop where
  limit : msg.maxRetry = Queue.empty.maxRetries
  left : msg.retries < msg.maxRetry
  tries : msg.retries = n

/-- A message in processing that was handed out `n` times, the last time included. -/
structure Working (n : Nat) (msg : QueueMessage) : Prop where
  limit : msg.maxRetry = Queue.empty.maxRetries
  left : msg.retries < msg.maxRetry
  tries : msg.retries + 1 = n

/-- A dead letter that was handed out `n` times. -/
structure Dead (n : Nat) (msg : QueueMessage) : Prop where
  limit : msg.maxRetry = Queue.empty.maxRetries
  spent : msg.retries = msg.maxRetry
  tries : msg.retries = n

/-- Every message of the queue has been handed out as often as its place and its retries say,
and those in processing are filed under their own identifiers. -/
structure Sound (delivered : Bytes → Nat) (q : Queue) : Prop where
  limit : q.maxRetries = Queue.empty.maxRetries
  own : ∀ id msg, q.processing.get id = some msg → msg.id = id
  pending : ∀ msg ∈ q.pending, Waiting (delivered msg.id) msg
  processing : ∀ id msg, q.processing.get id = some msg → Working (delivered msg.id) msg
  dead : ∀ msg ∈ q.deadLetter, Dead (delivered msg.id) msg

namespace Queue

variable {q : Queue} {delivered : Bytes → Nat} {now : Time} {msg : QueueMessage} {id : Bytes}

theorem get_of_erase {m : GoMap QueueMessage} {id k : Bytes} {msg : QueueMessage}
    (h : GoMap.get (m.erase id) k = some msg) : m.get k = some msg := by
  rw [GoMap.get_erase] at h
  split at h
  · cases h
  · exact h

/-! ## Sending a message round again -/

theorem copies_taken (hget : q.processing.get id = some msg) (k : Bytes) :
    copies { q with processing := q.processing.erase id } k + (if id = k then 1 else 0)
      = q.copies k := by
  unfold copies
  rw [GoMap.get_erase]
  by_cases hk : k = id
  · subst hk
    simp [hget]
    omega
  · have hne : id ≠ k := fun h => hk h.symm
    simp [hk, hne]

theorem copies_pending (q : Queue) (msg : QueueMessage) (k : Bytes) :
    copies { q with pending := q.pending ++ [msg] } k
      = q.copies k + (if msg.id = k then 1 else 0) := by
  unfold copies
  simp [count_singleton]
  omega

theorem copies_dead (q : Queue) (msg : QueueMessage) (k : Bytes) :
    copies { q with deadLetter := q.deadLetter ++ [msg] } k
      = q.copies k + (if msg.id = k then 1 else 0) := by
  unfold copies
  simp [count_singleton]
  omega

theorem copies_retry (hown : msg.id = id) (hget : q.processing.get id = some msg) (k : Bytes) :
    (retryMessage now { q with processing := q.processing.erase id } msg).copies k
      = q.copies k := by
  rw [← copies_taken hget k, ← hown]
  unfold retryMessage
  dsimp only
  split
  · exact copies_dead { q with processing := q.processing.erase msg.id }
      { msg with retries := msg.retries + 1 } k
  · exact copies_pending { q with processing := q.processing.erase msg.id }
      { msg with retries := msg.retries + 1, createdAt := now } k

theorem sound_retry (h : Sound delivered q) (hget : q.processing.get id = some msg) :
    Sound delivered (retryMessage now { q with processing := q.processing.erase id } msg) := by
  have hmsg := h.processing id msg hget
  unfold retryMessage
  dsimp only
  split
  · rename_i hspent
    refine ⟨h.limit, fun k m hm => h.own k m (get_of_erase hm), h.pending,
      fun k m hm => h.processing k m (get_of_erase hm), fun m hm => ?_⟩
    rcases mem_append.mp hm with hm | hm
    · exact h.dead m hm
    · rw [mem_singleton.mp hm]
      exact ⟨hmsg.limit, le_antisymm hmsg.left hspent, hmsg.tries⟩
  · rename_i hleft
    refine ⟨h.limit, fun k m hm => h.own k m (get_of_erase hm), fun m hm => ?_,
      fun k m hm => h.processing k m (get_of_erase hm), h.dead⟩
    rcases mem_append.mp hm with hm | hm
    · exact h.pending m hm
    · rw [mem_singleton.mp hm]
      exact ⟨hmsg.limit, not_le.mp hleft, hmsg.tries⟩

/-! ## Missed deadlines -/

theorem requeueOne_spec (now : Time) (h : Sound delivered q) (id : Bytes) :
    Sound delivered (requeueOne now q id) ∧ ∀ k, (requeueOne now q id).copies k = q.copies k := by
  unfold requeueOne
  split
  · exact ⟨h, fun _ => rfl⟩
  · rename_i msg hget
    split
    · exact ⟨sound_retry h hget, copies_retry (h.own id msg hget) hget⟩
    · exact ⟨h, fun _ => rfl⟩

theorem requeueExpired_spec (now : Time) (h : Sound delivered q) (hint : List Bytes) :
    Sound delivered (requeueExpired now hint q) ∧
      ∀ k, (requeueExpired now hint q).copies k = q.copies k := by
  unfold requeueExpired
  generalize enumerate hint q.processing.keys = ids
  induction ids generalizing q with
  | nil => exact ⟨h, fun _ => rfl⟩
  | cons id rest ih =>
    obtain ⟨hsound, hcopies⟩ := requeueOne_spec now h id
    obtain ⟨hsound', hcopies'⟩ := ih hsound
    exact ⟨hsound', fun k => (hcopies' k).trans (hcopies k)⟩

/-! ## Handing out and taking in -/

theorem count_map_erase {l : List QueueMessage} (hmem : msg ∈ l) (k : Bytes) :
    (l.map (·.id)).count k
      = ((l.erase msg).map (·.id)).count k + (if msg.id = k then 1 else 0) := by
  rw [((perm_cons_erase hmem).map (·.id)).count_eq k, map_cons, count_cons]
  simp

theorem copies_pos (hmem : msg ∈ q.pending) : 0 < q.copies msg.id := by
  unfold copies
  rw [count_map_erase hmem, if_pos rfl]
  omega

theorem copies_deliver (hmem : msg ∈ q.pending) (hfree : q.processing.get msg.id = none)
    (taken : QueueMessage) (k : Bytes) :
    copies { q with pending := q.pending.erase msg,
                    processing := q.processing.insert msg.id taken } k = q.copies k := by
  unfold copies
  rw [GoMap.get_insert, count_map_erase hmem k]
  by_cases hk : k = msg.id
  · subst hk
    simp [hfree]
  · have hne : msg.id ≠ k := fun h => hk h.symm
    simp [hk, hne]

theorem alone (hmem : msg ∈ q.pending) (honce : q.copies msg.id ≤ 1) :
    q.processing.get msg.id = none ∧ (∀ m ∈ q.pending.erase msg, m.id ≠ msg.id) ∧
      ∀ m ∈ q.deadLetter, m.id ≠ msg.id := by
  have hcount := count_map_erase hmem msg.id
  rw [if_pos rfl] at hcount
  unfold copies at honce
  have habsent : ∀ l : List QueueMessage, (l.map (·.id)).count msg.id = 0 →
      ∀ m ∈ l, m.id ≠ msg.id := by
    intro l hl m hm heq
    have hin : msg.id ∈ l.map (·.id) := mem_map.mpr ⟨m, hm, heq⟩
    exact absurd hl (count_pos_iff.mpr hin).ne'
  refine ⟨?_, habsent _ (by omega), habsent _ (by omega)⟩
  cases hget : q.processing.get msg.id with
  | none => rfl
  | some m =>
    rw [hget] at honce
    simp only [Option.isSome_some, if_true] at honce
    omega

theorem sound_deliver {after : Bytes → Nat} (h : Sound delivered q) (hmem : msg ∈ q.pending)
    (honce : q.copies msg.id ≤ 1) (hmore : after msg.id = delivered msg.id + 1)
    (hothers : ∀ k, k ≠ msg.id → after k = delivered k) (deadline : Time) :
    Sound after { q with pending := q.pending.erase msg,
                         processing := q.processing.insert msg.id
                           { msg with ackDeadline := deadline } } := by
  obtain ⟨hfree, hpending, hdead⟩ := alone hmem honce
  have hmsg := h.pending msg hmem
  have hkept : ∀ k m, q.processing.get k = some m → m.id ≠ msg.id := by
    intro k m hget heq
    have hk := h.own k m hget
    rw [heq] at hk
    rw [← hk, hfree] at hget
    cases hget
  refine ⟨h.limit, fun k m hget => ?_, fun m hm => ?_, fun k m hget => ?_, fun m hm => ?_⟩
  · rw [GoMap.get_insert] at hget
    split at hget
    · rename_i hk
      rw [← Option.some.inj hget, hk]
    · exact h.own k m hget
  · rw [hothers m.id (hpending m hm)]
    exact h.pending m (mem_of_mem_erase hm)
  · rw [GoMap.get_insert] at hget
    split at hget
    · cases hget
      refine ⟨hmsg.limit, hmsg.left, ?_⟩
      have htries := hmsg.tries
      dsimp only
      omega
    · rw [hothers m.id (hkept k m hget)]
      exact h.processing k m hget
  · rw [hothers m.id (hdead m hm)]
    exact h.dead m hm

theorem sound_enqueue (h : Sound delivered q) (hmsg : Waiting (delivered msg.id) msg) :
    Sound delivered { q with pending := q.pending ++ [msg] } := by
  refine ⟨h.limit, h.own, fun m hm => ?_, h.processing, h.dead⟩
  rcases mem_append.mp hm with hm | hm
  · exact h.pending m hm
  · rw [mem_singleton.mp hm]
    exact hmsg

theorem sound_ack (h : Sound delivered q) (id : Bytes) :
    Sound delivered { q with processing := q.processing.erase id } := by
  exact ⟨h.limit, fun k m hm => h.own k m (get_of_erase hm), h.pending,
    fun k m hm => h.processing k m (get_of_erase hm), h.dead⟩

end Queue

/-! ## Runs -/

/-- A queue's key, with what its callers have seen of it. -/
structure QueueRun where
  cell : Cell
  /-- the identifiers `Enqueue` has returned -/
  enqueued : List Bytes
  /-- those `QAck` has acknowledged -/
  acked : List Bytes
  /-- those `Dequeue` has handed out, as often as it did -/
  delivered : List Bytes

/-- A call on the queue, with the time it reads and the order in which it iterates the map. -/
inductive QueueCall where
  | enqueue (now : Time) (seq : Nat) (body : Bytes) (delay : Duration)
  | dequeue (now : Time) (hint : List Bytes)
  | qAck (id : Bytes)
  | qNack (now : Time) (id : Bytes)
  | requeueExpired (now : Time) (hint : List Bytes)

namespace QueueRun

/-- The key without a queue. -/
def start : QueueRun := ⟨⟨.empty, 0⟩, [], [], []⟩

def queue (r : QueueRun) : Queue := r.cell.queues.getD .empty

theorem queue_of_some {r : QueueRun} {q : Queue} (h : r.cell.queues = some q) : r.queue = q := by
  unfold queue
  rw [h]
  rfl

/-- One call. A message's identifier is one that no message had before. -/
def step (r : QueueRun) : QueueCall → Option QueueRun
  | .enqueue now seq body delay =>
    let (id, cell) := r.cell.enqueue now seq body delay
    if id ∈ r.enqueued then none
    else some { r with cell := cell, enqueued := id :: r.enqueued }
  | .dequeue now hint =>
    let (msg, cell) := r.cell.dequeue now hint
    some { r with cell := cell, delivered := (msg.map (·.id)).toList ++ r.delivered }
  | .qAck id =>
    let (done, cell) := r.cell.qAck id
    some { r with cell := cell, acked := if done then id :: r.acked else r.acked }
  | .qNack now id => some { r with cell := (r.cell.qNack now id).2 }
  | .requeueExpired now hint =>
    let queues := r.cell.queues.map (Cell.requeueExpired now hint)
    some { r with cell := { r.cell with queues := queues } }

/-- What every call keeps. -/
structure Inv (r : QueueRun) : Prop where
  sound : Sound (fun id => r.delivered.count id) r.queue
  copies : ∀ id, r.queue.copies id = if id ∈ r.enqueued ∧ id ∉ r.acked then 1 else 0
  acked : ∀ id ∈ r.acked, id ∈ r.enqueued
  known : ∀ id, id ∉ r.enqueued → r.delivered.count id = 0
  bound : ∀ id, (r.delivered.count id : Int) ≤ Queue.empty.maxRetries

theorem inv_start : Inv start :=
  ⟨⟨rfl, nofun, nofun, nofun, nofun⟩, fun _ => by simp [start, queue, Queue.copies, Queue.empty,
    Entry.empty, GoMap.get], nofun, fun _ _ => rfl, fun _ => by simp [start, Queue.empty]⟩

variable {r : QueueRun}

variable (h : Inv r)
include h

theorem Inv.moved {cell : Cell} {q : Queue} (hcell : cell.queues.getD .empty = q)
    (hsound : Sound (fun id => r.delivered.count id) q)
    (hcopies : ∀ id, q.copies id = r.queue.copies id) : Inv { r with cell := cell } := by
  refine ⟨?_, fun id => ?_, h.acked, h.known, h.bound⟩
  · show Sound _ (cell.queues.getD .empty)
    rw [hcell]
    exact hsound
  · show (cell.queues.getD .empty).copies id = _
    rw [hcell, hcopies]
    exact h.copies id

theorem Inv.enqueue (now : Time) (seq : Nat) (body : Bytes) (delay : Duration)
    (hfresh : queueID now seq ∉ r.enqueued) :
    Inv { r with cell := (r.cell.enqueue now seq body delay).2,
                 enqueued := queueID now seq :: r.enqueued } := by
  have hnone := h.known _ hfresh
  have hcopies := h.copies (queueID now seq)
  rw [if_neg (fun hin => hfresh hin.1)] at hcopies
  refine ⟨?_, fun id => ?_, fun id hid => .tail _ (h.acked id hid),
    fun id hid => h.known id (fun hin => hid (.tail _ hin)), h.bound⟩
  · refine Queue.sound_enqueue h.sound ⟨h.sound.limit, ?_, ?_⟩
    · show (0 : Int) < r.queue.maxRetries
      rw [h.sound.limit]
      decide
    · rw [hnone]
      rfl
  · refine (Queue.copies_pending r.queue _ id).trans ?_
    by_cases hid : queueID now seq = id
    · subst hid
      have hacked : queueID now seq ∉ r.acked := fun hin => hfresh (h.acked _ hin)
      simp [hcopies, hacked]
    · have hid' : id ≠ queueID now seq := fun heq => hid heq.symm
      rw [h.copies id]
      simp [hid, hid']

theorem Inv.live {id : Bytes} (hin : 0 < r.queue.copies id) : id ∈ r.enqueued ∧ id ∉ r.acked := by
  rw [h.copies id] at hin
  split at hin
  · assumption
  · omega

theorem Inv.copies_le (id : Bytes) : r.queue.copies id ≤ 1 := by
  rw [h.copies id]
  split <;> omega

theorem Inv.dequeue (now : Time) (hint : List Bytes) :
    Inv { r with cell := (r.cell.dequeue now hint).2,
                 delivered := ((r.cell.dequeue now hint).1.map (·.id)).toList ++ r.delivered } := by
  unfold Cell.dequeue
  cases hqueue : r.cell.queues with
  | none => exact h
  | some q =>
    have hq : r.queue = q := queue_of_some hqueue
    obtain ⟨hsound, hsame⟩ :=
      Queue.requeueExpired_spec now (hq ▸ h.sound) hint
    dsimp only
    generalize requeueExpired now hint q = q' at hsound hsame ⊢
    have hsame' : ∀ id, q'.copies id = r.queue.copies id := fun id => hq ▸ hsame id
    split
    · exact h.moved rfl hsound hsame'
    · rename_i msg hfind
      have hmem := mem_of_find?_eq_some hfind
      have honce : q'.copies msg.id ≤ 1 := hsame' msg.id ▸ h.copies_le msg.id
      have hlive := h.live (hsame' msg.id ▸ Queue.copies_pos hmem)
      have hmore : (msg.id :: r.delivered).count msg.id = r.delivered.count msg.id + 1 :=
        count_cons_self
      have hothers : ∀ k, k ≠ msg.id →
          (msg.id :: r.delivered).count k = r.delivered.count k :=
        fun k hk => count_cons_of_ne (fun heq => hk heq.symm)
      refine ⟨Queue.sound_deliver hsound hmem honce hmore hothers _, fun id => ?_, h.acked,
        fun id hid => ?_, fun id => ?_⟩
      · refine (Queue.copies_deliver hmem (Queue.alone hmem honce).1 _ id).trans ?_
        rw [hsame' id]
        exact h.copies id
      · have hne : id ≠ msg.id := fun heq => hid (heq ▸ hlive.1)
        exact (hothers id hne).trans (h.known id hid)
      · by_cases hid : id = msg.id
        · -- the message was waiting, so this was not yet its last try
          have hwait := hsound.pending msg hmem
          have hlimit := hwait.limit
          have hleft := hwait.left
          have htries := hwait.tries
          subst hid
          show (((msg.id :: r.delivered).count msg.id : Nat) : Int) ≤ _
          rw [hmore]
          omega
        · show (((msg.id :: r.delivered).count id : Nat) : Int) ≤ _
          rw [hothers id hid]
          exact h.bound id

theorem Inv.qAck (id : Bytes) :
    Inv { r with cell := (r.cell.qAck id).2,
                 acked := if (r.cell.qAck id).1 then id :: r.acked else r.acked } := by
  unfold Cell.qAck
  cases hqueue : r.cell.queues with
  | none => exact h
  | some q =>
    have hq : r.queue = q := queue_of_some hqueue
    dsimp only
    split
    · exact h
    · rename_i hsome
      obtain ⟨msg, hget⟩ : ∃ msg, q.processing.get id = some msg := by
        cases hget : q.processing.get id with
        | none => exact absurd (by rw [hget]; rfl) hsome
        | some msg => exact ⟨msg, rfl⟩
      have htaken := Queue.copies_taken hget
      have hlive : id ∈ r.enqueued ∧ id ∉ r.acked := by
        refine h.live ?_
        have hid := htaken id
        rw [if_pos rfl, ← hq] at hid
        omega
      refine ⟨Queue.sound_ack (hq ▸ h.sound) id, fun k => ?_, fun k hk => ?_, h.known, h.bound⟩
      · have hcopies := h.copies k
        rw [hq] at hcopies
        have hk := htaken k
        rw [hcopies] at hk
        show Queue.copies { q with processing := q.processing.erase id } k
          = if k ∈ r.enqueued ∧ k ∉ id :: r.acked then 1 else 0
        by_cases heq : id = k
        · subst heq
          simp [hlive] at hk ⊢
          omega
        · have heq' : k ≠ id := fun h => heq h.symm
          simp [heq] at hk
          simp [heq', hk]
      · rcases mem_cons.mp hk with rfl | hk
        · exact hlive.1
        · exact h.acked k hk

theorem Inv.qNack (now : Time) (id : Bytes) : Inv { r with cell := (r.cell.qNack now id).2 } := by
  unfold Cell.qNack
  cases hqueue : r.cell.queues with
  | none => exact h
  | some q =>
    have hq : r.queue = q := queue_of_some hqueue
    have hsound : Sound (fun id => r.delivered.count id) q := hq ▸ h.sound
    dsimp only
    split
    · exact h
    · rename_i msg hget
      exact h.moved rfl (Queue.sound_retry hsound hget)
        (fun k => (Queue.copies_retry (hsound.own id msg hget) hget k).trans (hq ▸ rfl))

theorem Inv.requeueExpired (now : Time) (hint : List Bytes) :
    Inv { r with cell := { r.cell with
      queues := r.cell.queues.map (requeueExpired now hint) } } := by
  cases hqueue : r.cell.queues with
  | none =>
    have hq : r.queue = .empty := by
      unfold queue
      rw [hqueue]
      rfl
    exact h.moved rfl (hq ▸ h.sound) (fun k => hq ▸ rfl)
  | some q =>
    have hq : r.queue = q := queue_of_some hqueue
    obtain ⟨hsound, hsame⟩ := Queue.requeueExpired_spec now (hq ▸ h.sound) hint
    exact h.moved rfl hsound (fun k => (hsame k).trans (hq ▸ rfl))

theorem Inv.step {r' : QueueRun} {call : QueueCall} (hstep : r.step call = some r') : Inv r' := by
  cases call with
  | enqueue now seq body delay =>
    unfold QueueRun.step at hstep
    dsimp only at hstep
    split at hstep
    · cases hstep
    · rename_i hfresh
      cases hstep
      exact h.enqueue now seq body delay hfresh
  | dequeue now hint =>
    cases hstep
    exact h.dequeue now hint
  | qAck id =>
    cases hstep
    exact h.qAck id
  | qNack now id =>
    cases hstep
    exact h.qNack now id
  | requeueExpired now hint =>
    cases hstep
    exact h.requeueExpired now hint

/-- No message is lost, doubled or handed out too often. -/
structure Safe (r : QueueRun) : Prop where
  /-- a message that is not acknowledged is in the queue once, and nowhere twice -/
  once : ∀ id ∈ r.enqueued, id ∉ r.acked → r.queue.copies id = 1
  gone : ∀ id ∈ r.acked, r.queue.copies id = 0
  own : ∀ id msg, r.queue.processing.get id = some msg → msg.id = id
  pending : ∀ msg ∈ r.queue.pending, msg.retries < msg.maxRetry
  processing : ∀ id msg, r.queue.processing.get id = some msg → msg.retries < msg.maxRetry
  dead : ∀ msg ∈ r.queue.deadLetter, msg.retries = msg.maxRetry
  limit : ∀ msg, msg ∈ r.queue.pending ∨ msg ∈ r.queue.deadLetter ∨
    (∃ id, r.queue.processing.get id = some msg) → msg.maxRetry = r.queue.maxRetries
  delivered : ∀ id, (r.delivered.count id : Int) ≤ r.queue.maxRetries

theorem Inv.safe : Safe r where
  once id hin hout := by rw [h.copies id, if_pos ⟨hin, hout⟩]
  gone id hid := by rw [h.copies id, if_neg (fun hlive => hlive.2 hid)]
  own := h.sound.own
  pending msg hmsg := (h.sound.pending msg hmsg).left
  processing id msg hget := (h.sound.processing id msg hget).left
  dead msg hmsg := (h.sound.dead msg hmsg).spent
  limit msg hmsg := by
    rw [h.sound.limit]
    rcases hmsg with hmsg | hmsg | ⟨id, hget⟩
    · exact (h.sound.pending msg hmsg).limit
    · exact (h.sound.dead msg hmsg).limit
    · exact (h.sound.processing id msg hget).limit
  delivered id := by
    rw [h.sound.limit]
    exact h.bound id

end QueueRun

open Transition in
/-- Along every run of calls on a queue, whatever times they read and in whatever order they
iterate the map, each message that was enqueued and not acknowledged is in the queue exactly
once, acknowledged messages are gone, and no message is handed out more than `MaxRetries`
times. -/
theorem queue_safe {r : QueueRun}
    (hrun : Reaches QueueRun.step (fun _ _ => True) QueueRun.start r) : r.Safe :=
  (hrun.invariant QueueRun.inv_start (fun _ _ _ h _ hstep => h.step hstep)).safe

/-- A message that is sent back once and then acknowledged. -/
def sentBack : List QueueCall :=
  [.enqueue 0 1 [120] 0, .dequeue 1 [], .qNack 2 (Cell.queueID 0 1), .dequeue 3 [],
    .qAck (Cell.queueID 0 1)]

open Transition in
theorem queue_safe_sent_back : ∃ r, runAll QueueRun.step QueueRun.start sentBack = some r ∧
      (r.enqueued.length, r.delivered.length, r.acked.length) = (1, 2, 1) ∧ r.Safe := by
  have hrun := reaches_of_runAll (show runAll QueueRun.step QueueRun.start sentBack = some _ from rfl)
  exact ⟨_, rfl, by decide +kernel, queue_safe hrun⟩

end Vole
