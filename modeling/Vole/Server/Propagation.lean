import Vole.Server.Exec
import Vole.Lib.Transition

/-!
# A leader and the writes it streams

`handleConn` runs a command with `exec` and then, if it did not fail and `isWriteCommand`
knows its word, hands its arguments to `PropagateToReplicas`. These are two steps with no
common lock, so the steps of other clients, and those of a follower's full sync, come between
them. A follower's sync dumps the store, sends the dump and only then registers the follower
for the stream.
-/

namespace Vole.Server

open Go

/-- The words of `isWriteCommand`. -/
def writeWords : List String :=
  ["SET", "SETNX", "SETEX", "PSETEX", "MSET", "MSETNX", "APPEND",
    "INCR", "INCRBY", "INCRBYFLOAT", "DECR", "DECRBY",
    "DEL", "RENAME", "COPY", "EXPIRE", "EXPIREAT", "PEXPIRE", "PEXPIREAT", "PERSIST",
    "HSET", "HSETNX", "HMSET", "HINCRBY", "HINCRBYFLOAT", "HDEL",
    "LPUSH", "RPUSH", "LPUSHX", "RPUSHX", "LPOP", "RPOP", "LSET", "LINSERT", "LREM",
    "SADD", "SREM", "SMOVE", "SPOP", "SUNIONSTORE", "SINTERSTORE", "SDIFFSTORE",
    "ZADD", "ZREM", "ZINCRBY", "ZPOPMIN", "ZPOPMAX", "ZUNIONSTORE", "ZINTERSTORE",
    "XADD", "XGROUP", "XACK",
    "PFADD", "PFMERGE",
    "SETBIT", "SETRANGE",
    "GETSET", "GETDEL",
    "RATELIMIT", "RATELIMIT.RESET", "SETDELAYED",
    "ENQUEUE", "QACK", "QNACK",
    "JSON.SET", "JSON.DEL", "JSON.NUMINCRBY", "JSON.ARRAPPEND",
    "TAG", "TAGDEL",
    "TS.ADD", "TS.DOWNSAMPLE"]

def isWriteCommand (cmd : Bytes) : Bool := writeWords.any (fun w => cmd = bytes w)

/-- Whether a command is streamed, given what `exec` came to. A refusal by `ensureOwns` is not
an error of `exec`. -/
def propagated (args : List Bytes) (reply : Reply) : Bool :=
  isWriteCommand (toUpper (args.headD [])) && reply.isOk

/-! ## The steps of a leader -/

/-- How far the sync of a follower is: `handleReplSync` dumps the store, sends the dump and
registers the follower. The dump comes with the number of writes it contains. -/
inductive SyncPhase where
  | waiting
  | dumped (snapshot : Snapshot) (count : Nat)
  | sent (snapshot : Snapshot) (count : Nat)
  | registered (snapshot : Snapshot) (count : Nat)

namespace SyncPhase

/-- Whether the follower is among the replicas. -/
def isRegistered : SyncPhase → Bool
  | .registered _ _ => true
  | _ => false

/-- The number of writes in the snapshot, once there is one. -/
def count : SyncPhase → Nat
  | .waiting => 0
  | .dumped _ n | .sent _ n | .registered _ n => n

end SyncPhase

/-- A leader with its clients and one follower. A write is named by its place in the order in
which the writes were applied. -/
structure Leader where
  st : State
  /-- the writes applied so far -/
  applied : List (Env × List Bytes)
  /-- the writes that are still to be propagated -/
  pending : List Nat
  phase : SyncPhase
  /-- the writes sent to the follower, in this order -/
  streamed : List Nat

/-- A step of a client or of the follower's sync. -/
inductive LeaderStep where
  | write (env : Env) (args : List Bytes)
  | propagate (i : Nat)
  | dump (env : Env)
  | send
  | register

namespace Leader

/-- A leader that no follower has asked for a sync. -/
def start (st : State) : Leader := ⟨st, [], [], .waiting, []⟩

def step (x : Leader) : LeaderStep → Option Leader
  | .write env args =>
    let (reply, st) := exec env args x.st
    if propagated args reply then
      some { x with st := st, applied := x.applied ++ [(env, args)]
                    pending := x.pending ++ [x.applied.length] }
    else some { x with st := st }
  | .propagate i =>
    if i ∈ x.pending then
      some { x with pending := x.pending.erase i
                    streamed := if x.phase.isRegistered then x.streamed ++ [i] else x.streamed }
    else none
  | .dump env =>
    match x.phase with
    | .waiting =>
      let (snapshot, store) := x.st.store.dump env.R env.now env.hint
      some { x with st := { x.st with store := store }
                    phase := .dumped snapshot x.applied.length }
    | _ => none
  | .send =>
    match x.phase with
    | .dumped snapshot n => some { x with phase := .sent snapshot n }
    | _ => none
  | .register =>
    match x.phase with
    | .sent snapshot n => some { x with phase := .registered snapshot n }
    | _ => none

variable {x y : Leader}

theorem step_cases {a : LeaderStep} (h : x.step a = some y) :
    (y.applied = x.applied ∧ y.pending = x.pending ∧ y.streamed = x.streamed ∧
      (y.phase = x.phase ∨ (x.phase.isRegistered = false ∧ (y.phase.count = x.phase.count ∨
        y.phase.count = x.applied.length)))) ∨
    (∃ env args, a = .write env args ∧ y.st = (exec env args x.st).2 ∧
      y.applied = x.applied ++ [(env, args)] ∧ y.pending = x.pending ++ [x.applied.length] ∧
      y.phase = x.phase ∧ y.streamed = x.streamed) ∨
    ∃ i, a = .propagate i ∧ i ∈ x.pending ∧ y.st = x.st ∧ y.applied = x.applied ∧
      y.pending = x.pending.erase i ∧ y.phase = x.phase ∧
      y.streamed = if x.phase.isRegistered then x.streamed ++ [i] else x.streamed := by
  unfold step at h
  cases a with
  | write env args =>
    dsimp only at h
    split at h
    · cases h
      exact .inr (.inl ⟨env, args, rfl, rfl, rfl, rfl, rfl, rfl⟩)
    · cases h
      exact .inl ⟨rfl, rfl, rfl, .inl rfl⟩
  | propagate i =>
    dsimp only at h
    split at h
    · rename_i hi
      cases h
      exact .inr (.inr ⟨i, rfl, hi, rfl, rfl, rfl, rfl, rfl⟩)
    · cases h
  | dump env =>
    dsimp only at h
    split at h
    · rename_i hphase
      cases h
      exact .inl ⟨rfl, rfl, rfl, .inr ⟨by rw [hphase]; rfl, .inr rfl⟩⟩
    · cases h
  | send | register =>
    dsimp only at h
    split at h
    · rename_i hphase
      cases h
      exact .inl ⟨rfl, rfl, rfl, .inr ⟨by rw [hphase]; rfl, .inl (by rw [hphase]; rfl)⟩⟩
    · cases h

end Leader

end Vole.Server
