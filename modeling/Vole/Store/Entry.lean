import Vole.Store.SortedSet
import Vole.Store.JsonDoc

/-!
# What the store holds under one key

The store of the source is a record of maps from keys: nine of them hold the value of a
key, one for each data type, and seven more hold what goes with it (expiry, consumer
groups, tags and so on). Turned around, a key has an `Entry`: one optional value for each
map. Almost every operation reads and writes the entry of one key only; those are functions
on a `Cell`, an entry together with the number of `touchKeyLocked` calls made on the key.
-/

namespace Vole

open Go

variable (c : Cell)

structure StreamEntry where
  id : Bytes
  fields : List Bytes
  deriving DecidableEq

structure PendingEntry where
  consumer : Bytes
  delivered : Time
  deriving DecidableEq

structure ConsumerGroup where
  lastID : Bytes
  pending : GoMap PendingEntry

structure RateLimiter where
  window : Duration
  max : Int
  requests : List Time

structure QueueMessage where
  id : Bytes
  body : Bytes
  createdAt : Time
  retries : Int
  maxRetry : Int
  ackDeadline : Time
  deriving DecidableEq

structure Queue where
  pending : List QueueMessage
  processing : GoMap QueueMessage
  deadLetter : List QueueMessage
  ackTimeout : Duration
  maxRetries : Int

/-- `NewQueue` -/
def Queue.empty : Queue := ⟨[], ∅, [], 300 * second, 3⟩

/-- The nine type maps. -/
inductive DataType where
  | string | hash | list | set | zset | stream | hll | json | timeseries
  deriving DecidableEq

/-- What the type maps hold for one key. -/
structure Data where
  kv : Option Bytes
  hashes : Option (GoMap Bytes)
  lists : Option (List Bytes)
  sets : Option (Finset Bytes)
  zsets : Option SortedSet
  streams : Option (List StreamEntry)
  hlls : Option HyperLogLog
  jsons : Option JVal
  timeseries : Option TimeSeries

/-- Everything the store holds for one key. -/
structure Entry extends Data where
  groups : Option (GoMap ConsumerGroup)
  expires : Option Time
  lastSeq : Option Int
  rateLimiters : Option RateLimiter
  queues : Option Queue
  tags : Option (GoMap Bytes)
  notBefore : Option Time

/-- No type map holds the key. -/
def Data.empty : Data := ⟨none, none, none, none, none, none, none, none, none⟩

/-- No map holds the key. -/
def Entry.empty : Entry := ⟨Data.empty, none, none, none, none, none, none, none⟩

instance : Zero Entry := ⟨Entry.empty⟩

/-! ## Type maps -/

namespace DataType

def all : List DataType :=
  [string, hash, list, set, zset, stream, hll, json, timeseries]

/-- The types an operation on `t` finds in its way. -/
def others (t : DataType) : List DataType := all.filter (· ≠ t)

theorem mem_all (t : DataType) : t ∈ all := by cases t <;> decide

theorem mem_others {t u : DataType} : u ∈ others t ↔ u ≠ t := by
  simp [others, mem_all]

end DataType

namespace Data

/-- Whether the type map of `t` holds the key. -/
def has (d : Data) : DataType → Bool
  | .string => d.kv.isSome
  | .hash => d.hashes.isSome
  | .list => d.lists.isSome
  | .set => d.sets.isSome
  | .zset => d.zsets.isSome
  | .stream => d.streams.isSome
  | .hll => d.hlls.isSome
  | .json => d.jsons.isSome
  | .timeseries => d.timeseries.isSome

def hasAny (d : Data) (ts : List DataType) : Bool := ts.any d.has

/-- The type check of most writing operations: a map of another type holds the key. -/
def conflicts (d : Data) (own : DataType) : Bool := d.hasAny own.others

end Data

namespace Entry

/-- `isExpiredRLocked`, and the condition of `expiredKeyLocked`. -/
def expired (e : Entry) (now : Time) : Bool :=
  match e.expires with
  | none => false
  | some expireAt => !isZero expireAt && decide (expireAt ≤ now)

/-- What is left of a key once `expiredKeyLocked` has looked at it. -/
def purged (e : Entry) (now : Time) : Entry := if e.expired now then Entry.empty else e

/-- The key is not waiting for its delay to run out. -/
def visible (e : Entry) (now : Time) : Bool :=
  match e.notBefore with
  | none => true
  | some t => decide (t ≤ now)

/-- `existsRLocked` -/
def existsAt (e : Entry) (now : Time) : Bool :=
  !e.expired now && e.visible now && e.hasAny DataType.all

/-- The type check of the reading operations: a string that is not visible yet is
overlooked, a value of any other type is not. -/
def readConflict (e : Entry) (now : Time) (own : DataType) : Bool :=
  (decide (own ≠ .string) && e.kv.isSome && e.visible now)
    || e.hasAny (own.others.filter (· ≠ .string))

end Entry

/-! ## Cells -/

/-- The entry of a key during an operation, with the number of times the operation has
touched the key. -/
structure Cell extends Entry where
  bumps : Nat

namespace Cell

/-- `touchKeyLocked(key)` -/
def touch (c : Cell) : Cell := { c with bumps := c.bumps + 1 }

/-- `deleteKeyLocked(key)` -/
def delete (c : Cell) : Cell := ⟨Entry.empty, c.bumps + 1⟩

/-- `expiredKeyLocked(key, now)`, for its effect. -/
def purge (c : Cell) (now : Time) : Cell := if c.expired now then c.delete else c

@[simp] theorem touch_toEntry : c.touch.toEntry = c.toEntry := rfl
@[simp] theorem touch_bumps : c.touch.bumps = c.bumps + 1 := rfl
@[simp] theorem delete_bumps : c.delete.bumps = c.bumps + 1 := rfl

theorem purge_toEntry (now : Time) : (c.purge now).toEntry = c.toEntry.purged now := by
  unfold purge Entry.purged
  split <;> rfl

end Cell

end Vole
