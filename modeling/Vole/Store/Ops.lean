import Vole.Store.LawfulOps

/-!
# The operations of the store, as one type

`Op` lists every operation of `Store` that can change the store. An operation on one key is
a `CellOp` together with the key. A run of the store is any sequence of operations from the
empty store, at any times; `Reach` also lets a store load a dump taken from another run.
-/

namespace Vole

open Go

/-- The operations on one key. -/
inductive CellOp where
  | set (value : Bytes) (ttl : Duration)
  | setAbsolute (value : Bytes) (expiry : Time)
  | setNX (value : Bytes) (ttl : Duration)
  | setXX (value : Bytes) (ttl : Duration)
  | setDelayed (value : Bytes) (delay ttl : Duration)
  | getSet (value : Bytes)
  | incrBy (delta : Int)
  | incrByFloat (delta : F64)
  | append (value : Bytes)
  | setRange (offset : Int) (value : Bytes)
  | setBit (offset value : Int)
  | getEx (ttl : Duration) (clear : Bool)
  | getDel
  | expire (ttl : Duration)
  | expireAt (at_ : Time)
  | persist
  | hSet (pairs : List (Bytes × Bytes))
  | hDel (fields : List Bytes)
  | hIncrBy (field : Bytes) (delta : Int)
  | hSetNX (field value : Bytes)
  | popList (left : Bool)
  | lSet (index : Int) (value : Bytes)
  | lInsert (before : Bool) (pivot value : Bytes)
  | lRem (count : Int) (element : Bytes)
  | sAdd (members : List Bytes)
  | sRem (members : List Bytes)
  | sPop (count : Int) (hint : List Bytes)
  | zAdd (members : List ZMember)
  | zRem (members : List Bytes)
  | zIncrBy (incr : F64) (member : Bytes)
  | zPopMin (count : Int)
  | zPopMax (count : Int)
  | xAdd (id : Bytes) (fields : List Bytes)
  | nextStreamID (id : Bytes)
  | xAddPrepared (id : Bytes) (fields : List Bytes)
  | xTrim (maxLen : Int)
  | xGroupCreate (group id : Bytes) (mkstream : Bool)
  | xGroupDeliver (group consumer : Bytes) (ids : List Bytes) (delivered : Time)
  | xAck (group : Bytes) (ids : List Bytes)
  | xClaim (group consumer : Bytes) (minIdleMs : Int) (ids : List Bytes)
  | xAutoClaim (group consumer : Bytes) (minIdleMs : Int) (startID : Bytes) (count : Int)
      (hint : List Bytes)
  | pfAdd (elements : List Bytes)
  | jsonSet (path raw : Bytes)
  | jsonDel (path : Bytes)
  | jsonNumIncrBy (path : Bytes) (delta : F64)
  | jsonArrAppend (path : Bytes) (values : List Bytes)
  | tsAdd (timestamp : Int) (value : F64) (labels : List (Bytes × Bytes))
  | dequeue (hint : List Bytes)
  | qAck (id : Bytes)
  | qNack (id : Bytes)
  | tagSet (tags : List (Bytes × Bytes))
  | tagDel (fields : List Bytes)
  | rateLimit (max : Int) (window : Duration)
  | rateLimitReset

/-- The operations of the store. `geoAdd` is an addition to a sorted set with encoded
scores. -/
inductive Op where
  | cell (key : Bytes) (op : CellOp)
  | geoAdd (key : Bytes) (members : List (Bytes × F64 × F64))
  | enqueue (queueName body : Bytes) (delay : Duration)
  | del (keys : List Bytes)
  | mSetNX (pairs : List (Bytes × Bytes))
  | rename (key newkey : Bytes)
  | copy (src dst : Bytes) (replace : Bool)
  | sMove (src dst member : Bytes)
  | pfMerge (dest : Bytes) (srcs : List Bytes)
  | bitOp (op dest : Bytes) (keys : List Bytes)
  | tsDownsample (src dst aggType : Bytes) (start stop bucketSize : Int)
  | sort (key : Bytes) (alpha desc : Bool) (offset count : Int) (storeKey : Option Bytes)
      (hint : List Bytes)
  | pushList (key : Bytes) (left : Bool) (values : List Bytes)
  | lMove (src dst : Bytes) (srcLeft dstLeft : Bool)
  | bPop (keys : List Bytes) (left : Bool)
  | removeListWaiter (keys : List Bytes) (target : Nat)
  | flushDB
  | stats (hint : List Bytes)
  | dump (hint : List Bytes)
  | load (snapshot : Snapshot) (hint : List Bytes)
  | sampleExpired (hint : List Bytes)
  | evict (victims : List Bytes)

/-- Whether the operation is `Load`. It runs at start-up and when a replica is resynced; no
command of a client performs it. -/
def Op.isLoad : Op → Bool
  | .load _ _ => true
  | _ => false

section
variable (R : Runtime) (now : Time)

/-- The error of a result. -/
def errorOf {α : Type} : Except Err α → Option Err
  | .ok _ => none
  | .error err => some err

/-- The error an operation returns, and the cell after it. -/
def Cell.reported {α : Type} (r : Except Err α × Cell) : Option Err × Cell := (errorOf r.1, r.2)

/-- An operation on one key. `Set`, `RateLimit` and others have no error to return; `XTrim` has one
that is never set. -/
def CellOp.call (c : Cell) : CellOp → Option Err × Cell
  | .set value ttl => (none, c.set now value ttl)
  | .setAbsolute value expiry => (none, c.setAbsolute value expiry)
  | .setNX value ttl => (none, (c.setNX now value ttl).2)
  | .setXX value ttl => (none, (c.setXX now value ttl).2)
  | .setDelayed value delay ttl => (none, c.setDelayed now value delay ttl)
  | .getSet value => Cell.reported (c.getSet now value)
  | .incrBy delta => Cell.reported (c.incrBy now delta)
  | .incrByFloat delta => Cell.reported (c.incrByFloat R now delta)
  | .append value => Cell.reported (c.append now value)
  | .setRange offset value => Cell.reported (c.setRange now offset value)
  | .setBit offset value => Cell.reported (c.setBit now offset value)
  | .getEx ttl clear => (none, (c.getEx now ttl clear).2)
  | .getDel => (none, (c.getDel now).2)
  | .expire ttl => (none, (c.expire now ttl).2)
  | .expireAt at_ => (none, (c.expireAt now at_).2)
  | .persist => (none, (c.persist now).2)
  | .hSet pairs => Cell.reported (c.hSet now pairs)
  | .hDel fields => Cell.reported (c.hDel now fields)
  | .hIncrBy field delta => Cell.reported (c.hIncrBy now field delta)
  | .hSetNX field value => Cell.reported (c.hSetNX now field value)
  | .popList left => Cell.reported (c.popList now left)
  | .lSet index value => Cell.reported (c.lSet now index value)
  | .lInsert before pivot value => Cell.reported (c.lInsert now before pivot value)
  | .lRem count element => Cell.reported (c.lRem now count element)
  | .sAdd members => Cell.reported (c.sAdd now members)
  | .sRem members => Cell.reported (c.sRem now members)
  | .sPop count hint => Cell.reported (c.sPop now count hint)
  | .zAdd members => Cell.reported (c.zAdd now members)
  | .zRem members => Cell.reported (c.zRem now members)
  | .zIncrBy incr member => Cell.reported (c.zIncrBy R now incr member)
  | .zPopMin count => Cell.reported (c.zPopMin now count)
  | .zPopMax count => Cell.reported (c.zPopMax now count)
  | .xAdd id fields => Cell.reported (c.xAdd now id fields)
  | .nextStreamID id => Cell.reported (c.nextStreamID now id)
  | .xAddPrepared id fields => Cell.reported (c.xAddPrepared now id fields)
  | .xTrim maxLen => (none, (c.xTrim maxLen).2)
  | .xGroupCreate group id mkstream => Cell.reported (c.xGroupCreate now group id mkstream)
  | .xGroupDeliver group consumer ids delivered =>
    Cell.reported (c.xGroupDeliver now group consumer ids delivered)
  | .xAck group ids => Cell.reported (c.xAck now group ids)
  | .xClaim group consumer minIdleMs ids => Cell.reported (c.xClaim now group consumer minIdleMs ids)
  | .xAutoClaim group consumer minIdleMs startID count hint =>
    Cell.reported (c.xAutoClaim now group consumer minIdleMs startID count hint)
  | .pfAdd elements => Cell.reported (c.pfAdd now elements)
  | .jsonSet path raw => Cell.reported (c.jsonSet R now path raw)
  | .jsonDel path => Cell.reported (c.jsonDel now path)
  | .jsonNumIncrBy path delta => Cell.reported (c.jsonNumIncrBy R now path delta)
  | .jsonArrAppend path values => Cell.reported (c.jsonArrAppend R now path values)
  | .tsAdd timestamp value labels => Cell.reported (c.tsAdd now timestamp value labels)
  | .dequeue hint => (none, (c.dequeue now hint).2)
  | .qAck id => (none, (c.qAck id).2)
  | .qNack id => (none, (c.qNack now id).2)
  | .tagSet tags => Cell.reported (c.tagSet now tags)
  | .tagDel fields => (none, (c.tagDel fields).2)
  | .rateLimit max window => (none, (c.rateLimit now max window).2)
  | .rateLimitReset => (none, c.rateLimitReset.2)

/-- The cell after an operation on one key. -/
def CellOp.run (c : Cell) (op : CellOp) : Cell := (op.call R now c).2

/-- The error an operation on one key returns. -/
def CellOp.failure (c : Cell) (op : CellOp) : Option Err := (op.call R now c).1

/-- The members of `GeoAdd` as members of a sorted set. -/
def geoMembers (members : List (Bytes × F64 × F64)) : List ZMember :=
  members.map (fun m => ⟨m.1, geoEncode R m.2.1 m.2.2⟩)

/-- The store after an operation. -/
def Op.apply (s : Store) : Op → Store
  | .cell key op => s.modify key (fun c => op.run R now c)
  | .geoAdd key members => s.modify key (fun c => (c.zAdd now (geoMembers R members)).2)
  | .enqueue queueName body delay => (s.enqueue now queueName body delay).2
  | .del keys => (Store.del now keys s).2
  | .mSetNX pairs => (s.mSetNX now pairs).2
  | .rename key newkey => (s.rename now key newkey).2
  | .copy src dst replace => (s.copy now src dst replace).2
  | .sMove src dst member => (s.sMove now src dst member).2
  | .pfMerge dest srcs => s.pfMerge now dest srcs
  | .bitOp op dest keys => (s.bitOp now op dest keys).2
  | .tsDownsample src dst aggType start stop bucketSize =>
    (s.tsDownsample R now src dst aggType start stop bucketSize).2
  | .sort key alpha desc offset count storeKey hint =>
    (s.sort R now key alpha desc offset count storeKey hint).2
  | .pushList key left values => (s.pushList now key left values).2
  | .lMove src dst srcLeft dstLeft => (s.lMove now src dst srcLeft dstLeft).2
  | .bPop keys left => (s.bPopStart now keys left).2
  | .removeListWaiter keys target => s.removeListWaiter keys target
  | .flushDB => s.flushDB
  | .stats hint => s.purgeExpired now hint
  | .dump hint => (s.dump R now hint).2
  | .load snapshot hint => s.load R now hint snapshot
  | .sampleExpired hint => s.sampleExpired now hint
  | .evict victims => s.evict victims

end

/-- The stores reached by steps that meet `ok`. A snapshot that is loaded is the dump of a
store reached the same way. -/
inductive Reach (R : Runtime) (ok : Store → Time → Op → Prop) : Store → Prop where
  | new : Reach R ok Store.new
  | step {s : Store} (now : Time) (op : Op) (reached : Reach R ok s)
      (noLoad : op.isLoad = false) (meets : ok s now op) :
      Reach R ok (op.apply R now s)
  | load {s t : Store} (now then_ : Time) (hint hint' : List Bytes)
      (reached : Reach R ok s) (dumped : Reach R ok t) :
      Reach R ok (s.load R now hint (t.dump R then_ hint').1)

/-- The stores any sequence of operations can reach. -/
def Reachable (R : Runtime) : Store → Prop := Reach R (fun _ _ _ => True)

/-- The store after these operations, each at its time. -/
def Store.after (R : Runtime) (steps : List (Time × Op)) : Store :=
  steps.foldl (fun s step => step.2.apply R step.1 s) Store.new

theorem reachable_after {R : Runtime} (steps : List (Time × Op))
    (hload : ∀ step ∈ steps, step.2.isLoad = false) : Reachable R (Store.after R steps) := by
  have hgo : ∀ s, Reachable R s →
      Reachable R (steps.foldl (fun s step => step.2.apply R step.1 s) s) := by
    induction steps with
    | nil => exact fun _ hs => hs
    | cons step rest ih =>
      obtain ⟨hstep, hrest⟩ := List.forall_mem_cons.mp hload
      exact fun s hs => ih hrest _ (.step step.1 step.2 hs hstep trivial)
  exact hgo Store.new .new

end Vole
