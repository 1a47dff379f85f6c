import Vole.Store.Strings
import Vole.Store.Streams
import Vole.Store.Documents
import Vole.Go.SliceStable
import Mathlib.Data.DFinsupp.Defs

/-!
# The store

The whole store: the entries of all keys, the version counters behind `WATCH`, and the
clients blocked in `BPop`. An operation on one key is lifted from its cell by
`Store.onKey`; the operations on several keys, and those on the whole store, are defined
here.
-/

namespace Vole

open Go

/-- A client blocked in `BPop`: the end it pops from and its channel of capacity one.
`served` is set by the first hand-over, after which `once` does nothing. -/
structure ListWaiter where
  left : Bool
  chan : Option (Bytes × Bytes)
  served : Bool
  deriving DecidableEq

structure Store where
  entries : Π₀ _ : Bytes, Entry
  version : Nat
  keyVersion : Bytes → Nat
  listWaits : Bytes → List Nat
  waiters : Nat → ListWaiter
  nextWaiter : Nat
  /-- the process-wide counter of `nextQueueID` -/
  queueSeq : Nat

namespace Entry

/-- Whether no map holds the key. -/
def isEmpty (e : Entry) : Bool :=
  !e.hasAny DataType.all && e.groups.isNone && e.expires.isNone && e.lastSeq.isNone
    && e.rateLimiters.isNone && e.queues.isNone && e.tags.isNone && e.notBefore.isNone

theorem isEmpty_iff (e : Entry) : e.isEmpty = true ↔ e = 0 := by
  obtain ⟨⟨⟩⟩ := e
  simp [isEmpty, Data.hasAny, DataType.all, Data.has, OfNat.ofNat, Zero.zero, Entry.empty,
    Data.empty, and_assoc]

instance (e : Entry) : Decidable (e ≠ 0) :=
  decidable_of_iff (e.isEmpty = false) (by rw [← Bool.not_eq_true, isEmpty_iff])

end Entry

namespace Store

/-- `New` -/
def new : Store := ⟨0, 0, fun _ => 0, fun _ => [], fun _ => ⟨true, none, false⟩, 0, 0⟩

/-- The keys that occur in some map. -/
def held (s : Store) : Finset Bytes := s.entries.support

/-- Writing the cell of a key back: the version counter has moved once for each touch. -/
def put (s : Store) (key : Bytes) (c : Cell) : Store :=
  { s with
    entries := s.entries.update key c.toEntry
    version := s.version + c.bumps
    keyVersion :=
      if 0 < c.bumps then Function.update s.keyVersion key (s.version + c.bumps)
      else s.keyVersion }

/-- The cell of a key at the start of an operation. -/
def cell (s : Store) (key : Bytes) : Cell := ⟨s.entries key, 0⟩

/-- An operation on one key. -/
def onKey {α : Type} (s : Store) (key : Bytes) (f : Cell → α × Cell) : α × Store :=
  let r := f (s.cell key)
  (r.1, s.put key r.2)

/-- An operation on one key without a result. -/
def modify (s : Store) (key : Bytes) (f : Cell → Cell) : Store := s.put key (f (s.cell key))

/-- `touchKeyLocked(keys...)`: one new version for all the keys. -/
def touchKeys (s : Store) (keys : List Bytes) : Store :=
  { s with
    version := s.version + 1
    keyVersion := fun k => if k ∈ keys then s.version + 1 else s.keyVersion k }

/-- `expiredKeyLocked(key, now)`, for its effect. -/
def purgeKey (s : Store) (now : Time) (key : Bytes) : Store := s.modify key (·.purge now)

/-- `KeyVersions` for one key. -/
def keyVersionOf (s : Store) (key : Bytes) : Nat := s.keyVersion key

/-- `KeysModifiedSince` -/
def keysModifiedSince (s : Store) (versions : List (Bytes × Nat)) : Bool :=
  versions.any (fun v => s.keyVersion v.1 ≠ v.2)

/-! ## Operations on several keys -/

variable (now : Time)

/-- `Del` on one of its keys: whether it counts. -/
def delCell (c : Cell) : Bool × Cell :=
  if c.expired now then (false, c.purge now)
  else if c.existsAt now then (true, c.delete)
  else (false, c)

/-- `Del`: the number of keys deleted. -/
def del (now : Time) : List Bytes → Store → Nat × Store
  | [], s => (0, s)
  | key :: rest, s =>
    let (hit, s) := s.onKey key (delCell now)
    let (n, s) := del now rest s
    (if hit then n + 1 else n, s)

/-- The first loop of `MSetNX`: whether no key exists. It stops at the first that does. -/
def mSetNXCheck (now : Time) : List Bytes → Store → Bool × Store
  | [], s => (true, s)
  | key :: rest, s =>
    let s := s.purgeKey now key
    if (s.entries key).existsAt now then (false, s) else mSetNXCheck now rest s

/-- `MSetNX` -/
def mSetNX (pairs : List (Bytes × Bytes)) (s : Store) : Bool × Store :=
  match mSetNXCheck now (pairs.map (·.1)) s with
  | (false, s) => (false, s)
  | (true, s) => (true, pairs.foldl (fun s p => s.modify p.1 (Cell.mSetNXWrite p.2)) s)

/-- The fields that `Rename` moves. JSON documents, time series, queues, tags, rate limits
and delays stay where they are. -/
def renameMoved (src dst : Entry) : Entry :=
  { dst with
    kv := src.kv.or dst.kv, hashes := src.hashes.or dst.hashes,
    lists := src.lists.or dst.lists, sets := src.sets.or dst.sets,
    zsets := src.zsets.or dst.zsets, streams := src.streams.or dst.streams,
    hlls := src.hlls.or dst.hlls, groups := src.groups.or dst.groups,
    lastSeq := src.lastSeq.or dst.lastSeq, expires := src.expires.or dst.expires }

/-- The source entry after `Rename` took the moved fields out. -/
def renameLeft (src : Entry) : Entry :=
  { src with
    kv := none, hashes := none, lists := none, sets := none, zsets := none,
    streams := none, hlls := none, groups := none, lastSeq := none, expires := none }

/-- `Rename`. The new key is deleted first, even when it is the old one. -/
def rename (key newkey : Bytes) (s : Store) : Except Err Unit × Store :=
  if (s.entries key).expired now then (.error .noSuchKey, s.purgeKey now key)
  else if !(s.entries key).existsAt now then (.error .noSuchKey, s)
  else
    let s := s.modify newkey Cell.delete
    let src := s.entries key
    let s := { s with entries := s.entries.update newkey (renameMoved src (s.entries newkey)) }
    let s := { s with
      entries := if key = newkey then s.entries else s.entries.update key (renameLeft src) }
    (.ok (), s.touchKeys [key, newkey])

/-- The fields that `Copy` writes over those of the destination. -/
def copyOnto (src dst : Entry) : Entry :=
  { dst with
    kv := src.kv.or dst.kv, hashes := src.hashes.or dst.hashes,
    lists := src.lists.or dst.lists, sets := src.sets.or dst.sets,
    zsets := (src.zsets.map (fun z => SortedSet.ofMembers z.ordered)).or dst.zsets,
    streams := src.streams.or dst.streams, hlls := src.hlls.or dst.hlls,
    expires := src.expires.or dst.expires, lastSeq := src.lastSeq.or dst.lastSeq }

/-- `Copy`. A destination that is not visible yet is neither refused nor deleted. -/
def copy (src dst : Bytes) (replace : Bool) (s : Store) : Bool × Store :=
  let s := s.purgeKey now src
  if !(s.entries src).existsAt now then (false, s)
  else
    let s := s.purgeKey now dst
    let present := (s.entries dst).existsAt now
    if present && !replace then (false, s)
    else
      let s := if present then s.modify dst Cell.delete else s
      (true, s.modify dst (fun c => { c with toEntry := copyOnto (s.entries src) c.toEntry }.touch))

/-- `SMove` -/
def sMove (src dst member : Bytes) (s : Store) : Except Err Bool × Store :=
  let s := s.purgeKey now src
  let s := s.purgeKey now dst
  if (s.entries src).conflicts .set || (s.entries dst).conflicts .set then
    (.error .wrongType, s)
  else if member ∉ (s.entries src).sets.getD ∅ then (.ok false, s)
  else
    let s := s.modify src (fun c => c.setSet ((c.sets.getD ∅).erase member))
    let s := s.modify dst (fun c => { c with sets := some (insert member (c.sets.getD ∅)) })
    let s := s.touchKeys [src]
    (.ok true, s.touchKeys [dst])

/-- One source of `PFMerge`. -/
def pfMergeStep (dest : Bytes) (s : Store) (key : Bytes) : Store :=
  let s := s.purgeKey now key
  match (s.entries key).hlls with
  | none => s
  | some h => s.modify dest (fun c => { c with hlls := c.hlls.map (·.merge h) })

/-- `PFMerge`; the type of the destination is not checked. -/
def pfMerge (dest : Bytes) (srcs : List Bytes) (s : Store) : Store :=
  let s := s.purgeKey now dest
  let s := s.modify dest (fun c => { c with hlls := some (c.hlls.getD .empty) })
  (srcs.foldl (pfMergeStep now dest) s).touchKeys [dest]

/-- The loop of `BitOp` over its source keys: their bytes, or the error of the first that
is not a string. -/
def bitOpRead (now : Time) : List Bytes → Store → Except Err (List Bytes) × Store
  | [], s => (.ok [], s)
  | key :: rest, s =>
    let s := s.purgeKey now key
    if (s.entries key).conflicts .string then (.error .wrongType, s)
    else
      let buf := (s.entries key).kv.getD []
      match bitOpRead now rest s with
      | (.error e, s) => (.error e, s)
      | (.ok bufs, s) => (.ok (buf :: bufs), s)

/-- The combined bytes of `BitOp`; shorter operands count as padded with zeros. -/
def bitOpResult (op : Bytes) (bufs : List Bytes) : Except Err Bytes :=
  let maxLen := (bufs.map List.length).foldl max 0
  let combine := fun (f : UInt8 → UInt8 → UInt8) (start : UInt8) =>
    (List.range maxLen).map (fun i => bufs.foldl (fun acc buf => f acc (buf.getD i 0)) start)
  if op = bytes "AND" then .ok (combine (· &&& ·) 0xFF)
  else if op = bytes "OR" then .ok (combine (· ||| ·) 0)
  else if op = bytes "XOR" then .ok (combine (· ^^^ ·) 0)
  else if op = bytes "NOT" then .ok ((bufs.headD []).map (~~~ ·))
  else .error (.bitOpUnsupported op)

/-- `BitOp`: the length of the result. -/
def bitOp (op dest : Bytes) (keys : List Bytes) (s : Store) : Except Err Nat × Store :=
  let op := toUpper op
  if op = bytes "NOT" ∧ keys.length ≠ 1 then (.error .bitOpNot, s)
  else
    match bitOpRead now keys s with
    | (.error e, s) => (.error e, s)
    | (.ok bufs, s) =>
      match bitOpResult op bufs with
      | .error e => (.error e, s)
      | .ok result =>
        (.ok result.length, s.modify dest (fun c => { c.delete with kv := some result }.touch))

/-- `TSDownsample`: the number of buckets. -/
def tsDownsample (R : Runtime) (now : Time) (src dst aggType : Bytes)
    (start stop bucketSize : Int) (s : Store) : Except Err Nat × Store :=
  if (s.entries src).expired now then (.error .sourceNotFound, s.purgeKey now src)
  else
    match (s.entries src).timeseries with
    | none => (.error .sourceNotFound, s)
    | some ts =>
      let results := ts.downsample R start stop bucketSize aggType
      (.ok results.length, s.modify dst (Cell.tsReplace results))

/-! ## Sorting -/

/-- The elements `Sort` works on; `none` when the key holds nothing it can sort. -/
def sortElements (e : Entry) (hint : List Bytes) : Option (List Bytes) :=
  match e.lists, e.sets, e.zsets with
  | some items, _, _ => some items
  | none, some set, _ => some (enumerate hint set)
  | none, none, some z => some (z.ordered.map (·.member))
  | none, none, none => none

/-- The comparison of a numeric `Sort`. -/
def sortLess (R : Runtime) (a b : Bytes) : Bool :=
  match R.parseFloat a, R.parseFloat b with
  | some x, some y => x.lt y
  | _, _ => decide (a < b)

/-- The elements in order. `sort.Strings` sorts by a linear order; the numeric comparison need not
be one, so that its result depends on the algorithm. -/
def sortedElements (R : Runtime) (alpha desc : Bool) (elements : List Bytes) : List Bytes :=
  let sorted := if alpha then elements.insertionSort (· ≤ ·) else sliceStable (sortLess R) elements
  if desc then sorted.reverse else sorted

/-- The sorted and cut elements. With a count, a negative offset makes the slice expression
panic. -/
def sortResult (R : Runtime) (alpha desc : Bool) (offset count : Int)
    (elements : List Bytes) : Except Err (List Bytes) :=
  let sorted := sortedElements R alpha desc elements
  if 0 < offset ∨ 0 < count then
    if offset < 0 then .error .panic
    else
      let rest := sorted.drop offset.toNat
      .ok (if 0 < count then rest.take count.toNat else rest)
  else .ok sorted

/-- Writing the result of `Sort`; an empty result deletes the key. -/
def sortStore (elements : List Bytes) (c : Cell) : Cell :=
  let c := c.delete
  (if elements = [] then c else { c with lists := some elements }).touch

/-- `Sort`. `storeKey` is the destination, if one is given. -/
def sort (R : Runtime) (now : Time) (key : Bytes) (alpha desc : Bool) (offset count : Int)
    (storeKey : Option Bytes) (hint : List Bytes) (s : Store) : Except Err (List Bytes) × Store :=
  if (s.entries key).expired now then
    let s := s.purgeKey now key
    match storeKey with
    | none => (.ok [], s)
    | some dst => (.ok [], s.modify dst (fun c => { c with lists := none }.touch))
  else
    match sortElements (s.entries key) hint with
    | none =>
      if (s.entries key).kv.isSome then (.error .wrongType, s)
      else
        match storeKey with
        | none => (.ok [], s)
        | some dst => (.ok [], s.modify dst (fun c => c.delete.touch))
    | some elements =>
      match sortResult R alpha desc offset count elements with
      | .error e => (.error e, s)
      | .ok result =>
        match storeKey with
        | none => (.ok result, s)
        | some dst => (.ok result, s.modify dst (sortStore result))

/-! ## Lists and blocked clients -/

/-- Handing a value to a waiter: `once` lets only the first one through. -/
def serve (s : Store) (w : Nat) (key value : Bytes) : Store :=
  if (s.waiters w).served then s
  else
    let waiter := { s.waiters w with chan := some (key, value), served := true }
    { s with waiters := Function.update s.waiters w waiter }

/-- One round of the wake-up: the first waiter leaves the queue and `value` is handed to it,
while the list keeps `items`. -/
def handOver (key : Bytes) (w : Nat) (rest : List Nat) (value : Bytes) (items : List Bytes)
    (s : Store) : Store :=
  let s := { s with listWaits := Function.update s.listWaits key rest }
  (s.modify key (Cell.setList items)).serve w key value

/-- The loop of `wakeListWaitersLocked` over the waiters of a key. -/
def wakeLoop (key : Bytes) : List Nat → Store → Store
  | [], s => s
  | w :: rest, s =>
    match Cell.popValue (s.waiters w).left ((s.entries key).lists.getD []) with
    | none => s
    | some (value, items) => wakeLoop key rest (s.handOver key w rest value items)

/-- `wakeListWaitersLocked` -/
def wakeListWaiters (key : Bytes) (s : Store) : Store := wakeLoop key (s.listWaits key) s

/-- `pushList`: the length of the list after blocked clients took their share. -/
def pushList (now : Time) (key : Bytes) (left : Bool) (values : List Bytes) (s : Store) :
    Except Err Nat × Store :=
  match s.onKey key (Cell.pushList now left values) with
  | (.error e, s) => (.error e, s)
  | (.ok (), s) =>
    let s := s.wakeListWaiters key
    (.ok ((s.entries key).lists.getD []).length, s)

/-- The type check of `LMove`: JSON documents and time series are not looked at. -/
def lMoveConflicts (e : Entry) : Bool := e.hasAny [.string, .hash, .set, .zset, .stream, .hll]

/-- The writes of `LMove`, from the list of the source without the moved value. -/
def lMoveWrite (src dst : Bytes) (dstLeft : Bool) (value : Bytes) (rest : List Bytes)
    (s : Store) : Store :=
  let s := s.modify src (Cell.setList rest)
  let s := s.modify dst (fun c =>
    { c with lists := some (Cell.pushValues dstLeft [value] (c.lists.getD [])) })
  let s := s.touchKeys [src, dst]
  s.wakeListWaiters dst

/-- `LMove` -/
def lMove (src dst : Bytes) (srcLeft dstLeft : Bool) (s : Store) :
    Except Err (Option Bytes) × Store :=
  let s := s.purgeKey now src
  if lMoveConflicts (s.entries src) then (.error .wrongType, s)
  else
    match Cell.popValue srcLeft ((s.entries src).lists.getD []) with
    | none => (.ok none, s)
    | some (value, rest) =>
      let s := if src = dst then s else s.purgeKey now dst
      if src ≠ dst ∧ lMoveConflicts (s.entries dst) then (.error .wrongType, s)
      else (.ok (some value), s.lMoveWrite src dst dstLeft value rest)

/-- `BPop` on one of its keys. No other type is looked at. -/
def bPopCell (left : Bool) (c : Cell) : Option Bytes × Cell :=
  if c.expired now then (none, c.purge now)
  else
    match Cell.popValue left (c.lists.getD []) with
    | none => (none, c)
    | some (value, rest) => (some value, (c.setList rest).touch)

/-- The loop of `BPop` over its keys. -/
def bPopTry (now : Time) (left : Bool) : List Bytes → Store → Option (Bytes × Bytes) × Store
  | [], s => (none, s)
  | key :: rest, s =>
    match s.onKey key (bPopCell now left) with
    | (some value, s) => (some (key, value), s)
    | (none, s) => bPopTry now left rest s

/-- Registering a new waiter under all keys. -/
def register (keys : List Bytes) (left : Bool) (s : Store) : Store :=
  { s with
    listWaits := keys.foldl (fun m key => Function.update m key (m key ++ [s.nextWaiter]))
      s.listWaits
    waiters := Function.update s.waiters s.nextWaiter ⟨left, none, false⟩
    nextWaiter := s.nextWaiter + 1 }

/-- The first step of `BPop`: an element at once, or a place in the queues of all keys. -/
def bPopStart (keys : List Bytes) (left : Bool) (s : Store) :
    Option (Bytes × Bytes) × Store :=
  match bPopTry now left keys s with
  | (some r, s) => (some r, s)
  | (none, s) => (none, s.register keys left)

/-- `removeListWaiter` -/
def removeListWaiter (keys : List Bytes) (target : Nat) (s : Store) : Store :=
  { s with listWaits := fun key =>
      if key ∈ keys then (s.listWaits key).filter (· ≠ target) else s.listWaits key }

/-! ## Queues -/

/-- `Enqueue` -/
def enqueue (now : Time) (queueName body : Bytes) (delay : Duration) (s : Store) : Bytes × Store :=
  let s := { s with queueSeq := s.queueSeq + 1 }
  s.onKey queueName (Cell.enqueue now s.queueSeq body delay)

/-! ## The whole store -/

/-- `FlushDB` -/
def flushDB (s : Store) : Store :=
  { s with entries := 0, version := s.version + 1, keyVersion := fun _ => 0,
           listWaits := fun _ => [] }

/-- `purgeExpiredLocked`, in the order of the map's iteration. -/
def purgeExpired (hint : List Bytes) (s : Store) : Store :=
  (enumerate hint s.held).foldl (fun s key => s.purgeKey now key) s

/-- Deleting one sampled key; unlike `expiredKeyLocked` the instant itself does not
count. -/
def sampleCell (c : Cell) : Cell :=
  match c.expires with
  | none => c
  | some t => if !isZero t && decide (t < now) then c.delete else c

/-- The clean-up of rate limiters and delays in `sampleExpired`. -/
def sweepCell (c : Cell) : Cell :=
  { c with
    rateLimiters := c.rateLimiters.filter (fun rl =>
      match rl.requests.getLast? with
      | none => false
      | some newest => decide (timeSub now newest ≤ wrap64 (rl.window * 2)))
    notBefore := c.notBefore.filter (fun t => decide (now ≤ t)) }

/-- The clean-up of tags in `sampleExpired`: the keys that have some are looked up. -/
def sweepTags (c : Cell) : Cell :=
  if c.tags.isNone then c
  else
    let c := c.purge now
    if c.existsAt now then c else { c with tags := none }

/-- `sampleExpired`: at most 100 keys are sampled, in the order of the map's iteration. -/
def sampleExpired (hint : List Bytes) (s : Store) : Store :=
  let volatile := (enumerate hint s.held).filter (fun k => (s.entries k).expires.isSome)
  let s := (volatile.take 100).foldl (fun s key => s.modify key (sampleCell now)) s
  let s := (enumerate hint s.held).foldl (fun s key => s.modify key (sweepCell now)) s
  (enumerate hint s.held).foldl (fun s key => s.modify key (sweepTags now)) s

/-- The deletions of `EvictIfNeeded`. Which keys go is left open: it depends on the
memory estimate, the policy, and the iteration order or the access times. -/
def evict (victims : List Bytes) (s : Store) : Store :=
  victims.foldl (fun s key => s.modify key Cell.delete) s

end Store

end Vole
