import Vole.Store.Entry

/-!
# Hashes, lists, sets and sorted sets

The operations of `store.go` on the four collection types. Where the source takes elements
in the iteration order of a map, the order is an argument: `enumerate` turns any hint into
an enumeration of the set, and every enumeration arises from some hint.
-/

namespace Vole

open Go

/-- An enumeration of a finite set that follows `hint` as far as it goes. -/
def enumerate (hint : List Bytes) (s : Finset Bytes) : List Bytes :=
  let front := hint.dedup.filter (· ∈ s)
  front ++ (s.sort (· ≤ ·)).filter (· ∉ front)

@[simp] theorem mem_enumerate {hint : List Bytes} {s : Finset Bytes} {k : Bytes} :
    k ∈ enumerate hint s ↔ k ∈ s := by
  unfold enumerate
  by_cases hk : k ∈ hint <;> simp [hk]

namespace Cell

/-! ## Hashes -/

/-- Writing one field; the count is of fields that were new. -/
def hashWrite (acc : Nat × GoMap Bytes) (pair : Bytes × Bytes) : Nat × GoMap Bytes :=
  let added := if (acc.2.get pair.1).isNone then acc.1 + 1 else acc.1
  (added, acc.2.insert pair.1 pair.2)

variable (now : Time)

/-- `HSet`: the number of new fields. -/
def hSet (pairs : List (Bytes × Bytes)) (c : Cell) : Except Err Nat × Cell :=
  if pairs = [] then (.error .hashArity, c)
  else
    let c := c.purge now
    if c.conflicts .hash then (.error .wrongType, c)
    else
      let (added, hash) := pairs.foldl hashWrite (0, c.hashes.getD ∅)
      (.ok added, { c with hashes := some hash }.touch)

/-- Deleting one field; the count is of fields that existed. -/
def hashDelete (acc : Nat × GoMap Bytes) (field : Bytes) : Nat × GoMap Bytes :=
  if (acc.2.get field).isSome then (acc.1 + 1, acc.2.erase field) else acc

/-- `HDel`: the number of fields deleted. A hash without fields is dropped. -/
def hDel (fields : List Bytes) (c : Cell) : Except Err Nat × Cell :=
  if c.expired now then (.ok 0, c.purge now)
  else if c.conflicts .hash then (.error .wrongType, c)
  else
    match c.hashes with
    | none => (.ok 0, c)
    | some hash =>
      let (deleted, hash) := fields.foldl hashDelete (0, hash)
      let c := if hash.isEmpty then { c with hashes := none, expires := none }
        else { c with hashes := some hash }
      (.ok deleted, if 0 < deleted then c.touch else c)

/-- `HIncrBy`; the sum wraps around. -/
def hIncrBy (field : Bytes) (delta : Int) (c : Cell) : Except Err Int × Cell :=
  let c := c.purge now
  if c.conflicts .hash then (.error .wrongType, c)
  else
    let hash := c.hashes.getD ∅
    let c := { c with hashes := some hash }
    let parsed := match hash.get field with
      | none => some 0
      | some v => parseInt v
    match parsed with
    | none => (.error .hashNotInteger, c)
    | some n =>
      let n := wrap64 (n + delta)
      (.ok n, { c with hashes := some (hash.insert field (formatInt n)) }.touch)

/-- `HSetNX` -/
def hSetNX (field value : Bytes) (c : Cell) : Except Err Bool × Cell :=
  let c := c.purge now
  if c.conflicts .hash then (.error .wrongType, c)
  else
    let hash := c.hashes.getD ∅
    let c := { c with hashes := some hash }
    if (hash.get field).isSome then (.ok false, c)
    else (.ok true, { c with hashes := some (hash.insert field value) }.touch)

/-! ## Lists -/

/-- `PushFront` or `PushBack`, one value at a time. -/
def pushValues (left : Bool) (values items : List Bytes) : List Bytes :=
  if left then values.reverse ++ items else items ++ values

/-- `PopFront` or `PopBack`. -/
def popValue (left : Bool) (items : List Bytes) : Option (Bytes × List Bytes) :=
  if left then
    match items with
    | [] => none
    | v :: rest => some (v, rest)
  else items.getLast?.map (fun v => (v, items.dropLast))

/-- Writing a list back; an empty one is dropped with its expiry. -/
def setList (items : List Bytes) (c : Cell) : Cell :=
  if items = [] then { c with lists := none, expires := none }
  else { c with lists := some items }

/-- `pushList` up to the wake-up of blocked clients. -/
def pushList (left : Bool) (values : List Bytes) (c : Cell) : Except Err Unit × Cell :=
  if values = [] then (.error .listArity, c)
  else
    let c := c.purge now
    if c.conflicts .list then (.error .wrongType, c)
    else
      (.ok (), { c with lists := some (pushValues left values (c.lists.getD [])) }.touch)

/-- `popList`, also called `LPop` and `RPop`. -/
def popList (left : Bool) (c : Cell) : Except Err (Option Bytes) × Cell :=
  if c.expired now then (.ok none, c.purge now)
  else if c.conflicts .list then (.error .wrongType, c)
  else
    match popValue left (c.lists.getD []) with
    | none => (.ok none, c)
    | some (value, rest) => (.ok (some value), (c.setList rest).touch)

/-- An index that may count from the end. -/
def listIndex (index : Int) (length : Nat) : Option Nat :=
  let index := if index < 0 then length + index else index
  if index < 0 ∨ (length : Int) ≤ index then none else some index.toNat

/-- `LSet` -/
def lSet (index : Int) (value : Bytes) (c : Cell) : Except Err Unit × Cell :=
  if c.expired now then (.error .noSuchKey, c.purge now)
  else if c.conflicts .list then (.error .wrongType, c)
  else
    let items := c.lists.getD []
    if items = [] then (.error .noSuchKey, c)
    else
      match listIndex index items.length with
      | none => (.error .indexRange, c)
      | some i => (.ok (), { c with lists := some (items.set i value) }.touch)

/-- `LInsert`: the new length, or -1 if the pivot is not in the list. -/
def lInsert (before : Bool) (pivot value : Bytes) (c : Cell) : Except Err Int × Cell :=
  if c.expired now then (.ok 0, c.purge now)
  else if c.conflicts .list then (.error .wrongType, c)
  else
    let items := c.lists.getD []
    if items = [] then (.ok 0, c)
    else
      match items.idxOf? pivot with
      | none => (.ok (-1), c)
      | some idx =>
        let items := items.insertIdx (if before then idx else idx + 1) value
        (.ok items.length, { c with lists := some items }.touch)

/-- Dropping the first `count` occurrences of an element. -/
def removeFirst (element : Bytes) : Nat → List Bytes → List Bytes
  | _, [] => []
  | 0, items => items
  | count + 1, item :: rest =>
    if item = element then removeFirst element count rest
    else item :: removeFirst element (count + 1) rest

/-- The items `LRem` keeps: `count` selects the first, the last or all occurrences. -/
def lRemKept (count : Int) (element : Bytes) (items : List Bytes) : List Bytes :=
  if 0 < count then removeFirst element count.toNat items
  else if count < 0 then (removeFirst element (wrap64 (-count)).toNat items.reverse).reverse
  else items.filter (· ≠ element)

/-- `LRem`: the number of items removed. -/
def lRem (count : Int) (element : Bytes) (c : Cell) : Except Err Nat × Cell :=
  if c.expired now then (.ok 0, c.purge now)
  else if c.conflicts .list then (.error .wrongType, c)
  else
    let items := c.lists.getD []
    if items = [] then (.ok 0, c)
    else
      let kept := lRemKept count element items
      let removed := items.length - kept.length
      let c := c.setList kept
      (.ok removed, if 0 < removed then c.touch else c)

/-! ## Sets -/

/-- Writing a set back; an empty one is dropped with its expiry. -/
def setSet (members : Finset Bytes) (c : Cell) : Cell :=
  if members = ∅ then { c with sets := none, expires := none }
  else { c with sets := some members }

/-- `SAdd`: the number of new members. -/
def sAdd (members : List Bytes) (c : Cell) : Except Err Nat × Cell :=
  if members = [] then (.error .setArity, c)
  else
    let c := c.purge now
    if c.conflicts .set then (.error .wrongType, c)
    else
      let set := c.sets.getD ∅
      let all := set ∪ members.toFinset
      (.ok (all.card - set.card), { c with sets := some all }.touch)

/-- `SRem`: the number of members removed. The source does not touch the key. -/
def sRem (members : List Bytes) (c : Cell) : Except Err Nat × Cell :=
  if c.expired now then (.ok 0, c.purge now)
  else if c.conflicts .set then (.error .wrongType, c)
  else
    let set := c.sets.getD ∅
    if set = ∅ then (.ok 0, c)
    else
      let rest := set \ members.toFinset
      (.ok (set.card - rest.card), c.setSet rest)

/-- `SPop`: members in the order of the map's iteration. -/
def sPop (count : Int) (hint : List Bytes) (c : Cell) :
    Except Err (List Bytes) × Cell :=
  if c.expired now then (.ok [], c.purge now)
  else if c.conflicts .set then (.error .wrongType, c)
  else
    let set := c.sets.getD ∅
    if set = ∅ then (.ok [], c)
    else
      let count := if count ≤ 0 then 1 else count.toNat
      let popped := (enumerate hint set).take count
      (.ok popped, (c.setSet (set \ popped.toFinset)).touch)

/-! ## Sorted sets -/

/-- Writing a sorted set back; an empty one is dropped with its expiry. -/
def setZSet (z : SortedSet) (c : Cell) : Cell :=
  if z.len = 0 then { c with zsets := none, expires := none }
  else { c with zsets := some z }

/-- Adding one member; the count is of members that were new. -/
def zsetAdd {σ : Type} [Score σ] (acc : Nat × SortedSet σ) (m : ZMember σ) : Nat × SortedSet σ :=
  let (isNew, z) := acc.2.add m.member m.score
  (if isNew then acc.1 + 1 else acc.1, z)

/-- `ZAdd`: the number of new members. -/
def zAdd (members : List ZMember) (c : Cell) : Except Err Nat × Cell :=
  if members = [] then (.error .zsetArity, c)
  else
    let c := c.purge now
    if c.conflicts .zset then (.error .wrongType, c)
    else
      let (added, z) := members.foldl zsetAdd (0, c.zsets.getD .empty)
      (.ok added, { c with zsets := some z }.touch)

/-- Removing one member; the count is of members that existed. -/
def zsetRemove {σ : Type} [Score σ] (acc : Nat × SortedSet σ) (member : Bytes) :
    Nat × SortedSet σ :=
  let (existed, z) := acc.2.remove member
  (if existed then acc.1 + 1 else acc.1, z)

/-- `ZRem`: the number of members removed. -/
def zRem (members : List Bytes) (c : Cell) : Except Err Nat × Cell :=
  if c.expired now then (.ok 0, c.purge now)
  else if c.conflicts .zset then (.error .wrongType, c)
  else
    match c.zsets with
    | none => (.ok 0, c)
    | some z =>
      if z.len = 0 then (.ok 0, c)
      else
        let (removed, z) := members.foldl zsetRemove (0, z)
        let c := c.setZSet z
        (.ok removed, if 0 < removed then c.touch else c)

/-- `ZIncrBy`: the new score. -/
def zIncrBy (R : Runtime) (now : Time) (incr : F64) (member : Bytes) (c : Cell) :
    Except Err F64 × Cell :=
  let c := c.purge now
  if c.conflicts .zset then (.error .wrongType, c)
  else
    let z := c.zsets.getD .empty
    let (z, score) := match z.score member with
      | some score => ((z.remove member).2, score)
      | none => (z, F64.zero)
    let newScore := R.addFloat score incr
    (.ok newScore, { c with zsets := some (z.add member newScore).2 }.touch)

/-- `ZPopMin` and `ZPopMax`, by what the sorted set does. -/
def zPop (pop : SortedSet → List ZMember × SortedSet) (c : Cell) :
    Except Err (List ZMember) × Cell :=
  if c.expired now then (.ok [], c.purge now)
  else if c.conflicts .zset then (.error .wrongType, c)
  else
    match c.zsets with
    | none => (.ok [], c)
    | some z =>
      if z.len = 0 then (.ok [], c)
      else
        let (popped, z) := pop z
        (.ok popped, (c.setZSet z).touch)

def zPopMin (count : Int) (c : Cell) : Except Err (List ZMember) × Cell :=
  c.zPop now (·.popMin count)

def zPopMax (count : Int) (c : Cell) : Except Err (List ZMember) × Cell :=
  c.zPop now (·.popMax count)

end Cell

/-! ## Reading -/

namespace Entry

/-- The frame of the reading operations on one type: an expired key reads as `absent`, a
key of another type is an error. -/
def reading {α : Type} (e : Entry) (now : Time) (own : DataType) (absent : α)
    (read : Entry → α) : Except Err α :=
  if e.expired now then .ok absent
  else if e.readConflict now own then .error .wrongType
  else .ok (read e)

variable (e : Entry) (now : Time)

/-- `HGet` -/
def hGet (field : Bytes) : Except Err (Option Bytes) :=
  e.reading now .hash none (fun e => e.hashes.bind (·.get field))

/-- The fields of a hash with their values, sorted by field. -/
def hashPairs (hash : GoMap Bytes) : List (Bytes × Bytes) :=
  hash.sortedKeys.map (fun f => (f, (hash.get f).getD []))

/-- `HGetAll` -/
def hGetAll : Except Err (List (Bytes × Bytes)) :=
  e.reading now .hash [] (fun e => hashPairs (e.hashes.getD ∅))

/-- `HVals`: the values, sorted. -/
def hVals : Except Err (List Bytes) :=
  e.reading now .hash [] (fun e =>
    ((hashPairs (e.hashes.getD ∅)).map (·.2)).insertionSort (· ≤ ·))

/-- `HKeys` -/
def hKeys : Except Err (List Bytes) :=
  e.reading now .hash [] (fun e => (e.hashes.getD ∅).sortedKeys)

/-- `HLen` -/
def hLen : Except Err Nat :=
  e.reading now .hash 0 (fun e => (e.hashes.getD ∅).size)

/-- `HExists` -/
def hExists (field : Bytes) : Except Err Bool :=
  e.reading now .hash false (fun e => ((e.hashes.getD ∅).get field).isSome)

/-- Random picks from the members of a set or the fields of a hash: distinct ones for a
positive count, with repetitions for a negative one. -/
def randomPicks (members : Finset Bytes) (count : Int) (hint : List Bytes)
    (draws : Nat → Nat) : List Bytes :=
  let all := enumerate hint members
  if 0 < count then
    if (all.length : Int) ≤ count then members.sort (· ≤ ·) else all.take count.toNat
  else (List.range (wrap64 (-count)).toNat).map (fun i => all.getD (draws i % all.length) [])

/-- `HRandField` -/
def hRandField (count : Int) (hint : List Bytes)
    (draws : Nat → Nat) : Except Err (List Bytes) :=
  e.reading now .hash [] (fun e =>
    let hash := e.hashes.getD ∅
    if hash.isEmpty || count = 0 then [] else randomPicks hash.keys count hint draws)

/-- `LRange` -/
def lRange (start stop : Int) : Except Err (List Bytes) :=
  e.reading now .list [] (fun e => rangeOf (e.lists.getD []) start stop)

/-- `LLen` -/
def lLen : Except Err Nat :=
  e.reading now .list 0 (fun e => (e.lists.getD []).length)

/-- `LIndex` -/
def lIndex (index : Int) : Except Err (Option Bytes) :=
  e.reading now .list none (fun e =>
    let items := e.lists.getD []
    (Cell.listIndex index items.length).bind (items[·]?))

/-- `LPos` -/
def lPos (element : Bytes) : Except Err (Option Nat) :=
  e.reading now .list none (fun e => (e.lists.getD []).idxOf? element)

/-- `SMembers` -/
def sMembers : Except Err (List Bytes) :=
  e.reading now .set [] (fun e => (e.sets.getD ∅).sort (· ≤ ·))

/-- `SIsMember` -/
def sIsMember (member : Bytes) : Except Err Bool :=
  e.reading now .set false (fun e => decide (member ∈ e.sets.getD ∅))

/-- `SCard` -/
def sCard : Except Err Nat :=
  e.reading now .set 0 (fun e => (e.sets.getD ∅).card)

/-- `SRandMember` -/
def sRandMember (count : Int) (hint : List Bytes)
    (draws : Nat → Nat) : Except Err (List Bytes) :=
  e.reading now .set [] (fun e =>
    let set := e.sets.getD ∅
    if set = ∅ ∨ count = 0 then [] else randomPicks set count hint draws)

/-- The reading operations of a sorted set; an absent one reads as the empty one. -/
def readingZSet {α : Type} (e : Entry) (now : Time) (absent : α) (read : SortedSet → α) :
    Except Err α :=
  e.reading now .zset absent (fun e => (e.zsets.map read).getD absent)

/-- `ZRange` -/
def zRange (start stop : Int) : Except Err (List ZMember) :=
  e.readingZSet now [] (fun z => if z.len = 0 then [] else z.range start stop)

/-- `ZRevRange` -/
def zRevRange (start stop : Int) : Except Err (List ZMember) :=
  e.readingZSet now [] (fun z => if z.len = 0 then [] else z.revRange start stop)

/-- `ZRangeByScore` -/
def zRangeByScore (min max : F64) (offset count : Int) :
    Except Err (List ZMember) :=
  e.readingZSet now [] (fun z =>
    if z.len = 0 then [] else z.rangeByScore min max offset count)

/-- `ZRangeByLex` -/
def zRangeByLex (min max : Bytes) (offset count : Int) :
    Except Err (List ZMember) :=
  e.readingZSet now [] (fun z =>
    if z.len = 0 then [] else z.rangeByLex min max offset count)

/-- `ZScore` -/
def zScore (member : Bytes) : Except Err (Option F64) :=
  e.readingZSet now none (·.score member)

/-- `ZRank` -/
def zRank (member : Bytes) : Except Err (Option Int) :=
  e.readingZSet now none (fun z => (z.rank member).map (fun r => (r : Int)))

/-- `ZRevRank` -/
def zRevRank (member : Bytes) : Except Err (Option Int) :=
  e.readingZSet now none (fun z => (z.rank member).map (fun r => (z.len : Int) - 1 - r))

/-- `ZCount` -/
def zCount (min max : F64) : Except Err Nat :=
  e.readingZSet now 0 (·.countByScore min max)

/-- `ZCard` -/
def zCard : Except Err Nat := e.readingZSet now 0 (·.len)

end Entry

end Vole
