import Vole.Store.Collections

/-!
# Streams and consumer groups

The stream operations of `store.go`. Identifiers are texts such as `1526919030474-55` and
are compared through `parseID`, which ignores what it cannot read. Blocked readers only wait
for a signal and then read again, so the lists of waiting readers are not part of the
model.
-/

namespace Vole

open Go

/-- `strings.SplitN(s, "-", 2)`: the text before the first dash and, if there is one, the
text after it. -/
def splitDash (s : Bytes) : Bytes × Option Bytes :=
  match s.dropWhile (· ≠ 45) with
  | [] => (s, none)
  | _ :: rest => (s.takeWhile (· ≠ 45), some rest)

/-- `parseID` -/
def parseID (id : Bytes) : Int × Int :=
  if id = bytes "-" then (0, 0)
  else if id = bytes "+" ∨ id = bytes "$" then (2 ^ 62 - 1, 2 ^ 62 - 1)
  else
    let parts := splitDash id
    (parseIntValue parts.1, (parts.2.map parseIntValue).getD 0)

/-- `compareID` -/
def compareID (a b : Bytes) : Ordering :=
  if b = bytes "$" then .gt
  else
    let ap := parseID a
    let bp := parseID b
    if ap.1 ≠ bp.1 then (if ap.1 < bp.1 then .lt else .gt)
    else if ap.2 < bp.2 then .lt
    else if bp.2 < ap.2 then .gt
    else .eq

/-- `lastIDLocked` -/
def lastIDOf (entries : List StreamEntry) : Bytes :=
  (entries.getLast?.map (·.id)).getD (bytes "0-0")

/-- `fmt.Sprintf("%d-%d", ms, seq)` -/
def formatID (ms seq : Int) : Bytes := formatInt ms ++ 45 :: formatInt seq

/-- The entries from the first one after `afterID`, by binary search. -/
def entriesAfter (entries : List StreamEntry) (afterID : Bytes) : List StreamEntry :=
  entries.drop (search entries.length (fun i =>
    match entries[i]? with
    | none => true
    | some e => compareID e.id afterID = .gt))

namespace Cell

/-- The type check of `XAdd`, `NextStreamID` and `XGroupCreate`: JSON documents and time
series are not looked at. -/
def streamConflicts (c : Cell) : Bool :=
  c.hasAny [.string, .hash, .list, .set, .zset, .hll]

def lastID (c : Cell) : Bytes := lastIDOf (c.streams.getD [])

variable (now : Time)

/-- `prepareStreamIDLocked` -/
def prepareStreamID (id : Bytes) (c : Cell) : Except Err Bytes × Cell :=
  if id = bytes "*" then
    let last := parseID c.lastID
    let ms := unixMilli now
    let (ms, seq) := if ms ≤ last.1 then (last.1, last.2) else (ms, c.lastSeq.getD 0)
    let seq := wrap64 (seq + 1)
    (.ok (formatID ms seq), { c with lastSeq := some seq })
  else if compareID id c.lastID ≠ .gt then (.error .streamId, c)
  else (.ok id, { c with lastSeq := some (parseID id).2 })

/-- `addStreamEntryLocked` -/
def addStreamEntry (id : Bytes) (fields : List Bytes) (c : Cell) : Cell :=
  { c with streams := some (c.streams.getD [] ++ [StreamEntry.mk id fields]) }.touch

/-- The arity check on the fields of a stream entry. -/
def badFields (fields : List Bytes) : Bool := fields = [] || fields.length % 2 ≠ 0

/-- `XAdd` -/
def xAdd (id : Bytes) (fields : List Bytes) (c : Cell) : Except Err Bytes × Cell :=
  if badFields fields then (.error .streamArity, c)
  else
    let c := c.purge now
    if c.streamConflicts then (.error .wrongType, c)
    else
      match c.prepareStreamID now id with
      | (.error e, c) => (.error e, c)
      | (.ok id, c) => (.ok id, c.addStreamEntry id fields)

/-- `NextStreamID` -/
def nextStreamID (id : Bytes) (c : Cell) : Except Err Bytes × Cell :=
  let c := c.purge now
  if c.streamConflicts then (.error .wrongType, c) else c.prepareStreamID now id

/-- `XAddPrepared`; no type is checked. -/
def xAddPrepared (id : Bytes) (fields : List Bytes) (c : Cell) :
    Except Err Unit × Cell :=
  if badFields fields then (.error .streamArity, c)
  else if c.expired now then (.error .streamId, c.purge now)
  else if compareID id c.lastID ≠ .gt then (.error .streamId, c)
  else
    let c := { c with lastSeq := some (parseID id).2 }
    (.ok (), c.addStreamEntry id fields)

/-- `XTrim`. A negative length makes the slice expression panic. -/
def xTrim (maxLen : Int) (c : Cell) : Except Err Nat × Cell :=
  let entries := c.streams.getD []
  if (entries.length : Int) ≤ maxLen then (.ok 0, c)
  else if maxLen < 0 then (.error .panic, c)
  else
    let trimmed := entries.length - maxLen.toNat
    (.ok trimmed, { c with streams := some (entries.drop trimmed) }.touch)

/-! ## Consumer groups -/

def group (name : Bytes) (c : Cell) : Option ConsumerGroup := c.groups.bind (·.get name)

/-- Writing a consumer group back. -/
def setGroup (name : Bytes) (g : ConsumerGroup) (c : Cell) : Cell :=
  { c with groups := some ((c.groups.getD ∅).insert name g) }

/-- `XGroupCreate`. The stream itself is not created. -/
def xGroupCreate (name id : Bytes) (mkstream : Bool) (c : Cell) :
    Except Err Unit × Cell :=
  let c := c.purge now
  if c.streamConflicts then (.error .wrongType, c)
  else if c.streams.isNone && !mkstream then (.error .noStream, c)
  else
    let id := if id = bytes "$" then c.lastID else id
    let c := { c with groups := some (c.groups.getD ∅) }
    if (c.group name).isSome then (.error .groupExists, c)
    else (.ok (), (c.setGroup name ⟨id, ∅⟩).touch)

/-- Recording one delivery in a group. -/
def deliver (consumer : Bytes) (delivered : Time) (g : ConsumerGroup) (id : Bytes) :
    ConsumerGroup :=
  { pending := g.pending.insert id ⟨consumer, delivered⟩,
    lastID := if compareID id g.lastID = .gt then id else g.lastID }

/-- `XGroupDeliver` -/
def xGroupDeliver (name consumer : Bytes) (ids : List Bytes)
    (delivered : Time) (c : Cell) : Except Err Unit × Cell :=
  match c.group name with
  | none => (.error .noGroup, c)
  | some g =>
    let delivered := if isZero delivered then now else delivered
    let g := ids.foldl (deliver consumer delivered) g
    (.ok (), (c.setGroup name g).touch)

/-- Acknowledging one delivery; the count is of those that were pending. -/
def ackOne (acc : Nat × GoMap PendingEntry) (id : Bytes) : Nat × GoMap PendingEntry :=
  if (acc.2.get id).isSome then (acc.1 + 1, acc.2.erase id) else acc

/-- `XAck` -/
def xAck (name : Bytes) (ids : List Bytes) (c : Cell) : Except Err Nat × Cell :=
  if c.expired now then (.ok 0, c.purge now)
  else
    match c.group name with
    | none => (.error .noGroup, c)
    | some g =>
      let (n, pending) := ids.foldl ackOne (0, g.pending)
      let c := c.setGroup name { g with pending := pending }
      (.ok n, if 0 < n then c.touch else c)

/-- Whether a pending entry has been idle for long enough to be claimed. -/
def claimable (minIdleMs : Int) (p : PendingEntry) : Bool :=
  decide (minIdleMs ≤ (timeSub now p.delivered).tdiv millisecond) || decide (minIdleMs = 0)

/-- Claiming one pending entry: the new pending entries, and the stream entry if the
stream still has it. -/
def claimOne (consumer : Bytes) (minIdleMs : Int) (entries : List StreamEntry)
    (acc : GoMap PendingEntry × List StreamEntry) (id : Bytes) :
    GoMap PendingEntry × List StreamEntry :=
  match acc.1.get id with
  | none => acc
  | some p =>
    if claimable now minIdleMs p then
      (acc.1.insert id ⟨consumer, now⟩, acc.2 ++ (entries.find? (·.id = id)).toList)
    else acc

/-- `XClaim` -/
def xClaim (name consumer : Bytes) (minIdleMs : Int) (ids : List Bytes)
    (c : Cell) : Except Err (List StreamEntry) × Cell :=
  match c.group name with
  | none => (.error .noGroup, c)
  | some g =>
    let (pending, claimed) :=
      ids.foldl (claimOne now consumer minIdleMs (c.streams.getD [])) (g.pending, [])
    let c := c.setGroup name { g with pending := pending }
    (.ok claimed, if claimed = [] then c else c.touch)

/-- The loop of `XAutoClaim` over the candidates: it stops with the next identifier once
`count` entries are claimed. -/
def autoClaimLoop (now : Time) (consumer : Bytes) (minIdleMs : Int)
    (entries : List StreamEntry) (count : Nat) :
    GoMap PendingEntry × List StreamEntry → List Bytes →
      Bytes × (GoMap PendingEntry × List StreamEntry)
  | acc, [] => (bytes "0-0", acc)
  | acc, id :: rest =>
    if count ≤ acc.2.length then (id, acc)
    else autoClaimLoop now consumer minIdleMs entries count
      (claimOne now consumer minIdleMs entries acc id) rest

/-- `XAutoClaim`. The candidates are sorted by identifier; `hint` orders those that
compare as equal. -/
def xAutoClaim (name consumer : Bytes) (minIdleMs : Int) (startID : Bytes)
    (count : Int) (hint : List Bytes) (c : Cell) : Except Err (Bytes × List StreamEntry) × Cell :=
  match c.group name with
  | none => (.error .noGroup, c)
  | some g =>
    let count := if count ≤ 0 then 100 else count.toNat
    let candidates := ((enumerate hint g.pending.keys).filter
      (fun id => compareID id startID ≠ .lt)).insertionSort
        (fun a b => compareID a b ≠ .gt)
    let (nextID, pending, claimed) := autoClaimLoop now consumer minIdleMs
      (c.streams.getD []) count (g.pending, []) candidates
    let c := c.setGroup name { g with pending := pending }
    (.ok (nextID, claimed), if claimed = [] then c else c.touch)

end Cell

/-! ## Reading -/

namespace Entry

variable (e : Entry) (now : Time)

/-- `XLen` -/
def xLen : Except Err Nat :=
  e.reading now .stream 0 (fun e => (e.streams.getD []).length)

/-- `XRange` -/
def xRange (start stop : Bytes) (count : Int) : List StreamEntry :=
  if e.expired now then []
  else
    let entries := e.streams.getD []
    let first := if start = bytes "-" then 0
      else search entries.length (fun i =>
        match entries[i]? with
        | none => true
        | some x => compareID x.id start ≠ .lt)
    let run := (entries.drop first).takeWhile
      (fun x => stop = bytes "+" || compareID x.id stop ≠ .gt)
    if 0 < count then run.take count.toNat else run

/-- `XRead` on one stream. -/
def xRead (id : Bytes) : List StreamEntry :=
  if e.expired now then [] else entriesAfter (e.streams.getD []) id

/-- `XGroupExists` -/
def xGroupExists (name : Bytes) : Bool :=
  !e.expired now && (e.groups.bind (·.get name)).isSome

/-- `XReadGroupPlan` on one stream: `none` when the stream has expired. -/
def xReadGroupPlan (name consumer id : Bytes) (count : Int) :
    Except Err (List StreamEntry) :=
  if e.expired now then .ok []
  else
    match e.groups.bind (·.get name) with
    | none => .error .noGroup
    | some g =>
      let count := if count ≤ 0 then 10 else count.toNat
      let entries := e.streams.getD []
      if id = bytes ">" then .ok ((entriesAfter entries g.lastID).take count)
      else
        .ok ((entries.filter (fun x =>
          match g.pending.get x.id with
          | none => false
          | some p => p.consumer = consumer && compareID x.id id = .gt)).take count)

/-- `LastID` -/
def lastStreamID : Bytes :=
  if e.expired now then bytes "0-0" else lastIDOf (e.streams.getD [])

/-- The smallest or largest identifier of `XPendingSummary`, over the pending entries in
the order of the map's iteration. -/
def extremeID (worse : Ordering) (ids : List Bytes) : Bytes :=
  ids.foldl (fun best id => if best = [] ∨ compareID id best = worse then id else best) []

/-- `XPendingSummary`: the number of pending entries, the smallest and largest of their
identifiers, and the number for each consumer. -/
def xPendingSummary (e : Entry) (name : Bytes) (hint : List Bytes) :
    Nat × Bytes × Bytes × GoMap Nat :=
  match e.groups.bind (·.get name) with
  | none => (0, [], [], ∅)
  | some g =>
    if g.pending.isEmpty then (0, [], [], ∅)
    else
      let ids := enumerate hint g.pending.keys
      let consumers := ids.foldl (fun (m : GoMap Nat) id =>
        match g.pending.get id with
        | none => m
        | some p => m.insert p.consumer ((m.get p.consumer).getD 0 + 1)) ∅
      (g.pending.size, extremeID .lt ids, extremeID .gt ids, consumers)

/-- `XInfoStream`: length, first and last identifier, number of groups, existence. -/
def xInfoStream (e : Entry) : Nat × Bytes × Bytes × Nat × Bool :=
  let entries := e.streams.getD []
  let groups := (e.groups.getD ∅).size
  match entries.head?, entries.getLast? with
  | some first, some last => (entries.length, first.id, last.id, groups, true)
  | _, _ => (0, bytes "0-0", bytes "0-0", groups, e.streams.isSome)

/-- `XInfoGroups`: for each group its name, the numbers of consumers and of pending
entries, and the last delivered identifier. -/
def xInfoGroups (e : Entry) (hint : List Bytes) : List (Bytes × Nat × Nat × Bytes) :=
  let groups := e.groups.getD ∅
  (enumerate hint groups.keys).filterMap (fun name =>
    (groups.get name).map (fun g =>
      let consumers := g.pending.keys.image (fun id =>
        ((g.pending.get id).map (·.consumer)).getD [])
      (name, consumers.card, g.pending.size, g.lastID)))

end Entry

end Vole
