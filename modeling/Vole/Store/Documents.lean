import Vole.Store.Collections

/-!
# Sketches, documents, series, queues, tags and rate limits

The remaining operations of the store that work on one key: HyperLogLog, JSON documents,
time series, the reliable queues of `queue.go`, key tags and sliding-window rate limits.
-/

namespace Vole

open Go

namespace Cell

/-! ## HyperLogLog -/

/-- Adding one element; the flag says whether a register changed. -/
def hllAdd (acc : Bool × HyperLogLog) (element : Bytes) : Bool × HyperLogLog :=
  let (changed, h) := acc.2.add element
  (acc.1 || changed, h)

variable (now : Time)

/-- `PFAdd`. JSON documents and time series are not looked at. -/
def pfAdd (elements : List Bytes) (c : Cell) : Except Err Bool × Cell :=
  let c := c.purge now
  if c.hasAny [.string, .hash, .list, .set, .zset, .stream] then (.error .wrongType, c)
  else
    let (changed, h) := elements.foldl hllAdd (false, c.hlls.getD .empty)
    (.ok changed, { c with hlls := some h }.touch)

/-! ## JSON documents -/

/-- `json.Unmarshal` with the store's error type. -/
def unmarshal (R : Runtime) (raw : Bytes) : Except Err JVal :=
  (R.unmarshal raw).mapError Err.jsonSyntax

/-- `JSONSet`. Time series are not looked at. -/
def jsonSet (R : Runtime) (now : Time) (path raw : Bytes) (c : Cell) : Except Err Unit × Cell :=
  let c := c.purge now
  if c.hasAny [.string, .hash, .list, .set, .zset, .stream, .hll] then (.error .wrongType, c)
  else
    match unmarshal R raw with
    | .error e => (.error e, c)
    | .ok value =>
      match c.jsons with
      | none =>
        if JsonDoc.isRoot path then (.ok (), { c with jsons := some value }.touch)
        else (.error .jsonRoot, c)
      | some doc =>
        match JsonDoc.set doc path value with
        | .error e => (.error e, c)
        | .ok doc => (.ok (), { c with jsons := some doc }.touch)

/-- `JSONDel`. Only the document is deleted, not what else the key has. -/
def jsonDel (path : Bytes) (c : Cell) : Except Err Bool × Cell :=
  if c.expired now then (.ok false, c.purge now)
  else
    match c.jsons with
    | none => (.ok false, c)
    | some doc =>
      if path = bytes "$" ∨ path = [] then (.ok true, { c with jsons := none }.touch)
      else
        match JsonDoc.del doc path with
        | .error e => (.error e, c)
        | .ok doc => (.ok true, { c with jsons := some doc }.touch)

/-- `JSONNumIncrBy` -/
def jsonNumIncrBy (R : Runtime) (now : Time) (path : Bytes) (delta : F64) (c : Cell) :
    Except Err F64 × Cell :=
  if c.expired now then (.error .keyNotFound, c.purge now)
  else
    match c.jsons with
    | none => (.error .keyNotFound, c)
    | some doc =>
      match JsonDoc.numIncrBy R doc path delta with
      | .error e => (.error e, c)
      | .ok (result, doc) => (.ok result, { c with jsons := some doc }.touch)

/-- `JSONArrAppend`: the new length. -/
def jsonArrAppend (R : Runtime) (now : Time) (path : Bytes) (values : List Bytes)
    (c : Cell) : Except Err Nat × Cell :=
  if c.expired now then (.error .keyNotFound, c.purge now)
  else
    match c.jsons with
    | none => (.error .keyNotFound, c)
    | some doc =>
      match values.mapM (unmarshal R) with
      | .error e => (.error e, c)
      | .ok values =>
        match JsonDoc.arrAppend doc path values with
        | .error e => (.error e, c)
        | .ok (n, doc) => (.ok n, { c with jsons := some doc }.touch)

/-! ## Time series -/

/-- `TSAdd`; the timestamp `0` stands for the present. -/
def tsAdd (timestamp : Int) (value : F64) (labels : List (Bytes × Bytes))
    (c : Cell) : Except Err Unit × Cell :=
  let c := c.purge now
  if c.conflicts .timeseries then (.error .wrongType, c)
  else
    let timestamp := if timestamp = 0 then unixMilli now else timestamp
    let ts := ((c.timeseries.getD .empty).add timestamp value).addLabels labels
    (.ok (), { c with timeseries := some ts }.touch)

/-- The writing half of `TSDownsample`: the destination becomes a new series. -/
def tsReplace (results : List TSSample) (c : Cell) : Cell :=
  let ts := results.foldl (fun ts r => ts.add r.timestamp r.value) TimeSeries.empty
  { c.delete with timeseries := some ts }.touch

/-! ## Queues -/

/-- `nextQueueID`, for the value `seq` of the process-wide counter. -/
def queueID (seq : Nat) : Bytes := formatInt (unixMilli now) ++ 45 :: formatInt seq

/-- `Enqueue` -/
def enqueue (seq : Nat) (body : Bytes) (delay : Duration) (c : Cell) : Bytes × Cell :=
  let q := c.queues.getD .empty
  let createdAt := if 0 < delay then now + delay else now
  let msg : QueueMessage := ⟨queueID now seq, body, createdAt, 0, q.maxRetries, zeroTime⟩
  (msg.id, { c with queues := some { q with pending := q.pending ++ [msg] } }.touch)

/-- Sending a message round again, or to the dead letters after its last try. -/
def retryMessage (q : Queue) (msg : QueueMessage) : Queue :=
  let msg := { msg with retries := msg.retries + 1 }
  if msg.maxRetry ≤ msg.retries then { q with deadLetter := q.deadLetter ++ [msg] }
  else { q with pending := q.pending ++ [{ msg with createdAt := now }] }

/-- One round of `requeueExpiredLocked`. -/
def requeueOne (q : Queue) (id : Bytes) : Queue :=
  match q.processing.get id with
  | none => q
  | some msg =>
    if msg.ackDeadline < now then
      retryMessage now { q with processing := q.processing.erase id } msg
    else q

/-- `requeueExpiredLocked`, in the order of the map's iteration. -/
def requeueExpired (hint : List Bytes) (q : Queue) : Queue :=
  (enumerate hint q.processing.keys).foldl (requeueOne now) q

/-- The first attempt of `Dequeue`, and the second one after a wait. -/
def dequeue (hint : List Bytes) (c : Cell) : Option QueueMessage × Cell :=
  match c.queues with
  | none => (none, c)
  | some q =>
    let q := requeueExpired now hint q
    match q.pending.find? (fun msg => decide (msg.createdAt ≤ now)) with
    | none => (none, { c with queues := some q })
    | some msg =>
      let taken := { msg with ackDeadline := now + q.ackTimeout }
      let q := { q with pending := q.pending.erase msg,
                        processing := q.processing.insert msg.id taken }
      (some taken, { c with queues := some q }.touch)

/-- `QAck` -/
def qAck (id : Bytes) (c : Cell) : Bool × Cell :=
  match c.queues with
  | none => (false, c)
  | some q =>
    if (q.processing.get id).isNone then (false, c)
    else (true, { c with queues := some { q with processing := q.processing.erase id } }.touch)

/-- `QNack` -/
def qNack (id : Bytes) (c : Cell) : Bool × Cell :=
  match c.queues with
  | none => (false, c)
  | some q =>
    match q.processing.get id with
    | none => (false, c)
    | some msg =>
      let q := retryMessage now { q with processing := q.processing.erase id } msg
      (true, { c with queues := some q }.touch)

/-! ## Tags -/

/-- `TagSet`. The key is not touched. -/
def tagSet (tags : List (Bytes × Bytes)) (c : Cell) : Except Err Unit × Cell :=
  if c.expired now then (.error .keyNotFound, c.purge now)
  else if !c.existsAt now then (.error .keyNotFound, c)
  else
    let m := tags.foldl (fun m p => m.insert p.1 p.2) (c.tags.getD ∅)
    (.ok (), { c with tags := some m })

/-- `TagDel`: the number of tags deleted. The key is not touched. -/
def tagDel (fields : List Bytes) (c : Cell) : Nat × Cell :=
  match c.tags with
  | none => (0, c)
  | some tags =>
    let (n, tags) := fields.foldl hashDelete (0, tags)
    (n, { c with tags := if tags.isEmpty then none else some tags })

/-! ## Rate limits -/

/-- What `RateLimit` reports. -/
structure RateReply where
  allowed : Bool
  remaining : Int
  retryAfterMs : Int
  resetAtMs : Int
  deriving DecidableEq

/-- `RateLimit`. A limit below one makes the source index an empty list. -/
def rateLimit (max : Int) (window : Duration) (c : Cell) :
    Except Err RateReply × Cell :=
  let old := (c.rateLimiters.map (·.requests)).getD []
  let requests := old.filter (fun t => decide (now - window < t))
  let c := { c with rateLimiters := some ⟨window, max, requests⟩ }
  let resetAtMs := unixMilli (requests.headD now + window)
  if max ≤ requests.length then
    match requests with
    | [] => (.error .panic, c)
    | first :: _ =>
      let retryAfter := timeSub (first + window) now
      let retryAfter := if retryAfter < 0 then 0 else retryAfter
      (.ok ⟨false, 0, retryAfter.tdiv millisecond, resetAtMs⟩, c)
  else
    let requests := requests ++ [now]
    (.ok ⟨true, max - requests.length, 0, resetAtMs⟩,
      { c with rateLimiters := some ⟨window, max, requests⟩ }.touch)

/-- `RateLimitReset` -/
def rateLimitReset (c : Cell) : Bool × Cell :=
  match c.rateLimiters with
  | none => (false, c)
  | some _ => (true, { c with rateLimiters := none })

end Cell

/-! ## Positions -/

section
variable (R : Runtime)

def geoMaxLat : Rat := 85.05112878
def geoMinLat : Rat := -85.05112878
def geoMaxLon : Rat := 180
def geoMinLon : Rat := -180
def geoSteps : Nat := 26

/-- A coordinate of `GeoEncode`, cut to its bounds, in `geoSteps` bits. -/
def geoQuantize (low high : Rat) (x : F64) : UInt32 :=
  let x := R.maxFloat (R.constant low) (R.minFloat (R.constant high) x)
  let off := R.divFloat (R.subFloat x (R.constant low)) (R.constant (high - low))
  R.uint32OfFloat (R.mulFloat off (R.floatOfInt (2 ^ geoSteps)))

/-- `GeoEncode` -/
def geoEncode (lon lat : F64) : F64 :=
  let latQ := geoQuantize R geoMinLat geoMaxLat lat
  let lonQ := geoQuantize R geoMinLon geoMaxLon lon
  let hash : UInt64 := (List.range geoSteps).reverse.foldl (fun hash i =>
    let hash := hash <<< 1 ||| (lonQ >>> .ofNat i &&& 1).toUInt64
    hash <<< 1 ||| (latQ >>> .ofNat i &&& 1).toUInt64) 0
  R.floatOfInt hash.toNat

/-- A coordinate of `GeoDecode` from its bits. -/
def geoRestore (low high : Rat) (q : UInt32) : F64 :=
  let off := R.divFloat (R.floatOfInt q.toNat) (R.floatOfInt (2 ^ geoSteps))
  R.addFloat (R.mulFloat off (R.constant (high - low))) (R.constant low)

/-- `GeoDecode` -/
def geoDecode (hash : F64) : F64 × F64 :=
  let h := R.uint64OfFloat hash
  let everySecond := fun from_ => (List.range geoSteps).reverse.foldl (fun q i =>
    q ||| (h >>> .ofNat (2 * i + from_) &&& 1).toUInt32 <<< .ofNat i) 0
  (geoRestore R geoMinLon geoMaxLon (everySecond 1),
    geoRestore R geoMinLat geoMaxLat (everySecond 0))

/-- `GeoDistBetween` -/
def geoDistBetween (lon1 lat1 lon2 lat2 : F64) : F64 :=
  let radians := fun x =>
    R.divFloat (R.mulFloat x (R.constant 3.14159265358979323846)) (R.constant 180)
  let sinHalf := fun x => R.sin (R.divFloat x (R.constant 2))
  let dlat := radians (R.subFloat lat2 lat1)
  let dlon := radians (R.subFloat lon2 lon1)
  let cosines := R.mulFloat (R.cos (radians lat1)) (R.cos (radians lat2))
  let a := R.addFloat (R.mulFloat (sinHalf dlat) (sinHalf dlat))
    (R.mulFloat (R.mulFloat cosines (sinHalf dlon)) (sinHalf dlon))
  let c := R.mulFloat (R.constant 2)
    (R.atan2 (R.sqrt a) (R.sqrt (R.subFloat (R.constant 1) a)))
  R.mulFloat (R.constant 6372797.560856) c

end

/-! ## Reading -/

namespace Entry

/-- `JSONGet` -/
def jsonGet (R : Runtime) (e : Entry) (now : Time) (path : Bytes) : Except Err (Option Bytes) :=
  if e.expired now then .ok none
  else
    match e.jsons with
    | none => .ok none
    | some doc =>
      match JsonDoc.get doc path with
      | .error err => .error err
      | .ok v => ((R.marshal v).mapError Err.jsonSyntax).map some

variable (e : Entry) (now : Time)

/-- `JSONType` -/
def jsonType (path : Bytes) : Bytes :=
  if e.expired now then bytes "null"
  else
    match e.jsons with
    | none => bytes "null"
    | some doc => JsonDoc.typeAt doc path

/-- `JSONArrLen` -/
def jsonArrLen (path : Bytes) : Except Err Nat :=
  if e.expired now then .error .keyNotFound
  else
    match e.jsons with
    | none => .error .keyNotFound
    | some doc => JsonDoc.arrLen doc path

/-- `JSONKeys` -/
def jsonKeys (path : Bytes) : Except Err (List Bytes) :=
  if e.expired now then .error .keyNotFound
  else
    match e.jsons with
    | none => .error .keyNotFound
    | some doc => JsonDoc.keys doc path

/-- The series of a key that has not expired. -/
def series : Option TimeSeries :=
  if e.expired now then none else e.timeseries

/-- `TSRange` -/
def tsRange (start stop count : Int) : List TSSample :=
  match e.series now with
  | none => []
  | some ts => ts.range start stop count

/-- `TSGet` -/
def tsGet : Option TSSample := (e.series now).bind (·.last)

/-- `TSInfo`: the number of samples, the labels, the first and the last timestamp. -/
def tsInfo : Except Err (Nat × GoMap Bytes × Int × Int) :=
  match e.series now with
  | none => .error .keyNotFound
  | some ts =>
    .ok (ts.samples.length, ts.labels, (ts.samples.head?.map (·.timestamp)).getD 0,
      (ts.samples.getLast?.map (·.timestamp)).getD 0)

/-- `QPeek` -/
def qPeek (e : Entry) (count : Int) : List QueueMessage :=
  ((e.queues.map (·.pending)).getD []).take (if count ≤ 0 then 1 else count.toNat)

/-- `QDead` -/
def qDead (e : Entry) (count : Int) : List QueueMessage :=
  ((e.queues.map (·.deadLetter)).getD []).take (if count ≤ 0 then 10 else count.toNat)

/-- `QInfo`; its first component is `QLen`. -/
def qInfo (e : Entry) : Nat × Nat × Nat :=
  match e.queues with
  | none => (0, 0, 0)
  | some q => (q.pending.length, q.processing.size, q.deadLetter.length)

/-- `TagGet` -/
def tagGet : Option (GoMap Bytes) :=
  if e.expired now then none else e.tags

/-- `RateLimitPeek`: the remaining requests and the time of the next reset. -/
def rateLimitPeek : Int × Int :=
  match e.rateLimiters with
  | none => (-1, 0)
  | some rl =>
    let count := (rl.requests.filter (fun t => decide (now - rl.window < t))).length
    (rl.max - count, (rl.requests.head?.map (fun t => unixMilli (t + rl.window))).getD 0)

/-- `GeoPos` on one member. -/
def geoPos (R : Runtime) (e : Entry) (now : Time) (member : Bytes) : Option (F64 × F64) :=
  if e.expired now then none
  else (e.zsets.bind (·.score member)).map (geoDecode R)

/-- `GeoDist` -/
def geoDist (R : Runtime) (e : Entry) (now : Time) (member1 member2 : Bytes) :
    Option F64 := do
  let p ← e.geoPos R now member1
  let q ← e.geoPos R now member2
  some (geoDistBetween R p.1 p.2 q.1 q.2)

/-- A hit of a geographic search. -/
structure GeoResult where
  member : Bytes
  dist : F64
  lon : F64
  lat : F64
  hash : F64
  deriving DecidableEq

/-- `GeoSearch`, before the sort by distance. -/
def geoHits (R : Runtime) (members : List ZMember) (lon lat radius : F64) : List GeoResult :=
  members.filterMap (fun m =>
    let p := geoDecode R m.score
    let dist := geoDistBetween R lon lat p.1 p.2
    if dist.le radius then some ⟨m.member, dist, p.1, p.2, m.score⟩ else none)

/-- `GeoSearchByRadius`. -/
def geoSearchByRadius (R : Runtime) (e : Entry) (now : Time) (lon lat radius : F64)
    (count : Int) (asc : Bool) : List GeoResult :=
  if e.expired now then []
  else
    match e.zsets with
    | none => []
    | some z =>
      let hits := (geoHits R z.ordered lon lat radius).insertionSort
        (fun a b => !b.dist.lt a.dist)
      let hits := if asc then hits else hits.reverse
      if 0 < count then hits.take count.toNat else hits

/-- `GeoSearchByMember` -/
def geoSearchByMember (R : Runtime) (e : Entry) (now : Time) (member : Bytes)
    (radius : F64) (count : Int) (asc : Bool) : Except Err (List GeoResult) :=
  if e.expired now then .ok []
  else
    match e.zsets with
    | none => .ok []
    | some z =>
      match z.score member with
      | none => .error .memberNotFound
      | some score =>
        let p := geoDecode R score
        .ok (e.geoSearchByRadius R now p.1 p.2 radius count asc)

/-- `DumpKey`. The fields of a hash come in the order of the map's iteration. -/
def dumpKey (R : Runtime) (e : Entry) (now : Time) (hint : List Bytes) : Option Bytes :=
  let commas := fun parts : List Bytes => [(44 : UInt8)].intercalate parts
  if e.expired now then none
  else if let some v := e.kv then some (bytes "STRING:" ++ v)
  else if let some h := e.hashes then
    some (bytes "HASH:" ++ commas ((enumerate hint h.keys).map (fun f =>
      f ++ 61 :: (h.get f).getD [])))
  else if let some items := e.lists then some (bytes "LIST:" ++ commas items)
  else if let some set := e.sets then some (bytes "SET:" ++ commas (set.sort (· ≤ ·)))
  else if let some z := e.zsets then
    some (bytes "ZSET:" ++ commas (z.ordered.map (fun m =>
      m.member ++ 61 :: R.formatFloat m.score)))
  else none

end Entry

end Vole
