import Vole.Store.Entry

/-!
# String keys, expiry and delayed visibility

The operations of `store.go` on string values and bitmaps, and those on the expiry of a
key of any type. Each is a function on the cell of the key; a reading operation is a
function on its entry.
-/

namespace Vole

open Go

namespace Cell

/-! ## Writing a string -/

/-- The type maps that `Set`, `SetAbsolute` and `SetXX` clear: all but those of JSON
documents and time series. -/
def clearForSet (c : Cell) : Cell :=
  { c with hashes := none, lists := none, sets := none, zsets := none, streams := none,
           hlls := none, lastSeq := none }

variable (now : Time)

/-- `Set` -/
def set (value : Bytes) (ttl : Duration) (c : Cell) : Cell :=
  let c := if 0 < ttl then { c with expires := some (now + ttl) } else { c with expires := none }
  let c := { c with kv := some value }
  c.clearForSet.touch

/-- `SetAbsolute` -/
def setAbsolute (value : Bytes) (expireAt : Time) (c : Cell) : Cell :=
  let c := { c with kv := some value }
  let c := if isZero expireAt then { c with expires := none }
    else { c with expires := some expireAt }
  c.clearForSet.touch

/-- `SetNX`: whether the key was set. -/
def setNX (value : Bytes) (ttl : Duration) (c : Cell) : Bool × Cell :=
  let c := c.purge now
  if c.existsAt now then (false, c)
  else
    let c := if 0 < ttl then { c with expires := some (now + ttl) } else c
    (true, { c with kv := some value }.touch)

/-- `SetXX`: whether the key was set. -/
def setXX (value : Bytes) (ttl : Duration) (c : Cell) : Bool × Cell :=
  if c.expired now then (false, c.purge now)
  else if !c.existsAt now then (false, c)
  else
    let c := if 0 < ttl then { c with expires := some (now + ttl) }
      else { c with expires := none }
    let c := { c with kv := some value }
    (true, c.clearForSet.touch)

/-- `SetDelayed` -/
def setDelayed (value : Bytes) (delay ttl : Duration) (c : Cell) : Cell :=
  let c := { c with kv := some value, notBefore := some (now + delay) }
  let c := if 0 < ttl then { c with expires := some (now + delay + ttl) }
    else { c with expires := none }
  { c with hashes := none, lists := none, sets := none, zsets := none, streams := none,
           lastSeq := none, hlls := none, jsons := none }.touch

/-- `GetSet`: the old value. -/
def getSet (value : Bytes) (c : Cell) : Except Err (Option Bytes) × Cell :=
  let c := c.purge now
  if c.conflicts .string then (.error .wrongType, c)
  else
    let old := c.kv
    let c := { c with kv := some value, expires := none, hashes := none, lists := none,
                      sets := none, zsets := none, streams := none, lastSeq := none }
    (.ok old, c.touch)

/-- `MSetNX` on one of its keys, once none of them was found to exist. -/
def mSetNXWrite (value : Bytes) (c : Cell) : Cell :=
  { c with kv := some value, expires := none }.touch

/-! ## Changing a string -/

/-- `IncrBy`, and `Incr` with `delta = 1`; the sum wraps around. -/
def incrBy (delta : Int) (c : Cell) : Except Err Int × Cell :=
  let c := c.purge now
  if c.conflicts .string then (.error .wrongType, c)
  else
    let parsed := match c.kv with
      | none => some 0
      | some data => parseInt data
    match parsed with
    | none => (.error .notInteger, c)
    | some n =>
      let n := wrap64 (n + delta)
      (.ok n, { c with kv := some (formatInt n) }.touch)

/-- `DecrBy` -/
def decrBy (delta : Int) (c : Cell) : Except Err Int × Cell :=
  c.incrBy now (wrap64 (-delta))

/-- `IncrByFloat` -/
def incrByFloat (R : Runtime) (now : Time) (delta : F64) (c : Cell) : Except Err F64 × Cell :=
  let c := c.purge now
  if c.conflicts .string then (.error .wrongType, c)
  else
    let parsed := match c.kv with
      | none => some F64.zero
      | some data => R.parseFloat data
    match parsed with
    | none => (.error .notFloat, c)
    | some n =>
      let n := R.addFloat n delta
      (.ok n, { c with kv := some (R.formatFloat n) }.touch)

/-- `Append`: the new length. -/
def append (value : Bytes) (c : Cell) : Except Err Nat × Cell :=
  let c := c.purge now
  if c.conflicts .string then (.error .wrongType, c)
  else
    let data := c.kv.getD [] ++ value
    (.ok data.length, { c with kv := some data }.touch)

/-- The string after `SetRange`, padded with zero bytes up to the offset. -/
def overwrite (current : Bytes) (offset : Nat) (value : Bytes) : Bytes :=
  current.take offset ++ List.replicate (offset - current.length) 0 ++ value
    ++ current.drop (offset + value.length)

/-- `SetRange`: the new length. -/
def setRange (offset : Int) (value : Bytes) (c : Cell) : Except Err Nat × Cell :=
  let c := c.purge now
  if c.conflicts .string then (.error .wrongType, c)
  else if offset < 0 then (.error .offsetRange, c)
  else
    let data := overwrite (c.kv.getD []) offset.toNat value
    (.ok data.length, { c with kv := some data }.touch)

/-- The bit of `buf` that the big-endian bit offset names. -/
def bitAt (buf : Bytes) (offset : Nat) : UInt8 :=
  ((buf.getD (offset / 8) 0) >>> (UInt8.ofNat (7 - offset % 8))) &&& 1

/-- `SetBit`: the old bit. -/
def setBit (offset value : Int) (c : Cell) : Except Err Nat × Cell :=
  if offset < 0 then (.error .bitOffset, c)
  else if value ≠ 0 ∧ value ≠ 1 then (.error .bitValue, c)
  else
    let c := c.purge now
    if c.conflicts .string then (.error .wrongType, c)
    else
      let offset := offset.toNat
      let data := c.kv.getD []
      let buf := data ++ List.replicate (offset / 8 + 1 - data.length) 0
      let mask := (1 : UInt8) <<< UInt8.ofNat (7 - offset % 8)
      let byte := buf.getD (offset / 8) 0
      let byte := if value = 1 then byte ||| mask else byte &&& ~~~mask
      (.ok (bitAt buf offset).toNat,
        { c with kv := some (buf.set (offset / 8) byte) }.touch)

/-- `GetEx` -/
def getEx (ttl : Duration) (persist : Bool) (c : Cell) : Option Bytes × Cell :=
  if c.expired now then (none, c.purge now)
  else
    match c.kv with
    | none => (none, c)
    | some data =>
      let d := if persist then { c with expires := none }
        else if 0 < ttl then { c with expires := some (now + ttl) } else c
      (some data, if persist ∨ 0 < ttl then d.touch else d)

/-- `GetDel` -/
def getDel (c : Cell) : Option Bytes × Cell :=
  if c.expired now then (none, c.purge now)
  else
    match c.kv with
    | none => (none, c)
    | some data => (some data, c.delete)

/-! ## Expiry -/

/-- `Expire` -/
def expire (ttl : Duration) (c : Cell) : Bool × Cell :=
  if c.expired now then (false, c.purge now)
  else if !c.existsAt now then (false, c)
  else (true, { c with expires := some (now + ttl) }.touch)

/-- `ExpireAt` -/
def expireAt (at_ : Time) (c : Cell) : Bool × Cell :=
  if c.expired now then (false, c.purge now)
  else if !c.existsAt now then (false, c)
  else
    let c := if isZero at_ then { c with expires := none } else { c with expires := some at_ }
    (true, c.touch)

/-- `Persist`: whether the key had an expiry. -/
def persist (c : Cell) : Bool × Cell :=
  if c.expired now then (false, c.purge now)
  else if !c.existsAt now then (false, c)
  else
    match c.expires with
    | none => (false, c)
    | some _ => (true, { c with expires := none }.touch)

end Cell

/-! ## Reading -/

namespace Entry

variable (e : Entry) (now : Time)

/-- `Get`, and `MGet` for each of its keys. -/
def get : Option Bytes :=
  if e.expired now || !e.visible now then none else e.kv

/-- `Strlen` -/
def strlen : Except Err Nat :=
  if e.expired now then .ok 0
  else if e.readConflict now .string then .error .wrongType
  else .ok (e.kv.getD []).length

/-- An inclusive byte range with negative ends counted from the end of a text of `n`
bytes, as `GetRange`, `BitCount` and `BitPos` clamp it. -/
def clampRange (start stop : Int) (n : Nat) : Int × Int :=
  let start := if start < 0 then n + start else start
  let stop := if stop < 0 then n + stop else stop
  let start := if start < 0 then 0 else start
  let stop := if (n : Int) ≤ stop then (n : Int) - 1 else stop
  (start, stop)

/-- The range lies in a text of `n` bytes; an access outside of it panics. -/
def inText (range : Int × Int) (n : Nat) : Bool := decide (0 ≤ range.1 ∧ range.2 < n)

/-- The bytes of a clamped range. -/
def slice (data : Bytes) (range : Int × Int) : Bytes :=
  (data.drop range.1.toNat).take (range.2 - range.1 + 1).toNat

/-- `GetRange` -/
def getRange (start stop : Int) : Except Err Bytes :=
  if e.expired now then .ok []
  else if e.readConflict now .string then .error .wrongType
  else
    match e.kv with
    | none => .ok []
    | some data =>
      let range := clampRange start stop data.length
      if range.2 < range.1 ∨ (data.length : Int) ≤ range.1 then .ok []
      else if !inText range data.length then .error .panic
      else .ok (slice data range)

/-- `GetBit` -/
def getBit (offset : Int) : Except Err Nat :=
  if offset < 0 then .error .bitOffset
  else if e.expired now then .ok 0
  else if e.readConflict now .string then .error .wrongType
  else .ok (Cell.bitAt (e.kv.getD []) offset.toNat).toNat

/-- `popcount` -/
def popcount (b : UInt8) : Nat :=
  ((List.range 8).filter (fun j => (b >>> UInt8.ofNat j) &&& 1 = 1)).length

/-- The range of a bitmap command, the whole text when none is given. -/
def bitRange (start stop : Int) (hasBounds : Bool) (n : Nat) : Int × Int :=
  if hasBounds then clampRange start stop n else clampRange 0 ((n : Int) - 1) n

/-- `BitCount` -/
def bitCount (start stop : Int) (hasBounds : Bool) : Except Err Nat :=
  if e.expired now then .ok 0
  else if e.readConflict now .string then .error .wrongType
  else
    match e.kv with
    | none => .ok 0
    | some data =>
      let range := bitRange start stop hasBounds data.length
      if range.2 < range.1 then .ok 0
      else if !inText range data.length then .error .panic
      else .ok ((slice data range).map popcount).sum

/-- `BitPos` -/
def bitPos (bit start stop : Int) (hasBounds : Bool) : Except Err Int :=
  let absent : Except Err Int := if bit = 0 then .ok 0 else .ok (-1)
  if e.expired now then absent
  else if e.readConflict now .string then .error .wrongType
  else
    match e.kv with
    | none => absent
    | some data =>
      let range := bitRange start stop hasBounds data.length
      if range.2 < range.1 then .ok (-1)
      else if !inText range data.length then .error .panic
      else
        let offsets := (List.range (8 * (range.2 - range.1 + 1).toNat)).map
          (· + 8 * range.1.toNat)
        match offsets.find? (fun o => ((Cell.bitAt data o).toNat : Int) = bit) with
        | some o => .ok o
        | none => if bit = 0 && !hasBounds then .ok (8 * data.length) else .ok (-1)

/-- The answer of the four expiry queries, with the conversion each applies. -/
def expiryQuery (convert : Time → Int) : Int :=
  if !e.existsAt now then -2
  else
    match e.expires with
    | none => -1
    | some t => if isZero t then -1 else convert t

/-- `TTL` -/
def ttl : Int :=
  e.expiryQuery now (fun t => (timeSub t now).tdiv second)

/-- `PTTL` -/
def pttl : Int :=
  e.expiryQuery now (fun t => (timeSub t now).tdiv millisecond)

/-- `ExpireTime` -/
def expireTime : Int := e.expiryQuery now unixSec

/-- `PExpireTime` -/
def pExpireTime : Int := e.expiryQuery now unixMilli

/-- `Type` -/
def type : Bytes :=
  if e.expired now || !e.visible now then bytes "none"
  else if e.kv.isSome then bytes "string"
  else if e.hashes.isSome then bytes "hash"
  else if e.lists.isSome then bytes "list"
  else if e.sets.isSome then bytes "set"
  else if e.zsets.isSome then bytes "zset"
  else if e.streams.isSome then bytes "stream"
  else if e.hlls.isSome then bytes "string"
  else if e.jsons.isSome then bytes "json"
  else if e.timeseries.isSome then bytes "timeseries"
  else bytes "none"

end Entry

end Vole
