import Vole.Store.Store

/-!
# Snapshots

`Dump` and `Load`. A snapshot holds what the source writes to the snapshot file: sets and
sorted sets as lists, JSON documents as text, no rate limits. `SnapEntry.restore` is what
`Load` rebuilds for one key.
-/

namespace Vole

open Go

/-- The part of a `Snapshot` that belongs to one key. -/
structure SnapEntry where
  kv : Option Bytes
  hashes : Option (GoMap Bytes)
  lists : Option (List Bytes)
  sets : Option (List Bytes)
  zsets : Option (List ZMember)
  streams : Option (List StreamEntry)
  groups : Option (GoMap ConsumerGroup)
  expires : Option Time
  lastSeq : Option Int
  jsonDocs : Option Bytes
  timeSeries : Option TimeSeries
  queues : Option Queue
  tags : Option (GoMap Bytes)
  hlls : Option HyperLogLog
  notBefore : Option Time

/-- The snapshot knows nothing of the key. -/
def SnapEntry.empty : SnapEntry :=
  ⟨none, none, none, none, none, none, none, none, none, none, none, none, none, none, none⟩

instance : Zero SnapEntry := ⟨SnapEntry.empty⟩

/-- A `Snapshot`. -/
abbrev Snapshot := Π₀ _ : Bytes, SnapEntry

/-- `JSONDoc.String`: the text of a document, empty when it cannot be written. -/
def docText (R : Runtime) (doc : JVal) : Bytes :=
  match R.marshal doc with
  | .ok text => text
  | .error _ => []

namespace Entry

/-- What `Dump` copies of a key. -/
def snap (R : Runtime) (e : Entry) : SnapEntry where
  kv := e.kv
  hashes := e.hashes
  lists := e.lists
  sets := e.sets.map (fun s => s.sort (· ≤ ·))
  zsets := e.zsets.map (·.ordered)
  streams := e.streams
  groups := e.groups
  expires := e.expires
  lastSeq := e.lastSeq
  jsonDocs := e.jsons.map (docText R)
  timeSeries := e.timeseries
  queues := e.queues
  tags := e.tags
  hlls := e.hlls
  notBefore := e.notBefore

theorem snap_zero (R : Runtime) : snap R 0 = 0 := rfl

end Entry

namespace SnapEntry

/-- What `Load` makes of a key; a document that cannot be parsed is dropped. -/
def restore (R : Runtime) (p : SnapEntry) : Entry where
  kv := p.kv
  hashes := p.hashes
  lists := p.lists
  sets := p.sets.map List.toFinset
  zsets := p.zsets.map SortedSet.ofMembers
  streams := p.streams
  hlls := p.hlls
  jsons := p.jsonDocs.bind (fun raw => (R.unmarshal raw).toOption)
  timeseries := p.timeSeries
  groups := p.groups
  expires := p.expires
  lastSeq := p.lastSeq
  rateLimiters := none
  queues := p.queues
  tags := p.tags
  notBefore := p.notBefore

end SnapEntry

namespace Store

/-- `Dump`: expired keys are deleted first. -/
def dump (R : Runtime) (now : Time) (hint : List Bytes) (s : Store) : Snapshot × Store :=
  let s := s.purgeExpired now hint
  (s.entries.mapRange (fun _ e => e.snap R) (fun _ => Entry.snap_zero R), s)

/-- The entry of a key in a freshly loaded store: the rate limiter of the key survives. -/
def loadEntry (R : Runtime) (p : SnapEntry) (old : Entry) : Entry :=
  { p.restore R with rateLimiters := old.rateLimiters }

/-- The maps of the snapshot take the place of those of the store; the versions start again
from zero. -/
def loadMaps (R : Runtime) (snapshot : Snapshot) (s : Store) : Store :=
  { s with
    entries := DFinsupp.zipWith (fun _ p e => loadEntry R p e) (fun _ => rfl) snapshot s.entries
    version := s.version + 1
    keyVersion := fun _ => 0 }

/-- `Load`; expired keys are deleted at once. -/
def load (R : Runtime) (now : Time) (hint : List Bytes) (snapshot : Snapshot) (s : Store) : Store :=
  (s.loadMaps R snapshot).purgeExpired now hint

end Store

end Vole
