import Vole.Store.RoundTrip
import Vole.Server.Crash
import Vole.Go.Utf8
import Vole.Lib.Rekey

/-!
# The snapshot file

`SaveSnapshot` writes a dump as JSON and `LoadSnapshot` reads it. JSON has no bytes and no
infinities: a string loses every byte that is not UTF-8, and a number that is not finite
makes the whole file impossible. Keys, fields, members and names are strings too, and two of
them may become one.
-/

namespace Vole

open Go Lib Entry Store

/-! ## Numbers and documents -/

namespace Go

/-- A number that JSON can write. -/
def F64.isFinite (x : F64) : Bool := x.magnitude < 0x7FF0000000000000

theorem F64.isNaN_of_isFinite {x : F64} (h : x.isFinite = true) : x.isNaN = false := by
  have h := of_decide_eq_true h
  exact decide_eq_false (by omega)

mutual

/-- All numbers of a document pass `num`, all its strings and member names pass `str`. -/
def JVal.all (num : F64 → Bool) (str : Bytes → Bool) : JVal → Bool
  | .null => true
  | .bool _ => true
  | .num x => num x
  | .str s => str s
  | .arr items => JVal.allItems num str items
  | .obj members => JVal.allMembers num str members

def JVal.allItems (num : F64 → Bool) (str : Bytes → Bool) : List JVal → Bool
  | [] => true
  | v :: rest => v.all num str && JVal.allItems num str rest

def JVal.allMembers (num : F64 → Bool) (str : Bytes → Bool) : List (Bytes × JVal) → Bool
  | [] => true
  | (name, v) :: rest => str name && v.all num str && JVal.allMembers num str rest

end

/-- The numbers of a document are finite. -/
def JVal.finite (doc : JVal) : Bool := doc.all F64.isFinite (fun _ => true)

/-- The strings of a document are valid. -/
def JVal.valid (doc : JVal) : Bool := doc.all (fun _ => true) validUTF8

/-- The documented behaviour of `encoding/json` on a document: an infinite number or a NaN is
an error; otherwise the text can be read, and gives the document back unless some string of
it had to be changed. -/
structure Runtime.Documented (R : Runtime) (doc : JVal) : Prop where
  infinite : doc.finite = false → ∃ message, R.marshal doc = .error message
  finite : doc.finite = true → ∃ text doc', R.marshal doc = .ok text ∧ validUTF8 text = true ∧
    R.unmarshal text = .ok doc' ∧ doc'.valid = true ∧ (doc.valid = true → doc' = doc)

end Go

/-! ## What JSON makes of each part

The maps of a snapshot are JSON objects. The encoder writes the entries sorted by key, the
decoder lets the last entry of a name win. -/

section
variable {β : Type}

/-- One entry of a map, written and read; `acc` holds the entries before it. -/
def entryThroughJSON (value : β → β) (m acc : GoMap β) (k : Bytes) : GoMap β :=
  match m.get k with
  | none => acc
  | some v => acc.insert (replaceInvalid k) (value v)

/-- A map after it has been written and read, its values by `value`. -/
def mapThroughJSON (value : β → β) (m : GoMap β) : GoMap β :=
  m.sortedKeys.foldl (entryThroughJSON value m) ∅

/-- The keys are valid strings and the values meet `P`. -/
def MapExact (P : β → Prop) (m : GoMap β) : Prop :=
  ∀ k v, m.get k = some v → validUTF8 k = true ∧ P v

theorem rekeys_entryThroughJSON (value : β → β) (m : GoMap β) :
    Rekeys GoMap.get (entryThroughJSON value m) replaceInvalid
      (fun k old => ((m.get k).map value).or old) := by
  intro acc k k'
  unfold entryThroughJSON
  dsimp only
  cases m.get k with
  | none => simp
  | some v =>
    exact acc.get_insert (replaceInvalid k) k' (value v)

theorem mem_sortedKeys (m : GoMap β) (k : Bytes) : k ∈ m.sortedKeys ↔ (m.get k).isSome = true := by
  unfold GoMap.sortedKeys GoMap.get
  rw [Finset.mem_sort, Finmap.mem_keys, ← Finmap.lookup_isSome]

theorem mapThroughJSON_get_of_valid (value : β → β) {m : GoMap β}
    (hkeys : ∀ k ∈ m.sortedKeys, validUTF8 k = true) (k : Bytes) :
    (mapThroughJSON value m).get k = (m.get k).map value := by
  have hfix : ∀ k ∈ m.sortedKeys, replaceInvalid k = k :=
    fun k hk => (replaceInvalid_eq_self_iff k).mpr (hkeys k hk)
  have hnodup : m.sortedKeys.Nodup := Finset.sort_nodup _ _
  unfold mapThroughJSON
  rw [(rekeys_entryThroughJSON value m).foldl_of_fixed hnodup hfix]
  have hempty : (∅ : GoMap β).get k = none := Finmap.lookup_empty k
  rw [hempty, Option.or_none]
  split
  · rfl
  · rename_i habsent
    rw [mem_sortedKeys, Bool.not_eq_true, Option.isSome_eq_false_iff, Option.isNone_iff_eq_none]
      at habsent
    rw [habsent]
    rfl

theorem mapThroughJSON_get_of_invalid (value : β → β) (m : GoMap β) {k : Bytes}
    (hk : validUTF8 k = false) : (mapThroughJSON value m).get k = none := by
  unfold mapThroughJSON
  rw [(rekeys_entryThroughJSON value m).foldl_of_ne]
  · exact Finmap.lookup_empty k
  · rintro j - rfl
    rw [validUTF8_replaceInvalid] at hk
    cases hk

theorem mapThroughJSON_eq_iff {value : β → β} {P : β → Prop} (hvalue : ∀ v, value v = v ↔ P v)
    (m : GoMap β) : mapThroughJSON value m = m ↔ MapExact P m := by
  constructor
  · intro hsame k v hget
    have hkeys : ∀ j ∈ m.sortedKeys, validUTF8 j = true := by
      intro j hj
      by_contra hinvalid
      have hnone := mapThroughJSON_get_of_invalid value m
        (Bool.eq_false_iff.mpr hinvalid)
      rw [hsame] at hnone
      rw [mem_sortedKeys, hnone] at hj
      cases hj
    have hread := mapThroughJSON_get_of_valid value hkeys k
    rw [hsame, hget] at hread
    refine ⟨hkeys k ?_, (hvalue v).mp (Option.some.inj hread).symm⟩
    rw [mem_sortedKeys, hget]
    rfl
  · intro hexact
    have hkeys : ∀ j ∈ m.sortedKeys, validUTF8 j = true := by
      intro j hj
      rw [mem_sortedKeys] at hj
      obtain ⟨v, hv⟩ := Option.isSome_iff_exists.mp hj
      exact (hexact j v hv).1
    refine Finmap.ext_lookup fun k => ?_
    show (mapThroughJSON value m).get k = m.get k
    rw [mapThroughJSON_get_of_valid value hkeys]
    cases hget : m.get k with
    | none => rfl
    | some v => exact congrArg some ((hvalue v).mpr (hexact k v hget).2)

theorem list_map_eq_iff {f : β → β} {P : β → Prop} (hf : ∀ x, f x = x ↔ P x) (l : List β) :
    l.map f = l ↔ ∀ x ∈ l, P x := by
  induction l with
  | nil => simp
  | cons x l ih => simp [ih, hf]

theorem option_map_eq_iff {f : β → β} {P : β → Prop} (hf : ∀ x, f x = x ↔ P x)
    (o : Option β) : o.map f = o ↔ ∀ x, o = some x → P x := by
  cases o with
  | none => simp
  | some x => simp [hf]

end

def StreamEntry.throughJSON (e : StreamEntry) : StreamEntry :=
  ⟨replaceInvalid e.id, e.fields.map replaceInvalid⟩

def StreamEntry.Exact (e : StreamEntry) : Prop :=
  validUTF8 e.id = true ∧ ∀ f ∈ e.fields, validUTF8 f = true

def PendingEntry.throughJSON (e : PendingEntry) : PendingEntry :=
  { e with consumer := replaceInvalid e.consumer }

def ConsumerGroup.throughJSON (g : ConsumerGroup) : ConsumerGroup :=
  ⟨replaceInvalid g.lastID, mapThroughJSON PendingEntry.throughJSON g.pending⟩

def ConsumerGroup.Exact (g : ConsumerGroup) : Prop :=
  validUTF8 g.lastID = true ∧ MapExact (fun e => validUTF8 e.consumer = true) g.pending

def QueueMessage.throughJSON (m : QueueMessage) : QueueMessage :=
  { m with id := replaceInvalid m.id, body := replaceInvalid m.body }

def QueueMessage.Exact (m : QueueMessage) : Prop :=
  validUTF8 m.id = true ∧ validUTF8 m.body = true

def Queue.throughJSON (q : Queue) : Queue :=
  { q with
    pending := q.pending.map QueueMessage.throughJSON
    processing := mapThroughJSON QueueMessage.throughJSON q.processing
    deadLetter := q.deadLetter.map QueueMessage.throughJSON }

def Queue.Exact (q : Queue) : Prop :=
  (∀ m ∈ q.pending, m.Exact) ∧ MapExact QueueMessage.Exact q.processing ∧
    ∀ m ∈ q.deadLetter, m.Exact

def TimeSeries.throughJSON (ts : TimeSeries) : TimeSeries :=
  { ts with labels := mapThroughJSON replaceInvalid ts.labels }

def ZMember.throughJSON (m : ZMember) : ZMember := { m with member := replaceInvalid m.member }

theorem StreamEntry.throughJSON_eq_iff (e : StreamEntry) : e.throughJSON = e ↔ e.Exact := by
  obtain ⟨id, fields⟩ := e
  simp only [throughJSON, Exact, StreamEntry.mk.injEq, replaceInvalid_eq_self_iff,
    list_map_eq_iff replaceInvalid_eq_self_iff]

theorem PendingEntry.throughJSON_eq_iff (e : PendingEntry) :
    e.throughJSON = e ↔ validUTF8 e.consumer = true := by
  obtain ⟨consumer, delivered⟩ := e
  simp only [throughJSON, PendingEntry.mk.injEq, and_true, replaceInvalid_eq_self_iff]

theorem ConsumerGroup.throughJSON_eq_iff (g : ConsumerGroup) : g.throughJSON = g ↔ g.Exact := by
  obtain ⟨lastID, pending⟩ := g
  simp only [throughJSON, Exact, ConsumerGroup.mk.injEq, replaceInvalid_eq_self_iff,
    mapThroughJSON_eq_iff PendingEntry.throughJSON_eq_iff]

theorem QueueMessage.throughJSON_eq_iff (m : QueueMessage) : m.throughJSON = m ↔ m.Exact := by
  obtain ⟨id, body, createdAt, retries, maxRetry, ackDeadline⟩ := m
  simp only [throughJSON, Exact, QueueMessage.mk.injEq, and_true, replaceInvalid_eq_self_iff]

theorem Queue.throughJSON_eq_iff (q : Queue) : q.throughJSON = q ↔ q.Exact := by
  obtain ⟨pending, processing, deadLetter, ackTimeout, maxRetries⟩ := q
  simp only [throughJSON, Exact, Queue.mk.injEq, and_true,
    list_map_eq_iff QueueMessage.throughJSON_eq_iff,
    mapThroughJSON_eq_iff QueueMessage.throughJSON_eq_iff]

theorem TimeSeries.throughJSON_eq_iff (ts : TimeSeries) :
    ts.throughJSON = ts ↔ MapExact (fun v => validUTF8 v = true) ts.labels := by
  obtain ⟨samples, labels⟩ := ts
  simp only [throughJSON, TimeSeries.mk.injEq, true_and,
    mapThroughJSON_eq_iff replaceInvalid_eq_self_iff]

theorem ZMember.throughJSON_eq_iff (m : ZMember) :
    m.throughJSON = m ↔ validUTF8 m.member = true := by
  obtain ⟨member, score⟩ := m
  simp only [throughJSON, ZMember.mk.injEq, and_true, replaceInvalid_eq_self_iff]

/-! ## One key -/

namespace SnapEntry

/-- The part of a snapshot that belongs to one key, written and read. Times, counters and
registers are numbers and come back as they were. -/
def throughJSON (p : SnapEntry) : SnapEntry :=
  { p with
    kv := p.kv.map replaceInvalid
    hashes := p.hashes.map (mapThroughJSON replaceInvalid)
    lists := p.lists.map (List.map replaceInvalid)
    sets := p.sets.map (List.map replaceInvalid)
    zsets := p.zsets.map (List.map ZMember.throughJSON)
    streams := p.streams.map (List.map StreamEntry.throughJSON)
    groups := p.groups.map (mapThroughJSON ConsumerGroup.throughJSON)
    jsonDocs := p.jsonDocs.map replaceInvalid
    timeSeries := p.timeSeries.map TimeSeries.throughJSON
    queues := p.queues.map Queue.throughJSON
    tags := p.tags.map (mapThroughJSON replaceInvalid) }

/-- The scores and samples of the key are numbers that JSON can write. -/
def finite (p : SnapEntry) : Bool :=
  (p.zsets.getD []).all (fun m => m.score.isFinite)
    && ((p.timeSeries.map (·.samples)).getD []).all (fun sample => sample.value.isFinite)

/-- The snapshot knows nothing of the key. -/
def isEmpty (p : SnapEntry) : Bool :=
  p.kv.isNone && p.hashes.isNone && p.lists.isNone && p.sets.isNone && p.zsets.isNone
    && p.streams.isNone && p.groups.isNone && p.expires.isNone && p.lastSeq.isNone
    && p.jsonDocs.isNone && p.timeSeries.isNone && p.queues.isNone && p.tags.isNone
    && p.hlls.isNone && p.notBefore.isNone

theorem isEmpty_iff (p : SnapEntry) : p.isEmpty = true ↔ p = 0 := by
  show _ ↔ SnapEntry.mk _ _ _ _ _ _ _ _ _ _ _ _ _ _ _ = SnapEntry.empty
  simp only [isEmpty, SnapEntry.empty, SnapEntry.mk.injEq, Bool.and_eq_true,
    Option.isNone_iff_eq_none]
  tauto

instance (p : SnapEntry) : Decidable (p ≠ 0) :=
  decidable_of_iff (¬ p.isEmpty = true) (not_congr p.isEmpty_iff)

end SnapEntry

/-- What a key must hold to come back from a snapshot file: valid strings, finite numbers, a
sound sorted set, and a document with finite numbers and valid strings. -/
structure Entry.Exact (e : Entry) : Prop where
  kv : ∀ v, e.kv = some v → validUTF8 v = true
  hashes : ∀ m, e.hashes = some m → MapExact (fun v => validUTF8 v = true) m
  lists : ∀ l, e.lists = some l → ∀ v ∈ l, validUTF8 v = true
  sets : ∀ set, e.sets = some set → ∀ v ∈ set, validUTF8 v = true
  zsets : ∀ z, e.zsets = some z →
    z.Sound ∧ ∀ m ∈ z.ordered, m.score.isFinite = true ∧ validUTF8 m.member = true
  streams : ∀ l, e.streams = some l → ∀ x ∈ l, x.Exact
  jsons : ∀ doc, e.jsons = some doc → doc.finite = true ∧ doc.valid = true
  timeseries : ∀ ts, e.timeseries = some ts →
    (∀ x ∈ ts.samples, x.value.isFinite = true) ∧ MapExact (fun v => validUTF8 v = true) ts.labels
  groups : ∀ m, e.groups = some m → MapExact ConsumerGroup.Exact m
  queues : ∀ q, e.queues = some q → q.Exact
  tags : ∀ m, e.tags = some m → MapExact (fun v => validUTF8 v = true) m

theorem Entry.Exact.empty : Entry.Exact 0 := by
  constructor <;> exact nofun

theorem Entry.Exact.finite {R : Runtime} {e : Entry} (h : e.Exact) : (e.snap R).finite = true := by
  rw [SnapEntry.finite, Bool.and_eq_true]
  constructor
  · show ((e.zsets.map (·.ordered)).getD []).all _ = true
    cases hz : e.zsets with
    | none => rfl
    | some z => exact List.all_eq_true.mpr fun m hm => ((h.zsets z hz).2 m hm).1
  · show ((e.timeseries.map (·.samples)).getD []).all _ = true
    cases hts : e.timeseries with
    | none => rfl
    | some ts => exact List.all_eq_true.mpr (h.timeseries ts hts).1

section
variable {R : Runtime} {e : Entry}

theorem set_restored_iff (set : Finset Bytes) :
    ((set.sort (· ≤ ·)).map replaceInvalid).toFinset = set ↔ ∀ v ∈ set, validUTF8 v = true := by
  constructor
  · intro hsame v hv
    rw [← hsame, List.mem_toFinset, List.mem_map] at hv
    obtain ⟨w, -, rfl⟩ := hv
    exact validUTF8_replaceInvalid w
  · intro hvalid
    have hlist : (set.sort (· ≤ ·)).map replaceInvalid = set.sort (· ≤ ·) := by
      rw [list_map_eq_iff replaceInvalid_eq_self_iff]
      exact fun v hv => hvalid v ((Finset.mem_sort _).mp hv)
    rw [hlist, Finset.sort_toFinset]

theorem zset_restored_iff {z : SortedSet} (hfinite : ∀ m ∈ z.ordered, m.score.isFinite = true) :
    SortedSet.ofMembers (z.ordered.map ZMember.throughJSON) = z
      ↔ z.Sound ∧ ∀ m ∈ z.ordered, m.score.isFinite = true ∧ validUTF8 m.member = true := by
  constructor
  · intro hsame
    have hnumbers : ∀ y ∈ z.ordered.map ZMember.throughJSON, y.score.isNaN = false := by
      intro y hy
      obtain ⟨m, hm, rfl⟩ := List.mem_map.mp hy
      exact F64.isNaN_of_isFinite (hfinite m hm)
    refine ⟨hsame ▸ SortedSet.Sound.ofMembers_of_numbers hnumbers, fun m hm => ⟨hfinite m hm, ?_⟩⟩
    rw [← hsame] at hm
    obtain ⟨m', -, rfl⟩ := List.mem_map.mp (SortedSet.Sound.ofMembers_subset _ hm)
    exact validUTF8_replaceInvalid m'.member
  · rintro ⟨hsound, hexact⟩
    have hlist : z.ordered.map ZMember.throughJSON = z.ordered := by
      rw [list_map_eq_iff ZMember.throughJSON_eq_iff]
      exact fun m hm => (hexact m hm).2
    rw [hlist, hsound.ofMembers_ordered]

theorem doc_restored_iff {doc : JVal} (hempty : (R.unmarshal []).toOption = none)
    (hdoc : R.Documented doc) : (R.unmarshal (replaceInvalid (docText R doc))).toOption = some doc
      ↔ doc.finite = true ∧ doc.valid = true := by
  cases hfinite : doc.finite with
  | false =>
    obtain ⟨message, hmarshal⟩ := hdoc.infinite hfinite
    have htext : docText R doc = [] := by
      unfold docText
      rw [hmarshal]
    rw [htext]
    show (R.unmarshal []).toOption = some doc ↔ _
    simp [hempty]
  | true =>
    obtain ⟨text, doc', hmarshal, hvalid, hread, hclean, hsame⟩ := hdoc.finite hfinite
    have htext : replaceInvalid (docText R doc) = text := by
      unfold docText
      rw [hmarshal]
      exact (replaceInvalid_eq_self_iff text).mpr hvalid
    rw [htext, hread]
    constructor
    · intro heq
      cases heq
      exact ⟨rfl, hclean⟩
    · rintro ⟨-, hdocValid⟩
      rw [hsame hdocValid]
      rfl

/-- **One key.** Once its numbers could be written, a key comes back as it was, up to its rate
limit, exactly if what it holds can be written without a change. -/
theorem restored_iff (hempty : (R.unmarshal []).toOption = none)
    (hdoc : ∀ doc, e.jsons = some doc → R.Documented doc) (hfinite : (e.snap R).finite = true) :
    (e.snap R).throughJSON.restore R = { e with rateLimiters := none } ↔ e.Exact := by
  rw [SnapEntry.finite, Bool.and_eq_true] at hfinite
  have hkv := option_map_eq_iff replaceInvalid_eq_self_iff e.kv
  have hhashes := option_map_eq_iff (mapThroughJSON_eq_iff replaceInvalid_eq_self_iff) e.hashes
  have hlists := option_map_eq_iff (list_map_eq_iff replaceInvalid_eq_self_iff) e.lists
  have hsets : ((e.sets.map (fun set => set.sort (· ≤ ·))).map (List.map replaceInvalid)).map
      List.toFinset = e.sets ↔ ∀ set, e.sets = some set → ∀ v ∈ set, validUTF8 v = true := by
    rw [Option.map_map, Option.map_map]
    exact option_map_eq_iff set_restored_iff e.sets
  have hzsets : ((e.zsets.map (·.ordered)).map (List.map ZMember.throughJSON)).map
      SortedSet.ofMembers = e.zsets ↔ ∀ z, e.zsets = some z → z.Sound ∧
        ∀ m ∈ z.ordered, m.score.isFinite = true ∧ validUTF8 m.member = true := by
    cases hz : e.zsets with
    | none => simp
    | some z =>
      have hscores : ∀ m ∈ z.ordered, m.score.isFinite = true := by
        have hall := hfinite.1
        simp only [snap, hz] at hall
        exact List.all_eq_true.mp hall
      simpa using zset_restored_iff hscores
  have hstreams := option_map_eq_iff (list_map_eq_iff StreamEntry.throughJSON_eq_iff) e.streams
  have hjsons : ((e.jsons.map (docText R)).map replaceInvalid).bind
      (fun raw => (R.unmarshal raw).toOption) = e.jsons
        ↔ ∀ doc, e.jsons = some doc → doc.finite = true ∧ doc.valid = true := by
    cases hj : e.jsons with
    | none => simp
    | some doc => simpa using doc_restored_iff hempty (hdoc doc hj)
  have hseries := option_map_eq_iff TimeSeries.throughJSON_eq_iff e.timeseries
  have hgroups := option_map_eq_iff (mapThroughJSON_eq_iff ConsumerGroup.throughJSON_eq_iff) e.groups
  have hqueues := option_map_eq_iff Queue.throughJSON_eq_iff e.queues
  have htags := option_map_eq_iff (mapThroughJSON_eq_iff replaceInvalid_eq_self_iff) e.tags
  constructor
  · intro hsame
    have hdata := congrArg toData hsame
    have hsamples : ∀ ts, e.timeseries = some ts → ∀ x ∈ ts.samples, x.value.isFinite = true := by
      intro ts hts
      have hall := hfinite.2
      simp only [snap, hts] at hall
      exact List.all_eq_true.mp hall
    exact {
      kv := hkv.mp (congrArg Data.kv hdata)
      hashes := hhashes.mp (congrArg Data.hashes hdata)
      lists := hlists.mp (congrArg Data.lists hdata)
      sets := hsets.mp (congrArg Data.sets hdata)
      zsets := hzsets.mp (congrArg Data.zsets hdata)
      streams := hstreams.mp (congrArg Data.streams hdata)
      jsons := hjsons.mp (congrArg Data.jsons hdata)
      timeseries := fun ts hts =>
        ⟨hsamples ts hts, hseries.mp (congrArg Data.timeseries hdata) ts hts⟩
      groups := hgroups.mp (congrArg groups hsame)
      queues := hqueues.mp (congrArg queues hsame)
      tags := htags.mp (congrArg tags hsame) }
  · intro hexact
    have hseries' := hseries.mpr (fun ts hts => (hexact.timeseries ts hts).2)
    unfold snap SnapEntry.throughJSON SnapEntry.restore
    rw [hkv.mpr hexact.kv, hhashes.mpr hexact.hashes, hlists.mpr hexact.lists,
      hsets.mpr hexact.sets, hzsets.mpr hexact.zsets, hstreams.mpr hexact.streams,
      hjsons.mpr hexact.jsons, hseries', hgroups.mpr hexact.groups, hqueues.mpr hexact.queues,
      htags.mpr hexact.tags]

end

/-! ## Whole snapshots -/

/-- The entry of a name when a second one is read: what the later one has is taken. -/
def SnapEntry.over (new old : SnapEntry) : SnapEntry where
  kv := new.kv.or old.kv
  hashes := new.hashes.or old.hashes
  lists := new.lists.or old.lists
  sets := new.sets.or old.sets
  zsets := new.zsets.or old.zsets
  streams := new.streams.or old.streams
  groups := new.groups.or old.groups
  expires := new.expires.or old.expires
  lastSeq := new.lastSeq.or old.lastSeq
  jsonDocs := new.jsonDocs.or old.jsonDocs
  timeSeries := new.timeSeries.or old.timeSeries
  queues := new.queues.or old.queues
  tags := new.tags.or old.tags
  hlls := new.hlls.or old.hlls
  notBefore := new.notBefore.or old.notBefore

/-- One key of a snapshot, written and read; `q` holds the keys before it. -/
def keyThroughJSON (p q : Snapshot) (k : Bytes) : Snapshot :=
  q.update (replaceInvalid k) ((p k).throughJSON.over (q (replaceInvalid k)))

/-- The keys of a snapshot are those of the objects of its file; each object lists them in
order. -/
def keysThroughJSON (p : Snapshot) : Snapshot :=
  (p.support.sort (· ≤ ·)).foldl (keyThroughJSON p) 0

/-- What `LoadSnapshot` reads from the file that `SaveSnapshot` writes of a dump; `none` is the
error of the encoder. -/
def throughJSON (p : Snapshot) : Option Snapshot :=
  if ∀ k ∈ p.support, (p k).finite = true then some (keysThroughJSON p) else none

section
variable {p : Snapshot} {k : Bytes}

theorem over_zero (x : SnapEntry) : x.over 0 = x := by
  show SnapEntry.over _ SnapEntry.empty = _
  simp [SnapEntry.over, SnapEntry.empty]

theorem rekeys_keyThroughJSON (p : Snapshot) :
    Rekeys (fun q : Snapshot => (q : Bytes → SnapEntry)) (keyThroughJSON p) replaceInvalid
      (fun k old => (p k).throughJSON.over old) := by
  intro q k k'
  show (q.update _ _) k' = _
  rw [DFinsupp.coe_update, Function.update_apply]
  split
  · rename_i hk
    rw [hk]
  · rfl

theorem keysThroughJSON_of_valid (hkeys : ∀ k ∈ p.support, validUTF8 k = true) (k : Bytes) :
    keysThroughJSON p k = (p k).throughJSON := by
  have hfix : ∀ k ∈ p.support.sort (· ≤ ·), replaceInvalid k = k :=
    fun k hk => (replaceInvalid_eq_self_iff k).mpr (hkeys k ((Finset.mem_sort _).mp hk))
  have hread := (rekeys_keyThroughJSON p).foldl_of_fixed (Finset.sort_nodup _ _) hfix 0 k
  refine hread.trans ?_
  split
  · exact over_zero _
  · rename_i habsent
    rw [Finset.mem_sort, DFinsupp.notMem_support_iff] at habsent
    rw [habsent]
    rfl

theorem keysThroughJSON_of_invalid (hk : validUTF8 k = false) : keysThroughJSON p k = 0 := by
  refine (rekeys_keyThroughJSON p).foldl_of_ne ?_ 0
  rintro j - rfl
  rw [validUTF8_replaceInvalid] at hk
  cases hk

end

namespace Server

/-- `SaveSnapshot`, as `LoadSnapshot` will read its file. -/
def saveSnapshotFile (R : Runtime) (now : Time) (hint : List Bytes) (s : Store) : Option Snapshot :=
  throughJSON (s.dump R now hint).1

/-- What a snapshot is meant to keep of a key: all but its rate limit, unless it is expired. -/
def keptEntry (s : Store) (now : Time) (k : Bytes) : Entry :=
  { (s.entries k).purged now with rateLimiters := none }

section
variable {R : Runtime} {now : Time} {s : Store}

theorem keptEntry_snap (s : Store) (now : Time) (hint : List Bytes) (k : Bytes) :
    (s.dump R now hint).1 k = (keptEntry s now k).snap R := by
  rw [dump_entries]
  rfl

theorem loaded_entry {file : Snapshot} (hint : List Bytes) {k : Bytes}
    (hfile : file k = ((keptEntry s now k).snap R).throughJSON) :
    (new.load R now hint file).entries k = ((keptEntry s now k).snap R).throughJSON.restore R := by
  rw [load_entries, hfile]
  show purged (((keptEntry s now k).snap R).throughJSON.restore R) now = _
  have hfresh : (((keptEntry s now k).snap R).throughJSON.restore R).expired now = false := by
    show ((s.entries k).purged now).expired now = false
    unfold purged
    split
    · rfl
    · rename_i hexpired
      exact Bool.eq_false_iff.mpr hexpired
  unfold purged
  rw [if_neg (by simp [hfresh])]

/-- **Snapshots are exact on text.** The documents of the store being written and read as
`encoding/json` documents it, a snapshot can be saved and brings every key back exactly if
each key that is not expired is valid UTF-8 and holds valid strings, finite numbers and a
sound sorted set only. -/
theorem snapshot_exact_iff (hempty : (R.unmarshal []).toOption = none)
    (hdocs : ∀ k doc, (s.entries k).jsons = some doc → R.Documented doc) (hint hint' : List Bytes) :
    (∃ file, saveSnapshotFile R now hint s = some file ∧
        ∀ k, (Store.new.load R now hint' file).entries k = keptEntry s now k)
      ↔ ∀ k, keptEntry s now k ≠ 0 → validUTF8 k = true ∧ (keptEntry s now k).Exact := by
  have hsnap := keptEntry_snap (R := R) s now hint
  have hheld : ∀ k ∈ (s.dump R now hint).1.support, keptEntry s now k ≠ 0 := by
    intro k hk hzero
    rw [DFinsupp.mem_support_iff, hsnap, hzero] at hk
    exact hk (snap_zero R)
  have hdoc : ∀ k doc, (keptEntry s now k).jsons = some doc → R.Documented doc := by
    intro k doc hj
    have hj : ((s.entries k).purged now).jsons = some doc := hj
    unfold purged at hj
    split at hj
    · cases hj
    · exact hdocs k doc hj
  -- a key is read as JSON left it, as long as no key had to be changed
  have hloaded : (∀ k ∈ (s.dump R now hint).1.support, validUTF8 k = true) → ∀ k,
      (new.load R now hint' (keysThroughJSON (s.dump R now hint).1)).entries k
        = ((keptEntry s now k).snap R).throughJSON.restore R := by
    intro hkeys k
    refine loaded_entry hint' ?_
    rw [keysThroughJSON_of_valid hkeys, hsnap]
  unfold saveSnapshotFile throughJSON
  constructor
  · rintro ⟨file, hsave, hload⟩
    split at hsave
    case isFalse => cases hsave
    rename_i hfinite
    cases hsave
    have hvalid : ∀ k, keptEntry s now k ≠ 0 → validUTF8 k = true := by
      intro k hk
      by_contra hinvalid
      have hgone := hload k
      rw [load_entries, keysThroughJSON_of_invalid (Bool.eq_false_iff.mpr hinvalid)] at hgone
      exact hk hgone.symm
    have hkeys : ∀ k ∈ (s.dump R now hint).1.support, validUTF8 k = true :=
      fun k hk => hvalid k (hheld k hk)
    intro k hk
    refine ⟨hvalid k hk, (restored_iff hempty (hdoc k) ?_).mp ?_⟩
    · by_cases hmem : k ∈ (s.dump R now hint).1.support
      · rw [← hsnap]
        exact hfinite k hmem
      · rw [DFinsupp.notMem_support_iff, hsnap] at hmem
        rw [hmem]
        rfl
    · exact (hloaded hkeys k).symm.trans (hload k)
  · intro hexact
    have hkeys : ∀ k ∈ (s.dump R now hint).1.support, validUTF8 k = true :=
      fun k hk => (hexact k (hheld k hk)).1
    have hentry : ∀ k, (keptEntry s now k).Exact := by
      intro k
      by_cases hzero : keptEntry s now k = 0
      · rw [hzero]
        exact .empty
      · exact (hexact k hzero).2
    refine ⟨_, if_pos (fun k _ => ?_), fun k => ?_⟩
    · rw [hsnap]
      exact (hentry k).finite
    · rw [hloaded hkeys k]
      exact (restored_iff hempty (hdoc k) (hentry k).finite).mpr (hentry k)

end

theorem dump_support_of_one {R : Runtime} {now : Time} {hint : List Bytes} {s : Store}
    {key : Bytes} {e : Entry} (h : s.entries = (0 : Π₀ _ : Bytes, Entry).update key e) :
    ∀ k ∈ (s.dump R now hint).1.support, k = key := by
  intro k hk
  by_contra hne
  rw [DFinsupp.mem_support_iff, dump_entries, h, DFinsupp.coe_update,
    Function.update_of_ne hne] at hk
  exact hk rfl

/-- `SET k v`: the snapshot brings it back. -/
theorem snapshot_exact_iff_set :
    let s := (served [bytes "SET", bytes "k", bytes "v"]).store
    ∃ file, saveSnapshotFile integralRuntime 1 [] s = some file ∧
      ∀ k, (new.load integralRuntime 1 [] file).entries k = keptEntry s 1 k := by
  intro s
  have hs : s.entries = (0 : Π₀ _ : Bytes, Entry).update (bytes "k")
      { empty with kv := some (bytes "v") } := rfl
  have hother : ∀ k, k ≠ bytes "k" → s.entries k = 0 := by
    intro k hk
    rw [hs, DFinsupp.coe_update, Function.update_of_ne hk]
    rfl
  refine (snapshot_exact_iff rfl (fun k doc hj => ?_) [] []).mpr (fun k hk => ?_)
  · by_cases hkey : k = bytes "k"
    · rw [hkey] at hj
      cases hj
    · rw [hother k hkey] at hj
      cases hj
  · by_cases hkey : k = bytes "k"
    · rw [hkey]
      refine ⟨by decide, ?_⟩
      constructor
      · intro v hv
        cases hv
        decide
      all_goals exact nofun
    · refine absurd ?_ hk
      unfold keptEntry
      rw [hother k hkey]
      rfl

/-- A runtime whose numbers are all infinite. -/
def infiniteRuntime : Runtime := { integralRuntime with parseFloat := fun _ => some F64.posInf }

/-- `SETBIT k 0 1` makes a value of one byte, which comes back as the three bytes of U+FFFD;
after `ZADD z inf a` no snapshot can be saved at all. -/
theorem bitmap_and_infinity_lost :
    let s := (served [bytes "SETBIT", bytes "k", bytes "0", bytes "1"]).store
    let t := (serveAll (Env.plain infiniteRuntime 1) [[bytes "ZADD", bytes "z", bytes "inf",
      bytes "a"]] State.new).store
    ((s.entries (bytes "k")).kv = some [0x80] ∧
      ∃ file, saveSnapshotFile integralRuntime 1 [] s = some file ∧
        ((new.load integralRuntime 1 [] file).entries (bytes "k")).kv
          = some [0xEF, 0xBF, 0xBD]) ∧
    saveSnapshotFile infiniteRuntime 1 [] t = none := by
  intro s t
  have hs : s.entries = (0 : Π₀ _ : Bytes, Entry).update (bytes "k")
      { empty with kv := some [0x80] } := rfl
  have hbit : (s.dump integralRuntime 1 []).1 (bytes "k")
      = snap integralRuntime { empty with kv := some [0x80] } := by
    rw [dump_entries, hs]
    rfl
  have honly : ∀ k ∈ (s.dump integralRuntime 1 []).1.support, k = bytes "k" :=
    dump_support_of_one hs
  refine ⟨⟨rfl, _, if_pos (fun k hk => ?_), ?_⟩, if_neg fun hfinite => ?_⟩
  · rw [honly k hk, hbit]
    rfl
  · have hkeys : ∀ k ∈ (s.dump integralRuntime 1 []).1.support, validUTF8 k = true := by
      intro k hk
      rw [honly k hk]
      decide
    rw [load_entries, keysThroughJSON_of_valid hkeys, hbit]
    decide
  · have hscore : ((t.entries (bytes "z")).purged 1).snap infiniteRuntime ≠ 0 ∧
        (((t.entries (bytes "z")).purged 1).snap infiniteRuntime).finite = false := by
      decide +kernel
    have hall := hfinite (bytes "z") (by
      rw [DFinsupp.mem_support_iff, dump_entries]
      exact hscore.1)
    rw [dump_entries, hscore.2] at hall
    cases hall

end Server

end Vole
