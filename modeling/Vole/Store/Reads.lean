import Vole.Store.KeySpace
import Vole.Store.Mirror

/-!
# The reading operations, as one type

`KeyRead` lists the operations that look at one key, and `Query` those that look at the whole
store. Almost all of them treat an expired key as absent and look at a delay only to see
whether it has run out: they read the `view` of an entry. The others read what goes with a
stream, a queue or a rate limit, and do not ask whether the key has expired.
-/

namespace Vole

open Go Entry List

/-- The reading operations on one key. -/
inductive KeyRead where
  | get
  | exist
  | type
  | ttl
  | pttl
  | expireTime
  | pExpireTime
  | strlen
  | getRange (start stop : Int)
  | getBit (offset : Int)
  | bitCount (start stop : Int) (hasBounds : Bool)
  | bitPos (bit start stop : Int) (hasBounds : Bool)
  | hGet (field : Bytes)
  | hGetAll
  | hVals
  | hKeys
  | hLen
  | hExists (field : Bytes)
  | hRandField (count : Int) (hint : List Bytes) (draws : Nat → Nat)
  | lRange (start stop : Int)
  | lLen
  | lIndex (index : Int)
  | lPos (element : Bytes)
  | sMembers
  | sIsMember (member : Bytes)
  | sCard
  | sRandMember (count : Int) (hint : List Bytes) (draws : Nat → Nat)
  | zRange (start stop : Int)
  | zRevRange (start stop : Int)
  | zRangeByScore (min max : F64) (offset count : Int)
  | zRangeByLex (min max : Bytes) (offset count : Int)
  | zScore (member : Bytes)
  | zRank (member : Bytes)
  | zRevRank (member : Bytes)
  | zCount (min max : F64)
  | zCard
  | xLen
  | xRange (start stop : Bytes) (count : Int)
  | xRead (id : Bytes)
  | xGroupExists (group : Bytes)
  | xReadGroupPlan (group consumer id : Bytes) (count : Int)
  | lastStreamID
  | jsonGet (path : Bytes)
  | jsonType (path : Bytes)
  | jsonArrLen (path : Bytes)
  | jsonKeys (path : Bytes)
  | tsRange (start stop count : Int)
  | tsGet
  | tsInfo
  | geoPos (member : Bytes)
  | geoDist (member1 member2 : Bytes)
  | geoSearchByRadius (lon lat radius : F64) (count : Int) (asc : Bool)
  | geoSearchByMember (member : Bytes) (radius : F64) (count : Int) (asc : Bool)
  | dumpKey (hint : List Bytes)
  | tagGet
  | xInfoStream
  | xInfoGroups (hint : List Bytes)
  | xPendingSummary (group : Bytes) (hint : List Bytes)
  | qLen
  | qInfo
  | qPeek (count : Int)
  | qDead (count : Int)
  | rateLimitPeek

namespace KeyRead

/-- The type of the answer. -/
def Answer : KeyRead → Type
  | get => Option Bytes
  | exist => Bool
  | type | lastStreamID | jsonType _ => Bytes
  | ttl | pttl | expireTime | pExpireTime => Int
  | strlen | getBit _ | bitCount _ _ _ | hLen | lLen | sCard | zCount _ _ | zCard | xLen
  | jsonArrLen _ => Except Err Nat
  | getRange _ _ => Except Err Bytes
  | bitPos _ _ _ _ => Except Err Int
  | hGet _ | lIndex _ | jsonGet _ => Except Err (Option Bytes)
  | hGetAll => Except Err (List (Bytes × Bytes))
  | hVals | hKeys | hRandField _ _ _ | lRange _ _ | sMembers | sRandMember _ _ _ | jsonKeys _ =>
    Except Err (List Bytes)
  | hExists _ | sIsMember _ => Except Err Bool
  | lPos _ => Except Err (Option Nat)
  | zRange _ _ | zRevRange _ _ | zRangeByScore _ _ _ _ | zRangeByLex _ _ _ _ =>
    Except Err (List ZMember)
  | zScore _ => Except Err (Option F64)
  | zRank _ | zRevRank _ => Except Err (Option Int)
  | xRange _ _ _ | xRead _ => List StreamEntry
  | xGroupExists _ => Bool
  | xReadGroupPlan _ _ _ _ => Except Err (List StreamEntry)
  | tsRange _ _ _ => List TSSample
  | tsGet => Option TSSample
  | tsInfo => Except Err (Nat × GoMap Bytes × Int × Int)
  | geoPos _ => Option (F64 × F64)
  | geoDist _ _ => Option F64
  | geoSearchByRadius _ _ _ _ _ => List Entry.GeoResult
  | geoSearchByMember _ _ _ _ => Except Err (List Entry.GeoResult)
  | dumpKey _ => Option Bytes
  | tagGet => Option (GoMap Bytes)
  | xInfoStream => Nat × Bytes × Bytes × Nat × Bool
  | xInfoGroups _ => List (Bytes × Nat × Nat × Bytes)
  | xPendingSummary _ _ => Nat × Bytes × Bytes × GoMap Nat
  | qLen => Nat
  | qInfo => Nat × Nat × Nat
  | qPeek _ | qDead _ => List QueueMessage
  | rateLimitPeek => Int × Int

/-- What the operation answers for the entry of its key. -/
def answer (R : Runtime) (e : Entry) (now : Time) : (r : KeyRead) → r.Answer
  | get => e.get now
  | exist => e.existsAt now
  | type => e.type now
  | ttl => e.ttl now
  | pttl => e.pttl now
  | expireTime => e.expireTime now
  | pExpireTime => e.pExpireTime now
  | strlen => e.strlen now
  | getRange start stop => e.getRange now start stop
  | getBit offset => e.getBit now offset
  | bitCount start stop hasBounds => e.bitCount now start stop hasBounds
  | bitPos bit start stop hasBounds => e.bitPos now bit start stop hasBounds
  | hGet field => e.hGet now field
  | hGetAll => e.hGetAll now
  | hVals => e.hVals now
  | hKeys => e.hKeys now
  | hLen => e.hLen now
  | hExists field => e.hExists now field
  | hRandField count hint draws => e.hRandField now count hint draws
  | lRange start stop => e.lRange now start stop
  | lLen => e.lLen now
  | lIndex index => e.lIndex now index
  | lPos element => e.lPos now element
  | sMembers => e.sMembers now
  | sIsMember member => e.sIsMember now member
  | sCard => e.sCard now
  | sRandMember count hint draws => e.sRandMember now count hint draws
  | zRange start stop => e.zRange now start stop
  | zRevRange start stop => e.zRevRange now start stop
  | zRangeByScore min max offset count => e.zRangeByScore now min max offset count
  | zRangeByLex min max offset count => e.zRangeByLex now min max offset count
  | zScore member => e.zScore now member
  | zRank member => e.zRank now member
  | zRevRank member => e.zRevRank now member
  | zCount min max => e.zCount now min max
  | zCard => e.zCard now
  | xLen => e.xLen now
  | xRange start stop count => e.xRange now start stop count
  | xRead id => e.xRead now id
  | xGroupExists group => e.xGroupExists now group
  | xReadGroupPlan group consumer id count => e.xReadGroupPlan now group consumer id count
  | lastStreamID => e.lastStreamID now
  | jsonGet path => e.jsonGet R now path
  | jsonType path => e.jsonType now path
  | jsonArrLen path => e.jsonArrLen now path
  | jsonKeys path => e.jsonKeys now path
  | tsRange start stop count => e.tsRange now start stop count
  | tsGet => e.tsGet now
  | tsInfo => e.tsInfo now
  | geoPos member => e.geoPos R now member
  | geoDist member1 member2 => e.geoDist R now member1 member2
  | geoSearchByRadius lon lat radius count asc =>
    e.geoSearchByRadius R now lon lat radius count asc
  | geoSearchByMember member radius count asc =>
    e.geoSearchByMember R now member radius count asc
  | dumpKey hint => e.dumpKey R now hint
  | tagGet => e.tagGet now
  | xInfoStream => e.xInfoStream
  | xInfoGroups hint => e.xInfoGroups hint
  | xPendingSummary group hint => e.xPendingSummary group hint
  | qLen => e.qInfo.1
  | qInfo => e.qInfo
  | qPeek count => e.qPeek count
  | qDead count => e.qDead count
  | rateLimitPeek => e.rateLimitPeek now

/-- The operations that take an expired key for an absent one and read nothing but the value
of a key, its groups and its expiry. -/
def Gated : KeyRead → Prop
  | xReadGroupPlan _ _ _ _ | tagGet | xInfoStream | xInfoGroups _ | xPendingSummary _ _ | qLen
  | qInfo | qPeek _ | qDead _ | rateLimitPeek => False
  | _ => True

end KeyRead

namespace Entry

/-- What the gated operations can see of an entry. -/
def view (e : Entry) (now : Time) : Entry :=
  if e.expired now then Entry.empty
  else { e with
    tags := none, rateLimiters := none, queues := none, lastSeq := none,
    notBefore := e.notBefore.filter (fun t => decide (now < t)) }

variable {e : Entry} {now : Time}

theorem view_of_expired (h : e.expired now = true) : e.view now = empty := if_pos h

section
variable (h : e.expired now = false)
include h

theorem view_of_not_expired : e.view now = { e with
      tags := none, rateLimiters := none, queues := none, lastSeq := none,
      notBefore := e.notBefore.filter (fun t => decide (now < t)) } :=
  if_neg (by simp [h])

omit h in
theorem expired_view (e : Entry) (now : Time) : (e.view now).expired now = false := by
  cases h : e.expired now with
  | true =>
    rw [view_of_expired h]
    rfl
  | false =>
    rw [view_of_not_expired h]
    exact h

theorem visible_view : (e.view now).visible now = e.visible now := by
  rw [view_of_not_expired h]
  unfold visible
  cases hnb : e.notBefore with
  | none => rfl
  | some t =>
    by_cases ht : now < t
    · simp [Option.filter, ht]
    · simp [Option.filter, ht, Int.not_lt.mp ht]

theorem toData_view : (e.view now).toData = e.toData := by
  rw [view_of_not_expired h]

theorem groups_view : (e.view now).groups = e.groups := by
  rw [view_of_not_expired h]

omit h in
theorem readConflict_empty (now : Time) (own : DataType) : empty.readConflict now own = false := by
  cases own <;> rfl

theorem readConflict_view (own : DataType) :
    (e.view now).readConflict now own = e.readConflict now own := by
  unfold readConflict
  rw [visible_view h, toData_view h]

end

theorem existsAt_view (e : Entry) (now : Time) : (e.view now).existsAt now = e.existsAt now := by
  unfold existsAt
  rw [expired_view]
  cases h : e.expired now with
  | true =>
    rw [view_of_expired h]
    rfl
  | false => rw [visible_view h, toData_view h]

theorem reading_view {α : Type} {own : DataType} {absent : α} {read : Entry → α}
    (hdata : ∀ e' : Entry, e'.toData = e.toData → read e' = read e) (hempty : read empty = absent) :
    (e.view now).reading now own absent read = e.reading now own absent read := by
  unfold reading
  rw [expired_view]
  cases h : e.expired now with
  | true =>
    rw [view_of_expired h, readConflict_empty, hempty]
    rfl
  | false => rw [readConflict_view h, hdata _ (toData_view h)]

theorem expiryQuery_view (convert : Time → Int) :
    (e.view now).expiryQuery now convert = e.expiryQuery now convert := by
  unfold expiryQuery
  rw [existsAt_view]
  cases h : e.expired now with
  | true => simp [existsAt, h]
  | false => rw [view_of_not_expired h]

theorem geoPos_view (R : Runtime) (member : Bytes) :
    (e.view now).geoPos R now member = e.geoPos R now member := by
  unfold geoPos
  rw [expired_view]
  cases h : e.expired now with
  | true =>
    rw [view_of_expired h]
    rfl
  | false => rw [toData_view h]

theorem series_view : (e.view now).series now = e.series now := by
  unfold series
  rw [expired_view]
  cases h : e.expired now with
  | true =>
    rw [view_of_expired h]
    rfl
  | false => rw [toData_view h]

end Entry

theorem rangeOf_nil {α : Type} (start stop : Int) : rangeOf ([] : List α) start stop = [] := by
  unfold rangeOf
  split
  · rfl
  · simp

namespace KeyRead

open Entry

variable {R : Runtime} {e : Entry} {now : Time}

theorem answer_view (r : KeyRead) (hr : r.Gated) :
    r.answer R (e.view now) now = r.answer R e now := by
  cases r with
  | exist => exact existsAt_view e now
  | ttl | pttl | expireTime | pExpireTime => exact expiryQuery_view _
  | hGet | hGetAll | hVals | hKeys | hLen | hExists | hRandField | lRange | lLen
  | lIndex | lPos | sMembers | sIsMember | sCard | sRandMember | zRange
  | zRevRange | zRangeByScore | zRangeByLex | zScore | zRank | zRevRank
  | zCount | zCard | xLen =>
    -- the frame `reading` around a function of the data
    simp only [answer, Entry.hGet, Entry.hGetAll, Entry.hVals, Entry.hKeys, Entry.hLen,
      Entry.hExists, Entry.hRandField, Entry.lRange, Entry.lLen, Entry.lIndex, Entry.lPos,
      Entry.sMembers, Entry.sIsMember, Entry.sCard, Entry.sRandMember, Entry.zRange,
      Entry.zRevRange, Entry.zRangeByScore, Entry.zRangeByLex, Entry.zScore, Entry.zRank,
      Entry.zRevRank, Entry.zCount, Entry.zCard, Entry.xLen, readingZSet]
    refine reading_view (fun e' h => ?_) ?_
    · simp only [h]
    · first
        | rfl
        | simp [Entry.empty, Data.empty, hashPairs, GoMap.sortedKeys, rangeOf_nil]
  | geoPos => exact geoPos_view R _
  | geoDist =>
    simp only [answer, Entry.geoDist, geoPos_view]
    rfl
  | tsRange | tsGet | tsInfo =>
    simp only [answer, Entry.tsRange, Entry.tsGet, Entry.tsInfo, series_view]
    rfl
  | xReadGroupPlan | tagGet | xInfoStream | xInfoGroups | xPendingSummary | qLen
  | qInfo | qPeek | qDead | rateLimitPeek => exact absurd hr id
  | getBit offset =>
    simp only [answer, Entry.getBit, expired_view]
    cases h : e.expired now with
    | true =>
      rw [view_of_expired h, readConflict_empty]
      simp [Entry.empty, Data.empty, Cell.bitAt]
      rfl
    | false => rw [readConflict_view h, toData_view h]
  | xRange start stop count =>
    simp only [answer, Entry.xRange, expired_view]
    cases h : e.expired now with
    | true =>
      rw [view_of_expired h]
      simp [Entry.empty, Data.empty]
      rfl
    | false => rw [toData_view h]
  | _ =>
    -- a test for the expiry before anything else
    simp only [answer, Entry.get, Entry.type, Entry.strlen, Entry.getRange, Entry.bitCount,
      Entry.bitPos, Entry.xRead, Entry.xGroupExists, Entry.lastStreamID, Entry.jsonGet,
      Entry.jsonType, Entry.jsonArrLen, Entry.jsonKeys, Entry.geoSearchByRadius,
      Entry.geoSearchByMember, Entry.dumpKey, expired_view]
    cases h : e.expired now with
    | true =>
      rw [view_of_expired h]
      rfl
    | false =>
      simp only [toData_view h, groups_view h, visible_view h, readConflict_view h]
      rfl

end KeyRead

/-! ## Queries over several keys -/

/-- The reading operations of the store. -/
inductive Query where
  | key (k : Bytes) (r : KeyRead)
  | exist (keys : List Bytes)
  | mGet (keys : List Bytes)
  | keys (pattern : Bytes)
  | dbSize
  | scan (cursor count : Int) (pattern : Bytes)
  | randomKey (hint : List Bytes)
  | hSearch (pattern : Bytes) (conditions : List SearchCondition) (offset count : Int)
  | sInter (keys : List Bytes)
  | sUnion (keys : List Bytes)
  | sDiff (keys : List Bytes)
  | pfCount (keys : List Bytes)
  | xRead (streams : List (Bytes × Bytes))

namespace Query

def Answer : Query → Type
  | key _ r => r.Answer
  | exist _ => Nat
  | mGet _ => List (Option Bytes)
  | keys _ => List Bytes
  | dbSize => Nat
  | scan _ _ _ => Except Err (Int × List Bytes)
  | randomKey _ => Option Bytes
  | hSearch _ _ _ _ => List (Bytes × GoMap Bytes)
  | sInter _ | sUnion _ | sDiff _ => Except Err (List Bytes)
  | pfCount _ => Int
  | xRead _ => Store.StreamResults

def answer (R : Runtime) (s : Store) (now : Time) : (q : Query) → q.Answer
  | key k r => r.answer R (s.entries k) now
  | exist ks => s.existCount now ks
  | mGet ks => s.mGet now ks
  | keys pattern => s.keys now pattern
  | dbSize => s.dbSize now
  | scan cursor count pattern => s.scan now cursor count pattern
  | randomKey hint => s.randomKey now hint
  | hSearch pattern conditions offset count => s.hSearch R now pattern conditions offset count
  | sInter ks => s.sInter now ks
  | sUnion ks => s.sUnion now ks
  | sDiff ks => s.sDiff now ks
  | pfCount ks => s.pfCount R now ks
  | xRead streams => s.xRead now streams

/-- The queries that see nothing but views. -/
def Gated : Query → Prop
  | key _ r => r.Gated
  | _ => True

end Query

/-! Two stores may hold different keys and still show the same: a listing of the keys that
pass a test depends on these keys only. -/

theorem filter_sort (S : Finset Bytes) (p : Bytes → Bool) :
    (S.sort (· ≤ ·)).filter p = (S.filter (p ·)).sort (· ≤ ·) := by
  refine List.Perm.eq_of_pairwise' ((Finset.pairwise_sort S (· ≤ ·)).filter p)
    (Finset.pairwise_sort _ (· ≤ ·)) ?_
  refine (perm_ext_iff_of_nodup ((Finset.sort_nodup ..).filter p)
    (Finset.sort_nodup ..)).mpr (fun k => ?_)
  simp

theorem filter_sort_congr {S T : Finset Bytes} {p : Bytes → Bool}
    (h : ∀ k, p k = true → (k ∈ S ↔ k ∈ T)) :
    (S.sort (· ≤ ·)).filter p = (T.sort (· ≤ ·)).filter p := by
  have hsame : S.filter (p ·) = T.filter (p ·) := by
    ext k
    simp only [Finset.mem_filter]
    exact ⟨fun hk => ⟨(h k hk.2).mp hk.1, hk.2⟩, fun hk => ⟨(h k hk.2).mpr hk.1, hk.2⟩⟩
  rw [filter_sort, filter_sort, hsame]

theorem filter_enumerate_congr {S T : Finset Bytes} {p : Bytes → Bool} (hint : List Bytes)
    (h : ∀ k, p k = true → (k ∈ S ↔ k ∈ T)) :
    (enumerate hint S).filter p = (enumerate hint T).filter p := by
  have hfront : (hint.dedup.filter (· ∈ S)).filter p = (hint.dedup.filter (· ∈ T)).filter p := by
    rw [filter_filter, filter_filter]
    refine filter_congr (fun k _ => ?_)
    cases hp : p k with
    | false => rfl
    | true => simp [h k hp]
  have hrest : ((S.sort (· ≤ ·)).filter (· ∉ hint.dedup.filter (· ∈ S))).filter p
      = ((T.sort (· ≤ ·)).filter (· ∉ hint.dedup.filter (· ∈ T))).filter p := by
    have hcomm : ∀ (l : List Bytes) (q : Bytes → Bool),
        (l.filter q).filter p = (l.filter p).filter q := by
      intro l q
      rw [filter_filter, filter_filter]
      exact filter_congr (fun k _ => Bool.and_comm _ _)
    rw [hcomm, hcomm, filter_sort_congr h]
    refine filter_congr (fun k hk => ?_)
    have hp : p k = true := (mem_filter.mp hk).2
    simp [h k hp]
  unfold enumerate
  rw [filter_append, filter_append, hfront, hrest]

namespace Store

variable {R : Runtime} {s t : Store} {now : Time}

/-- The stores show the same under every key. -/
def SameViews (now : Time) (s t : Store) : Prop :=
  ∀ k, (s.entries k).view now = (t.entries k).view now

variable (h : SameViews now s t)
include h

theorem SameViews.answer (k : Bytes) (r : KeyRead) (hr : r.Gated) :
    r.answer R (s.entries k) now = r.answer R (t.entries k) now := by
  rw [← r.answer_view hr, h k, r.answer_view hr]

theorem SameViews.existsAt (k : Bytes) : (s.entries k).existsAt now = (t.entries k).existsAt now :=
  h.answer (R := default) k .exist trivial

omit h in
theorem listed_view (e : Entry) (now : Time) : (e.view now).listed now = e.listed now := by
  unfold listed
  rw [expired_view]
  cases h : e.expired now with
  | true =>
    rw [view_of_expired h]
    rfl
  | false => rw [visible_view h, toData_view h]

theorem SameViews.allKeys : s.allKeys now = t.allKeys now := by
  refine allKeys_congr (fun k => ?_)
  rw [← listed_view (s.entries k), h k, listed_view]

theorem SameViews.keys (pattern : Bytes) : s.keys now pattern = t.keys now pattern := by
  unfold Store.keys
  rw [h.allKeys]

omit h in
theorem held_of_view {k : Bytes} (h : (s.entries k).view now ≠ empty) : k ∈ s.held := by
  refine DFinsupp.mem_support_iff.mpr (fun hzero => h ?_)
  rw [hzero]
  rfl

theorem SameViews.held_iff {k : Bytes}
    (hk : (s.entries k).view now ≠ empty) : k ∈ s.held ↔ k ∈ t.held :=
  ⟨fun _ => held_of_view (h k ▸ hk), fun _ => held_of_view hk⟩

omit h in
theorem drawable_view (e : Entry) (now : Time) (u : DataType) :
    (e.has u && !e.expired now) = (e.view now).has u := by
  cases h : e.expired now with
  | true =>
    rw [view_of_expired h, Bool.not_true, Bool.and_false]
    cases u <;> rfl
  | false => rw [toData_view h, Bool.not_false, Bool.and_true]

theorem SameViews.draw (hint : List Bytes) (u : DataType) :
    s.draw now hint u = t.draw now hint u := by
  have htest : ∀ k, ((s.entries k).has u && !(s.entries k).expired now)
      = ((t.entries k).has u && !(t.entries k).expired now) := by
    intro k
    rw [drawable_view, drawable_view, h k]
  unfold Store.draw
  simp only [htest]
  rw [← head?_filter, ← head?_filter, filter_enumerate_congr]
  intro k hk
  refine h.held_iff (fun hempty => ?_)
  rw [← htest, drawable_view, hempty] at hk
  cases u <;> cases hk

/-- The hit of `HSearch` for one key. -/
def searchHit (R : Runtime) (now : Time) (pattern : Bytes) (conditions : List SearchCondition)
    (key : Bytes) (e : Entry) : Option (Bytes × GoMap Bytes) :=
  match e.hashes with
  | none => none
  | some hash =>
    if !e.expired now && matchGlob pattern key && matchesConditions R hash conditions
    then some (key, hash) else none

omit h in
theorem searchHit_view (pattern : Bytes) (conditions : List SearchCondition) (key : Bytes)
    (e : Entry) : searchHit R now pattern conditions key (e.view now)
      = searchHit R now pattern conditions key e := by
  unfold searchHit
  rw [expired_view]
  cases h : e.expired now with
  | true =>
    rw [view_of_expired h]
    cases e.hashes <;> simp [empty, Data.empty]
  | false => rw [toData_view h]

theorem SameViews.hSearch (pattern : Bytes)
    (conditions : List SearchCondition) (offset count : Int) :
    s.hSearch R now pattern conditions offset count
      = t.hSearch R now pattern conditions offset count := by
  have hhits : (s.held.sort (· ≤ ·)).filterMap (fun k =>
        searchHit R now pattern conditions k (s.entries k))
      = (t.held.sort (· ≤ ·)).filterMap (fun k =>
        searchHit R now pattern conditions k (t.entries k)) := by
    have hsame : ∀ k, searchHit R now pattern conditions k (s.entries k)
        = searchHit R now pattern conditions k (t.entries k) := by
      intro k
      rw [← searchHit_view, h k, searchHit_view]
    have hdrop : ∀ (l : List Bytes), l.filterMap (fun k =>
          searchHit R now pattern conditions k (s.entries k))
        = (l.filter (fun k => (searchHit R now pattern conditions k (s.entries k)).isSome)).filterMap
          (fun k => searchHit R now pattern conditions k (s.entries k)) := by
      intro l
      rw [filterMap_filter]
      refine filterMap_congr (fun k _ => ?_)
      cases searchHit R now pattern conditions k (s.entries k) <;> rfl
    simp only [← hsame]
    rw [hdrop, hdrop (t.held.sort _), filter_sort_congr]
    intro k hk
    refine h.held_iff (fun hempty => ?_)
    rw [← searchHit_view, hempty] at hk
    cases hk
  exact congrArg (fun hits : List (Bytes × GoMap Bytes) =>
    let hits := if 0 < offset then hits.drop offset.toNat else hits
    if 0 < count then hits.take count.toNat else hits) hhits

theorem SameViews.sameSets : SameSets id now s t := by
  intro k
  have hread : ∀ (s : Store), (s.setAt now k).map (·.getD ∅)
      = (s.entries k).reading now .set ∅ (fun e => e.sets.getD ∅) := by
    intro s
    unfold Store.setAt reading
    dsimp only
    split
    · rfl
    · split <;> rfl
  have hview : ∀ e : Entry, (e.view now).reading now .set (∅ : Finset Bytes)
      (fun e => e.sets.getD ∅) = e.reading now .set ∅ (fun e => e.sets.getD ∅) := by
    intro e
    exact reading_view (fun _ heq => by rw [heq]) rfl
  rw [id, hread, hread, ← hview (s.entries k), h k, hview]

theorem SameViews.hllAt (k : Bytes) :
    (if (s.entries k).expired now then none else (s.entries k).hlls)
      = if (t.entries k).expired now then none else (t.entries k).hlls := by
  have hview : ∀ e : Entry, (if e.expired now then none else e.hlls) = (e.view now).hlls := by
    intro e
    cases he : e.expired now with
    | true =>
      rw [view_of_expired he]
      rfl
    | false =>
      rw [toData_view he]
      rfl
  rw [hview, hview, h k]

end Store

theorem Query.answer_congr {R : Runtime} {s t : Store} {now : Time}
    (h : Store.SameViews now s t) (q : Query) (hq : q.Gated) :
    q.answer R s now = q.answer R t now := by
  cases q with
  | key => exact h.answer _ _ hq
  | exist ks =>
    simp only [answer, Store.existCount, h.existsAt]
    rfl
  | mGet => exact map_congr_left (fun k _ => h.answer (R := R) k .get trivial)
  | keys => exact h.keys _
  | dbSize =>
    simp only [answer, Store.dbSize, h.allKeys]
    rfl
  | scan cursor count pattern =>
    simp only [answer, Store.scan, h.keys]
    rfl
  | randomKey hint =>
    show randomTypes.findSome? (s.draw now hint) = randomTypes.findSome? (t.draw now hint)
    rw [funext (h.draw hint)]
  | hSearch => exact h.hSearch ..
  | sInter ks =>
    have hsets := h.sameSets.sInter ks
    rwa [map_id] at hsets
  | sUnion ks =>
    have hsets := h.sameSets.sUnion ks
    rwa [map_id] at hsets
  | sDiff ks =>
    have hsets := h.sameSets.sDiff ks
    rwa [map_id] at hsets
  | pfCount ks =>
    simp only [answer, Store.pfCount, h.hllAt]
    rfl
  | xRead streams =>
    have hread : ∀ k id, (s.entries k).xRead now id = (t.entries k).xRead now id :=
      fun k id => h.answer (R := R) k (.xRead id) trivial
    simp only [answer, Store.xRead, hread]
    rfl

end Vole
