import Vole.Store.OneType
import Vole.Store.Blocking

/-!
# Expiry, delay and tags of keys without a value

`deleteKeyLocked` takes a key out of every map. Where an operation removes the last element of
a collection it drops the collection itself instead, with its expiry but with neither its delay
nor its tags; `JSONDel` leaves the expiry as well, `Rename` leaves behind what it does not move,
and `Copy` of a document or a series copies the expiry alone. What is left behind waits for the
next value of the key.
-/

namespace Vole

open Go Cell Store Entry

/-- The key has no expiry, no delay and no tags. -/
structure Entry.Plain (e : Entry) : Prop where
  expires : e.expires = none
  notBefore : e.notBefore = none
  tags : e.tags = none

/-- A key that is in none of the type maps is in no map of metadata. -/
def Entry.Anchored (e : Entry) : Prop := (∀ t, e.has t = false) → e.Plain

/-- The key has neither a delay nor tags. -/
def Entry.Unmarked (e : Entry) : Prop := e.notBefore = none ∧ e.tags = none

/-- If the value of type `own` is all the key has, it has neither a delay nor tags. -/
def Entry.Drainable (e : Entry) (own : DataType) : Prop := e.conflicts own = false → e.Unmarked

/-- The type of which the operation takes the last element, if it takes one. -/
def CellOp.drains (e : Entry) : CellOp → Option DataType
  | .hDel fields =>
    if e.hashes.any (fun hash => (fields.foldl Cell.hashDelete (0, hash)).2.isEmpty)
    then some .hash else none
  | .popList left =>
    if (Cell.popValue left (e.lists.getD [])).any (fun r => r.2 = []) then some .list else none
  | .lRem count element =>
    if Cell.lRemKept count element (e.lists.getD []) = [] then some .list else none
  | .sRem members =>
    if e.sets.getD ∅ \ members.toFinset = ∅ then some .set else none
  | .sPop count hint =>
    if e.sets.getD ∅ \ ((enumerate hint (e.sets.getD ∅)).take
      (if count ≤ 0 then 1 else count.toNat)).toFinset = ∅ then some .set else none
  | .zRem members =>
    if e.zsets.any (fun z => (members.foldl Cell.zsetRemove (0, z)).2.len = 0)
    then some .zset else none
  | .zPopMin count => if e.zsets.any (fun z => (z.popMin count).2.len = 0) then some .zset else none
  | .zPopMax count => if e.zsets.any (fun z => (z.popMax count).2.len = 0) then some .zset else none
  | _ => none

/-- The operation takes no last element from under a delay or tags, and no document from under
anything. -/
def CellOp.Careful (now : Time) (e : Entry) : CellOp → Prop
  | .jsonDel path => e.expired now = false → e.has .json = true → path = bytes "$" ∨ path = [] →
      e.conflicts .json = false → e.Plain
  | op => ∀ t, op.drains e = some t → e.expired now = false → e.Drainable t

/-- The condition on the operations of the store. Clients that wait for a list empty it as
popping does. -/
def Op.Careful (now : Time) (s : Store) : Op → Prop
  | .cell key op => op.Careful now (s.entries key)
  | .rename key newkey => key ≠ newkey → (s.entries key).existsAt now = true →
      ((s.entries key).has .json = false → (s.entries key).has .timeseries = false →
        (s.entries key).Unmarked)
      ∧ ((s.entries key).hasAny [.string, .hash, .list, .set, .zset, .stream, .hll] = false →
        (s.entries key).expires = none)
  | .copy src dst _ => src ≠ dst → (s.entries src).existsAt now = true →
      (s.entries src).hasAny [.string, .hash, .list, .set, .zset, .stream, .hll] = false →
      (s.entries src).expires = none
  | .sMove src dst member => src ≠ dst → ((s.entries src).purged now).sets = some {member} →
      ((s.entries src).purged now).Drainable .set
  | .sort key _ _ _ _ (some dst) _ => (s.entries key).expired now = true → dst ≠ key →
      (s.entries dst).conflicts .list = false → (s.entries dst).Plain
  | .pushList key _ values =>
    (((s.entries key).purged now).lists.getD []).length + values.length
      ≤ (s.listWaits key).length → ((s.entries key).purged now).Drainable .list
  | .lMove src dst _ _ =>
    (src ≠ dst → (((s.entries src).purged now).lists.getD []).length = 1 →
      ((s.entries src).purged now).Drainable .list)
    ∧ ((((s.entries dst).purged now).lists.getD []).length + (if src = dst then 0 else 1)
        ≤ (s.listWaits dst).length → ((s.entries dst).purged now).Drainable .list)
  | .bPop keys _ => ∀ key ∈ keys, (s.entries key).expired now = false →
      ((s.entries key).lists.getD []).length = 1 → (s.entries key).Drainable .list
  | _ => True

/-- The stores reached by careful steps. A snapshot that is loaded is the dump of such a store,
with documents that can be written and read. -/
inductive ReachCareful (R : Runtime) : Store → Prop where
  | new : ReachCareful R Store.new
  | step {s : Store} (now : Time) (op : Op) (reached : ReachCareful R s)
      (noLoad : op.isLoad = false) (careful : op.Careful now s) :
      ReachCareful R (op.apply R now s)
  | load {s t : Store} (now then_ : Time) (hint hint' : List Bytes)
      (reached : ReachCareful R s) (dumped : ReachCareful R t)
      (readable : ∀ k doc, (t.entries k).jsons = some doc →
        ∃ doc', R.unmarshal (docText R doc) = .ok doc') :
      ReachCareful R (s.load R now hint (t.dump R then_ hint').1)

/-! ## Entries -/

namespace Entry.Anchored

variable {e e' : Entry} {c : Cell} {now : Time}

theorem empty : empty.Anchored := fun _ => ⟨rfl, rfl, rfl⟩

theorem purged (h : e.Anchored) (now : Time) : (e.purged now).Anchored := by
  unfold Entry.purged
  split
  · exact empty
  · exact h

theorem purge (h : c.toEntry.Anchored) (now : Time) : (c.purge now).toEntry.Anchored := by
  rw [purge_toEntry]
  exact h.purged now

theorem stays (h : e.Anchored) (hs : e.Stays now e') : e'.Anchored := by
  rcases hs with rfl | rfl
  · exact h
  · exact h.purged now

theorem of_has (t : DataType) (ht : e.has t = true) : e.Anchored := by
  intro hnone
  rw [hnone t] at ht
  exact Bool.noConfusion ht

theorem of_existsAt (h : e.existsAt now = true) (hdata : e'.toData = e.toData) : e'.Anchored := by
  simp only [existsAt, Bool.and_eq_true] at h
  obtain ⟨t, -, ht⟩ := List.any_eq_true.mp h.2
  exact of_has t (by rw [hdata]; exact ht)

theorem mono (h : e.Anchored) (hhas : ∀ t, e.has t = true → e'.has t = true)
    (hexp : e.expires = none → e'.expires = none)
    (hnb : e.notBefore = none → e'.notBefore = none) (htags : e.tags = none → e'.tags = none) :
    e'.Anchored := by
  intro hnone
  have hplain : e.Plain := by
    refine h (fun t => Bool.eq_false_iff.mpr (fun ht => ?_))
    have ht' := hhas t ht
    rw [hnone t] at ht'
    exact Bool.noConfusion ht'
  exact ⟨hexp hplain.expires, hnb hplain.notBefore, htags hplain.tags⟩

theorem aside (h : e.Anchored) (hdata : e'.toData = e.toData) (hexp : e'.expires = e.expires)
    (hnb : e'.notBefore = e.notBefore) (htags : e'.tags = e.tags) : e'.Anchored := by
  refine h.mono (fun t ht => ?_) hexp.trans hnb.trans htags.trans
  rw [hdata]
  exact ht

theorem drained (own : DataType) (hframe : SameBut own e.toData e'.toData)
    (hplain : e.conflicts own = false → e'.Plain) : e'.Anchored := by
  intro hnone
  refine hplain (conflicts_eq_false.mpr ?_)
  intro t ht
  rw [← hframe.has_eq ht]
  exact hnone t

theorem dropped (own : DataType) (hframe : SameBut own e.toData e'.toData)
    (hexp : e'.expires = none) (hnb : e'.notBefore = e.notBefore) (htags : e'.tags = e.tags)
    (h : e.Drainable own) : e'.Anchored := by
  refine drained own hframe (fun hfree => ⟨hexp, ?_, ?_⟩)
  · rw [hnb]
    exact (h hfree).1
  · rw [htags]
    exact (h hfree).2

end Entry.Anchored

theorem Entry.Drainable.congr {e e' : Entry} {own : DataType} (h : e.Drainable own)
    (hframe : SameBut own e.toData e'.toData) (hnb : e'.notBefore = e.notBefore)
    (htags : e'.tags = e.tags) : e'.Drainable own := by
  intro hfree
  have hunmarked : e.Unmarked := by
    refine h (conflicts_eq_false.mpr (fun t ht => ?_))
    rw [← hframe.has_eq ht]
    exact conflicts_eq_false.mp hfree t ht
  exact ⟨hnb.trans hunmarked.1, htags.trans hunmarked.2⟩

/-! ## Operations on one key -/

namespace Cell

variable {R : Runtime} {now : Time} {c : Cell}

theorem setList_anchored {items : List Bytes}
    (h : items = [] → c.toEntry.Drainable .list) : (c.setList items).toEntry.Anchored := by
  unfold setList
  split
  · rename_i hempty
    exact .dropped (e := c.toEntry) .list rfl rfl rfl rfl (h hempty)
  · exact .of_has .list rfl

theorem setList_drainable {items : List Bytes} (h : c.toEntry.Drainable .list) :
    (c.setList items).toEntry.Drainable .list := by
  refine h.congr (setList_sameBut c items) ?_ ?_
  · unfold setList
    split <;> rfl
  · unfold setList
    split <;> rfl

theorem pushList_cases (now : Time) (c : Cell) (left : Bool) (values : List Bytes) :
    (∃ e, (c.pushList now left values).1 = .error e
      ∧ c.toEntry.Stays now (c.pushList now left values).2.toEntry)
    ∨ ((c.pushList now left values).1 = .ok ()
      ∧ (c.pushList now left values).2.toEntry = { c.toEntry.purged now with
          lists := some (pushValues left values ((c.toEntry.purged now).lists.getD [])) }) := by
  rw [← purge_toEntry]
  unfold pushList
  split
  · exact .inl ⟨_, rfl, .refl _⟩
  dsimp only
  split
  · exact .inl ⟨_, rfl, .purge c⟩
  · exact .inr ⟨rfl, rfl⟩

/-- `Sort` of an expired key drops the list of the destination and nothing else. -/
theorem dropList_anchored (h : c.toEntry.conflicts .list = false → c.toEntry.Plain) :
    ({ c with lists := none }.touch).toEntry.Anchored := by
  refine .drained (e := c.toEntry) .list rfl ?_
  intro hfree
  exact ⟨(h hfree).expires, (h hfree).notBefore, (h hfree).tags⟩

theorem setSet_anchored {members : Finset Bytes}
    (h : members = ∅ → c.toEntry.Drainable .set) : (c.setSet members).toEntry.Anchored := by
  unfold setSet
  split
  · rename_i hempty
    exact .dropped (e := c.toEntry) .set rfl rfl rfl rfl (h hempty)
  · exact .of_has .set rfl

theorem setZSet_anchored {z : SortedSet}
    (h : z.len = 0 → c.toEntry.Drainable .zset) : (c.setZSet z).toEntry.Anchored := by
  unfold setZSet
  split
  · rename_i hempty
    exact .dropped (e := c.toEntry) .zset rfl rfl rfl rfl (h hempty)
  · exact .of_has .zset rfl

theorem prepareStreamID_anchored (now : Time) (h : c.toEntry.Anchored) (id : Bytes) :
    (c.prepareStreamID now id).2.toEntry.Anchored := by
  unfold prepareStreamID
  (repeat' split) <;> first | exact h | exact h.aside rfl rfl rfl rfl

variable (h : c.toEntry.Anchored)
include h

theorem hDel_anchored (fields : List Bytes)
    (hdrain : (CellOp.hDel fields).Careful now c.toEntry) :
    (c.hDel now fields).2.toEntry.Anchored := by
  unfold hDel
  split
  · exact h.purge now
  rename_i hlive
  split
  · exact h
  split
  · exact h
  · rename_i hash hhash
    dsimp only
    have hcell : (if (fields.foldl hashDelete (0, hash)).2.isEmpty
        then { c with hashes := none, expires := none }
        else { c with hashes := some (fields.foldl hashDelete (0, hash)).2 }).toEntry.Anchored := by
      split
      · rename_i hempty
        have hdrains : (CellOp.hDel fields).drains c.toEntry = some .hash := by
          simp [CellOp.drains, hhash, hempty]
        exact .dropped (e := c.toEntry) .hash rfl rfl rfl rfl
          (hdrain .hash hdrains (eq_false_of_ne_true hlive))
      · exact .of_has .hash rfl
    split <;> exact hcell

theorem popList_anchored (left : Bool)
    (hdrain : (CellOp.popList left).Careful now c.toEntry) :
    (c.popList now left).2.toEntry.Anchored := by
  unfold popList
  split
  · exact h.purge now
  rename_i hlive
  split
  · exact h
  split
  · exact h
  · rename_i value rest hpop
    refine setList_anchored (fun hempty => hdrain .list ?_ (eq_false_of_ne_true hlive))
    simp [CellOp.drains, hpop, hempty]

theorem lRem_anchored (count : Int) (element : Bytes)
    (hdrain : (CellOp.lRem count element).Careful now c.toEntry) :
    (c.lRem now count element).2.toEntry.Anchored := by
  unfold lRem
  split
  · exact h.purge now
  rename_i hlive
  split
  · exact h
  dsimp only
  split
  · exact h
  · have hcell : (c.setList (lRemKept count element (c.lists.getD []))).toEntry.Anchored := by
      refine setList_anchored (fun hempty => hdrain .list ?_ (eq_false_of_ne_true hlive))
      simp [CellOp.drains, hempty]
    split <;> exact hcell

theorem sRem_anchored (members : List Bytes)
    (hdrain : (CellOp.sRem members).Careful now c.toEntry) :
    (c.sRem now members).2.toEntry.Anchored := by
  unfold sRem
  split
  · exact h.purge now
  rename_i hlive
  split
  · exact h
  dsimp only
  split
  · exact h
  · refine setSet_anchored (fun hempty => hdrain .set ?_ (eq_false_of_ne_true hlive))
    exact if_pos hempty

theorem sPop_anchored (count : Int) (hint : List Bytes)
    (hdrain : (CellOp.sPop count hint).Careful now c.toEntry) :
    (c.sPop now count hint).2.toEntry.Anchored := by
  unfold sPop
  split
  · exact h.purge now
  rename_i hlive
  split
  · exact h
  dsimp only
  split
  · exact h
  · refine setSet_anchored (fun hempty => hdrain .set ?_ (eq_false_of_ne_true hlive))
    exact if_pos hempty

theorem zRem_anchored (members : List Bytes)
    (hdrain : (CellOp.zRem members).Careful now c.toEntry) :
    (c.zRem now members).2.toEntry.Anchored := by
  unfold zRem
  split
  · exact h.purge now
  rename_i hlive
  split
  · exact h
  split
  · exact h
  · rename_i z hz
    split
    · exact h
    · dsimp only
      have hcell : (c.setZSet (members.foldl zsetRemove (0, z)).2).toEntry.Anchored := by
        refine setZSet_anchored (fun hempty => hdrain .zset ?_ (eq_false_of_ne_true hlive))
        simp [CellOp.drains, hz, hempty]
      split <;> exact hcell

theorem zPop_anchored (pop : SortedSet → List ZMember × SortedSet)
    (hdrain : ∀ z, c.zsets = some z → (pop z).2.len = 0 → c.expired now = false →
      c.toEntry.Drainable .zset) : (c.zPop now pop).2.toEntry.Anchored := by
  unfold zPop
  split
  · exact h.purge now
  rename_i hlive
  split
  · exact h
  split
  · exact h
  · rename_i z hz
    split
    · exact h
    · exact setZSet_anchored
        (fun hempty => hdrain z hz hempty (eq_false_of_ne_true hlive))

theorem xAdd_anchored (id : Bytes) (fields : List Bytes) :
    (c.xAdd now id fields).2.toEntry.Anchored := by
  have hprepared := prepareStreamID_anchored now (h.purge now) id
  unfold xAdd
  dsimp only
  split
  · exact h
  split
  · exact h.purge now
  split
  · rename_i heq
    rw [heq] at hprepared
    exact hprepared
  · exact .of_has .stream rfl

/-- `JSONDel` of the whole document leaves the expiry as well. -/
theorem jsonDel_anchored (path : Bytes)
    (hdrain : (CellOp.jsonDel path).Careful now c.toEntry) :
    (c.jsonDel now path).2.toEntry.Anchored := by
  unfold jsonDel
  split
  · exact h.purge now
  rename_i hlive
  split
  · exact h
  · rename_i doc hdoc
    split
    · rename_i hroot
      refine .drained (e := c.toEntry) .json rfl ?_
      intro hfree
      have hplain := hdrain (eq_false_of_ne_true hlive) (by simp [Data.has, hdoc]) hroot hfree
      exact ⟨hplain.expires, hplain.notBefore, hplain.tags⟩
    · split
      · exact h
      · exact .of_has .json rfl

end Cell

/-- The type of the value that an operation leaves if it writes. -/
def CellOp.writes : CellOp → Option DataType
  | .set .. | .setAbsolute .. | .setDelayed .. | .setNX .. | .setXX .. | .getSet .. | .incrBy ..
  | .incrByFloat .. | .append .. | .setRange .. | .setBit .. => some .string
  | .hSet .. | .hIncrBy .. | .hSetNX .. => some .hash
  | .lSet .. | .lInsert .. => some .list
  | .sAdd .. => some .set
  | .zAdd .. | .zIncrBy .. => some .zset
  | .xAddPrepared .. | .xTrim .. => some .stream
  | .pfAdd .. => some .hll
  | .jsonSet .. | .jsonNumIncrBy .. | .jsonArrAppend .. => some .json
  | .tsAdd .. => some .timeseries
  | _ => none

section
variable {R : Runtime} {now : Time} {c : Cell} {op : CellOp}

theorem CellOp.run_writes {t : DataType} (ht : op.writes = some t) :
    c.toEntry.Stays now (op.run R now c).toEntry ∨ (op.run R now c).has t = true := by
  cases op <;> cases ht
  all_goals
    simp only [run, call, reported, Cell.set, Cell.setAbsolute, Cell.setDelayed, Cell.setNX,
      Cell.setXX, Cell.getSet, Cell.incrBy, Cell.incrByFloat, Cell.append, Cell.setRange,
      Cell.setBit, Cell.hSet, Cell.hIncrBy, Cell.hSetNX, Cell.lSet, Cell.lInsert, Cell.sAdd,
      Cell.zAdd, Cell.zIncrBy, Cell.xAddPrepared, Cell.xTrim, Cell.pfAdd, Cell.jsonSet,
      Cell.jsonNumIncrBy, Cell.jsonArrAppend, Cell.tsAdd]
    (repeat' split) <;> first | exact .inl (.refl _) | exact .inl (.purge c) | exact .inr rfl

theorem CellOp.run_anchored (h : c.toEntry.Anchored) (hop : op.Careful now c.toEntry) :
    (op.run R now c).toEntry.Anchored := by
  cases hwrites : op.writes with
  | some t => exact (run_writes hwrites).elim h.stays (.of_has t)
  | none =>
  cases op with
  | hDel => exact hDel_anchored h _ hop
  | popList => exact popList_anchored h _ hop
  | lRem => exact lRem_anchored h _ _ hop
  | sRem => exact sRem_anchored h _ hop
  | sPop => exact sPop_anchored h _ _ hop
  | zRem => exact zRem_anchored h _ hop
  | zPopMin | zPopMax =>
    refine zPop_anchored h _ (fun z hz hempty => hop .zset ?_)
    simp [CellOp.drains, hz, hempty]
  | jsonDel => exact jsonDel_anchored h _ hop
  | getEx | getDel =>
    simp only [run, call, Cell.getEx, Cell.getDel]
    (repeat' split) <;> first
      | exact h
      | exact h.purge now
      | exact .empty
      | exact .of_has .string (by simp [Data.has, *])
  | expire | expireAt | persist | tagSet =>
    simp only [run, call, reported, Cell.expire, Cell.expireAt, Cell.persist, Cell.tagSet]
    (repeat' split) <;> first
      | exact h
      | exact h.purge now
      | exact .of_existsAt (show c.existsAt now = true by simp_all) rfl
  | xAdd id fields => exact xAdd_anchored h id fields
  | nextStreamID id =>
    simp only [run, call, reported, Cell.nextStreamID]
    split
    · exact h.purge now
    · exact Cell.prepareStreamID_anchored now (h.purge now) id
  | xGroupCreate | xGroupDeliver | xAck | xClaim | xAutoClaim | dequeue | qAck | qNack | rateLimit
  | rateLimitReset =>
    simp only [run, call, reported, Cell.xGroupCreate, Cell.xGroupDeliver, Cell.xAck, Cell.xClaim,
      Cell.xAutoClaim, Cell.dequeue, Cell.qAck, Cell.qNack, Cell.rateLimit, Cell.rateLimitReset]
    (repeat' split) <;> first
      | exact h
      | exact h.purge now
      | exact h.aside rfl rfl rfl rfl
      | exact (h.purge now).aside rfl rfl rfl rfl
  | tagDel =>
    simp only [run, call, Cell.tagDel]
    split
    · exact h
    · rename_i tags htags
      refine h.mono (fun _ => id) id id (fun hnone => ?_)
      exact absurd (hnone.symm.trans htags) (by simp)
  | _ => cases hwrites

end

/-! ## Operations on several keys -/

/-- Every key of the store is anchored. -/
def Store.Anchored (s : Store) : Prop := ∀ k, (s.entries k).Anchored

namespace Store.Anchored

variable {R : Runtime} {now : Time} {s : Store} {key src dst : Bytes}

theorem of_entries {s' : Store} (h : s.Anchored) (heq : s'.entries = s.entries) : s'.Anchored := by
  intro k
  rw [heq]
  exact h k

theorem put_but {c : Cell} (h : ∀ k, k ≠ key → (s.entries k).Anchored)
    (hc : c.toEntry.Anchored) : (s.put key c).Anchored := by
  intro k
  rw [put_entries_apply]
  split
  · exact hc
  · rename_i hk
    exact h k hk

theorem put (h : s.Anchored) {c : Cell} (hc : c.toEntry.Anchored) : (s.put key c).Anchored :=
  put_but (fun k _ => h k) hc

theorem purgeKey (h : s.Anchored) (now : Time) (key : Bytes) : (s.purgeKey now key).Anchored :=
  h.put ((h key).purge now)

theorem edits {s' : Store} (h : s.Anchored)
    (hedits : s.Edits (fun _ c c' => c.toEntry.Anchored → c'.toEntry.Anchored) s') :
    s'.Anchored := by
  induction hedits with
  | refl => exact h
  | put _ hw ih => exact ih.put (hw (ih _))
  | touch _ keys ih => exact ih
  | aside _ hentries _ _ ih => exact ih.of_entries hentries

theorem renameMoved_anchored {e : Entry}
    (h : e.hasAny [.string, .hash, .list, .set, .zset, .stream, .hll] = false →
      e.expires = none) : (renameMoved e empty).Anchored := by
  intro hnone
  refine ⟨?_, rfl, rfl⟩
  have hexp : e.expires = none := by
    refine h (List.any_eq_false.mpr ?_)
    intro t ht hhas
    have hmoved := hnone t
    cases t <;> simp_all [renameMoved, empty, Data.empty, Data.has]
  simp [renameMoved, hexp, empty]

theorem renameLeft_anchored {e : Entry}
    (h : e.has .json = false → e.has .timeseries = false → e.Unmarked) :
    (renameLeft e).Anchored := by
  intro hnone
  have hunmarked := h (hnone .json) (hnone .timeseries)
  exact ⟨rfl, hunmarked.1, hunmarked.2⟩

theorem rename (h : s.Anchored) (newkey : Bytes)
    (hop : (Op.rename key newkey).Careful now s) : (s.rename now key newkey).2.Anchored := by
  rcases rename_cases now key newkey s with ⟨-, heq⟩ | ⟨hexists, -, hentries⟩
  · rw [heq]
    exact h.purgeKey now key
  · intro k
    rw [hentries]
    unfold renamed
    split
    · split
      · exact .empty
      · exact renameMoved_anchored (hop ‹_› hexists).2
    split
    · rename_i hnew hk
      exact renameLeft_anchored (hop (hk ▸ hnew) hexists).1
    · exact h k

theorem copyOnto_anchored {e d : Entry} (hd : d.Anchored)
    (h : e.hasAny [.string, .hash, .list, .set, .zset, .stream, .hll] = false →
      e.expires = none) : (copyOnto e d).Anchored := by
  intro hnone
  have hplain : d.Plain := by
    refine hd (fun t => Bool.eq_false_iff.mpr (fun ht => ?_))
    have hcopied := hnone t
    cases t <;> simp_all [copyOnto, Data.has]
  have hexp : e.expires = none := by
    refine h (List.any_eq_false.mpr ?_)
    intro t ht hhas
    have hcopied := hnone t
    cases t <;> simp_all [copyOnto, Data.has]
  exact ⟨by simp [copyOnto, hexp, hplain.expires], hplain.notBefore, hplain.tags⟩

theorem copy (h : s.Anchored) (replace : Bool) (hop : (Op.copy src dst replace).Careful now s) :
    (s.copy now src dst replace).2.Anchored := by
  rcases copy_cases now src dst replace s with ⟨-, heq⟩ | ⟨hexists, -, hentries⟩
  · rw [heq]
    exact h.purgeKey now src
  · intro k
    rw [hentries]
    unfold copied copyRoom
    split
    · refine copyOnto_anchored ?_ ?_
      · split
        · exact .empty
        · exact (h dst).purged now
      · split
        · exact fun _ => rfl
        · exact hop ‹_› hexists
    · exact h k

theorem sMove (h : s.Anchored) (member : Bytes) (hop : (Op.sMove src dst member).Careful now s) :
    (s.sMove now src dst member).2.Anchored := by
  have hpurged := (h.purgeKey now src).purgeKey now dst
  have hsrc := purgeBoth_src s src dst now
  unfold Store.sMove
  dsimp only
  generalize (s.purgeKey now src).purgeKey now dst = s₁ at hpurged hsrc
  split
  · exact hpurged
  split
  · exact hpurged
  rename_i hmem
  rw [not_not] at hmem
  -- the destination has a set in the end, so only what is left of the source counts
  refine of_entries (put_but ?_ (.of_has .set rfl)) rfl
  intro k hk
  rw [modify_entries]
  split
  · rename_i heq
    subst heq
    refine setSet_anchored (fun hempty => ?_)
    show (s₁.entries k).Drainable .set
    rw [hsrc]
    refine hop hk ?_
    rw [← hsrc]
    have hset : (s₁.entries k).sets.getD ∅ = {member} := by
      rcases (Finset.erase_eq_empty_iff _ _).mp hempty with hnone | hone
      · exact absurd (hnone ▸ hmem) (Finset.notMem_empty _)
      · exact hone
    cases hs : (s₁.entries k).sets with
    | none => simp [hs] at hmem
    | some set =>
      rw [hs] at hset
      exact congrArg some hset
  · exact hpurged k

theorem sort (h : s.Anchored) (alpha desc : Bool) (offset count : Int) (storeKey : Option Bytes)
    (hint : List Bytes) (hop : (Op.sort key alpha desc offset count storeKey hint).Careful now s) :
    (s.sort R now key alpha desc offset count storeKey hint).2.Anchored := by
  unfold Store.sort
  split
  · rename_i hexp
    cases storeKey with
    | none => exact h.purgeKey now key
    | some dst =>
      refine (h.purgeKey now key).put (dropList_anchored ?_)
      rw [cell_toEntry, purgeKey_entries]
      split
      · have hgone : (s.entries key).purged now = empty := if_pos hexp
        rw [hgone]
        exact fun _ => ⟨rfl, rfl, rfl⟩
      · rename_i hkey
        exact hop hexp hkey
  split
  · split
    · exact h
    cases storeKey with
    | none => exact h
    | some dst => exact h.put .empty
  split
  · exact h
  · cases storeKey with
    | none => exact h
    | some dst =>
      refine h.put ?_
      unfold sortStore
      split
      · exact .empty
      · exact .of_has .list rfl

/-! ## Lists and blocked clients -/

theorem wakeLoop (ws : List Nat) (h : s.Anchored)
    (hdrain : ((s.entries key).lists.getD []).length ≤ ws.length →
      (s.entries key).Drainable .list) : (wakeLoop key ws s).Anchored := by
  induction ws generalizing s with
  | nil => exact h
  | cons w rest ih =>
    unfold wakeLoop
    split
    · exact h
    rename_i value items hpop
    have hlen := popValue_length hpop
    have hentries := handOver_entries key w rest value items s
    refine ih ?_ ?_
    · refine of_entries (h.put (setList_anchored (fun hempty => ?_))) hentries
      refine hdrain ?_
      rw [hlen, hempty]
      exact Nat.succ_le_succ (Nat.zero_le _)
    · rw [hentries, put_entries_self, setList_listAt]
      intro hle
      refine setList_drainable (hdrain ?_)
      rw [hlen]
      exact Nat.succ_le_succ hle

theorem pushList (h : s.Anchored) (left : Bool) (values : List Bytes)
    (hop : (Op.pushList key left values).Careful now s) :
    (s.pushList now key left values).2.Anchored := by
  unfold Store.pushList onKey
  dsimp only
  rcases pushList_cases now (s.cell key) left values with
    ⟨e, hres, hstays⟩ | ⟨hres, hcell⟩
  · rw [hres]
    exact h.put ((h key).stays hstays)
  · rw [hres]
    have hpushed : ((Cell.pushList now left values (s.cell key)).2.toEntry).Anchored := by
      rw [hcell]
      exact .of_has .list rfl
    refine wakeLoop _ (h.put hpushed) ?_
    rw [put_entries_self, hcell]
    intro hle
    refine Entry.Drainable.congr (e := (s.entries key).purged now) (hop ?_) rfl rfl rfl
    refine Nat.le_trans (Nat.le_of_eq ?_) hle
    exact (pushValues_length ..).symm

theorem bPopTry (h : s.Anchored) (left : Bool) (keys : List Bytes)
    (hop : (Op.bPop keys left).Careful now s) : (bPopTry now left keys s).2.Anchored := by
  induction keys generalizing s with
  | nil => exact h
  | cons key rest ih =>
    obtain ⟨hkey, hrest⟩ := List.forall_mem_cons.mp hop
    unfold bPopTry onKey bPopCell
    by_cases hexp : (s.cell key).expired now = true
    · rw [if_pos hexp]
      refine ih (h.put ((h key).purge now)) ?_
      intro k hk
      rw [put_entries_apply]
      split
      · have hgone : ((s.cell key).purge now).toEntry = empty := by
          rw [purge_toEntry]
          exact if_pos hexp
        rw [hgone]
        intro _ hone
        cases hone
      · exact hrest k hk
    · rw [if_neg hexp]
      cases hpop : popValue left ((s.cell key).lists.getD []) with
      | none =>
        refine ih (h.put (h key)) ?_
        intro k hk
        rw [put_entries_apply]
        split
        · rename_i heq
          rw [heq] at hk
          exact hrest key hk
        · exact hrest k hk
      | some r =>
        refine h.put (setList_anchored (fun hempty => ?_))
        refine hkey (eq_false_of_ne_true hexp) ?_
        have hlen := popValue_length hpop
        rw [hempty] at hlen
        exact hlen

theorem touchKeys_modify_entries (s : Store) (key : Bytes) (f : Cell → Cell) (keys : List Bytes) :
    ((s.modify key f).touchKeys keys).entries key = (f (s.cell key)).toEntry := by
  show (s.modify key f).entries key = _
  rw [modify_entries, if_pos rfl]

/-- The writes of `LMove`. The destination has a list before its clients are served, so only
what is left of another source counts until then. -/
theorem lMoveWrite (h : s.Anchored) (dstLeft : Bool) (value : Bytes) (rest : List Bytes)
    (hsrc : src ≠ dst → rest = [] → (s.entries src).Drainable .list)
    (hdst : (if src = dst then rest.length else ((s.entries dst).lists.getD []).length) + 1
      ≤ (s.listWaits dst).length → (s.entries dst).Drainable .list) :
    (s.lMoveWrite src dst dstLeft value rest).Anchored := by
  have htaken : ∀ k, k ≠ dst → ((s.modify src (setList rest)).entries k).Anchored := by
    intro k hk
    rw [modify_entries]
    split
    · rename_i heq
      subst heq
      exact setList_anchored (hsrc hk)
    · exact h k
  have hleft : ((s.modify src (setList rest)).entries dst).lists.getD []
      = if src = dst then rest else (s.entries dst).lists.getD [] := by
    rw [modify_entries]
    by_cases hkey : dst = src
    · rw [if_pos hkey, if_pos hkey.symm, setList_listAt]
    · rw [if_neg hkey, if_neg (Ne.symm hkey)]
  have hmarks : (s.entries dst).Drainable .list →
      ((s.modify src (setList rest)).entries dst).Drainable .list := by
    intro hdrain
    rw [modify_entries]
    split
    · rename_i heq
      exact setList_drainable (heq ▸ hdrain)
    · exact hdrain
  refine wakeLoop _ (of_entries (put_but htaken (.of_has .list rfl)) rfl) ?_
  rw [touchKeys_modify_entries]
  intro hle
  refine (hmarks (hdst ?_)).congr rfl rfl rfl
  refine Nat.le_trans (Nat.le_of_eq ?_) hle
  refine Eq.trans ?_ (pushValues_length ..).symm
  rw [cell_toEntry, hleft]
  split <;> rfl

theorem lMove (h : s.Anchored) (srcLeft dstLeft : Bool)
    (hop : (Op.lMove src dst srcLeft dstLeft).Careful now s) :
    (s.lMove now src dst srcLeft dstLeft).2.Anchored := by
  obtain ⟨hsrc, hdst⟩ := hop
  have hpurged := h.purgeKey now src
  have hboth := hpurged.purgeKey now dst
  rcases lMove_cases now src dst srcLeft dstLeft s with
    ⟨r, -, heq | heq⟩ | ⟨value, rest, hpop, -, -, heq⟩
  · rw [heq]
    exact hpurged
  · rw [heq]
    exact hboth
  have hlen := popValue_length hpop
  rw [heq]
  refine hboth.lMoveWrite dstLeft value rest ?_ ?_
  · intro hne hempty
    rw [purgeBoth_src]
    refine hsrc hne ?_
    rw [hlen, hempty]
    rfl
  · rw [purgeBoth_dst]
    intro hle
    refine hdst (Nat.le_trans (Nat.le_of_eq ?_) hle)
    by_cases hkey : src = dst
    · rw [if_pos hkey, if_pos hkey, ← hkey, hlen]
    · rw [if_neg hkey, if_neg hkey]

end Store.Anchored

/-! ## Runs -/

section
variable {R : Runtime} {now : Time} {s : Store}

theorem load_dump_anchored {t : Store} (h : t.Anchored) (s : Store) (then_ : Time)
    (hint hint' : List Bytes) (hread : ∀ k doc, (t.entries k).jsons = some doc →
      ∃ doc', R.unmarshal (docText R doc) = .ok doc') :
    (s.load R now hint (t.dump R then_ hint').1).Anchored := by
  intro k
  rw [load_entries, dump_entries]
  refine Entry.Anchored.purged ?_ now
  refine ((h k).purged then_).mono ?_ id id id
  intro u hu
  cases u with
  | json =>
    obtain ⟨doc, hdoc⟩ := Option.isSome_iff_exists.mp hu
    have hold : (t.entries k).jsons = some doc := by
      unfold purged at hdoc
      split at hdoc
      · exact nomatch hdoc
      · exact hdoc
    obtain ⟨doc', hdoc'⟩ := hread k doc hold
    show (((((t.entries k).purged then_).jsons.map (docText R)).bind
      (fun raw => (R.unmarshal raw).toOption)).isSome) = true
    rw [hdoc, Option.map_some, Option.bind_some, hdoc']
    rfl
  | set | zset => simpa [Data.has, loadEntry, SnapEntry.restore, snap] using hu
  | _ => exact hu

theorem Op.apply_anchored {op : Op} (hload : op.isLoad = false) (hop : op.Careful now s)
    (h : s.Anchored) : (op.apply R now s).Anchored := by
  have hpurge : ∀ {α : Type} (_ : α) (_ : Bytes) (c : Cell), c.toEntry.Anchored →
      (c.purge now).toEntry.Anchored := fun _ _ _ hc => hc.purge now
  cases op with
  | cell => exact h.put (CellOp.run_anchored (h _) hop)
  | geoAdd => exact h.put (@CellOp.run_anchored R _ _ (.zAdd _) (h _) (fun _ ht => nomatch ht))
  | enqueue => exact h.edits (edits_enqueue _ _ _ (fun _ _ hc => hc.aside rfl rfl rfl rfl))
  | del keys =>
    refine h.edits (edits_del keys (fun _ _ c hc => ?_))
    unfold delCell
    (repeat' split) <;> first | exact hc | exact hc.purge now | exact .empty
  | mSetNX =>
    exact h.edits (edits_mSetNX (W := fun _ => _) _ hpurge (fun _ _ _ _ => .of_has .string rfl))
  | rename => exact h.rename _ hop
  | copy => exact h.copy _ hop
  | sMove => exact h.sMove _ hop
  | pfMerge dest srcs =>
    refine h.edits (edits_pfMerge (hpurge ()) srcs (fun _ _ hh hc => hc.mono ?_ id id id))
    intro u hu
    cases u with
    | hll => exact hh hu
    | _ => exact hu
  | bitOp =>
    exact h.edits (edits_bitOp (W := fun _ => _) _ _ hpurge (fun _ _ _ _ => .of_has .string rfl))
  | tsDownsample =>
    exact h.edits (edits_tsDownsample (W := fun _ => _) hpurge (fun _ _ _ _ => .of_has .timeseries
      rfl))
  | sort => exact h.sort _ _ _ _ _ _ hop
  | pushList => exact h.pushList _ _ hop
  | lMove => exact h.lMove _ _ hop
  | bPop keys left =>
    have hpop := h.bPopTry left keys hop
    simp only [Op.apply, bPopStart]
    generalize bPopTry now left keys s = r at hpop
    obtain ⟨res, s'⟩ := r
    cases res <;> exact hpop
  | removeListWaiter => exact h
  | flushDB => exact fun _ => .empty
  | stats hint | dump hint =>
    intro k
    show ((s.purgeExpired now hint).entries k).Anchored
    rw [purgeExpired_entries]
    exact (h k).purged now
  | load => exact Bool.noConfusion hload
  | sampleExpired hint =>
    refine h.edits (edits_sampleExpired hint (fun _ c hc => ?_) (fun _ c hc => ?_)
      (fun _ c hc => ?_))
    · unfold sampleCell
      (repeat' split) <;> first | exact hc | exact .empty
    · refine hc.mono (fun _ => id) id (fun hnone => ?_) id
      show c.notBefore.filter _ = none
      rw [hnone]
      rfl
    · unfold sweepTags
      split
      · exact hc
      dsimp only
      split
      · exact hc.purge now
      · exact (hc.purge now).mono (fun _ => id) id id (fun _ => rfl)
  | evict => exact h.edits (edits_evict _ (fun _ _ _ => .empty))

/-- **No stale metadata.** In a run of careful steps, at whatever times, a key that is in none of
the nine type maps has no expiry, no delay and no tags. -/
theorem reach_anchored (R : Runtime) (s : Store) (h : ReachCareful R s) (k : Bytes)
    (hk : ∀ t, (s.entries k).has t = false) : (s.entries k).Plain := by
  have hall : s.Anchored := by
    clear hk
    induction h with
    | new => exact fun _ => .empty
    | step now op _ hload hop ih => exact Op.apply_anchored hload hop ih
    | load now then_ hint hint' _ _ hread _ ih =>
      exact load_dump_anchored ih _ then_ hint hint' hread
  exact hall k hk

/-- A hash is filled and emptied: careful steps, since the key has no tags. -/
theorem reach_anchored_hash :
    let s := (Op.cell (bytes "k") (.hDel [bytes "f"])).apply default 1
      ((Op.cell (bytes "k") (.hSet [(bytes "f", bytes "v")])).apply default 1 Store.new)
    ReachCareful (default : Runtime) s ∧ (∀ t, (s.entries (bytes "k")).has t = false) ∧
      (s.entries (bytes "k")).Plain := by
  suffices h : _ ∧ _ from ⟨h.1, h.2, reach_anchored default _ h.1 (bytes "k") h.2⟩
  constructor
  · refine .step 1 _ (.step 1 _ .new rfl (fun _ ht => nomatch ht)) rfl ?_
    intro t _ _ _
    exact ⟨rfl, rfl⟩
  · intro t
    cases t <;> decide

/-- A runtime that reads every text as the document `null`. -/
def nullRuntime : Runtime := { (default : Runtime) with unmarshal := fun _ => .ok .null }

/-- A document with an expiry is deleted. -/
def deletedDocument : List (Time × Op) :=
  [(1, .cell (bytes "k") (.jsonSet (bytes "$") (bytes "null"))),
    (1, .cell (bytes "k") (.expire (100 * second))),
    (1, .cell (bytes "k") (.jsonDel (bytes "$")))]

/-- The last member of a tagged set is removed. -/
def emptiedSet : List (Time × Op) :=
  [(1, .cell (bytes "k") (.sAdd [bytes "a"])),
    (1, .cell (bytes "k") (.tagSet [(bytes "color", bytes "red")])),
    (1, .cell (bytes "k") (.sRem [bytes "a"]))]

/-- A delayed key is renamed after it has become visible. -/
def renamedKey : List (Time × Op) :=
  [(1, .cell (bytes "k") (.setDelayed (bytes "v") second 0)),
    (1 + second, .rename (bytes "k") (bytes "j"))]

/-- Each of the three leaves something under `k`, which no type map holds any more; the hash
that is written there next has the expiry of the document, or the tags of the set. -/
theorem leftovers :
    let key := bytes "k"
    let deleted := Store.after nullRuntime deletedDocument
    let emptied := Store.after default emptiedSet
    let renamed := Store.after default renamedKey
    let hSet : Time × Op := (1, .cell key (.hSet [(bytes "f", bytes "v")]))
    (Reachable nullRuntime deleted ∧ (∀ t, (deleted.entries key).has t = false)
      ∧ (deleted.entries key).expires ≠ none
      ∧ ((Store.after nullRuntime (deletedDocument ++ [hSet])).entries key).ttl 1 = 100)
    ∧ (Reachable (default : Runtime) emptied ∧ (∀ t, (emptied.entries key).has t = false)
      ∧ (emptied.entries key).tags ≠ none
      ∧ ((Store.after default (emptiedSet ++ [hSet])).entries key).tagGet 1 ≠ none)
    ∧ Reachable (default : Runtime) renamed ∧ (∀ t, (renamed.entries key).has t = false)
      ∧ (renamed.entries key).notBefore ≠ none := by
  refine ⟨⟨reachable_after _ (by decide), ?_, by decide, by decide⟩,
    ⟨reachable_after _ (by decide), ?_, by decide, by decide⟩,
    reachable_after _ (by decide), ?_, by decide⟩
  all_goals
    intro t
    cases t <;> decide

end

end Vole
