import Vole.Store.SortedSound
import Vole.Store.StoreOps

/-!
# Sorted sets along a run

Only five operations on a key, `GeoAdd`, `Copy` and `Load` build sorted sets; all others leave
the map of sorted sets alone, move its values or drop them. So a run in which no score becomes
NaN has sound sorted sets throughout.
-/

namespace Vole

open Go Store

/-! ## Operations that build no sorted set -/

namespace Cell

/-- The sorted set of the key is kept or dropped. -/
def ZKept (c c' : Cell) : Prop := c'.zsets = c.zsets ∨ c'.zsets = none

namespace ZKept

variable {c c' c'' : Cell}

theorem same (h : c'.zsets = c.zsets) : ZKept c c' := .inl h

theorem gone (h : c'.zsets = none) : ZKept c c' := .inr h

theorem trans (h : ZKept c c') (h' : ZKept c' c'') : ZKept c c'' := by
  rcases h' with h' | h'
  · rcases h with h | h
    · exact .inl (h'.trans h)
    · exact .inr (h'.trans h)
  · exact .inr h'

theorem purge (now : Time) (h : c'.zsets = (c.purge now).zsets) : ZKept c c' := by
  unfold Cell.purge at h
  split at h
  · exact .inr h
  · exact .inl h

theorem setList (items : List Bytes) : ZKept c (c.setList items) := by
  unfold Cell.setList
  split <;> exact .same rfl

theorem setSet (members : Finset Bytes) : ZKept c (c.setSet members) := by
  unfold Cell.setSet
  split <;> exact .same rfl

theorem prepareStreamID (now : Time) (id : Bytes) : ZKept c (Cell.prepareStreamID now id c).2 := by
  unfold Cell.prepareStreamID
  split
  · exact .same rfl
  split <;> exact .same rfl

theorem sampleCell (now : Time) : ZKept c (sampleCell now c) := by
  unfold Store.sampleCell
  split
  · exact .same rfl
  split
  · exact .gone rfl
  · exact .same rfl

theorem sweepTags (now : Time) : ZKept c (sweepTags now c) := by
  unfold Store.sweepTags
  split
  · exact .same rfl
  dsimp only
  split
  · exact .purge now rfl
  · exact .purge now rfl

theorem delCell (now : Time) : ZKept c (delCell now c).2 := by
  unfold Store.delCell
  split
  · exact .purge now rfl
  split
  · exact .gone rfl
  · exact .same rfl

theorem bPopCell (now : Time) (left : Bool) : ZKept c (bPopCell now left c).2 := by
  unfold Store.bPopCell
  split
  · exact .purge now rfl
  split
  · exact .same rfl
  · exact setList _

theorem sortStore (elements : List Bytes) : ZKept c (sortStore elements c) := by
  unfold Store.sortStore
  split <;> exact .gone rfl

theorem pushList (now : Time) (left : Bool) (values : List Bytes) :
    ZKept c (Cell.pushList now left values c).2 := by
  unfold Cell.pushList
  split
  · exact .same rfl
  dsimp only
  split <;> exact .purge now rfl

end ZKept

end Cell

/-- The operations on one key that write its sorted set. -/
def CellOp.onZSets : CellOp → Bool
  | .zAdd _ | .zRem _ | .zIncrBy _ _ | .zPopMin _ | .zPopMax _ => true
  | _ => false

/-- Every other operation leaves the map alone, drops its value, or has deleted the expired
key before it began. -/
theorem CellOp.run_zKept {R : Runtime} {now : Time} {c : Cell} {op : CellOp}
    (hop : op.onZSets = false) : Cell.ZKept c (op.run R now c) := by
  cases op with
  | zAdd | zRem | zIncrBy | zPopMin | zPopMax => exact Bool.noConfusion hop
  | set | setAbsolute | setDelayed => exact .gone rfl
  | setNX | incrBy | incrByFloat | append | setRange | setBit | getEx
  | expire | expireAt | persist | hSet | hDel | hIncrBy | hSetNX
  | xAddPrepared | xTrim | xGroupCreate | xGroupDeliver | xAck
  | xClaim | xAutoClaim | dequeue | qAck | qNack | tagSet | tagDel
  | rateLimit | rateLimitReset =>
    simp only [run, call, Cell.reported, Cell.setNX, Cell.incrBy, Cell.incrByFloat, Cell.append, Cell.setRange,
      Cell.setBit, Cell.getEx, Cell.expire, Cell.expireAt, Cell.persist, Cell.hSet, Cell.hDel,
      Cell.hIncrBy, Cell.hSetNX, Cell.xAddPrepared, Cell.xTrim, Cell.xGroupCreate,
      Cell.xGroupDeliver, Cell.xAck, Cell.xClaim, Cell.xAutoClaim, Cell.dequeue, Cell.qAck,
      Cell.qNack, Cell.tagSet, Cell.tagDel, Cell.rateLimit, Cell.rateLimitReset]
    (repeat' split) <;> first | exact .same rfl | exact .purge now rfl
  | setXX | getSet | getDel | pfAdd | jsonSet | jsonDel | jsonNumIncrBy
  | jsonArrAppend | tsAdd =>
    simp only [run, call, Cell.reported, Cell.setXX, Cell.getSet, Cell.getDel, Cell.pfAdd, Cell.jsonSet, Cell.jsonDel,
      Cell.jsonNumIncrBy, Cell.jsonArrAppend, Cell.tsAdd]
    (repeat' split) <;> first | exact .same rfl | exact .gone rfl | exact .purge now rfl
  | popList | lSet | lInsert | lRem =>
    simp only [run, call, Cell.reported, Cell.popList, Cell.lSet, Cell.lInsert, Cell.lRem]
    (repeat' split) <;>
      first | exact .same rfl | exact .purge now rfl | exact .setList _
  | sAdd | sRem | sPop =>
    simp only [run, call, Cell.reported, Cell.sAdd, Cell.sRem, Cell.sPop]
    (repeat' split) <;>
      first | exact .same rfl | exact .purge now rfl | exact .setSet _
  | xAdd id fields =>
    have hprepared := (Cell.ZKept.purge now rfl : Cell.ZKept c (c.purge now)).trans
      (.prepareStreamID now id)
    simp only [run, call, Cell.reported, Cell.xAdd]
    (repeat' split) <;> first | exact .same rfl | exact .purge now rfl | skip
    all_goals
      rename_i heq
      rw [heq] at hprepared
      exact hprepared
  | nextStreamID id =>
    simp only [run, call, Cell.reported, Cell.nextStreamID]
    split
    · exact .purge now rfl
    · exact (Cell.ZKept.purge now rfl : Cell.ZKept c (c.purge now)).trans
        (.prepareStreamID now id)

/-! ## Operations that build sorted sets -/

/-- The sorted set of the key, if it has one, is sound. -/
def ZSound (e : Entry) : Prop := ∀ z, e.zsets = some z → z.Sound

/-- The score that `ZIncrBy` is about to write. -/
def Entry.incremented (R : Runtime) (incr : F64) (member : Bytes) (e : Entry) : F64 :=
  R.addFloat (((e.zsets.getD .empty).score member).getD F64.zero) incr

namespace ZSound

variable {e : Entry} {c c' : Cell} {now : Time}

theorem empty : ZSound Entry.empty := nofun

theorem kept (h : ZSound c.toEntry) (hkept : Cell.ZKept c c') : ZSound c'.toEntry := by
  intro z hz
  rcases hkept with hkept | hkept
  · exact h z (hkept.symm.trans hz)
  · cases hkept.symm.trans hz

theorem purge (h : ZSound c.toEntry) (now : Time) : ZSound (c.purge now).toEntry :=
  h.kept (.purge now rfl)

theorem purged (h : ZSound e) (now : Time) : ZSound (e.purged now) := by
  unfold Entry.purged
  split
  · exact empty
  · exact h

theorem getD (h : ZSound e) : (e.zsets.getD .empty).Sound := by
  cases hz : e.zsets with
  | none => exact .empty
  | some z => exact h z hz

theorem setZSet {z : SortedSet} (hz : z.Sound) : ZSound (c.setZSet z).toEntry := by
  intro z' hz'
  unfold Cell.setZSet at hz'
  split at hz'
  · cases hz'
  · cases hz'
    exact hz

variable (h : ZSound c.toEntry)
include h

theorem zAdd {members : List ZMember}
    (hmembers : ∀ m ∈ members, m.score.isNaN = false) : ZSound (c.zAdd now members).2.toEntry := by
  unfold Cell.zAdd
  split
  · exact h
  dsimp only
  split
  · exact h.purge now
  · intro z hz
    cases hz
    exact (h.purge now).getD.foldl_add hmembers 0

theorem zRem (members : List Bytes) :
    ZSound (c.zRem now members).2.toEntry := by
  unfold Cell.zRem
  split
  · exact h.purge now
  split
  · exact h
  split
  · exact h
  · rename_i z hz
    split
    · exact h
    · have hremoved := (h z hz).foldl_remove members 0
      dsimp only
      split
      · exact setZSet hremoved
      · exact setZSet hremoved

theorem zIncrBy {R : Runtime} {incr : F64} {member : Bytes}
    (hscore : ((c.purge now).toEntry.incremented R incr member).isNaN = false) :
    ZSound (c.zIncrBy R now incr member).2.toEntry := by
  have hset := (h.purge now).getD
  unfold Entry.incremented at hscore
  unfold Cell.zIncrBy
  dsimp only
  split
  · exact h.purge now
  · intro z hz
    cases hz
    cases hget : ((c.purge now).zsets.getD .empty).score member with
    | none =>
      rw [hget] at hscore
      exact hset.add member hscore
    | some score =>
      rw [hget] at hscore
      exact (hset.remove member).add member hscore

theorem zPop {pop : SortedSet → List ZMember × SortedSet}
    (hpop : ∀ z, z.Sound → (pop z).2.Sound) : ZSound (c.zPop now pop).2.toEntry := by
  unfold Cell.zPop
  split
  · exact h.purge now
  split
  · exact h
  split
  · exact h
  · rename_i z hz
    split
    · exact h
    · exact setZSet (hpop z (h z hz))

end ZSound

/-! ## Runs -/

/-- The scores that the operation writes are numbers. -/
def Op.Numeric (R : Runtime) (now : Time) (s : Store) : Op → Prop
  | .cell _ (.zAdd members) => ∀ m ∈ members, m.score.isNaN = false
  | .cell key (.zIncrBy incr member) =>
    (((s.entries key).purged now).incremented R incr member).isNaN = false
  | .geoAdd _ members => ∀ m ∈ geoMembers R members, m.score.isNaN = false
  | _ => True

/-- The operations that write scores. -/
def Op.scores : Op → Bool
  | .cell _ (.zAdd _) | .cell _ (.zIncrBy _ _) | .geoAdd _ _ => true
  | _ => false

section
variable {R : Runtime} {now : Time} {s : Store}

theorem Op.numeric_of_scores {op : Op} (h : op.scores = false) : op.Numeric R now s := by
  unfold Op.Numeric
  split
  · cases h
  · cases h
  · cases h
  · trivial

theorem put_zSound (h : ∀ k, ZSound (s.entries k)) {key : Bytes} {c : Cell}
    (hc : ZSound c.toEntry) (k : Bytes) : ZSound ((s.put key c).entries k) := by
  rw [put_entries_apply]
  split
  · exact hc
  · exact h k

theorem CellOp.run_zSound {c : Cell} {op : CellOp} (h : ZSound c.toEntry)
    (hadd : ∀ members, op = .zAdd members → ∀ m ∈ members, m.score.isNaN = false)
    (hincr : ∀ incr member, op = .zIncrBy incr member →
      ((c.purge now).toEntry.incremented R incr member).isNaN = false) :
    ZSound (op.run R now c).toEntry := by
  cases op with
  | zAdd members => exact h.zAdd (hadd members rfl)
  | zRem members => exact h.zRem members
  | zIncrBy incr member => exact h.zIncrBy (hincr incr member rfl)
  | zPopMin count => exact h.zPop (fun _ hz => hz.popMin count)
  | zPopMax count => exact h.zPop (fun _ hz => hz.popMax count)
  | _ => exact h.kept (CellOp.run_zKept rfl)

theorem Store.Edits.zSound {s' : Store} (hedits : s.Edits (fun _ => Cell.ZKept) s')
    (h : ∀ k, ZSound (s.entries k)) : ∀ k, ZSound (s'.entries k) := by
  induction hedits with
  | refl => exact h
  | put _ hw ih => exact put_zSound ih ((ih _).kept hw)
  | touch _ keys ih => exact ih
  | aside _ hentries _ _ ih =>
    intro k
    rw [hentries]
    exact ih k

theorem purgeKey_zSound (h : ∀ k, ZSound (s.entries k)) (key : Bytes) :
    ∀ k, ZSound ((s.purgeKey now key).entries k) := put_zSound h ((h key).purge now)

theorem rename_zSound (h : ∀ k, ZSound (s.entries k)) (key newkey : Bytes) :
    ∀ k, ZSound ((s.rename now key newkey).2.entries k) := by
  rcases rename_cases now key newkey s with ⟨-, heq⟩ | ⟨-, -, hentries⟩
  · rw [heq]
    exact purgeKey_zSound h key
  · intro k
    rw [hentries]
    unfold renamed
    split
    · split
      · exact .empty
      · exact fun z hz => h key z ((Option.or_none).symm.trans hz)
    split
    · exact nofun
    · exact h k

theorem copy_zSound (h : ∀ k, ZSound (s.entries k)) (src dst : Bytes) (replace : Bool) :
    ∀ k, ZSound ((s.copy now src dst replace).2.entries k) := by
  rcases copy_cases now src dst replace s with ⟨-, heq⟩ | ⟨-, -, hentries⟩
  · rw [heq]
    exact purgeKey_zSound h src
  · intro k
    rw [hentries]
    unfold copied copyRoom
    split
    · have hsrc : ZSound (if src = dst then Entry.empty else s.entries src) := by
        split
        · exact .empty
        · exact h src
      have hdst : ZSound (if (s.entries dst).existsAt now then Entry.empty
          else (s.entries dst).purged now) := by
        split
        · exact .empty
        · exact (h dst).purged now
      intro z hz
      rcases Option.or_eq_some_iff.mp hz with hz | ⟨-, hz⟩
      · obtain ⟨old, hold, rfl⟩ := Option.map_eq_some_iff.mp hz
        rw [(hsrc old hold).ofMembers_ordered]
        exact hsrc old hold
      · exact hdst z hz
    · exact h k

theorem load_dump_zSound {t : Store} (h : ∀ k, ZSound (t.entries k)) (s : Store)
    (then_ : Time) (hint hint' : List Bytes) (k : Bytes) :
    ZSound ((s.load R now hint (t.dump R then_ hint').1).entries k) := by
  rw [load_entries, dump_entries]
  refine ZSound.purged ?_ now
  intro z hz
  have hz : (((t.entries k).purged then_).zsets.map (·.ordered)).map SortedSet.ofMembers
      = some z := hz
  rw [Option.map_map] at hz
  obtain ⟨old, hold, rfl⟩ := Option.map_eq_some_iff.mp hz
  have hsound := (h k).purged then_ old hold
  show (SortedSet.ofMembers old.ordered).Sound
  rw [hsound.ofMembers_ordered]
  exact hsound

theorem Op.apply_zSound {op : Op} (hload : op.isLoad = false) (hnum : op.Numeric R now s)
    (h : ∀ k, ZSound (s.entries k)) : ∀ k, ZSound ((op.apply R now s).entries k) := by
  have hpurge : ∀ {α : Type} (_ : α) (_ : Bytes) (c : Cell), Cell.ZKept c (c.purge now) :=
    fun _ _ _ => .purge now rfl
  cases op with
  | cell key op =>
    refine put_zSound h (CellOp.run_zSound (h key) ?_ ?_)
    · rintro members rfl
      exact hnum
    · rintro incr member rfl
      rw [Cell.purge_toEntry]
      exact hnum
  | geoAdd => exact put_zSound h ((h _).zAdd hnum)
  | copy => exact copy_zSound h _ _ _
  | load => exact Bool.noConfusion hload
  | rename => exact rename_zSound h _ _
  | removeListWaiter => exact h
  | flushDB => exact nofun
  | enqueue => exact (edits_enqueue _ _ _ (fun _ _ => .same rfl)).zSound h
  | del => exact (edits_del _ (fun _ _ _ => .delCell now)).zSound h
  | mSetNX =>
    exact (edits_mSetNX (W := fun _ _ => Cell.ZKept) _ hpurge (fun _ _ _ => .same rfl)).zSound h
  | sMove =>
    exact (edits_sMove (W := fun _ _ => Cell.ZKept) _ hpurge (fun _ _ => .setSet _) (fun _ _ =>
      .same rfl)).zSound h
  | pfMerge => exact (edits_pfMerge (hpurge ()) _ (fun _ _ _ => .same rfl)).zSound h
  | bitOp =>
    exact (edits_bitOp (W := fun _ _ => Cell.ZKept) _ _ hpurge (fun _ _ _ => .gone rfl)).zSound h
  | tsDownsample =>
    exact (edits_tsDownsample (W := fun _ _ => Cell.ZKept) hpurge (fun _ _ _ => .gone rfl)).zSound h
  | sort =>
    exact (edits_sort (W := fun _ _ => Cell.ZKept) hpurge (fun _ _ _ => .same rfl) (fun _ _ _ _ _
      => .sortStore _)).zSound h
  | pushList => exact (edits_pushList (fun _ => .pushList now ..) (fun _ _ => .setList _)).zSound h
  | lMove =>
    exact (edits_lMove (W := fun _ _ => Cell.ZKept) hpurge (fun _ _ _ => .setList _) (fun _ _ _ =>
      .setList _) (fun _ _ _ => .same rfl)).zSound h
  | bPop => exact (edits_bPopStart _ _ (fun _ _ => .bPopCell now _)).zSound h
  | stats => exact (edits_purgeExpired (hpurge ()) _).zSound h
  | dump => exact (edits_purgeExpired (hpurge ()) _).zSound h
  | sampleExpired =>
    exact (edits_sampleExpired _ (fun _ _ => .sampleCell now) (fun _ _ => .same rfl) (fun _ _ =>
      .sweepTags now)).zSound h
  | evict => exact (edits_evict _ (fun _ _ => .gone rfl)).zSound h

/-- **Sorted sets stay sound** in every run in which no score becomes NaN. -/
theorem Reach.zSound (h : Reach R (fun s now op => op.Numeric R now s) s) :
    ∀ k, ZSound (s.entries k) := by
  induction h with
  | new => exact fun _ => .empty
  | step now op _ hload hnum ih => exact Op.apply_zSound hload hnum ih
  | load now then_ hint hint' _ _ _ ih => exact load_dump_zSound ih _ then_ hint hint'

end

end Vole
