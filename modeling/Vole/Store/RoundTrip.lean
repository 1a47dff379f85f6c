import Vole.Store.SortedRuns

/-!
# Snapshots bring a store back

`Dump` flattens the maps of the store and `Load` builds them again: sets from sorted lists,
sorted sets by adding the members one by one, documents by parsing their text. What comes back
is what was there, without the expired keys and the rate limits, as long as the sorted sets
are sound. A NaN score breaks this: a member that has one is removed from the score map only,
and `Load` finds it in the ordered list and puts it back.
-/

namespace Vole

open Go Store

/-- The documents of a store can be written and read back. -/
def DocsReadable (R : Runtime) (s : Store) : Prop :=
  ∀ k doc, (s.entries k).jsons = some doc → R.unmarshal (docText R doc) = .ok doc

section
variable {R : Runtime} {e : Entry} {now later : Time}

theorem restore_snap (hsound : ZSound e)
    (hdoc : ∀ doc, e.jsons = some doc → R.unmarshal (docText R doc) = .ok doc) :
    (e.snap R).restore R = { e with rateLimiters := none } := by
  have hsets : (e.sets.map (fun set => set.sort (· ≤ ·))).map List.toFinset = e.sets := by
    cases e.sets with
    | none => rfl
    | some set => simp
  have hzsets : (e.zsets.map (·.ordered)).map SortedSet.ofMembers = e.zsets := by
    cases hz : e.zsets with
    | none => rfl
    | some z =>
      show some (SortedSet.ofMembers z.ordered) = some z
      rw [(hsound z hz).ofMembers_ordered]
  have hjsons : (e.jsons.map (docText R)).bind (fun raw => (R.unmarshal raw).toOption)
      = e.jsons := by
    cases hj : e.jsons with
    | none => rfl
    | some doc =>
      show (R.unmarshal (docText R doc)).toOption = some doc
      rw [hdoc doc hj]
      rfl
  unfold Entry.snap SnapEntry.restore
  dsimp only
  rw [hsets, hzsets, hjsons]

theorem purged_purged (hle : now ≤ later) : (e.purged now).purged later = e.purged later := by
  unfold Entry.purged
  by_cases hnow : e.expired now = true
  · have hlater : e.expired later = true := by
      by_contra hfresh
      rw [Entry.expired_mono hle (Bool.eq_false_iff.mpr hfresh)] at hnow
      cases hnow
    rw [if_pos hnow, if_pos hlater]
    rfl
  · rw [if_neg hnow]

theorem purged_rateLimiters (e : Entry) (now : Time) :
    ({ e with rateLimiters := none } : Entry).purged now
      = { e.purged now with rateLimiters := none } := by
  show (if e.expired now = true then Entry.empty else { e with rateLimiters := none })
    = { (if e.expired now = true then Entry.empty else e) with rateLimiters := none }
  split <;> rfl

end

section
variable {R : Runtime} {now later : Time} {s : Store}

theorem load_dump_entries (hsound : ∀ k, ZSound (s.entries k)) (hdocs : DocsReadable R s)
    (hle : now ≤ later) (hint hint' : List Bytes) (k : Bytes) :
    (new.load R later hint (s.dump R now hint').1).entries k
      = { (s.entries k).purged later with rateLimiters := none } := by
  have hdoc : ∀ doc, ((s.entries k).purged now).jsons = some doc →
      R.unmarshal (docText R doc) = .ok doc := by
    intro doc hj
    unfold Entry.purged at hj
    split at hj
    · cases hj
    · exact hdocs k doc hj
  have hrestored := restore_snap ((hsound k).purged now) hdoc
  rw [load_entries, dump_entries]
  show (({ ((s.entries k).purged now |>.snap R).restore R with rateLimiters := none }
    : Entry)).purged later = _
  rw [hrestored]
  show ({ (s.entries k).purged now with rateLimiters := none } : Entry).purged later = _
  rw [purged_rateLimiters, purged_purged hle]

/-- **Snapshot round trip.** In every store reached by operations that write no NaN score, whose
documents can be written and read back, loading a dump into a new store gives back every key
that is not expired, up to its rate limit, and a dump of the new store is a dump of the old
one. -/
theorem load_dump_restores (hreach : Reach R (fun s now op => op.Numeric R now s) s)
    (hdocs : DocsReadable R s) (hle : now ≤ later) (hint hint' hint'' : List Bytes) :
    (∀ k, (Store.new.load R later hint (s.dump R now hint').1).entries k
      = { (s.entries k).purged later with rateLimiters := none }) ∧
    ((new.load R later hint (s.dump R now hint').1).dump R later hint'').1
      = (s.dump R later hint').1 := by
  have hentries := load_dump_entries hreach.zSound hdocs hle hint hint'
  refine ⟨hentries, ?_⟩
  ext k
  rw [dump_entries, dump_entries, hentries, purged_rateLimiters,
    purged_purged le_rfl]
  rfl

end

/-- The number `1`, and one of the many NaNs. -/
def oneScore : F64 := ⟨0x3FF0000000000000⟩

def nanScore : F64 := ⟨0x7FF8000000000001⟩

/-- The store after `ZADD z first a 1 b` and `ZREM z a`. -/
def scoredThenRemoved (first : F64) : Store :=
  (Op.cell (bytes "z") (.zRem [bytes "a"])).apply default 1
    ((Op.cell (bytes "z") (.zAdd [⟨bytes "a", first⟩, ⟨bytes "b", oneScore⟩])).apply default 1
      Store.new)

/-- With a number as the score of `a`, only `b` is left, before and after. -/
theorem load_dump_restores_removed :
    (((scoredThenRemoved oneScore).entries (bytes "z")).zsets.map (·.ordered)
        = some [⟨bytes "b", oneScore⟩]) ∧
      ((Store.new.load default 1 [] ((scoredThenRemoved oneScore).dump default 1 []).1).entries
        (bytes "z")).zsets.map (·.ordered) = some [⟨bytes "b", oneScore⟩] := by
  have hscores : ∀ m ∈ [(⟨bytes "a", oneScore⟩ : ZMember), ⟨bytes "b", oneScore⟩],
      m.score.isNaN = false := by decide
  have hreach : Reach default (fun s now op => op.Numeric default now s)
      (scoredThenRemoved oneScore) :=
    .step 1 _ (.step 1 _ .new rfl hscores) rfl trivial
  have hdocs : DocsReadable default (scoredThenRemoved oneScore) := by
    intro k doc hj
    by_cases hk : k = bytes "z"
    · subst hk
      cases hj
    · have hzero : (scoredThenRemoved oneScore).entries k = 0 :=
        (put_entries_ne _ _ _ hk).trans (put_entries_ne new _ _ hk)
      rw [hzero] at hj
      cases hj
  obtain ⟨hentries, -⟩ := load_dump_restores hreach hdocs (Int.le_refl 1) [] [] []
  refine ⟨by decide +kernel, ?_⟩
  rw [hentries]
  decide +kernel

/-- With NaN as the score of `a`, the removed member comes back from the snapshot. -/
theorem removed_member_returns : Reachable default (scoredThenRemoved nanScore) ∧
      ((scoredThenRemoved nanScore).entries (bytes "z")).zsets.map (·.score (bytes "a"))
        = some none ∧
      ((Store.new.load default 1 [] ((scoredThenRemoved nanScore).dump default 1 []).1).entries
        (bytes "z")).zsets.map (·.score (bytes "a")) = some (some nanScore) := by
  refine ⟨.step 1 _ (.step 1 _ .new rfl trivial) rfl trivial, by decide +kernel, ?_⟩
  rw [load_entries, dump_entries]
  decide +kernel

end Vole
