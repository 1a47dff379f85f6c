import Vole.Store.StoreOps

/-!
# Moving and copying a key

`Rename` and `Copy` go through the maps of the store one by one. `Rename` skips documents, time
series, tags and delays, `Copy` skips documents and time series and clears a destination only if
it is visible, and both delete the destination before they read the source.
-/

namespace Vole.Store

open Go Entry

variable {now : Time} {s : Store}

/-! ## Rename -/

/-- The key has the value, the type, the expiry, the delay, the tags and the consumer groups of
the other one. -/
structure SameKey (e e' : Entry) : Prop where
  data : e.toData = e'.toData
  expires : e.expires = e'.expires
  notBefore : e.notBefore = e'.notBefore
  tags : e.tags = e'.tags
  groups : e.groups = e'.groups

/-- The key has been moved. What else the new key held, its queue and its limiter, is gone. -/
structure Moved (s s' : Store) (key newkey : Bytes) : Prop where
  arrives : SameKey (s'.entries newkey) (s.entries key)
  replaced : newkey ≠ key →
    (s'.entries newkey).queues = none ∧ (s'.entries newkey).rateLimiters = none
  leaves : newkey ≠ key → ∀ t, (s'.entries key).has t = false
  stays : newkey = key → s'.entries key = s.entries key
  others : ∀ k, k ≠ key → k ≠ newkey → s'.entries k = s.entries k

/-- `Rename` moves all that the key has. -/
def Movable (e : Entry) : Prop :=
  e.jsons = none ∧ e.timeseries = none ∧ e.notBefore = none ∧ e.tags = none

theorem sameKey_renameMoved_iff (e : Entry) : SameKey (renameMoved e empty) e ↔ Movable e := by
  constructor
  · intro h
    exact ⟨(congrArg Data.jsons h.data).symm, (congrArg Data.timeseries h.data).symm,
      h.notBefore.symm, h.tags.symm⟩
  · rintro ⟨hjson, hseries, hdelay, htags⟩
    refine ⟨?_, Option.or_none, hdelay.symm, htags.symm, Option.or_none⟩
    obtain ⟨⟨⟩⟩ := e
    cases hjson
    cases hseries
    simp [renameMoved, empty, Data.empty]

/-- **When `Rename` moves the whole key**: to another name, and a key without document, series,
delay and tags. Renamed to itself, a key is lost. -/
theorem rename_moves_iff {key newkey : Bytes} (hok : (s.rename now key newkey).1 = .ok ()) :
    Moved s (s.rename now key newkey).2 key newkey ↔ newkey ≠ key ∧ Movable (s.entries key) := by
  rcases rename_cases now key newkey s with ⟨⟨err, herr⟩, -⟩ | ⟨hexists, -, hentries⟩
  · cases herr.symm.trans hok
  by_cases hkey : newkey = key
  · subst hkey
    refine iff_of_false (fun hmoved => ?_) (fun h => h.1 rfl)
    -- the deleted key would have to be as it was, and it existed
    have hgone : s.entries newkey = empty := by
      rw [← hmoved.stays rfl, hentries, renamed, if_pos rfl, if_pos rfl]
    rw [hgone] at hexists
    cases hexists
  · have hne : key ≠ newkey := fun h => hkey h.symm
    have hnew : (s.rename now key newkey).2.entries newkey
        = renameMoved (s.entries key) empty := by
      rw [hentries, renamed, if_pos rfl, if_neg hne]
    have hold : (s.rename now key newkey).2.entries key = renameLeft (s.entries key) := by
      rw [hentries, renamed, if_neg hne, if_pos rfl]
    constructor
    · intro hmoved
      refine ⟨hkey, (sameKey_renameMoved_iff _).mp ?_⟩
      rw [← hnew]
      exact hmoved.arrives
    · rintro ⟨-, hmovable⟩
      refine ⟨?_, fun _ => ?_, fun _ t => ?_, fun h => absurd h hkey, fun k hk hk' => ?_⟩
      · rw [hnew]
        exact (sameKey_renameMoved_iff _).mpr hmovable
      · rw [hnew]
        exact ⟨rfl, rfl⟩
      · rw [hold]
        cases t <;> simp [renameLeft, Data.has, hmovable.1, hmovable.2.1]
      · rw [hentries, renamed, if_neg hk', if_neg hk]

def stringKey : List (Time × Op) := [(1, .cell (bytes "k") (.set (bytes "v") 0))]

theorem rename_moves_string : Moved (after default stringKey)
      (rename 1 (bytes "k") (bytes "j") (after default stringKey)).2 (bytes "k") (bytes "j") :=
  (rename_moves_iff (by decide)).mpr ⟨by decide, rfl, rfl, rfl, rfl⟩

def seriesKey : List (Time × Op) := [(1, .cell (bytes "k") (.tsAdd 5 F64.zero []))]

/-- A key renamed to itself is lost, and a time series does not get the new name. -/
theorem rename_loses :
    let self := rename 1 (bytes "k") (bytes "k") (after default stringKey)
    let series := rename 1 (bytes "k") (bytes "j") (after default seriesKey)
    self.1 = .ok () ∧ (∀ t, (self.2.entries (bytes "k")).has t = false) ∧
      series.1 = .ok () ∧ ∀ t, (series.2.entries (bytes "j")).has t = false := by
  refine ⟨by decide, ?_, by decide, ?_⟩
  all_goals
    intro t
    cases t <;> decide

/-! ## Copy -/

/-- The destination is a copy of the source: it is visible and has its value, its type and its
expiry. Nothing else has changed. -/
structure Duplicated (now : Time) (s s' : Store) (src dst : Bytes) : Prop where
  data : (s'.entries dst).toData = (s.entries src).toData
  expires : (s'.entries dst).expires = (s.entries src).expires
  visible : (s'.entries dst).visible now = true
  source : s'.entries src = s.entries src
  others : ∀ k, k ≠ dst → s'.entries k = s.entries k

/-- `Copy` writes all that the source has, and nothing of the destination shows through. The
members of a sorted set, added in their order, give the set again unless a score is NaN. -/
structure Copyable (now : Time) (src dst : Entry) : Prop where
  jsons : src.jsons = none
  timeseries : src.timeseries = none
  rebuilt : ∀ z, src.zsets = some z → SortedSet.ofMembers z.ordered = z
  shown : dst.expired now = false → dst.visible now = true
  expires : src.expires = none → dst.expired now = false → dst.existsAt now = false →
    dst.expires = none

theorem copyOnto_expires_iff (e d : Entry) :
    (copyOnto e d).expires = e.expires ↔ (e.expires = none → d.expires = none) := by
  show e.expires.or d.expires = e.expires ↔ _
  cases e.expires <;> simp

theorem map_ofMembers_iff (e : Entry) :
    e.zsets.map (fun z => SortedSet.ofMembers z.ordered) = e.zsets ↔
      ∀ z, e.zsets = some z → SortedSet.ofMembers z.ordered = z := by
  cases e.zsets <;> simp

theorem copyOnto_data_iff {e d : Entry} (hd : d.toData = Data.empty) :
    (copyOnto e d).toData = e.toData ↔ e.jsons = none ∧ e.timeseries = none ∧
      ∀ z, e.zsets = some z → SortedSet.ofMembers z.ordered = z := by
  rw [← map_ofMembers_iff]
  obtain ⟨⟨⟩⟩ := e
  simp only [copyOnto, hd, Data.empty, Option.or_none, Data.mk.injEq, true_and]
  constructor
  · rintro ⟨hz, hjson, hseries⟩
    exact ⟨hjson.symm, hseries.symm, hz⟩
  · rintro ⟨hjson, hseries, hz⟩
    exact ⟨hz, hjson.symm, hseries.symm⟩

theorem visible_of_existsAt {d : Entry} (h : d.existsAt now = true) : d.visible now = true := by
  cases hvis : d.visible now with
  | true => rfl
  | false => simp [existsAt, hvis] at h

theorem copyRoom_visible_iff (d : Entry) :
    (copyRoom now d).visible now = true ↔ (d.expired now = false → d.visible now = true) := by
  unfold copyRoom purged
  split
  · exact iff_of_true rfl (fun _ => visible_of_existsAt ‹_›)
  split
  · exact iff_of_true rfl (fun hfresh => by simp_all)
  · exact ⟨fun h _ => h, fun h => h (eq_false_of_ne_true ‹_›)⟩

theorem copyRoom_expires_iff (d : Entry) : (copyRoom now d).expires = none ↔
    (d.expired now = false → d.existsAt now = false → d.expires = none) := by
  unfold copyRoom purged
  split
  · exact iff_of_true rfl (fun _ hnot => by simp_all)
  split
  · exact iff_of_true rfl (fun hfresh => by simp_all)
  · exact ⟨fun h _ _ => h, fun h =>
      h (eq_false_of_ne_true ‹_›) (eq_false_of_ne_true ‹_›)⟩

theorem copyRoom_data {d : Entry} (h : d.expired now = false → d.visible now = true) :
    (copyRoom now d).toData = Data.empty := by
  unfold copyRoom purged
  split
  · rfl
  split
  · rfl
  · have hfresh := eq_false_of_ne_true ‹¬ d.expired now = true›
    exact toData_of_not_exists hfresh (h hfresh) (eq_false_of_ne_true ‹_›)

/-- **When `Copy` duplicates the key**: a refused copy changes nothing; one that is made leaves a
duplicate if the names differ, the source is neither a document nor a series, and the destination
is not waiting for its delay and has no expiry without a value. -/
theorem copy_duplicates_iff (s : Store) (now : Time) (src dst : Bytes) (replace : Bool) :
    ((s.copy now src dst replace).1 = false → ∀ k,
      (s.copy now src dst replace).2.entries k = s.entries k ∨ ((s.entries k).expired now = true ∧
          (s.copy now src dst replace).2.entries k = Entry.empty)) ∧
    ((s.copy now src dst replace).1 = true →
      (Duplicated now s (s.copy now src dst replace).2 src dst ↔
        src ≠ dst ∧ Copyable now (s.entries src) (s.entries dst))) := by
  rcases copy_cases now src dst replace s with ⟨hno, heq⟩ | ⟨hexists, hyes, hentries⟩
  · refine ⟨fun _ k => ?_, fun h => absurd (hno.symm.trans h) (by decide)⟩
    rw [heq, purgeKey_entries]
    split
    · rename_i hk
      subst hk
      unfold purged
      split
      · exact .inr ⟨‹_›, rfl⟩
      · exact .inl rfl
    · exact .inl rfl
  refine ⟨fun h => absurd (hyes.symm.trans h) (by decide), fun _ => ?_⟩
  by_cases hne : src = dst
  · subst hne
    refine iff_of_false (fun hdup => ?_) (fun h => h.1 rfl)
    -- the source has been deleted, and it existed
    have hroom : copyRoom now (s.entries src) = empty := if_pos hexists
    have hgone : s.entries src = empty := by
      rw [← hdup.source, hentries, copied, if_pos rfl, if_pos rfl, hroom]
      rfl
    rw [hgone] at hexists
    cases hexists
  · have hdst : (s.copy now src dst replace).2.entries dst
        = copyOnto (s.entries src) (copyRoom now (s.entries dst)) := by
      rw [hentries, copied, if_pos rfl, if_neg hne]
    have hothers : ∀ k, k ≠ dst → (s.copy now src dst replace).2.entries k = s.entries k := by
      intro k hk
      rw [hentries, copied, if_neg hk]
    constructor
    · intro hdup
      have hvisible := hdup.visible
      have hexpires := hdup.expires
      have hdata := hdup.data
      rw [hdst] at hvisible hexpires hdata
      have hshown := (copyRoom_visible_iff (s.entries dst)).mp hvisible
      obtain ⟨hjson, hseries, hz⟩ := (copyOnto_data_iff (copyRoom_data hshown)).mp hdata
      exact ⟨hne, hjson, hseries, hz, hshown, fun hnone =>
        (copyRoom_expires_iff _).mp ((copyOnto_expires_iff _ _).mp hexpires hnone)⟩
    · rintro ⟨-, hjson, hseries, hz, hshown, hexpires⟩
      refine ⟨?_, ?_, ?_, hothers src hne, hothers⟩
      · rw [hdst]
        exact (copyOnto_data_iff (copyRoom_data hshown)).mpr ⟨hjson, hseries, hz⟩
      · rw [hdst]
        exact (copyOnto_expires_iff _ _).mpr
          (fun hnone => (copyRoom_expires_iff _).mpr (hexpires hnone))
      · rw [hdst]
        exact (copyRoom_visible_iff _).mpr hshown

/-- A key copied onto itself is lost, and the copy of a time series holds nothing. -/
theorem copy_loses :
    let self := copy 1 (bytes "k") (bytes "k") true (after default stringKey)
    let series := copy 1 (bytes "k") (bytes "j") false (after default seriesKey)
    (self.1 = true ∧ ∀ t, (self.2.entries (bytes "k")).has t = false) ∧
      (series.1 = true ∧ ∀ t, (series.2.entries (bytes "j")).has t = false) := by
  refine ⟨⟨by decide, ?_⟩, by decide, ?_⟩
  all_goals
    intro t
    cases t <;> decide

end Vole.Store
