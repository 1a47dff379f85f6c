import Vole.Store.Edits

/-!
# Operations on several keys follow the rules

One lemma for each operation of the store that reads or writes more than one key. As for
cells, `_announced` gives the half that holds without a hypothesis; the matching `_orderly`
lemma names what the operation does not check.
-/

namespace Vole

open Go Cell Entry List

variable {e : Entry} {r : Bytes × List Bytes} {left : Bool}

@[simp] theorem Entry.purged_existsAt (e : Entry) (now : Time) :
    (e.purged now).existsAt now = e.existsAt now := by
  unfold purged
  split
  · rename_i hexp
    simp [existsAt, hexp, empty, Data.hasAny]
  · rfl

theorem Entry.expired_of_existsAt {now : Time} (h : e.existsAt now = true) :
    e.expired now = false := by
  cases hexp : e.expired now with
  | false => rfl
  | true => simp [existsAt, hexp] at h

theorem Entry.purged_of_existsAt {now : Time} (h : e.existsAt now = true) : e.purged now = e :=
  if_neg (by rw [expired_of_existsAt h]; exact Bool.false_ne_true)

theorem Entry.toData_of_not_exists {now : Time}
    (hfresh : e.expired now = false) (hvis : e.visible now = true) (h : e.existsAt now = false) :
    e.toData = Data.empty := by
  have hnone : e.hasAny DataType.all = false := by
    simpa [existsAt, hfresh, hvis] using h
  exact eq_empty_of_has
    (fun t => eq_false_of_ne_true (any_eq_false.mp hnone t (DataType.mem_all t)))

theorem Entry.expired_mono {now later : Int} (hle : now ≤ later)
    (h : e.expired later = false) : e.expired now = false := by
  unfold expired at h ⊢
  cases hx : e.expires with
  | none => rfl
  | some x =>
    rw [hx] at h
    simp only [Bool.and_eq_false_iff, decide_eq_false_iff_not] at h ⊢
    rcases h with hzero | hlate
    · exact .inl hzero
    · exact .inr (fun hx' => hlate (Int.le_trans hx' hle))

theorem Entry.purged_conflicts {own : DataType} (now : Time)
    (h : e.conflicts own = false) : (e.purged now).conflicts own = false := by
  unfold purged
  split
  · rw [conflicts_eq_false]
    intro t _
    exact has_empty t
  · exact h

theorem Entry.purged_oneType (now : Time) (h : OneType e.toData) :
    OneType (e.purged now).toData := by
  unfold purged
  split
  · exact oneType_empty
  · exact h

namespace Store

variable (R : Runtime) (now : Time)

section
variable {s : Store} {key : Bytes} {c : Cell} {own : DataType}

theorem put_free (hdata : SameBut own (s.entries key).toData c.toData) {k : Bytes}
    (hfree : (s.entries k).conflicts own = false) :
    ((s.put key c).entries k).conflicts own = false := by
  rw [put_entries_apply]
  split
  · rename_i hk
    subst hk
    exact hdata.free hfree
  · exact hfree

theorem put_oneType (hdata : SameBut own (s.entries key).toData c.toData)
    (hfree : (s.entries key).conflicts own = false) (hone : s.AllOneType) :
    (s.put key c).AllOneType := by
  intro k
  rw [put_entries_apply]
  split
  · exact .of_conflicts (hdata.free hfree)
  · exact hone k

theorem put_fewer (hfewer : ∀ t, c.has t = true → (s.entries key).has t = true)
    (hone : s.AllOneType) : (s.put key c).AllOneType := by
  intro k
  rw [put_entries_apply]
  split
  · intro t u ht hu
    exact hone key t u (hfewer t ht) (hfewer u hu)
  · exact hone k

theorem purgeKey_free {k : Bytes} (hfree : (s.entries k).conflicts own = false) :
    ((s.purgeKey now key).entries k).conflicts own = false := by
  rw [purgeKey_entries]
  split
  · rename_i hk
    subst hk
    exact purged_conflicts now hfree
  · exact hfree

end

/-! ## Del and MSetNX -/

theorem delCell_lawful (c : Cell) : Lawful c (delCell now c).2 := by
  unfold delCell
  split_ifs
  · exact .purge c now
  · exact .delete c
  · exact .refl c

theorem mSetNXCheck_pass (keys : List Bytes) (s : Store) (h : (mSetNXCheck now keys s).1 = true) :
    (∀ k ∈ keys, (s.entries k).existsAt now = false) ∧ ∀ k, (mSetNXCheck now keys s).2.entries k =
      if k ∈ keys then (s.entries k).purged now else s.entries k := by
  induction keys generalizing s with
  | nil => exact ⟨by simp, fun k => rfl⟩
  | cons key rest ih =>
    unfold mSetNXCheck at h ⊢
    dsimp only at h ⊢
    split at h
    · cases h
    · rename_i hkey
      rw [purgeKey_entries, if_pos rfl, purged_existsAt] at hkey
      rw [purgeKey_entries, if_pos rfl, purged_existsAt, if_neg hkey]
      obtain ⟨hnone, hentries⟩ := ih _ h
      refine ⟨?_, ?_⟩
      · intro k hk
        rcases mem_cons.mp hk with rfl | hk
        · exact eq_false_of_ne_true hkey
        · have hk' := hnone k hk
          rw [purgeKey_entries] at hk'
          split at hk'
          · rename_i heq
            subst heq
            exact eq_false_of_ne_true hkey
          · exact hk'
      · intro k
        rw [hentries k, purgeKey_entries]
        by_cases heq : k = key
        · subst heq
          simp
        · simp [heq]

theorem mSetNX_announced (pairs : List (Bytes × Bytes)) (s : Store) :
    Announced [] s (s.mSetNX now pairs).2 :=
  (edits_mSetNX (W := fun _ => _) pairs (fun _ _ c => .inl (Lawful.purge c now).toSignals)
    (fun _ _ _ => .inl (.of_bump (Nat.lt_succ_self _) (.inl rfl)))).announced

theorem mSetNXWrites_oneType (pairs : List (Bytes × Bytes)) (s : Store)
    (hfree : ∀ p ∈ pairs, (s.entries p.1).conflicts .string = false) (hone : s.AllOneType) :
    (pairs.foldl (fun s p => s.modify p.1 (mSetNXWrite p.2)) s).AllOneType := by
  induction pairs generalizing s with
  | nil => exact hone
  | cons p rest ih =>
    have hsame : SameBut .string (s.entries p.1).toData
        ((s.cell p.1).mSetNXWrite p.2).toData := rfl
    refine ih _ ?_ (put_oneType hsame (hfree p (.head _)) hone)
    intro q hq
    exact put_free hsame (hfree q (.tail _ hq))

theorem mSetNX_orderly (pairs : List (Bytes × Bytes)) (s : Store)
    (h : (∀ p ∈ pairs, (s.entries p.1).existsAt now = false) →
      ∀ p ∈ pairs, ((s.entries p.1).purged now).conflicts .string = false) :
    Orderly s (s.mSetNX now pairs).2 where
  toAnnounced := mSetNX_announced now pairs s
  oneType hone := by
    have hcheck := (edits_mSetNXCheck (fun _ c => .purge c now) (pairs.map (·.1))).orderly.oneType hone
    have hpass := mSetNXCheck_pass now (pairs.map (·.1)) s
    unfold mSetNX
    split
    · rename_i heq
      rw [heq] at hcheck
      exact hcheck
    · rename_i heq
      rw [heq] at hcheck hpass
      obtain ⟨hnone, hentries⟩ := hpass rfl
      refine mSetNXWrites_oneType pairs _ ?_ hcheck
      intro p hp
      have hmem : p.1 ∈ pairs.map (·.1) := mem_map_of_mem hp
      rw [hentries, if_pos hmem]
      exact h (fun q hq => hnone q.1 (mem_map_of_mem hq)) p hp

/-! ## Rename and Copy -/

theorem or_ne_empty {a b : Option (GoMap Bytes)} (ha : a ≠ some ∅) (hb : b ≠ some ∅) :
    a.or b ≠ some ∅ := by
  cases a with
  | none => exact hb
  | some m => exact ha

theorem renameMoved_has (src : Entry) (t : DataType)
    (h : (renameMoved src empty).has t = true) : src.has t = true := by
  cases t <;> simp_all [renameMoved, empty, Data.empty, Data.has]

theorem renameLeft_has (src : Entry) (t : DataType) (h : (renameLeft src).has t = true) :
    src.has t = true := by
  cases t <;> simp_all [renameLeft, Data.has]

/-- The entries after a `Rename` that finds its key. -/
def renamed (s : Store) (key newkey k : Bytes) : Entry :=
  if k = newkey then
    if key = newkey then Entry.empty else renameMoved (s.entries key) Entry.empty
  else if k = key then renameLeft (s.entries key) else s.entries k

theorem rename_cases (key newkey : Bytes) (s : Store) :
    ((∃ err, (s.rename now key newkey).1 = .error err) ∧
      (s.rename now key newkey).2 = s.purgeKey now key) ∨
    ((s.entries key).existsAt now = true ∧ (s.rename now key newkey).1 = .ok () ∧
      ∀ k, (s.rename now key newkey).2.entries k = s.renamed key newkey k) := by
  unfold rename
  split
  · exact .inl ⟨⟨_, rfl⟩, rfl⟩
  rename_i hexp
  split
  · exact .inl ⟨⟨_, rfl⟩, (purgeKey_of_fresh (eq_false_of_ne_true hexp)).symm⟩
  rename_i hexists
  refine .inr ⟨by simpa using hexists, rfl, fun k => ?_⟩
  have hnew : ∀ k, (s.modify newkey delete).entries k
      = if k = newkey then empty else s.entries k := modify_entries s newkey _
  unfold renamed
  by_cases hkey : key = newkey
  · simp only [touchKeys, if_pos hkey, DFinsupp.coe_update, Function.update_apply, hnew, if_true]
    split
    · rfl
    · rw [if_neg (hkey ▸ ‹_›)]
  · simp only [touchKeys, if_neg hkey, DFinsupp.coe_update, Function.update_apply, hnew, if_true]
    by_cases hk : k = key
    · rw [if_pos hk, if_neg (hk ▸ hkey), if_pos hk]
    · rw [if_neg hk, if_neg hk]
      split <;> rfl

theorem rename_announced (key newkey : Bytes) (s : Store) :
    Announced [] s (s.rename now key newkey).2 := by
  unfold rename
  split
  · exact (Orderly.purgeKey s now key).toAnnounced
  split
  · exact (Orderly.refl s).toAnnounced
  have hdel : Announced [] s (s.modify newkey delete) :=
    (Orderly.modify newkey Lawful.delete).toAnnounced
  generalize s.modify newkey delete = s₁ at hdel
  dsimp only
  -- the store with the moved fields in place, before the old key is cleared
  let s₂ := s₁.put newkey ⟨renameMoved (s₁.entries key) (s₁.entries newkey), 0⟩
  have hmoved : Announced [key, newkey] s₁ s₂ := by
    refine .put (fun hout _ => absurd (by simp) hout) ?_
    intro hne
    exact or_ne_empty (hne key) (hne newkey)
  by_cases hkey : key = newkey
  · rw [if_pos hkey]
    exact hdel.trans hmoved.close_touchKeys
  · rw [if_neg hkey]
    have hleft : Announced [key, newkey] s₂ (s₂.put key ⟨renameLeft (s₁.entries key), 0⟩) :=
      .put_pending (by simp) (.inr rfl)
    exact hdel.trans (hmoved.trans hleft).close_touchKeys

theorem rename_orderly (key newkey : Bytes) (s : Store) :
    Orderly s (s.rename now key newkey).2 where
  toAnnounced := rename_announced now key newkey s
  oneType hone := by
    rcases rename_cases now key newkey s with ⟨-, heq⟩ | ⟨-, -, hentries⟩
    · rw [heq]
      exact (Orderly.purgeKey s now key).oneType hone
    · intro k
      rw [hentries]
      unfold renamed
      split
      · split
        · exact oneType_empty
        · exact fun t u ht hu =>
            hone key t u (renameMoved_has _ t ht) (renameMoved_has _ u hu)
      split
      · exact fun t u ht hu => hone key t u (renameLeft_has _ t ht) (renameLeft_has _ u hu)
      · exact hone k

/-- What `Copy` leaves in its destination before it writes there. -/
def copyRoom (now : Time) (dst : Entry) : Entry :=
  if dst.existsAt now then Entry.empty else dst.purged now

/-- The entries after a `Copy` that is made; the source is deleted if it is the destination. -/
def copied (now : Time) (s : Store) (src dst k : Bytes) : Entry :=
  if k = dst then
    copyOnto (if src = dst then Entry.empty else s.entries src) (copyRoom now (s.entries dst))
  else s.entries k

theorem copy_cases (src dst : Bytes) (replace : Bool) (s : Store) :
    ((s.copy now src dst replace).1 = false ∧ (s.copy now src dst replace).2 = s.purgeKey now src) ∨
    ((s.entries src).existsAt now = true ∧ (s.copy now src dst replace).1 = true ∧
      ∀ k, (s.copy now src dst replace).2.entries k = s.copied now src dst k) := by
  have hsrc : ((s.purgeKey now src).entries src).existsAt now = (s.entries src).existsAt now := by
    rw [purgeKey_entries, if_pos rfl, purged_existsAt]
  have hdst : (((s.purgeKey now src).purgeKey now dst).entries dst).existsAt now
      = (s.entries dst).existsAt now := by
    rw [purgeBoth_dst, purged_existsAt]
  unfold copy
  dsimp only
  rw [hsrc, hdst]
  split
  · exact .inl ⟨rfl, rfl⟩
  split
  · -- a destination that is there has not expired
    rename_i hpresent
    have hpurged : ((s.purgeKey now src).entries dst).existsAt now = true := by
      rw [← purged_existsAt]
      rw [Bool.and_eq_true, ← hdst, purgeKey_entries, if_pos rfl] at hpresent
      exact hpresent.1
    exact .inl ⟨rfl, purgeKey_of_fresh (expired_of_existsAt hpurged)⟩
  rename_i hexists _
  have hexists : (s.entries src).existsAt now = true := by simpa using hexists
  refine .inr ⟨hexists, rfl, fun k => ?_⟩
  have hroom : ∀ k, (if (s.entries dst).existsAt now then
      ((s.purgeKey now src).purgeKey now dst).modify dst delete
      else (s.purgeKey now src).purgeKey now dst).entries k
      = if k = dst then copyRoom now (s.entries dst) else s.entries k := by
    intro k
    have hkept : k ≠ dst → ((s.purgeKey now src).purgeKey now dst).entries k = s.entries k := by
      intro hk
      rw [purgeBoth_entries]
      split
      · rename_i hks
        rw [hks.resolve_right hk, purged_of_existsAt hexists]
      · rfl
    unfold copyRoom
    split
    · rw [modify_entries]
      split
      · rfl
      · exact hkept ‹_›
    · split
      · rename_i hk
        rw [hk, purgeBoth_dst]
      · exact hkept ‹_›
  generalize (if (s.entries dst).existsAt now then
    ((s.purgeKey now src).purgeKey now dst).modify dst delete
    else (s.purgeKey now src).purgeKey now dst) = t at hroom
  unfold copied
  rw [modify_entries]
  split
  · show copyOnto (t.entries src) (t.entries dst) = _
    rw [hroom, hroom, if_pos rfl]
    by_cases hsame : src = dst
    · have hempty : copyRoom now (s.entries dst) = empty := if_pos (hsame ▸ hexists)
      rw [if_pos hsame, if_pos hsame, hempty]
    · rw [if_neg hsame, if_neg hsame]
  · rw [hroom, if_neg ‹_›]

/-- `Copy` onto a destination that still holds another of the types it writes. -/
def copyClash (src dst : Entry) : Bool :=
  [DataType.string, .hash, .list, .set, .zset, .stream, .hll].any
    (fun t => src.has t && dst.conflicts t)

theorem copyOnto_has (src dst : Entry) (t : DataType) (h : (copyOnto src dst).has t = true) :
    src.has t = true ∧ t ≠ .json ∧ t ≠ .timeseries ∨ dst.has t = true := by
  cases t <;> simp_all [copyOnto, Data.has, Option.isSome_or]

theorem copyClash_eq_false {src dst : Entry} (h : copyClash src dst = false) {t : DataType}
    (ht : src.has t = true) (hjson : t ≠ .json) (hseries : t ≠ .timeseries) :
    dst.conflicts t = false := by
  have hmem : t ∈ [DataType.string, .hash, .list, .set, .zset, .stream, .hll] := by
    cases t <;> simp_all
  have hall := any_eq_false.mp h t hmem
  simpa [ht] using hall

theorem copyClash_empty (src : Entry) : copyClash src empty = false := by
  apply any_eq_false.mpr
  intro t _
  have hempty : empty.conflicts t = false :=
    conflicts_eq_false.mpr (fun u _ => has_empty u)
  rw [hempty]
  simp

theorem copyOnto_oneType {src dst : Entry} (hsrc : OneType src.toData)
    (hdst : OneType dst.toData) (hclash : copyClash src dst = false) :
    OneType (copyOnto src dst).toData := by
  have hmixed : ∀ t u, src.has t = true ∧ t ≠ .json ∧ t ≠ .timeseries →
      dst.has u = true → u = t := by
    intro t u ht hu
    by_contra hne
    have hfree := copyClash_eq_false hclash ht.1 ht.2.1 ht.2.2
    rw [conflicts_eq_false.mp hfree u hne] at hu
    cases hu
  intro t u ht hu
  rcases copyOnto_has src dst t ht with ht | ht <;> rcases copyOnto_has src dst u hu with hu | hu
  · exact hsrc t u ht.1 hu.1
  · exact (hmixed t u ht hu).symm
  · exact hmixed u t hu ht
  · exact hdst t u ht hu

theorem copyWrite_announced (s : Store) (src dst : Bytes) : Announced [] s
      (s.modify dst (fun c => { c with toEntry := copyOnto (s.entries src) c.toEntry }.touch)) := by
  refine .put (fun _ _ => Nat.succ_pos _) ?_
  intro hne
  exact or_ne_empty (hne src) (hne dst)

theorem copy_announced (src dst : Bytes) (replace : Bool) (s : Store) :
    Announced [] s (s.copy now src dst replace).2 := by
  have hsrc := (Orderly.purgeKey s now src).toAnnounced
  have hdst := hsrc.trans (Orderly.purgeKey _ now dst).toAnnounced
  unfold copy
  dsimp only
  split_ifs
  · exact hsrc
  · exact hdst
  · exact (hdst.trans (Orderly.modify dst Lawful.delete).toAnnounced).trans
      (copyWrite_announced _ src dst)
  · exact hdst.trans (copyWrite_announced _ src dst)

theorem copy_orderly (src dst : Bytes) (replace : Bool) (s : Store)
    (h : (s.entries src).existsAt now = true → (s.entries dst).existsAt now = false →
      copyClash (s.entries src) ((s.entries dst).purged now) = false) :
    Orderly s (s.copy now src dst replace).2 where
  toAnnounced := copy_announced now src dst replace s
  oneType hone := by
    rcases copy_cases now src dst replace s with ⟨-, heq⟩ | ⟨hexists, -, hentries⟩
    · rw [heq]
      exact (Orderly.purgeKey s now src).oneType hone
    · intro k
      rw [hentries]
      unfold copied copyRoom
      split
      · by_cases hpresent : (s.entries dst).existsAt now = true
        · rw [if_pos hpresent]
          refine copyOnto_oneType ?_ oneType_empty (copyClash_empty _)
          split
          · exact oneType_empty
          · exact hone src
        · have hne : src ≠ dst := fun heq => hpresent (heq ▸ hexists)
          rw [if_neg hpresent, if_neg hne]
          exact copyOnto_oneType (hone src) (purged_oneType now (hone dst))
            (h hexists (eq_false_of_ne_true hpresent))
      · exact hone k

/-! ## Sets, HyperLogLogs, strings and series -/

theorem sMove_orderly (src dst member : Bytes) (s : Store) :
    Orderly s (s.sMove now src dst member).2 := by
  have hpurged := (Orderly.purgeKey s now src).trans (Orderly.purgeKey _ now dst)
  unfold sMove
  dsimp only
  generalize (s.purgeKey now src).purgeKey now dst = s₁ at hpurged
  split
  · exact hpurged
  rename_i hconf
  split
  · exact hpurged
  refine hpurged.trans ?_
  have hfree : (s₁.entries src).conflicts .set = false ∧
      (s₁.entries dst).conflicts .set = false := by simpa using hconf
  have htake : SameBut .set (s₁.entries src).toData
      ((s₁.cell src).setSet (((s₁.cell src).sets.getD ∅).erase member)).toData :=
    setSet_sameBut _ _
  generalize hs₂ : s₁.modify src (fun c => c.setSet ((c.sets.getD ∅).erase member)) = s₂
  have htaken : Announced [src, dst] s₁ s₂ := by
    rw [← hs₂]
    exact .put_pending (by simp) (.inl (htake.hashes_eq (by decide)))
  have hone₂ : s₁.AllOneType → s₂.AllOneType := by
    rw [← hs₂]
    exact put_oneType htake hfree.1
  have hfree₂ : (s₂.entries dst).conflicts .set = false := by
    rw [← hs₂]
    exact put_free htake hfree.2
  have hgive : Announced [src, dst] s₂
      (s₂.modify dst (fun c => { c with sets := some (insert member (c.sets.getD ∅)) })) :=
    .put_pending (by simp) (.inl rfl)
  refine ⟨?_, fun hone => ?_⟩
  · refine ((htaken.trans hgive).trans
      ((Announced.touchKeys _ [src]).trans (.touchKeys _ [dst]))).close ?_
    -- each of the two touches comes after everything that happened before
    have hmono := (htaken.trans hgive).mono
    intro k hk
    simp only [Store.touchKeys, mem_singleton]
    rcases mem_pair.mp hk with rfl | rfl
    · rw [if_pos rfl]
      split <;> omega
    · rw [if_pos rfl]
      omega
  · have hsame : SameBut .set (s₂.entries dst).toData
        { s₂.cell dst with
          sets := some (insert member ((s₂.cell dst).sets.getD ∅)) }.toData := rfl
    exact put_oneType hsame hfree₂ (hone₂ hone)

theorem pfMergeStep_announced (dest : Bytes) (s : Store) (key : Bytes) :
    Announced [dest] s (pfMergeStep now dest s key) := by
  have hpurged : Announced [dest] s (s.purgeKey now key) :=
    (Orderly.purgeKey s now key).toAnnounced.weaken
  unfold pfMergeStep
  dsimp only
  split
  · exact hpurged
  · exact hpurged.trans (.put_pending (by simp) (.inl rfl))

theorem pfMergeStep_oneType (dest : Bytes) (s : Store) (key : Bytes)
    (h : s.AllOneType ∧ (s.entries dest).conflicts .hll = false) :
    (pfMergeStep now dest s key).AllOneType ∧
      ((pfMergeStep now dest s key).entries dest).conflicts .hll = false := by
  have hpurged := (Orderly.purgeKey s now key).oneType h.1
  have hfree : ((s.purgeKey now key).entries dest).conflicts .hll = false :=
    purgeKey_free now h.2
  unfold pfMergeStep
  dsimp only
  split
  · exact ⟨hpurged, hfree⟩
  · rename_i hll _
    generalize s.purgeKey now key = s₁ at hpurged hfree
    have hsame : SameBut .hll (s₁.entries dest).toData
        { s₁.cell dest with hlls := (s₁.cell dest).hlls.map (HyperLogLog.merge · hll) }.toData := rfl
    exact ⟨put_oneType hsame hfree hpurged, put_free hsame hfree⟩

theorem pfMerge_announced (dest : Bytes) (srcs : List Bytes) (s : Store) :
    Announced [] s (s.pfMerge now dest srcs) := by
  have hpurged := (Orderly.purgeKey s now dest).toAnnounced
  have hstart : Announced [dest] (s.purgeKey now dest) ((s.purgeKey now dest).modify dest
      (fun c => { c with hlls := some (c.hlls.getD .empty) })) :=
    .put_pending (by simp) (.inl rfl)
  exact hpurged.trans
    (hstart.trans (.foldl (pfMergeStep_announced now dest) srcs _)).close_touchKeys

theorem pfMerge_orderly (dest : Bytes) (srcs : List Bytes) (s : Store)
    (h : ((s.entries dest).purged now).conflicts .hll = false) :
    Orderly s (s.pfMerge now dest srcs) where
  toAnnounced := pfMerge_announced now dest srcs s
  oneType hone := by
    have hpurged := (Orderly.purgeKey s now dest).oneType hone
    have hfree : ((s.purgeKey now dest).entries dest).conflicts .hll = false := by
      rw [purgeKey_entries, if_pos rfl]
      exact h
    have hsame : SameBut .hll ((s.purgeKey now dest).entries dest).toData
        { (s.purgeKey now dest).cell dest with
          hlls := some (((s.purgeKey now dest).cell dest).hlls.getD .empty) }.toData := rfl
    -- through the loop the destination stays free of other types
    have hloop := foldlRecOn srcs (pfMergeStep now dest)
      (motive := fun s => s.AllOneType ∧ (s.entries dest).conflicts .hll = false)
      ⟨put_oneType hsame hfree hpurged, put_free hsame hfree⟩
      (fun s hs key _ => pfMergeStep_oneType now dest s key hs)
    exact hloop.1

/-! ## Sorting -/

theorem sortStore_lawful (elements : List Bytes) (c : Cell) : Lawful c (sortStore elements c) := by
  unfold sortStore
  split
  · exact (Lawful.delete c).trans (.touch _)
  · exact deleteThen_lawful .list (by decide) rfl (Nat.lt_succ_self _)

/-! ## Lists and blocked clients -/

theorem popValue_isSome {lists : Option (List Bytes)}
    (h : popValue left (lists.getD []) = some r) : lists.isSome = true := by
  cases lists with
  | none =>
    unfold popValue at h
    cases left <;> simp at h
  | some items => rfl

theorem setList_has {c : Cell}
    (h : popValue left (c.lists.getD []) = some r) (items : List Bytes) (t : DataType)
    (ht : (c.setList items).has t = true) : c.has t = true := by
  by_cases hlist : t = .list
  · subst hlist
    exact popValue_isSome h
  · rw [(setList_sameBut c items).has_eq hlist] at ht
    exact ht

theorem serve_same (s : Store) (w : Nat) (key value : Bytes) :
    (s.serve w key value).entries = s.entries ∧ (s.serve w key value).version = s.version ∧
      (s.serve w key value).keyVersion = s.keyVersion := by
  unfold serve
  split <;> exact ⟨rfl, rfl, rfl⟩

theorem handOver_entries (key : Bytes) (w : Nat) (rest : List Nat) (value : Bytes)
    (items : List Bytes) (s : Store) : (s.handOver key w rest value items).entries =
      (s.put key ((s.cell key).setList items)).entries :=
  (serve_same _ w key value).1

theorem wakeLoop_announced (key : Bytes) (ws : List Nat) (s : Store) :
    Announced [key] s (wakeLoop key ws s) := by
  refine (edits_wakeLoop (fun items c => .inr ⟨by simp, .inl ?_⟩) ws).announced
  exact (setList_sameBut c items).hashes_eq (by decide)

theorem wakeLoop_oneType (key : Bytes) (ws : List Nat) (s : Store) (hone : s.AllOneType) :
    (wakeLoop key ws s).AllOneType := by
  induction ws generalizing s with
  | nil => exact hone
  | cons w rest ih =>
    unfold wakeLoop
    split
    · exact hone
    · rename_i value items hpop
      refine ih _ ?_
      intro k
      rw [handOver_entries]
      exact put_fewer (setList_has hpop items) hone k

theorem pushList_orderly (key : Bytes) (left : Bool) (values : List Bytes) (s : Store) :
    Orderly s (s.pushList now key left values).2 := by
  have hpush : Orderly s (s.onKey key (Cell.pushList now left values)).2 :=
    .put ((pushList_checked left values).lawful trivial)
  -- a push that succeeds touches the key, so what the clients take is announced already
  have htouched : (s.onKey key (Cell.pushList now left values)).1 = .ok () →
      s.version < (s.onKey key (Cell.pushList now left values)).2.keyVersion key := by
    intro hok
    have hbumps : 0 < ((s.cell key).pushList now left values).2.bumps := by
      unfold onKey Cell.pushList at hok
      unfold Cell.pushList
      dsimp only at hok ⊢
      split_ifs at hok ⊢
      exact Nat.succ_pos _
    show s.version < (s.put key _).keyVersion key
    rw [put_keyVersion_self, if_pos hbumps]
    omega
  unfold pushList
  split
  · rename_i heq
    rw [heq] at hpush
    exact hpush
  · rename_i s₁ heq
    rw [heq] at hpush htouched
    have hwake := wakeLoop_announced key (s₁.listWaits key) s₁
    refine ⟨(hpush.toAnnounced.weaken.trans hwake).close ?_, fun hone => ?_⟩
    · intro k hk
      rw [mem_singleton.mp hk]
      exact hwake.lt_of_lt hpush.mono (htouched rfl)
    · exact wakeLoop_oneType key _ _ (hpush.oneType hone)

theorem pushList_error {s : Store} {key : Bytes} {values : List Bytes} {err : Err}
    (h : (s.pushList now key left values).1 = .error err) : (s.pushList now key left values).2 = s := by
  have hpush : Checked True false now (s.cell key) (Cell.pushList now left values (s.cell key)) :=
    pushList_checked left values
  unfold Store.pushList Store.onKey at h ⊢
  generalize Cell.pushList now left values (s.cell key) = r at hpush h ⊢
  obtain ⟨res, c⟩ := r
  cases res with
  | error e =>
    rw [show c = s.cell key from hpush.refused_same rfl]
    exact put_cell s key
  | ok u => cases h

theorem lMoveWrite_eq (src dst : Bytes) (dstLeft : Bool) (value : Bytes) (rest : List Bytes)
    (s : Store) :
    s.lMoveWrite src dst dstLeft value rest =
      wakeListWaiters dst (touchKeys ((s.put src ((s.cell src).setList rest)).modify dst
        (fun c => { c with lists := some (pushValues dstLeft [value] (c.lists.getD [])) }))
        [src, dst]) := rfl

theorem lMoveWrite_announced (src dst : Bytes) (dstLeft : Bool) (value : Bytes)
    (rest : List Bytes) (s : Store) : Announced [] s (s.lMoveWrite src dst dstLeft value rest) := by
  have htake : Announced [src, dst] s (s.put src ((s.cell src).setList rest)) :=
    .put_pending (by simp) (.inl ((setList_sameBut _ _).hashes_eq (by decide)))
  rw [lMoveWrite_eq]
  generalize s.put src ((s.cell src).setList rest) = s₁ at htake
  have hgive : Announced [src, dst] s₁ (s₁.modify dst
      (fun c => { c with lists := some (pushValues dstLeft [value] (c.lists.getD [])) })) :=
    .put_pending (by simp) (.inl rfl)
  generalize s₁.modify dst _ = s₂ at hgive
  have hmoved := htake.trans hgive
  have hclosed := hmoved.close_touchKeys
  have hwake := wakeLoop_announced dst ((s₂.touchKeys [src, dst]).listWaits dst)
    (s₂.touchKeys [src, dst])
  refine (hclosed.weaken.trans hwake).close ?_
  intro k hk
  refine hwake.lt_of_lt hclosed.mono ?_
  rw [mem_singleton.mp hk]
  show s.version < if dst ∈ [src, dst] then s₂.version + 1 else s₂.keyVersion dst
  rw [if_pos (by simp)]
  exact Nat.lt_succ_of_le hmoved.mono

theorem lMoveWrite_oneType (src dst : Bytes) (dstLeft : Bool) (value : Bytes)
    (rest : List Bytes) (s : Store) (hsrc : popValue left ((s.entries src).lists.getD []) = some r)
    (hdst : (s.entries dst).conflicts .list = false) (hone : s.AllOneType) :
    (s.lMoveWrite src dst dstLeft value rest).AllOneType := by
  have htaken : (s.put src ((s.cell src).setList rest)).AllOneType :=
    put_fewer (setList_has hsrc rest) hone
  have hfree : ((s.put src ((s.cell src).setList rest)).entries dst).conflicts .list = false :=
    put_free (setList_sameBut _ _) hdst
  rw [lMoveWrite_eq]
  generalize s.put src ((s.cell src).setList rest) = s₁ at htaken hfree
  have hsame : SameBut .list (s₁.entries dst).toData
      { s₁.cell dst with
        lists := some (pushValues dstLeft [value]
          ((s₁.cell dst).lists.getD [])) }.toData := rfl
  exact wakeLoop_oneType dst _ _ (put_oneType hsame hfree htaken)

theorem lMove_announced (src dst : Bytes) (srcLeft dstLeft : Bool) (s : Store) :
    Announced [] s (s.lMove now src dst srcLeft dstLeft).2 := by
  have hsrc := (Orderly.purgeKey s now src).toAnnounced
  have hdst := hsrc.trans (Orderly.purgeKey _ now dst).toAnnounced
  rcases lMove_cases now src dst srcLeft dstLeft s with
    ⟨r, -, heq | heq⟩ | ⟨value, rest, -, -, -, heq⟩
  · rw [heq]
    exact hsrc
  · rw [heq]
    exact hdst
  · rw [heq]
    exact hdst.trans (lMoveWrite_announced src dst dstLeft value rest _)

theorem free_of_list {d : Data} (hone : OneType d) (hlist : d.has .list = true) :
    d.conflicts .list = false := by
  rw [conflicts_eq_false]
  intro t ht
  apply eq_false_of_ne_true
  intro htrue
  exact ht (hone t .list htrue hlist)

theorem lMove_orderly (src dst : Bytes) (srcLeft dstLeft : Bool) (s : Store)
    (h : src ≠ dst → ((s.entries src).purged now).has .list = true →
      setBlind ((s.entries dst).purged now) = false) :
    Orderly s (s.lMove now src dst srcLeft dstLeft).2 where
  toAnnounced := lMove_announced now src dst srcLeft dstLeft s
  oneType hone := by
    have hsrc := (Orderly.purgeKey s now src).oneType hone
    have hdst := (Orderly.purgeKey _ now dst).oneType hsrc
    rcases lMove_cases now src dst srcLeft dstLeft s with
      ⟨r, -, heq | heq⟩ | ⟨value, rest, hpop, -, hconf, heq⟩
    · rw [heq]
      exact hsrc
    · rw [heq]
      exact hdst
    · have hlist := popValue_isSome hpop
      rw [← purgeBoth_src s src dst now] at hpop
      rw [heq]
      refine lMoveWrite_oneType src dst dstLeft value rest _ hpop ?_ hdst
      by_cases hkey : src = dst
      · subst hkey
        exact free_of_list (hdst src) (popValue_isSome hpop)
      · rw [purgeBoth_dst]
        exact conflicts_of_hasAny (hconf hkey) (h hkey hlist) (by decide)

theorem bPopCell_lawful (left : Bool) (c : Cell) : Lawful c (bPopCell now left c).2 := by
  unfold bPopCell
  split
  · exact .purge c now
  split
  · exact .refl c
  · rename_i value rest hpop
    refine .erase (setList_has hpop rest) (.inl ?_) (by simp)
    exact (setList_sameBut c rest).hashes_eq (by decide)

/-! ## Queues and the whole store -/

theorem purgeExpired_orderly (hint : List Bytes) (s : Store) :
    Orderly s (s.purgeExpired now hint) :=
  (edits_purgeExpired (fun _ c => .purge c now) hint).orderly

theorem purgeKeys_entries (keys : List Bytes) (s : Store) (k : Bytes) :
    (keys.foldl (fun s key => s.purgeKey now key) s).entries k =
      if k ∈ keys then (s.entries k).purged now else s.entries k :=
  foldl_modify_entries (g := fun e => e.purged now) (fun c => c.purge_toEntry now)
    (fun e => e.purged_purged now) keys s k

theorem purgeExpired_entries (hint : List Bytes) (s : Store) (k : Bytes) :
    (s.purgeExpired now hint).entries k = (s.entries k).purged now := by
  unfold purgeExpired
  rw [purgeKeys_entries]
  split
  · rfl
  · rename_i hk
    have hzero : s.entries k = 0 := by simpa [held] using hk
    rw [hzero]
    rfl

theorem purgeKeys_keyVersion (keys : List Bytes) (s : Store) (k : Bytes)
    (hlive : (s.entries k).expired now = false) :
    (keys.foldl (fun s key => s.purgeKey now key) s).keyVersion k = s.keyVersion k := by
  induction keys generalizing s with
  | nil => rfl
  | cons key rest ih =>
    have hkeep : (s.purgeKey now key).entries k = s.entries k := by
      rw [purgeKey_entries]
      split
      · rename_i hk
        subst hk
        exact if_neg (by simp [hlive])
      · rfl
    rw [foldl_cons, ih _ (by rw [hkeep]; exact hlive)]
    by_cases hk : k = key
    · subst hk
      have hcell : (s.cell k).purge now = s.cell k := if_neg (by simp [hlive])
      show (s.put k ((s.cell k).purge now)).keyVersion k = s.keyVersion k
      rw [put_keyVersion_self, hcell, cell_bumps, if_neg (Nat.lt_irrefl 0)]
    · exact put_keyVersion_ne s key _ hk

theorem purgeKeys_fresh (keys : List Bytes) (s : Store) (k : Bytes) (hk : k ∈ keys)
    (hexp : (s.entries k).expired now = true) :
    s.version < (keys.foldl (fun s key => s.purgeKey now key) s).keyVersion k := by
  induction keys generalizing s with
  | nil => exact absurd hk (not_mem_nil)
  | cons key rest ih =>
    have hstep := (Orderly.purgeKey s now key).toAnnounced
    by_cases heq : k = key
    · subst heq
      have hcell : (s.cell k).purge now = (s.cell k).delete := if_pos hexp
      have hnow : s.version < (s.purgeKey now k).keyVersion k := by
        show s.version < (s.put k ((s.cell k).purge now)).keyVersion k
        rw [put_keyVersion_self, hcell, delete_bumps, if_pos (Nat.succ_pos _)]
        omega
      have hrest : Orderly (s.purgeKey now k) _ :=
        .foldl (fun s key => .purgeKey s now key) rest _
      exact hrest.toAnnounced.lt_of_lt hstep.mono hnow
    · have hkeep : (s.purgeKey now key).entries k = s.entries k := by
        rw [purgeKey_entries, if_neg heq]
      have hlater := ih (s.purgeKey now key) ((mem_cons.mp hk).resolve_left heq)
        (by rw [hkeep]; exact hexp)
      exact Nat.lt_of_le_of_lt hstep.mono hlater

theorem sampleCell_lawful (c : Cell) : Lawful c (sampleCell now c) := by
  unfold sampleCell
  split
  · exact .refl c
  split
  · exact .delete c
  · exact .refl c

theorem sweepTags_lawful (c : Cell) : Lawful c (sweepTags now c) := by
  unfold sweepTags
  split
  · exact .refl c
  dsimp only
  split
  · exact .purge c now
  · exact (Lawful.purge c now).trans (.same rfl le_rfl)

/-! ## Snapshots -/

theorem loadMaps_entries (snapshot : Snapshot) (s : Store) (k : Bytes) :
    (s.loadMaps R snapshot).entries k = loadEntry R (snapshot k) (s.entries k) := by
  exact DFinsupp.zipWith_apply (fun _ p e => loadEntry R p e) (fun _ => rfl) snapshot s.entries k

theorem load_entries (hint : List Bytes) (snapshot : Snapshot) (s : Store) (k : Bytes) :
    (s.load R now hint snapshot).entries k =
      (loadEntry R (snapshot k) (s.entries k)).purged now := by
  unfold load
  rw [purgeExpired_entries, loadMaps_entries]

theorem dump_entries (hint : List Bytes) (s : Store) (k : Bytes) :
    (s.dump R now hint).1 k = ((s.entries k).purged now).snap R := by
  unfold dump
  rw [DFinsupp.mapRange_apply, purgeExpired_entries]

theorem restore_snap_has (e : Entry) (t : DataType) (h : ((e.snap R).restore R).has t = true) :
    e.has t = true := by
  cases t with
  | json =>
    cases hdoc : e.jsons with
    | none => simp [snap, SnapEntry.restore, Data.has, hdoc] at h
    | some doc => simp [Data.has, hdoc]
  | _ => simpa [snap, SnapEntry.restore, Data.has] using h

end Store

end Vole
