import Vole.Store.Lawful

/-!
# The operations on one key follow the rules

One lemma for each operation of the store on one key. The condition of a `LawfulIf` or a
`Checked` names the maps that the operation neither checks nor clears. An operation that can
fail is `Checked`: its error leaves the key as it was, or purged if the key had expired. `SRem`
is the one operation that does not touch the key it changes.
-/

namespace Vole

open Go Data

variable (members : List Bytes) (value : Bytes)

namespace Cell

variable {R : Runtime} {now : Time} {c : Cell}

/-! ## Strings -/

/-- The maps that `Set`, `SetAbsolute` and `SetXX` neither check nor clear. -/
def setBlind (e : Entry) : Bool := e.hasAny [.json, .timeseries]

theorem setBlind_eq_false {e : Entry} (h : setBlind e = false) :
    e.has .json = false ∧ e.has .timeseries = false := by
  simpa [setBlind, hasAny] using h

/-- A string over an entry that neither holds a document nor a series. -/
theorem conflicts_clearForSet (h : setBlind c.toEntry = false) :
    c.clearForSet.conflicts .string = false := by
  obtain ⟨hjson, hseries⟩ := setBlind_eq_false h
  rw [conflicts_eq_false]
  intro t ht
  cases t <;> first | exact absurd rfl ht | rfl | exact hjson | exact hseries

theorem set_lawful (ttl : Duration) :
    LawfulIf (setBlind c.toEntry = false) c (c.set now value ttl) := by
  simp only [set]
  split <;> exact .only .string conflicts_clearForSet (.inr rfl) (Nat.lt_succ_self _)

theorem setAbsolute_lawful (at_ : Time) :
    LawfulIf (setBlind c.toEntry = false) c (c.setAbsolute value at_) := by
  simp only [setAbsolute]
  split <;> exact .only .string conflicts_clearForSet (.inr rfl) (Nat.lt_succ_self _)

theorem setXX_lawful (ttl : Duration) :
    LawfulIf (c.existsAt now = true → setBlind c.toEntry = false) c (c.setXX now value ttl).2 := by
  simp only [setXX]
  split_ifs with hexp hex
  · exact .of (.purge c now)
  · exact .of (.refl c)
  all_goals
    have hex : c.existsAt now = true := by simpa using hex
    exact .only .string (fun h => conflicts_clearForSet (h hex)) (.inr rfl) (Nat.lt_succ_self _)

/-- A key that is not visible yet does not count as existing, so its other types have to
be ruled out. -/
theorem setNX_lawful (ttl : Duration) :
    LawfulIf ((c.purge now).existsAt now = false → (c.purge now).conflicts .string = false) c
      (c.setNX now value ttl).2 := by
  simp only [setNX]
  split_ifs with hex
  · exact .of (.purge c now)
  all_goals
    have hex : (c.purge now).existsAt now = false := by simpa using hex
    exact .trans (.purge c now) (.write .string (fun h => h hex) rfl rfl nofun)

theorem setDelayed_lawful (delay ttl : Duration) :
    LawfulIf (c.has .timeseries = false) c (c.setDelayed now value delay ttl) := by
  have hfree : c.has .timeseries = false → (Data.mk (some value) none none none none none none
      none c.timeseries).conflicts .string = false := by
    intro h
    rw [conflicts_eq_false]
    intro t ht
    cases t <;> first | exact absurd rfl ht | rfl | exact h
  simp only [setDelayed]
  split <;> exact .only .string hfree (.inr rfl) (Nat.lt_succ_self _)

theorem getSet_checked : Checked True false now c (c.getSet now value) := by
  unfold getSet
  dsimp only
  split
  · exact .conflict _ ‹_›
  · rename_i hconf
    have hfree := conflicts_eq_false.mp (eq_false_of_ne_true hconf)
    refine .ok _ ((Lawful.purge c now).trans (.only .string (by decide) ?_ (Nat.lt_succ_self _)))
    rw [conflicts_eq_false]
    intro t ht
    cases t <;> first | exact absurd rfl ht | rfl | exact hfree _ ht

theorem writeString_checked {α : Type} {safe : Prop} {purges : Bool} (a : α) (v : Bytes)
    (hconf : ¬ (c.purge now).conflicts .string = true) :
    Checked safe purges now c (.ok a, { c.purge now with kv := some v }.touch) :=
  .write .string a hconf rfl rfl nofun

theorem hasAny_string {data : Bytes} (h : c.kv = some data) : c.hasAny [.string] = true := by
  simp [hasAny, has, h]

theorem incrBy_checked (delta : Int) : Checked True false now c (c.incrBy now delta) := by
  unfold incrBy
  dsimp only
  split
  · exact .conflict _ ‹_›
  rename_i hconf
  cases hkv : (c.purge now).kv with
  | none => exact writeString_checked _ _ hconf
  | some data =>
    split
    · exact .conflict _ (hasAny_string hkv)
    · exact writeString_checked _ _ hconf

theorem incrByFloat_checked (delta : F64) :
    Checked True false now c (c.incrByFloat R now delta) := by
  unfold incrByFloat
  dsimp only
  split
  · exact .conflict _ ‹_›
  rename_i hconf
  cases hkv : (c.purge now).kv with
  | none => exact writeString_checked _ _ hconf
  | some data =>
    split
    · exact .conflict _ (hasAny_string hkv)
    · exact writeString_checked _ _ hconf

theorem append_checked : Checked True false now c (c.append now value) := by
  unfold append
  dsimp only
  split
  · exact .conflict _ ‹_›
  · exact writeString_checked _ _ ‹_›

theorem setRange_checked (offset : Int) (value : Bytes) :
    Checked True true now c (c.setRange now offset value) := by
  unfold setRange
  dsimp only
  split
  · exact .conflict _ ‹_›
  split
  · exact .gone _
  · exact writeString_checked _ _ ‹_›

theorem setBit_checked (offset value : Int) :
    Checked True false now c (c.setBit now offset value) := by
  unfold setBit
  split
  · exact .same _
  split
  · exact .same _
  dsimp only
  split
  · exact .conflict _ ‹_›
  · exact writeString_checked _ _ ‹_›

theorem getEx_lawful (ttl : Duration) (persist : Bool) : Lawful c (c.getEx now ttl persist).2 := by
  simp only [getEx]
  split_ifs
  · exact .purge c now
  all_goals
    split
    · exact .refl c
    · exact .same rfl (by first | exact Nat.le_refl _ | exact Nat.le_succ _)

theorem getDel_lawful : Lawful c (c.getDel now).2 := by
  simp only [getDel]
  split_ifs
  · exact .purge c now
  · split
    · exact .refl c
    · exact .delete c

theorem expire_lawful (ttl : Duration) : Lawful c (c.expire now ttl).2 := by
  simp only [expire]
  split_ifs
  · exact .purge c now
  · exact .refl c
  · exact .same rfl (Nat.le_succ _)

theorem expireAt_lawful (at_ : Time) : Lawful c (c.expireAt now at_).2 := by
  simp only [expireAt]
  split_ifs
  · exact .purge c now
  · exact .refl c
  · exact .same rfl (Nat.le_succ _)
  · exact .same rfl (Nat.le_succ _)

theorem persist_lawful : Lawful c (c.persist now).2 := by
  simp only [persist]
  split_ifs
  · exact .purge c now
  · exact .refl c
  · split
    · exact .refl c
    · exact .same rfl (Nat.le_succ _)

/-! ## Hashes -/

theorem hashWrite_ne_empty (pairs : List (Bytes × Bytes)) (acc : Nat × GoMap Bytes)
    (h : pairs ≠ [] ∨ acc.2 ≠ ∅) : (pairs.foldl hashWrite acc).2 ≠ ∅ := by
  induction pairs generalizing acc with
  | nil => exact h.resolve_left (fun hne => hne rfl)
  | cons p rest ih => exact ih _ (.inr (GoMap.insert_ne_empty _ _ _))

theorem writeHash_checked {α : Type} {safe : Prop} {purges : Bool} (a : α) (hash : GoMap Bytes)
    (hconf : ¬ (c.purge now).conflicts .hash = true) (hne : hash ≠ ∅) :
    Checked safe purges now c (.ok a, { c.purge now with hashes := some hash }.touch) :=
  .ok a ((Lawful.purge c now).trans
    (.writeHash hconf rfl (Nat.lt_succ_self _) (fun h => hne (Option.some.inj h))))

theorem hSet_checked (pairs : List (Bytes × Bytes)) :
    Checked True false now c (c.hSet now pairs) := by
  unfold hSet
  split
  · exact .same _
  rename_i hne
  dsimp only
  split
  · exact .conflict _ ‹_›
  · exact writeHash_checked _ _ ‹_› (hashWrite_ne_empty pairs _ (.inl hne))

theorem hashDelete_count (fields : List Bytes) (acc : Nat × GoMap Bytes) :
    acc.1 ≤ (fields.foldl hashDelete acc).1 ∧
    ((fields.foldl hashDelete acc).1 = acc.1 → (fields.foldl hashDelete acc).2 = acc.2) := by
  induction fields generalizing acc with
  | nil => exact ⟨Nat.le_refl _, fun _ => rfl⟩
  | cons f rest ih =>
    rw [List.foldl_cons]
    obtain ⟨hle, hsame⟩ := ih (hashDelete acc f)
    unfold hashDelete at hle hsame ⊢
    split at hle
    · rename_i hf
      rw [if_pos hf] at hsame ⊢
      refine ⟨by simp only at hle; omega, ?_⟩
      omega
    · rename_i hf
      rw [if_neg hf] at hsame ⊢
      exact ⟨hle, hsame⟩

theorem hDel_lawful (fields : List Bytes) (hne : c.hashes ≠ some ∅) :
    Lawful c (c.hDel now fields).2 := by
  simp only [hDel]
  split_ifs with hexp hconf
  · exact .purge c now
  · exact .refl c
  · split
    · exact .refl c
    · rename_i hash hhash
      have hsame := (hashDelete_count fields (0, hash)).2
      split_ifs with hpos hemp hemp
      · exact .writeHash hconf rfl (Nat.lt_succ_self _) (by simp)
      · refine .writeHash hconf rfl (Nat.lt_succ_self _) ?_
        intro h
        exact hemp ((GoMap.isEmpty_iff _).mpr (Option.some.inj h))
      · -- nothing was deleted, so the hash was empty before
        rw [hsame (by omega), GoMap.isEmpty_iff] at hemp
        exact absurd (hemp ▸ hhash) hne
      · refine .same ?_ le_rfl
        rw [hsame (by omega), ← hhash]

theorem hashes_of_get {field v : Bytes} (h : (c.hashes.getD ∅).get field = some v) :
    c.hasAny [.hash] = true ∧ { c with hashes := some (c.hashes.getD ∅) } = c := by
  cases hhash : c.hashes with
  | none =>
    rw [hhash] at h
    cases h
  | some hash =>
    refine ⟨by simp [hasAny, has, hhash], ?_⟩
    rw [Option.getD_some, ← hhash]

theorem hIncrBy_checked (field : Bytes) (delta : Int) :
    Checked True false now c (c.hIncrBy now field delta) := by
  unfold hIncrBy
  dsimp only
  split
  · exact .conflict _ ‹_›
  rename_i hconf
  have hwrite : ∀ n : Int, ((c.purge now).hashes.getD ∅).insert field (formatInt n) ≠ ∅ :=
    fun n => GoMap.insert_ne_empty _ _ _
  cases hget : ((c.purge now).hashes.getD ∅).get field with
  | none => exact writeHash_checked _ _ hconf (hwrite _)
  | some v =>
    split
    · rw [(hashes_of_get hget).2]
      exact .conflict _ (hashes_of_get hget).1
    · exact writeHash_checked _ _ hconf (hwrite _)

theorem hSetNX_checked (field value : Bytes) :
    Checked True false now c (c.hSetNX now field value) := by
  unfold hSetNX
  dsimp only
  split
  · exact .conflict _ ‹_›
  split
  · rename_i hfield
    obtain ⟨v, hget⟩ := Option.isSome_iff_exists.mp hfield
    rw [(hashes_of_get hget).2]
    exact .purged _
  · exact writeHash_checked _ _ ‹_› (GoMap.insert_ne_empty _ _ _)

/-! ## Lists -/

variable (c) in
theorem setList_sameBut (items : List Bytes) : SameBut .list c.toData (c.setList items).toData := by
  unfold setList
  split <;> rfl

variable (c) in
@[simp] theorem setList_bumps (items : List Bytes) : (c.setList items).bumps = c.bumps := by
  unfold setList
  split <;> rfl

theorem pushList_checked (left : Bool) (values : List Bytes) :
    Checked True false now c (c.pushList now left values) := by
  unfold pushList
  split
  · exact .same _
  dsimp only
  split
  · exact .conflict _ ‹_›
  · exact .write .list _ ‹_› rfl rfl nofun

theorem setList_touch_lawful (items : List Bytes) (hconf : ¬ c.conflicts .list = true) :
    Lawful c (c.setList items).touch :=
  .write .list hconf (setList_sameBut c items) (setList_bumps c items) nofun

theorem popList_checked (left : Bool) : Checked True false now c (c.popList now left) := by
  unfold popList
  split
  · exact .purged _
  split
  · exact .same _
  split
  · exact .same _
  · exact .ok _ (setList_touch_lawful _ ‹_›)

theorem lSet_checked (index : Int) (value : Bytes) :
    Checked True true now c (c.lSet now index value) := by
  unfold lSet
  split
  · exact .gone _
  split
  · exact .same _
  rename_i hconf
  dsimp only
  split
  · exact .same _
  split
  · exact .same _
  · exact .ok _ (.write .list hconf rfl rfl nofun)

theorem lInsert_checked (before : Bool) (pivot value : Bytes) :
    Checked True false now c (c.lInsert now before pivot value) := by
  unfold lInsert
  split
  · exact .purged _
  split
  · exact .same _
  rename_i hconf
  dsimp only
  split
  · exact .same _
  split
  · exact .same _
  · exact .ok _ (.write .list hconf rfl rfl nofun)

theorem removeFirst_sublist (element : Bytes) (count : Nat) (items : List Bytes) :
    (removeFirst element count items).Sublist items := by
  induction items generalizing count with
  | nil => cases count <;> exact .slnil
  | cons item rest ih =>
    cases count with
    | zero => exact List.Sublist.refl _
    | succ count =>
      unfold removeFirst
      split
      · exact (ih count).cons _
      · exact (ih (count + 1)).cons_cons _

theorem lRemKept_sublist (count : Int) (element : Bytes) (items : List Bytes) :
    (lRemKept count element items).Sublist items := by
  unfold lRemKept
  split_ifs
  · exact removeFirst_sublist _ _ _
  · simpa using (removeFirst_sublist element (wrap64 (-count)).toNat items.reverse).reverse
  · exact List.filter_sublist

theorem lRem_checked (count : Int) (element : Bytes) :
    Checked True false now c (c.lRem now count element) := by
  unfold lRem
  split
  · exact .purged _
  split
  · exact .same _
  rename_i hconf
  dsimp only
  split
  · exact .same _
  rename_i hempty
  refine .ok _ ?_
  split
  · exact setList_touch_lawful _ hconf
  · -- nothing was removed, so the same list is written back
    have hsub := lRemKept_sublist count element (c.lists.getD [])
    have hkept := hsub.eq_of_length_le (by omega)
    refine .same ?_ (by simp)
    rw [hkept]
    cases hl : c.lists with
    | none => simp [hl] at hempty
    | some items =>
      simp only [hl, Option.getD_some] at hempty ⊢
      rw [setList, if_neg hempty, ← hl]

/-! ## Sets -/

variable (c) in
theorem setSet_sameBut (members : Finset Bytes) :
    SameBut .set c.toData (c.setSet members).toData := by
  unfold setSet
  split <;> rfl

variable (c) in
@[simp] theorem setSet_bumps (members : Finset Bytes) : (c.setSet members).bumps = c.bumps := by
  unfold setSet
  split <;> rfl

theorem sAdd_checked : Checked True false now c (c.sAdd now members) := by
  unfold sAdd
  split
  · exact .same _
  dsimp only
  split
  · exact .conflict _ ‹_›
  · exact .write .set _ ‹_› rfl rfl nofun

/-- `SRem` keeps to one type, but the key is not touched. -/
theorem sRem_oneType (h : OneType c.toData) : OneType (c.sRem now members).2.toData := by
  simp only [sRem]
  split_ifs with hexp hconf hempty
  · exact (Lawful.purge c now).oneType h
  · exact h
  · exact h
  · exact .of_conflicts
      ((setSet_sameBut c _).free (eq_false_of_ne_true hconf))

theorem sRem_hashes (h : c.hashes ≠ some ∅) : (c.sRem now members).2.hashes ≠ some ∅ := by
  simp only [sRem]
  split_ifs with hexp hconf hempty
  · exact (Lawful.purge c now).noEmptyHash h
  · exact h
  · exact h
  · unfold setSet
    split <;> exact h

theorem sPop_checked (count : Int) (hint : List Bytes) :
    Checked True false now c (c.sPop now count hint) := by
  unfold sPop
  split
  · exact .purged _
  split
  · exact .same _
  rename_i hconf
  dsimp only
  split
  · exact .same _
  · exact .ok _ (.write .set hconf (setSet_sameBut c _) (setSet_bumps c _) nofun)

/-! ## Sorted sets -/

variable (c) in
theorem setZSet_sameBut (z : SortedSet) : SameBut .zset c.toData (c.setZSet z).toData := by
  unfold setZSet
  split <;> rfl

variable (c) in
@[simp] theorem setZSet_bumps (z : SortedSet) : (c.setZSet z).bumps = c.bumps := by
  unfold setZSet
  split <;> rfl

theorem zAdd_checked (members : List ZMember) : Checked True false now c (c.zAdd now members) := by
  unfold zAdd
  split
  · exact .same _
  dsimp only
  split
  · exact .conflict _ ‹_›
  · exact .write .zset _ ‹_› rfl rfl nofun

theorem zsetRemove_count (acc : Nat × SortedSet) :
    acc.1 ≤ (members.foldl zsetRemove acc).1 ∧ ((members.foldl zsetRemove acc).1 = acc.1 →
      (members.foldl zsetRemove acc).2 = acc.2) := by
  induction members generalizing acc with
  | nil => exact ⟨Nat.le_refl _, fun _ => rfl⟩
  | cons m rest ih =>
    rw [List.foldl_cons]
    obtain ⟨hle, hsame⟩ := ih (zsetRemove acc m)
    cases hm : acc.2.scores.get m with
    | none =>
      have hstep : zsetRemove acc m = acc := by simp [zsetRemove, SortedSet.remove, hm]
      rw [hstep] at hle hsame ⊢
      exact ⟨hle, hsame⟩
    | some score =>
      have hstep : (zsetRemove acc m).1 = acc.1 + 1 := by
        simp [zsetRemove, SortedSet.remove, hm]
      exact ⟨by omega, fun heq => by omega⟩

theorem zRem_checked : Checked True false now c (c.zRem now members) := by
  unfold zRem
  split
  · exact .purged _
  split
  · exact .same _
  rename_i hconf
  split
  · exact .same _
  rename_i z hz
  split
  · exact .same _
  rename_i hlen
  refine .ok _ ?_
  split
  · exact .write .zset hconf (setZSet_sameBut c _) (setZSet_bumps c _) nofun
  · refine .same ?_ (by simp)
    rw [(zsetRemove_count members (0, z)).2 (by omega), setZSet, if_neg hlen, ← hz]

theorem zIncrBy_checked (incr : F64) (member : Bytes) :
    Checked True false now c (c.zIncrBy R now incr member) := by
  unfold zIncrBy
  dsimp only
  split
  · exact .conflict _ ‹_›
  · exact .write .zset _ ‹_› rfl rfl nofun

theorem zPop_checked (pop : SortedSet → List ZMember × SortedSet) :
    Checked True false now c (c.zPop now pop) := by
  unfold zPop
  split
  · exact .purged _
  split
  · exact .same _
  rename_i hconf
  split
  · exact .same _
  split
  · exact .same _
  · exact .ok _ (.write .zset hconf (setZSet_sameBut c _) (setZSet_bumps c _) nofun)

/-! ## Streams -/

/-- Finding an identifier leaves the type maps alone, and leaves no trace when it fails. -/
theorem prepareStreamID_checked (now : Time) (c : Cell) (id : Bytes) :
    (c.prepareStreamID now id).2.toData = c.toData
      ∧ Checked True false now c (c.prepareStreamID now id) := by
  unfold prepareStreamID
  split
  · exact ⟨rfl, .ok _ (.same rfl le_rfl)⟩
  split
  · exact ⟨rfl, .same _⟩
  · exact ⟨rfl, .ok _ (.same rfl le_rfl)⟩

theorem xAdd_checked (id : Bytes) (fields : List Bytes) :
    Checked (setBlind (c.purge now).toEntry = false) true now c (c.xAdd now id fields) := by
  obtain ⟨hdata, hprep⟩ := prepareStreamID_checked now (c.purge now) id
  unfold xAdd
  split
  · exact .same _
  dsimp only
  split
  · exact .gone _
  rename_i hconf
  generalize (c.purge now).prepareStreamID now id = r at hdata hprep
  obtain ⟨res, c'⟩ := r
  cases res with
  | error err =>
    rw [show c' = c.purge now from (hprep.refused err rfl).resolve_right (fun h => nomatch h.1)]
    exact .gone _
  | ok id =>
    refine .okIf _ (.trans ((Lawful.purge c now).trans (hprep.lawful trivial))
      (.write .stream (fun hblind => ?_) rfl rfl nofun))
    rw [show c'.toData = (c.purge now).toData from hdata]
    exact conflicts_of_hasAny (eq_false_of_ne_true hconf) hblind (by decide)

theorem nextStreamID_checked (id : Bytes) : Checked True true now c (c.nextStreamID now id) := by
  obtain ⟨-, hprep⟩ := prepareStreamID_checked now (c.purge now) id
  unfold nextStreamID
  dsimp only
  split
  · exact .gone _
  · refine ⟨.of ((Lawful.purge c now).trans (hprep.lawful trivial)), fun err herr => .inr ⟨rfl, ?_⟩⟩
    exact (hprep.refused err herr).resolve_right (fun h => nomatch h.1)

theorem xAddPrepared_checked (id : Bytes) (fields : List Bytes) :
    Checked (c.expired now = false → c.conflicts .stream = false) true now c
      (c.xAddPrepared now id fields) := by
  unfold xAddPrepared
  split
  · exact .same _
  split
  · exact .gone _
  rename_i hexp
  split
  · exact .same _
  · exact .okIf _ (.write .stream (fun h => h (eq_false_of_ne_true hexp)) rfl rfl nofun)

theorem xTrim_lawful (maxLen : Int) : Lawful c (c.xTrim maxLen).2 := by
  simp only [xTrim]
  split_ifs with hlen hneg
  · exact .refl c
  · exact .refl c
  · -- a stream that can be trimmed is there
    refine .erase ?_ (.inl rfl) (Nat.lt_succ_self _)
    intro t ht
    cases hs : c.streams with
    | none => simp [hs] at hlen; omega
    | some entries =>
      cases t <;> first | exact ht | (show c.streams.isSome = true; rw [hs]; rfl)

theorem xGroupCreate_checked (name id : Bytes) (mkstream : Bool) :
    Checked True true now c (c.xGroupCreate now name id mkstream) := by
  unfold xGroupCreate
  dsimp only
  split
  · exact .gone _
  split
  · exact .gone _
  split
  · -- a group that is there is in a map of groups, which is written back as it was
    rename_i hgroup
    cases hgroups : (c.purge now).groups with
    | none =>
      rw [hgroups] at hgroup
      cases hgroup
    | some groups =>
      rw [Option.getD_some, ← hgroups]
      exact .gone _
  · exact .ok _ ((Lawful.purge c now).trans (.same rfl (Nat.le_succ _)))

theorem xGroupDeliver_checked (name consumer : Bytes) (ids : List Bytes) (delivered : Time) :
    Checked True false now c (c.xGroupDeliver now name consumer ids delivered) := by
  unfold xGroupDeliver
  split
  · exact .same _
  · exact .ok _ (.same rfl (Nat.le_succ _))

theorem xAck_checked (name : Bytes) (ids : List Bytes) :
    Checked True false now c (c.xAck now name ids) := by
  unfold xAck
  split
  · exact .purged _
  split
  · exact .same _
  · refine .ok _ ?_
    split
    · exact .same rfl (Nat.le_succ _)
    · exact .same rfl le_rfl

theorem touchUnless_lawful {p : Prop} [Decidable p] {c' : Cell} (hdata : c'.toData = c.toData)
    (hbumps : c'.bumps = c.bumps) : Lawful c (if p then c' else c'.touch) := by
  split
  · exact .same hdata (Nat.le_of_eq hbumps.symm)
  · exact .same hdata (hbumps ▸ Nat.le_succ _)

theorem xClaim_checked (name consumer : Bytes) (minIdleMs : Int) (ids : List Bytes) :
    Checked True false now c (c.xClaim now name consumer minIdleMs ids) := by
  unfold xClaim
  split
  · exact .same _
  · exact .ok _ (touchUnless_lawful rfl rfl)

theorem xAutoClaim_checked (name consumer : Bytes) (minIdleMs : Int) (startID : Bytes)
    (count : Int) (hint : List Bytes) :
    Checked True false now c (c.xAutoClaim now name consumer minIdleMs startID count hint) := by
  unfold xAutoClaim
  split
  · exact .same _
  · exact .ok _ (touchUnless_lawful rfl rfl)

/-! ## Sketches, documents and series -/

theorem pfAdd_checked (elements : List Bytes) :
    Checked (setBlind (c.purge now).toEntry = false) false now c (c.pfAdd now elements) := by
  unfold pfAdd
  dsimp only
  split
  · exact .conflict _ ‹_›
  rename_i hconf
  exact .okIf _ (.trans (.purge c now) (.write .hll
    (fun h => conflicts_of_hasAny (eq_false_of_ne_true hconf) h (by decide)) rfl rfl nofun))

theorem jsonSet_write {α : Type} (a : α) (doc : JVal)
    (hconf : ¬ (c.purge now).hasAny [.string, .hash, .list, .set, .zset, .stream, .hll] = true) :
    Checked ((c.purge now).has .timeseries = false) true now c
      (.ok a, { c.purge now with jsons := some doc }.touch) := by
  refine .okIf a (.trans (.purge c now) (.write .json (fun h => ?_) rfl rfl nofun))
  have hseries : (c.purge now).hasAny [.timeseries] = false := by simpa [hasAny] using h
  exact conflicts_of_hasAny (eq_false_of_ne_true hconf) hseries (by decide)

theorem jsonSet_checked (path raw : Bytes) :
    Checked ((c.purge now).has .timeseries = false) true now c (c.jsonSet R now path raw) := by
  unfold jsonSet
  dsimp only
  split
  · exact .conflict _ ‹_›
  split
  · exact .gone _
  split
  · split
    · exact jsonSet_write _ _ ‹_›
    · exact .gone _
  · split
    · exact .gone _
    · exact jsonSet_write _ _ ‹_›

theorem jsons_lawful {doc : JVal} (hdoc : c.jsons = some doc) (v : Option JVal) :
    Lawful c { c with jsons := v }.touch := by
  refine .erase ?_ (.inl rfl) (Nat.lt_succ_self _)
  intro t ht
  cases t <;> first | exact ht | (show c.jsons.isSome = true; rw [hdoc]; rfl)

theorem jsonDel_checked (path : Bytes) : Checked True false now c (c.jsonDel now path) := by
  unfold jsonDel
  split
  · exact .purged _
  split
  · exact .same _
  rename_i hdoc
  split
  · exact .ok _ (jsons_lawful hdoc _)
  split
  · exact .same _
  · exact .ok _ (jsons_lawful hdoc _)

theorem jsonNumIncrBy_checked (path : Bytes) (delta : F64) :
    Checked True true now c (c.jsonNumIncrBy R now path delta) := by
  unfold jsonNumIncrBy
  split
  · exact .gone _
  split
  · exact .same _
  rename_i hdoc
  split
  · exact .same _
  · exact .ok _ (jsons_lawful hdoc _)

theorem jsonArrAppend_checked (path : Bytes) (values : List Bytes) :
    Checked True true now c (c.jsonArrAppend R now path values) := by
  unfold jsonArrAppend
  split
  · exact .gone _
  split
  · exact .same _
  rename_i hdoc
  split
  · exact .same _
  split
  · exact .same _
  · exact .ok _ (jsons_lawful hdoc _)

theorem tsAdd_checked (timestamp : Int) (value : F64) (labels : List (Bytes × Bytes)) :
    Checked True false now c (c.tsAdd now timestamp value labels) := by
  unfold tsAdd
  dsimp only
  split
  · exact .conflict _ ‹_›
  · exact .write .timeseries _ ‹_› rfl rfl nofun

theorem deleteThen_lawful (own : DataType) (hown : own ≠ .hash) {c' : Cell}
    (hdata : SameBut own empty c'.toData) (hbump : c.bumps + 1 < c'.bumps) : Lawful c c' := by
  refine .only own hown (hdata.free ?_) (by omega)
  rw [conflicts_eq_false]
  intro t _
  exact has_empty t

/-! ## What leaves the type maps alone -/

theorem dequeue_lawful (hint : List Bytes) : Lawful c (c.dequeue now hint).2 := by
  simp only [dequeue]
  split
  · exact .refl c
  · split <;> exact .same rfl (by first | exact Nat.le_refl _ | exact Nat.le_succ _)

theorem qAck_lawful (id : Bytes) : Lawful c (c.qAck id).2 := by
  simp only [qAck]
  split
  · exact .refl c
  · split_ifs
    · exact .refl c
    · exact .same rfl (Nat.le_succ _)

theorem qNack_lawful (id : Bytes) : Lawful c (c.qNack now id).2 := by
  simp only [qNack]
  split
  · exact .refl c
  · split
    · exact .refl c
    · exact .same rfl (Nat.le_succ _)

theorem tagSet_checked (tags : List (Bytes × Bytes)) :
    Checked True true now c (c.tagSet now tags) := by
  unfold tagSet
  split
  · exact .gone _
  split
  · exact .same _
  · exact .ok _ (.same rfl le_rfl)

theorem tagDel_lawful (fields : List Bytes) : Lawful c (c.tagDel fields).2 := by
  simp only [tagDel]
  split
  · exact .refl c
  · exact .same rfl le_rfl

theorem rateLimit_lawful (max : Int) (window : Duration) :
    Lawful c (c.rateLimit now max window).2 := by
  simp only [rateLimit]
  split_ifs
  · split <;> exact .same rfl le_rfl
  · exact .same rfl (Nat.le_succ _)

theorem rateLimitReset_lawful : Lawful c c.rateLimitReset.2 := by
  simp only [rateLimitReset]
  split
  · exact .refl c
  · exact .same rfl le_rfl

end Cell

/-! ## Operations that fail -/

section
variable {α : Type} {safe : Prop} {purges : Bool} {now : Time} {c : Cell} {e : Entry}
  {r : Except Err α × Cell}

theorem Checked.refused_same (h : Checked safe false now c r) {err : Err} (herr : r.1 = .error err) :
    r.2 = c :=
  (h.refused err herr).resolve_right (fun hpurged => nomatch hpurged.1)

theorem Checked.refused_fresh (h : Checked safe purges now c r) (hfresh : c.expired now = false)
    {err : Err} (herr : r.1 = .error err) : r.2 = c := by
  rcases h.refused err herr with hsame | ⟨-, hpurged⟩
  · exact hsame
  · rw [hpurged, Cell.purge_of_fresh hfresh]

/-- An operation that fails leaves the entry as it was. -/
def Untouched (e : Entry) (r : Except Err α × Cell) : Prop :=
  ∀ err, r.1 = .error err → r.2.toEntry = e

theorem Checked.untouched (h : Checked safe false now ⟨e, 0⟩ r) : Untouched e r :=
  fun _ herr => congrArg Cell.toEntry (h.refused_same herr)

theorem Checked.untouched_fresh (h : Checked safe purges now ⟨e, 0⟩ r)
    (hfresh : e.expired now = false) : Untouched e r :=
  fun _ herr => congrArg Cell.toEntry (h.refused_fresh hfresh herr)

theorem Untouched.ok (a : α) (c : Cell) : Untouched e (.ok a, c) := nofun

theorem Untouched.hDel (fields : List Bytes) : Untouched c.toEntry (c.hDel now fields) := by
  unfold Cell.hDel
  split
  · exact .ok _ _
  split
  · exact fun _ _ => rfl
  split
  · exact .ok _ _
  · exact .ok _ _

theorem Untouched.sRem : Untouched c.toEntry (c.sRem now members) := by
  unfold Cell.sRem
  split
  · exact .ok _ _
  split
  · exact fun _ _ => rfl
  dsimp only
  split
  · exact .ok _ _
  · exact .ok _ _

end

end Vole
