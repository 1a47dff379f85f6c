import Vole.Store.Changes

/-!
# One type for each key

Every operation repeats by hand the list of the type maps it has to check or to clear, and
some of the lists are short. `Op.TypeSafe` says, for each operation, that the maps it
overlooks hold nothing at the keys it writes. In a run of such steps no key ever gets a
second type; one step that is not of this kind is enough to break the rule.
-/

namespace Vole

open Go Cell Store

/-- What an operation on one key overlooks is not there. -/
def CellOp.TypeSafe (now : Time) (e : Entry) : CellOp → Prop
  | .set _ _ => Cell.setBlind e = false
  | .setAbsolute _ _ => Cell.setBlind e = false
  | .setXX _ _ => e.existsAt now = true → Cell.setBlind e = false
  | .setNX _ _ => e.existsAt now = false → (e.purged now).conflicts .string = false
  | .setDelayed _ _ _ => e.has .timeseries = false
  | .xAdd _ _ => Cell.setBlind (e.purged now) = false
  | .xAddPrepared _ _ => e.expired now = false → e.conflicts .stream = false
  | .pfAdd _ => Cell.setBlind (e.purged now) = false
  | .jsonSet _ _ => (e.purged now).has .timeseries = false
  | _ => True

/-- What an operation overlooks is not there. `MSetNX` and `Copy` look at types only
through `existsRLocked`, which a key that is not visible yet escapes. -/
def Op.TypeSafe (now : Time) (s : Store) : Op → Prop
  | .cell key op => op.TypeSafe now (s.entries key)
  | .mSetNX pairs => (∀ p ∈ pairs, (s.entries p.1).existsAt now = false) →
      ∀ p ∈ pairs, ((s.entries p.1).purged now).conflicts .string = false
  | .copy src dst _ => (s.entries src).existsAt now = true →
      (s.entries dst).existsAt now = false →
      Store.copyClash (s.entries src) ((s.entries dst).purged now) = false
  | .pfMerge dest _ => ((s.entries dest).purged now).conflicts .hll = false
  | .lMove src dst _ _ => src ≠ dst → ((s.entries src).purged now).has .list = true →
      Cell.setBlind ((s.entries dst).purged now) = false
  | _ => True

/-- `SRem` is the one operation on a key that does not touch what it changes. -/
def CellOp.Loud : CellOp → Prop
  | .sRem _ => False
  | _ => True

/-- The operations that announce what they change: `FlushDB` and `Load` start the versions
again from zero. -/
def Op.Loud : Op → Prop
  | .cell _ op => op.Loud
  | .flushDB => False
  | .load _ _ => False
  | _ => True

section
variable (R : Runtime) (now : Time)

/-- What an operation on one key keeps: both rules, if it is loud, and the key itself if it returns
an error, up to a purge. -/
structure Keeps (loud safe : Prop) (c c' : Cell) (failure : Option Err) : Prop where
  lawful : loud → LawfulIf safe c c'
  stays : ∀ err, failure = some err → c.toEntry.Stays now c'.toEntry

section
variable {α : Type} {loud safe : Prop} {purges : Bool} {now : Time} {c c' : Cell}
  {r : Except Err α × Cell}

theorem Keeps.of (h : LawfulIf safe c c') : Keeps now loud safe c c' none :=
  ⟨fun _ => h, nofun⟩

theorem Keeps.of_untouched (h : Untouched c.toEntry r) (hlawful : loud → LawfulIf safe c r.2) :
    Keeps now loud safe c r.2 (errorOf r.1) := by
  refine ⟨hlawful, fun err herr => ?_⟩
  obtain ⟨a | e, c'⟩ := r
  · exact .inl (h a rfl)
  · cases herr

theorem Checked.keeps (h : Checked safe purges now c r) :
    Keeps now loud safe c r.2 (errorOf r.1) := by
  refine ⟨fun _ => h.toLawfulIf, fun err herr => StaysIf.of_checked h ?_⟩
  obtain ⟨a | e, c'⟩ := r
  · rfl
  · cases herr

end

theorem CellOp.run_keeps (c : Cell) (op : CellOp) :
    Keeps now (op.Loud ∧ c.hashes ≠ some ∅) (op.TypeSafe now c.toEntry) c (op.run R now c)
      (op.failure R now c) := by
  have hpurge := purge_toEntry c now
  cases op with
  | set => exact .of (set_lawful ..)
  | setAbsolute => exact .of (setAbsolute_lawful ..)
  | setXX => exact .of (setXX_lawful ..)
  | setNX =>
    unfold CellOp.TypeSafe
    rw [← Entry.purged_existsAt, ← hpurge]
    exact .of (setNX_lawful ..)
  | setDelayed => exact .of (setDelayed_lawful ..)
  | xAdd =>
    unfold CellOp.TypeSafe
    rw [← hpurge]
    exact (xAdd_checked ..).keeps
  | xAddPrepared => exact (xAddPrepared_checked ..).keeps
  | pfAdd =>
    unfold CellOp.TypeSafe
    rw [← hpurge]
    exact (pfAdd_checked ..).keeps
  | jsonSet =>
    unfold CellOp.TypeSafe
    rw [← hpurge]
    exact (jsonSet_checked ..).keeps
  | getSet => exact (getSet_checked ..).keeps
  | incrBy => exact (incrBy_checked ..).keeps
  | incrByFloat => exact (incrByFloat_checked ..).keeps
  | append => exact (append_checked ..).keeps
  | setRange => exact (setRange_checked ..).keeps
  | setBit => exact (setBit_checked ..).keeps
  | getEx => exact .of (.of (getEx_lawful ..))
  | getDel => exact .of (.of getDel_lawful)
  | expire => exact .of (.of (expire_lawful ..))
  | expireAt => exact .of (.of (expireAt_lawful ..))
  | persist => exact .of (.of persist_lawful)
  | hSet => exact (hSet_checked ..).keeps
  | hDel => exact .of_untouched (.hDel _) (fun h => .of (hDel_lawful _ h.2))
  | hIncrBy => exact (hIncrBy_checked ..).keeps
  | hSetNX => exact (hSetNX_checked ..).keeps
  | popList => exact (popList_checked ..).keeps
  | lSet => exact (lSet_checked ..).keeps
  | lInsert => exact (lInsert_checked ..).keeps
  | lRem => exact (lRem_checked ..).keeps
  | sAdd => exact (sAdd_checked ..).keeps
  | sRem => exact .of_untouched (.sRem _) (fun h => h.1.elim)
  | sPop => exact (sPop_checked ..).keeps
  | zAdd => exact (zAdd_checked ..).keeps
  | zRem => exact (zRem_checked ..).keeps
  | zIncrBy => exact (zIncrBy_checked ..).keeps
  | zPopMin => exact (zPop_checked _).keeps
  | zPopMax => exact (zPop_checked _).keeps
  | nextStreamID => exact (nextStreamID_checked ..).keeps
  | xTrim => exact .of (.of (xTrim_lawful ..))
  | xGroupCreate => exact (xGroupCreate_checked ..).keeps
  | xGroupDeliver => exact (xGroupDeliver_checked ..).keeps
  | xAck => exact (xAck_checked ..).keeps
  | xClaim => exact (xClaim_checked ..).keeps
  | xAutoClaim => exact (xAutoClaim_checked ..).keeps
  | jsonDel => exact (jsonDel_checked ..).keeps
  | jsonNumIncrBy => exact (jsonNumIncrBy_checked ..).keeps
  | jsonArrAppend => exact (jsonArrAppend_checked ..).keeps
  | tsAdd => exact (tsAdd_checked ..).keeps
  | dequeue => exact .of (.of (dequeue_lawful ..))
  | qAck => exact .of (.of (qAck_lawful ..))
  | qNack => exact .of (.of (qNack_lawful ..))
  | tagSet => exact (tagSet_checked ..).keeps
  | tagDel => exact .of (.of (tagDel_lawful ..))
  | rateLimit => exact .of (.of (rateLimit_lawful ..))
  | rateLimitReset => exact .of (.of rateLimitReset_lawful)

open Store in
theorem Op.apply_orderly (s : Store) (op : Op) (hloud : op.Loud) (hsafe : op.TypeSafe now s)
    (hhash : s.NoEmptyHash) : Orderly s (op.apply R now s) := by
  have hpurge : ∀ c : Cell, Lawful c (c.purge now) := fun c => .purge c now
  cases op with
  | cell key op => exact .put (((op.run_keeps R now _).lawful ⟨hloud, hhash key⟩).lawful hsafe)
  | geoAdd => exact .put ((zAdd_checked _).lawful trivial)
  | enqueue => exact (edits_enqueue _ _ _ (fun _ _ => .same rfl (Nat.le_succ _))).orderly
  | del => exact (edits_del _ (fun _ _ => delCell_lawful now)).orderly
  | mSetNX => exact mSetNX_orderly now _ s hsafe
  | rename => exact rename_orderly now _ _ s
  | copy => exact copy_orderly now _ _ _ s hsafe
  | sMove => exact sMove_orderly now _ _ _ s
  | pfMerge => exact pfMerge_orderly now _ _ s hsafe
  | bitOp op dest keys =>
    refine (edits_bitOp (W := fun _ _ => Lawful) op keys (fun _ _ => hpurge)
      (fun _ _ c => ?_)).orderly
    exact deleteThen_lawful .string (by decide) rfl (Nat.lt_succ_self _)
  | tsDownsample =>
    exact (edits_tsDownsample (W := fun _ _ => Lawful) (fun _ _ => hpurge) (fun _ _ _ =>
      deleteThen_lawful .timeseries (by decide) rfl (Nat.lt_succ_self _))).orderly
  | sort key alpha desc offset count storeKey hint =>
    refine (edits_sort (W := fun _ _ => Lawful) (fun _ _ => hpurge) (fun _ _ c => ?_)
      (fun _ _ _ => sortStore_lawful)).orderly
    refine .erase (fun t ht => ?_) (.inl rfl) (Nat.lt_succ_self _)
    cases t <;> first | exact ht | cases ht
  | pushList => exact pushList_orderly now _ _ _ s
  | lMove => exact lMove_orderly now _ _ _ _ s hsafe
  | bPop => exact (edits_bPopStart _ _ (fun _ => bPopCell_lawful now _)).orderly
  | removeListWaiter => exact .same rfl rfl rfl
  | flushDB => exact absurd hloud id
  | stats => exact purgeExpired_orderly now _ s
  | dump => exact purgeExpired_orderly now _ s
  | load => exact absurd hloud id
  | sampleExpired =>
    exact (edits_sampleExpired _ (fun _ => sampleCell_lawful now) (fun _ _ => .same rfl le_rfl)
      (fun _ => sweepTags_lawful now)).orderly
  | evict => exact (edits_evict _ (fun _ => Lawful.delete)).orderly

open Store in
/-- Without the hypothesis on types, an operation still announces its changes. -/
theorem Op.apply_announced (s : Store) (op : Op) (hloud : op.Loud) (hhash : s.NoEmptyHash) :
    Announced [] s (op.apply R now s) := by
  cases op with
  | cell key op => exact .put_signals ((op.run_keeps R now _).lawful ⟨hloud, hhash key⟩).toSignals
  | mSetNX pairs => exact mSetNX_announced now pairs s
  | copy src dst replace => exact copy_announced now src dst replace s
  | pfMerge dest srcs => exact pfMerge_announced now dest srcs s
  | lMove src dst srcLeft dstLeft => exact lMove_announced now src dst srcLeft dstLeft s
  | _ => exact (Op.apply_orderly R now s _ hloud trivial hhash).toAnnounced

end

/-! ## Runs -/

/-- What holds in every store that can be reached, whatever its steps: versions stay below
the counter, and no hash is empty. -/
structure Store.Wf (s : Store) : Prop where
  bounded : s.Bounded
  noEmptyHash : s.NoEmptyHash

section
variable {R : Runtime} {now : Time} {s : Store}

/-- `SRem` does not announce what it does to its key, but does no other harm. -/
theorem sRem_announced (key : Bytes) (members : List Bytes) :
    Store.Announced [key] s (s.put key ((s.cell key).sRem now members).2) := by
  refine .put (fun hout _ => absurd (by simp) hout) ?_
  intro hhash
  exact sRem_hashes members (hhash key)

theorem Op.apply_wf (hwf : s.Wf) (op : Op) (hload : op.isLoad = false) : (op.apply R now s).Wf := by
  have hloud : op.Loud → (op.apply R now s).Wf := by
    intro hloud
    have hstep := Op.apply_announced R now s op hloud hwf.noEmptyHash
    exact ⟨hstep.bounded hwf.bounded, hstep.noEmptyHash hwf.noEmptyHash⟩
  cases op with
  | cell key op =>
    cases op with
    | sRem members =>
      exact ⟨(sRem_announced key members).bounded hwf.bounded,
        (sRem_announced key members).noEmptyHash hwf.noEmptyHash⟩
    | _ => exact hloud trivial
  | flushDB => exact ⟨fun _ => Nat.zero_le _, fun _ => Option.some_ne_none _ ∘ Eq.symm⟩
  | load snapshot hint => cases hload
  | _ => exact hloud trivial

theorem load_dump_wf {t : Store} (hwf : t.Wf) (s : Store) (then_ : Time)
    (hint hint' : List Bytes) : (s.load R now hint (t.dump R then_ hint').1).Wf := by
  refine ⟨(purgeExpired_orderly now hint _).bounded (fun _ => Nat.zero_le _), ?_⟩
  intro k
  rw [load_entries, dump_entries]
  unfold Entry.purged
  split
  · exact Option.some_ne_none _ ∘ Eq.symm
  · split
    · exact Option.some_ne_none _ ∘ Eq.symm
    · exact hwf.noEmptyHash k

theorem Reach.wf {ok : Store → Time → Op → Prop} (h : Reach R ok s) : s.Wf := by
  induction h with
  | new => exact ⟨fun _ => Nat.le_refl _, fun _ => Option.some_ne_none _ ∘ Eq.symm⟩
  | step now op _ hload _ ih => exact Op.apply_wf ih op hload
  | load now then_ hint hint' _ _ _ ih => exact load_dump_wf ih _ then_ hint hint'

theorem Op.apply_allOneType (hwf : s.Wf) (op : Op)
    (hload : op.isLoad = false) (hsafe : op.TypeSafe now s)
    (hone : s.AllOneType) : (op.apply R now s).AllOneType := by
  have hloud : op.Loud → (op.apply R now s).AllOneType := by
    intro hloud
    exact (Op.apply_orderly R now s op hloud hsafe hwf.noEmptyHash).oneType hone
  cases op with
  | cell key op =>
    cases op with
    | sRem members =>
      intro k
      show OneType ((s.put key _).entries k).toData
      rw [put_entries_apply]
      split
      · exact sRem_oneType members (hone key)
      · exact hone k
    | _ => exact hloud trivial
  | flushDB => exact fun _ => oneType_empty
  | load snapshot hint => cases hload
  | _ => exact hloud trivial

theorem load_dump_allOneType {t : Store} (hone : t.AllOneType) (s : Store) (then_ : Time)
    (hint hint' : List Bytes) : (s.load R now hint (t.dump R then_ hint').1).AllOneType := by
  intro k
  rw [load_entries, dump_entries]
  refine Entry.purged_oneType now ?_
  have hdumped := Entry.purged_oneType then_ (hone k)
  intro t u ht hu
  exact hdumped t u (restore_snap_has R _ t ht) (restore_snap_has R _ u hu)

/-- **One type for each key.** In a run of type-safe steps, at whatever times, no key is
ever held by two of the nine type maps. -/
theorem reach_allOneType (R : Runtime) (s : Store)
    (h : Reach R (fun s now op => op.TypeSafe now s) s) : s.AllOneType := by
  induction h with
  | new => exact fun _ => oneType_empty
  | step now op hreach hload hsafe ih => exact Op.apply_allOneType hreach.wf op hload hsafe ih
  | load now then_ hint hint' _ _ _ ih => exact load_dump_allOneType ih _ then_ hint hint'

/-- A time series under one key and a string under another. -/
theorem reach_allOneType_two_keys :
    let s := (Op.cell (bytes "s") (.set (bytes "v") 0)).apply default 1
      ((Op.cell (bytes "k") (.tsAdd 1 F64.zero [])).apply default 1 Store.new)
    Reach (default : Runtime) (fun s now op => op.TypeSafe now s) s ∧ s.AllOneType := by
  suffices hreach : _ from ⟨hreach, reach_allOneType default _ hreach⟩
  refine .step 1 _ (.step 1 _ .new rfl trivial) rfl ?_
  show setBlind _ = false
  decide

/-- `TSAdd` and then `Set`: the key is a series and a string. -/
theorem set_over_series :
    let s := (Op.cell (bytes "k") (.set (bytes "v") 0)).apply default 1
      ((Op.cell (bytes "k") (.tsAdd 1 F64.zero [])).apply default 1 Store.new)
    Reachable (default : Runtime) s ∧ ¬ s.AllOneType := by
  refine ⟨.step 1 _ (.step 1 _ .new rfl trivial) rfl trivial, ?_⟩
  intro hone
  have hboth := hone (bytes "k") .string .timeseries (by decide) (by decide)
  cases hboth

end

end Vole
