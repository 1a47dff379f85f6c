import Vole.Store.OneType

/-!
# What `WATCH` notices

A client that watches a key compares the version of the key with the one it saw. An
operation is noticed when it changes what the key holds and the version too. Every operation
of the store is, in every reachable state, but for three: `SRem` does not touch the key it
takes members from, and `FlushDB` and `Load` put all versions back to zero, which a key
that came from a snapshot may still have.
-/

namespace Vole

open Go Store

/-- A change that `op` makes to `k` is seen by a client watching it. -/
def Op.Noticed (R : Runtime) (now : Time) (s : Store) (k : Bytes) : Op → Prop
  | .cell key (.sRem members) => k = key → (s.entries k).expired now = true ∨
      (s.entries k).conflicts .set = true ∨ ∀ m ∈ members, m ∉ (s.entries k).sets.getD ∅
  | .flushDB => s.keyVersion k ≠ 0 ∨ ∀ t, (s.entries k).has t = false
  | .load snapshot _ => s.keyVersion k ≠ 0 ∨ ((snapshot k).restore R).expired now = true ∨
      ((snapshot k).restore R).toData = (s.entries k).toData
  | _ => True

section
variable {R : Runtime} {now : Time} {s : Store}

/-- A change to what the key holds comes with another version of the key. -/
def Store.Tells (s s' : Store) (k : Bytes) : Prop :=
  (s'.entries k).toData ≠ (s.entries k).toData → s'.keyVersionOf k ≠ s.keyVersionOf k

theorem Store.Announced.tells {s' : Store} (h : Store.Announced [] s s') (hb : s.Bounded)
    (k : Bytes) : s.Tells s' k := by
  intro hne
  have hfresh := h.touched k (by simp) hne
  have hold := hb k
  unfold keyVersionOf
  omega

theorem sRem_changes (c : Cell) (members : List Bytes) (hexp : c.expired now = false)
    (hconf : c.conflicts .set = false) :
    (c.sRem now members).2.toData ≠ c.toData ↔ ∃ m ∈ members, m ∈ c.sets.getD ∅ := by
  simp only [Cell.sRem, hexp, hconf, Bool.false_eq_true, if_false]
  cases hset : c.sets with
  | none => simp
  | some set =>
    rw [Option.getD_some]
    split
    · rename_i hempty
      simp [hempty]
    · rename_i hne
      -- the set is written back, without the members that were found
      have hback : (c.setSet (set \ members.toFinset)).toData = c.toData ↔
          set \ members.toFinset = set := by
        unfold Cell.setSet
        constructor
        · intro h
          have hsets := congrArg Data.sets h
          split at hsets
          · rw [hset] at hsets
            cases hsets
          · rw [hset] at hsets
            exact Option.some.inj hsets
        · intro h
          rw [h, if_neg hne, ← hset]
      rw [ne_eq, hback, Finset.sdiff_eq_self_iff_disjoint, Finset.disjoint_right]
      simp

theorem sRem_bumps (c : Cell) (members : List Bytes) (hexp : c.expired now = false) :
    (c.sRem now members).2.bumps = c.bumps := by
  simp only [Cell.sRem, hexp, Bool.false_eq_true, if_false]
  split_ifs <;> simp

theorem sRem_noticed_iff (hwf : s.Wf) (key : Bytes) (members : List Bytes) (k : Bytes) :
    s.Tells (s.put key ((s.cell key).sRem now members).2) k
      ↔ (Op.cell key (.sRem members)).Noticed R now s k := by
  unfold Store.Tells
  by_cases hk : k = key
  · subst hk
    rw [put_entries_self]
    by_cases hexp : (s.entries k).expired now = true
    · -- an expired key is deleted, and the deletion is announced
      have hpurge : (s.cell k).sRem now members = (.ok 0, (s.cell k).purge now) := if_pos hexp
      rw [hpurge]
      have hstep : Store.Announced [] s (s.put k ((s.cell k).purge now)) :=
        .put_signals (Lawful.purge _ now).toSignals
      refine ⟨fun _ _ => .inl hexp, fun _ hne => hstep.tells hwf.bounded k ?_⟩
      rw [put_entries_self]
      exact hne
    · have hlive : (s.entries k).expired now = false := eq_false_of_ne_true hexp
      by_cases hconf : (s.entries k).conflicts .set = true
      · have hsame : (s.cell k).sRem now members = (.error .wrongType, s.cell k) :=
          (if_neg hexp).trans (if_pos hconf)
        rw [hsame]
        exact ⟨fun _ _ => .inr (.inl hconf), fun _ hne => absurd rfl hne⟩
      · have hfree : (s.entries k).conflicts .set = false := eq_false_of_ne_true hconf
        have hver : (s.put k ((s.cell k).sRem now members).2).keyVersionOf k =
            s.keyVersionOf k := by
          unfold keyVersionOf
          rw [put_keyVersion_self, sRem_bumps (s.cell k) members hlive, cell_bumps,
            if_neg (Nat.lt_irrefl 0)]
        have hchange := sRem_changes (s.cell k) members hlive hfree
        rw [hver]
        constructor
        · intro hsilent _
          refine .inr (.inr ?_)
          intro m hm hin
          exact hsilent (hchange.mpr ⟨m, hm, hin⟩) rfl
        · intro hcond hne
          obtain ⟨m, hm, hin⟩ := hchange.mp hne
          rcases hcond rfl with h | h | h
          · exact absurd h hexp
          · exact absurd h hconf
          · exact absurd hin (h m hm)
  · rw [put_entries_ne _ _ _ hk]
    exact ⟨fun _ h => absurd h hk, fun _ hne => absurd rfl hne⟩

theorem flushDB_noticed_iff (s : Store) (k : Bytes) :
    s.Tells s.flushDB k ↔ Op.flushDB.Noticed R now s k := by
  unfold Store.Tells
  have hempty : (s.flushDB.entries k).toData = Data.empty := rfl
  have hzero : s.flushDB.keyVersionOf k = 0 := rfl
  rw [hempty, hzero]
  constructor
  · intro h
    by_cases hdata : Data.empty = (s.entries k).toData
    · refine .inr (fun t => ?_)
      rw [← hdata]
      exact has_empty t
    · exact .inl (Ne.symm (h hdata))
  · rintro (h | h) hne
    · exact Ne.symm h
    · refine absurd ?_ hne
      exact (eq_empty_of_has h).symm

/-- After `Load` a key that is not expired has its value from the snapshot and version
zero; an expired one is deleted, with a fresh version. -/
theorem load_noticed_iff (hwf : s.Wf) (snapshot : Snapshot) (hint : List Bytes) (k : Bytes) :
    s.Tells (s.load R now hint snapshot) k ↔ (Op.load snapshot hint).Noticed R now s k := by
  have hentry : (s.loadMaps R snapshot).entries k = loadEntry R (snapshot k) (s.entries k) :=
    loadMaps_entries R snapshot s k
  have hexpired : ((s.loadMaps R snapshot).entries k).expired now =
      ((snapshot k).restore R).expired now := by
    rw [hentry]
    rfl
  unfold Store.Tells keyVersionOf
  by_cases hexp : ((snapshot k).restore R).expired now = true
  · have hheld : k ∈ enumerate hint (s.loadMaps R snapshot).held := by
      rw [mem_enumerate, held, DFinsupp.mem_support_toFun]
      intro hzero
      rw [← hexpired, hzero] at hexp
      cases hexp
    have hfresh : (s.loadMaps R snapshot).version < (s.load R now hint snapshot).keyVersion k :=
      purgeKeys_fresh now _ _ k hheld (hexpired.trans hexp)
    have hold := hwf.bounded k
    have hnext : (s.loadMaps R snapshot).version = s.version + 1 := rfl
    refine ⟨fun _ => .inr (.inl hexp), fun _ _ => ?_⟩
    omega
  · have hlive : ((snapshot k).restore R).expired now = false := eq_false_of_ne_true hexp
    have hzero : (s.load R now hint snapshot).keyVersion k = 0 :=
      purgeKeys_keyVersion now _ _ k (hexpired.trans hlive)
    have hdata : ((s.load R now hint snapshot).entries k).toData =
        ((snapshot k).restore R).toData := by
      have hlive' : (loadEntry R (snapshot k) (s.entries k)).expired now = false := hlive
      rw [load_entries, Entry.purged, if_neg (by simp [hlive'])]
      rfl
    rw [hzero, hdata]
    constructor
    · intro h
      by_cases hsame : ((snapshot k).restore R).toData = (s.entries k).toData
      · exact .inr (.inr hsame)
      · exact .inl (Ne.symm (h hsame))
    · rintro (h | h | h) hne
      · exact Ne.symm h
      · exact absurd h hexp
      · exact absurd h hne

theorem Store.Wf.noticed_iff (hwf : s.Wf) (op : Op) (k : Bytes) :
    s.Tells (op.apply R now s) k ↔ op.Noticed R now s k := by
  have hloud : op.Loud → s.Tells (op.apply R now s) k := by
    intro hloud
    exact (Op.apply_announced R now s op hloud hwf.noEmptyHash).tells hwf.bounded k
  cases op with
  | cell key op =>
    cases op with
    | sRem members => exact sRem_noticed_iff hwf key members k
    | _ => exact ⟨fun _ => trivial, fun _ => hloud trivial⟩
  | flushDB => exact flushDB_noticed_iff s k
  | load snapshot hint => exact load_noticed_iff hwf snapshot hint k
  | _ => exact ⟨fun _ => trivial, fun _ => hloud trivial⟩

/-- **What `WATCH` notices.** In every reachable store, a change that an operation makes to
what a key holds comes with another version of the key exactly when `Op.Noticed` holds. -/
theorem watch_detects_iff (R : Runtime) (s : Store) (hreach : Reachable R s) (now : Time)
    (op : Op) (k : Bytes) : (((op.apply R now s).entries k).toData ≠ (s.entries k).toData →
      (op.apply R now s).keyVersionOf k ≠ s.keyVersionOf k) ↔ op.Noticed R now s k :=
  hreach.wf.noticed_iff op k

/-- A push to a list, in the new store. -/
theorem watch_detects_push :
    let s := (Op.pushList (bytes "k") true [bytes "v"]).apply default 1 Store.new
    Reachable (default : Runtime) Store.new ∧
      ((s.entries (bytes "k")).toData ≠ (Store.new.entries (bytes "k")).toData →
        s.keyVersionOf (bytes "k") ≠ Store.new.keyVersionOf (bytes "k")) :=
  ⟨.new, (watch_detects_iff default new .new 1 _ (bytes "k")).mpr trivial⟩

/-- `SAdd` of one member and then `SRem` of it: the set is gone, its version is the same. -/
theorem sRem_unnoticed : ∃ s, Reachable (default : Runtime) s ∧
    let t := (Op.cell (bytes "k") (.sRem [bytes "m"])).apply default 1 s
    (t.entries (bytes "k")).toData ≠ (s.entries (bytes "k")).toData ∧
      t.keyVersionOf (bytes "k") = s.keyVersionOf (bytes "k") := by
  refine ⟨(Op.cell (bytes "k") (.sAdd [bytes "m"])).apply default 1 new,
    .step 1 _ .new rfl trivial, ?_, by decide⟩
  intro hsame
  exact absurd (congrArg (fun d => d.has .set) hsame) (by decide)

/-- What is left of the evidence that a key was touched: `FlushDB` puts the version back to
zero, which may be the one the client saw. -/
def Op.KeepsTrace (s : Store) (k : Bytes) (version : Nat) : Op → Prop
  | .flushDB => version ≠ 0 ∨ s.keyVersion k = 0
  | _ => True

/-- A key that does not have the version the client saw never has it again. -/
theorem Op.apply_trace (R : Runtime) (now : Time) (hwf : s.Wf) (op : Op)
    (hload : op.isLoad = false) {k : Bytes} {version : Nat}
    (hkeep : op.KeepsTrace s k version) (hseen : version ≤ s.version) :
    version ≤ (op.apply R now s).version ∧
    (s.keyVersion k ≠ version → (op.apply R now s).keyVersion k ≠ version) := by
  have hstep : ∀ {pending s'}, Store.Announced pending s s' → version ≤ s'.version ∧
      (s.keyVersion k ≠ version → s'.keyVersion k ≠ version) := by
    intro pending s' hann
    have hmono := hann.mono
    refine ⟨Nat.le_trans hseen hmono, fun hne => ?_⟩
    rcases hann.fresh k with hsame | hfresh
    · rw [hsame]
      exact hne
    · omega
  have hloud : op.Loud → _ := fun h => hstep (Op.apply_announced R now s op h hwf.noEmptyHash)
  cases op with
  | cell key op =>
    cases op with
    | sRem members => exact hstep (sRem_announced key members)
    | _ => exact hloud trivial
  | flushDB =>
    refine ⟨Nat.le_succ_of_le hseen, fun hne => ?_⟩
    have hzero : (Op.flushDB.apply R now s).keyVersion k = 0 := rfl
    rcases hkeep with h | h
    · rw [hzero]
      exact Ne.symm h
    · rw [hzero, ← h]
      exact hne
  | load snapshot hint => cases hload
  | _ => exact hloud trivial

end

end Vole
