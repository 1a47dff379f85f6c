import Vole.Store.StreamOrder
import Vole.Store.Queries
import Vole.Store.SortedOrder

/-!
# What becomes of a consumer group

A consumer group remembers the last identifier it has delivered and the entries that are not
acknowledged. New entries are those after the last identifier; in a stream that is in order the
binary search finds all of them. Only a delivery changes the last identifier, which then does not
go back, and only deliveries and acknowledgements change which entries are pending.
-/

namespace Vole

open Go Cell

variable {other : Bytes} (acc : GoMap PendingEntry × List StreamEntry)

variable {entries : List StreamEntry} {now : Time} {ids : List Bytes} {minIdleMs : Int}

/-! ## The entries after an identifier -/

/-- `a` is not after `b`. -/
def IdUpTo (a b : Bytes) : Prop := ¬ IdBefore b a

theorem IdUpTo.refl (a : Bytes) : IdUpTo a a := by
  unfold IdUpTo IdBefore
  omega

theorem IdUpTo.trans {a b c : Bytes} (hab : IdUpTo a b) (hbc : IdUpTo b c) : IdUpTo a c := by
  unfold IdUpTo IdBefore at *
  omega

theorem IdBefore.upTo {a b : Bytes} (h : IdBefore a b) : IdUpTo a b := by
  unfold IdUpTo IdBefore at *
  omega

theorem IdUpTo.trans_before {a b c : Bytes} (hab : IdUpTo a b) (hbc : IdBefore b c) :
    IdBefore a c := by
  unfold IdUpTo IdBefore at *
  omega

/-- The entry is after the identifier. -/
def after (id : Bytes) (x : StreamEntry) : Bool := decide (compareID x.id id = .gt)

theorem after_iff {id : Bytes} (hid : id ≠ bytes "$") {x : StreamEntry} :
    after id x = true ↔ IdBefore id x.id := by
  unfold after
  rw [decide_eq_true_iff, compareID_eq_gt hid]

section
variable (h : entries.Pairwise (fun a b => compareID a.id b.id = .lt)) (id : Bytes)
include h

theorem rising_after : SortedLists.Rising (after id) entries := by
  refine h.imp fun hxy hx => ?_
  by_cases hid : id = bytes "$"
  · rw [hid]
    rfl
  · rw [after_iff hid] at hx ⊢
    exact hx.trans (compareID_eq_lt.mp hxy).2

/-- **The binary search finds the entries after an identifier.** -/
theorem entriesAfter_eq : entriesAfter entries id = entries.filter (after id) :=
  drop_search (rising_after h id) (fun i x hx => by rw [hx]; rfl)

end

/-! ## Deliveries and acknowledgements -/

section
variable {g : ConsumerGroup} {ids : List Bytes} {consumer : Bytes}

/-- **A group after a delivery.** The last identifier has not gone back, none of those delivered
is after it, and they are all pending. -/
theorem foldl_deliver (consumer : Bytes) (t : Time) (hlast : g.lastID ≠ bytes "$")
    (hids : ∀ id ∈ ids, id ≠ bytes "$") :
    (ids.foldl (deliver consumer t) g).lastID ≠ bytes "$" ∧
      IdUpTo g.lastID (ids.foldl (deliver consumer t) g).lastID ∧
      (∀ id ∈ ids, IdUpTo id (ids.foldl (deliver consumer t) g).lastID) ∧
      (ids.foldl (deliver consumer t) g).pending.keys = g.pending.keys ∪ ids.toFinset := by
  induction ids generalizing g with
  | nil => exact ⟨hlast, .refl _, fun id hid => absurd hid (by simp), by simp⟩
  | cons id rest ih =>
    have hone : (deliver consumer t g id).lastID ≠ bytes "$" ∧
        IdUpTo g.lastID (deliver consumer t g id).lastID ∧
        IdUpTo id (deliver consumer t g id).lastID := by
      unfold deliver
      split
      · rename_i hgt
        exact ⟨hids id (.head _), ((compareID_eq_gt hlast).mp hgt).upTo, .refl _⟩
      · rename_i hgt
        exact ⟨hlast, .refl _, fun hbefore => hgt ((compareID_eq_gt hlast).mpr hbefore)⟩
    obtain ⟨hne, hup, hid⟩ := hone
    obtain ⟨hne', hup', hall, hkeys⟩ := ih hne (fun x hx => hids x (.tail _ hx))
    refine ⟨hne', hup.trans hup', fun x hx => ?_, ?_⟩
    · rcases List.mem_cons.mp hx with rfl | hx
      · exact hid.trans hup'
      · exact hall x hx
    · rw [List.foldl_cons, hkeys]
      ext x
      simp only [deliver, Finset.mem_union, Finmap.mem_keys, Finmap.mem_insert,
        List.mem_toFinset, List.mem_cons]
      tauto

theorem foldl_ackOne (n : Nat) (pending : GoMap PendingEntry) :
    (ids.foldl ackOne (n, pending)).2.keys = pending.keys \ ids.toFinset := by
  induction ids generalizing n pending with
  | nil => simp
  | cons id rest ih =>
    have hone : (ackOne (n, pending) id).2.keys = pending.keys.erase id := by
      unfold ackOne
      split
      · ext x
        rw [Finmap.mem_keys, Finmap.mem_erase, Finset.mem_erase, Finmap.mem_keys]
      · rename_i hnone
        refine (Finset.erase_eq_of_notMem ?_).symm
        rw [Finmap.mem_keys, ← Finmap.lookup_isSome]
        exact hnone
    rw [List.foldl_cons, ih, hone]
    ext x
    simp only [Finset.mem_sdiff, Finset.mem_erase, List.mem_toFinset, List.mem_cons]
    tauto

theorem claimOne_keys (id : Bytes) :
    (claimOne now consumer minIdleMs entries acc id).1.keys = acc.1.keys := by
  unfold claimOne
  split
  · rfl
  · rename_i p hp
    split
    · have hmem : id ∈ acc.1 := Finmap.mem_of_lookup_eq_some hp
      ext x
      rw [Finmap.mem_keys, Finmap.mem_keys, Finmap.mem_insert]
      constructor
      · rintro (rfl | hx)
        · exact hmem
        · exact hx
      · exact .inr
    · rfl

theorem foldl_claimOne_keys :
    (ids.foldl (claimOne now consumer minIdleMs entries) acc).1.keys = acc.1.keys := by
  induction ids generalizing acc with
  | nil => rfl
  | cons id rest ih => rw [List.foldl_cons, ih, claimOne_keys]

theorem autoClaimLoop_keys {count : Nat} :
    (autoClaimLoop now consumer minIdleMs entries count acc ids).2.1.keys = acc.1.keys := by
  induction ids generalizing acc with
  | nil => rfl
  | cons id rest ih =>
    unfold autoClaimLoop
    split
    · rfl
    · rw [ih, claimOne_keys]

end

/-! ## The other operations -/

namespace Cell

variable {c : Cell} {name : Bytes} {now : Time}

theorem group_setGroup (name name' : Bytes) (g : ConsumerGroup) (c : Cell) :
    (c.setGroup name g).group name' = if name' = name then some g else c.group name' := by
  refine ((c.groups.getD ∅).get_insert name name' g).trans ?_
  unfold group
  cases c.groups <;> rfl

/-- What an operation that neither delivers nor acknowledges leaves of a group: nothing, or the
last identifier and what is pending. -/
def KeepsGroup (name : Bytes) (c c' : Cell) : Prop :=
  ∀ g', c'.group name = some g' →
    ∃ g, c.group name = some g ∧ g'.lastID = g.lastID ∧ g'.pending.keys = g.pending.keys

namespace KeepsGroup

variable {c c' c'' : Cell}

theorem of_eq (h : c'.group name = c.group name) : KeepsGroup name c c' :=
  fun g' hg' => ⟨g', h ▸ hg', rfl, rfl⟩

theorem trans (h : KeepsGroup name c c') (h' : KeepsGroup name c' c'') : KeepsGroup name c c'' := by
  intro g'' hg''
  obtain ⟨g', hg', hlast', hkeys'⟩ := h' g'' hg''
  obtain ⟨g, hg, hlast, hkeys⟩ := h g' hg'
  exact ⟨g, hg, hlast'.trans hlast, hkeys'.trans hkeys⟩

theorem purge : KeepsGroup name c (c.purge now) := by
  unfold Cell.purge
  split
  · intro g hg
    cases hg
  · exact .of_eq rfl

theorem setGroup {g g' : ConsumerGroup} (hg : c.group other = some g)
    (hlast : g'.lastID = g.lastID) (hkeys : g'.pending.keys = g.pending.keys) :
    KeepsGroup name c (c.setGroup other g') := by
  intro g'' hg''
  rw [group_setGroup] at hg''
  split at hg''
  · rename_i heq
    cases hg''
    exact ⟨g, heq ▸ hg, hlast, hkeys⟩
  · exact ⟨g'', hg'', rfl, rfl⟩

theorem setGroup_ne {g' : ConsumerGroup} (hne : name ≠ other) :
    KeepsGroup name c (c.setGroup other g') :=
  .of_eq (by rw [group_setGroup, if_neg hne])

theorem nextStreamID (id : Bytes) : KeepsGroup name c (c.nextStreamID now id).2 := by
  have hpurge : KeepsGroup name c (c.purge now) := .purge
  refine hpurge.trans ?_
  unfold Cell.nextStreamID
  dsimp only
  split
  · exact .of_eq rfl
  · unfold prepareStreamID
    split
    · exact .of_eq rfl
    split
    · exact .of_eq rfl
    · exact .of_eq rfl

theorem xAddPrepared (id : Bytes) (fields : List Bytes) :
    KeepsGroup name c (c.xAddPrepared now id fields).2 := by
  unfold Cell.xAddPrepared
  split
  · exact .of_eq rfl
  split
  · exact .purge
  split
  · exact .of_eq rfl
  · exact .of_eq rfl

theorem xTrim (maxLen : Int) : KeepsGroup name c (c.xTrim maxLen).2 := by
  unfold Cell.xTrim
  dsimp only
  split
  · exact .of_eq rfl
  split
  · exact .of_eq rfl
  · exact .of_eq rfl

theorem xClaim (other consumer : Bytes) (minIdleMs : Int) (ids : List Bytes) :
    KeepsGroup name c (c.xClaim now other consumer minIdleMs ids).2 := by
  unfold Cell.xClaim
  split
  · exact .of_eq rfl
  · rename_i g hg
    have hset : KeepsGroup name c (c.setGroup other { g with pending :=
        (ids.foldl (claimOne now consumer minIdleMs (c.streams.getD [])) (g.pending, [])).1 }) :=
      .setGroup hg rfl (foldl_claimOne_keys _)
    dsimp only
    split
    · exact hset
    · exact hset

theorem xAutoClaim (other consumer : Bytes) (minIdleMs : Int) (startID : Bytes) (count : Int)
    (hint : List Bytes) :
    KeepsGroup name c (c.xAutoClaim now other consumer minIdleMs startID count hint).2 := by
  unfold Cell.xAutoClaim
  split
  · exact .of_eq rfl
  · rename_i g hg
    have hset : ∀ count candidates, KeepsGroup name c (c.setGroup other { g with pending :=
        (autoClaimLoop now consumer minIdleMs (c.streams.getD []) count (g.pending, [])
          candidates).2.1 }) :=
      fun _ _ => .setGroup hg rfl (autoClaimLoop_keys _)
    dsimp only
    generalize (if count ≤ 0 then 100 else count.toNat) = limit
    split
    · exact hset _ _
    · exact hset _ _

theorem xAck (ids : List Bytes) (h : name = other → c.group name = none) :
    KeepsGroup name c (c.xAck now other ids).2 := by
  unfold Cell.xAck
  split
  · exact .purge
  split
  · exact .of_eq rfl
  · rename_i g hg
    have hne : name ≠ other := by
      rintro rfl
      rw [h rfl] at hg
      cases hg
    dsimp only
    split
    · exact .setGroup_ne hne
    · exact .setGroup_ne hne

theorem xGroupDeliver {other consumer : Bytes} {t : Time} (ids : List Bytes)
    (h : name = other → c.group name = none) :
    KeepsGroup name c (c.xGroupDeliver now other consumer ids t).2 := by
  unfold Cell.xGroupDeliver
  split
  · exact .of_eq rfl
  · rename_i g hg
    have hne : name ≠ other := by
      rintro rfl
      rw [h rfl] at hg
      cases hg
    exact .setGroup_ne hne

end KeepsGroup

/-! ## Acknowledging and delivering -/

theorem xAck_group {g' : ConsumerGroup} (h : (c.xAck now name ids).2.group name = some g') :
    ∃ g, c.group name = some g ∧ g'.lastID = g.lastID ∧
      g'.pending.keys = g.pending.keys \ ids.toFinset := by
  unfold xAck at h
  split at h
  · rename_i hexpired
    unfold purge at h
    rw [if_pos hexpired] at h
    cases h
  split at h
  · rename_i hnone
    rw [hnone] at h
    cases h
  · rename_i g hg
    have hset : (c.setGroup name { g with pending := (ids.foldl ackOne (0, g.pending)).2 }).group name
        = some g' := by
      dsimp only at h
      split at h
      · exact h
      · exact h
    rw [group_setGroup, if_pos rfl] at hset
    cases hset
    exact ⟨g, hg, rfl, foldl_ackOne 0 g.pending⟩

theorem xGroupDeliver_group {consumer : Bytes} {t : Time} {g : ConsumerGroup}
    (hg : c.group name = some g) : (c.xGroupDeliver now name consumer ids t).2.group name
      = some (ids.foldl (deliver consumer (if isZero t then now else t)) g) := by
  unfold xGroupDeliver
  rw [hg]
  show (setGroup name _ c).group name = _
  rw [group_setGroup, if_pos rfl]

theorem xGroupDeliver_streams {other consumer : Bytes} {t : Time} :
    (c.xGroupDeliver now other consumer ids t).2.streams = c.streams := by
  unfold xGroupDeliver
  split <;> rfl

end Cell

namespace StreamInOrder

variable {e : Entry} {now : Time} {b : Nat}

theorem xAck (h : StreamInOrder e) (name : Bytes) (ids : List Bytes) :
    StreamInOrder (xAck now name ids ⟨e, b⟩).2.toEntry := by
  unfold Cell.xAck
  split
  · rw [purge_toEntry]
    exact h.purged now
  split
  · exact h
  · dsimp only
    split
    · exact h.of_eq rfl
    · exact h.of_eq rfl

theorem xClaim (h : StreamInOrder e) (name consumer : Bytes) (minIdleMs : Int) (ids : List Bytes) :
    StreamInOrder (xClaim now name consumer minIdleMs ids ⟨e, b⟩).2.toEntry := by
  unfold Cell.xClaim
  split
  · exact h
  · dsimp only
    split
    · exact h.of_eq rfl
    · exact h.of_eq rfl

theorem xAutoClaim (h : StreamInOrder e) (name consumer : Bytes) (minIdleMs : Int)
    (startID : Bytes) (count : Int) (hint : List Bytes) : StreamInOrder
      (xAutoClaim now name consumer minIdleMs startID count hint ⟨e, b⟩).2.toEntry := by
  unfold Cell.xAutoClaim
  split
  · exact h
  · dsimp only
    generalize (if count ≤ 0 then 100 else count.toNat) = limit
    split
    · exact h.of_eq rfl
    · exact h.of_eq rfl

end StreamInOrder

theorem nextStreamID_named {id id' : Bytes} {c : Cell} (hid : id ≠ bytes "$")
    (h : (c.nextStreamID now id).1 = .ok id') : id' ≠ bytes "$" := by
  unfold nextStreamID at h
  dsimp only at h
  split at h
  · cases h
  unfold prepareStreamID at h
  split at h
  · rw [← Except.ok.inj h]
    refine formatID_ne ?_ (by decide)
    split
    · exact (parseID_range _).1
    · have := (parseID_range (c.purge now).lastID).1
      omega
  split at h
  · cases h
  · cases h
    exact hid

end Vole
