import Vole.Store.Delayed
import Vole.Store.Metadata

/-!
# Overwriting a key

The operations that give a key a new string value, whatever it held before: `Set`,
`SetAbsolute`, `GetSet`, `SetNX`, `SetXX` and `MSetNX`. None of them takes away a delay that is
still running, so a value written under one is not there for a reader; and `SetNX` without a
time to live keeps an expiry it finds.
-/

namespace Vole

open Go

inductive Overwrite where
  | set (key value : Bytes) (ttl : Duration)
  | setAbsolute (key value : Bytes) (expireAt : Time)
  | getSet (key value : Bytes)
  | setNX (key value : Bytes) (ttl : Duration)
  | setXX (key value : Bytes) (ttl : Duration)
  | mSetNX (pairs : List (Bytes × Bytes))

namespace Overwrite

/-- The call: whether it reports success, and the store after it. -/
def apply (now : Time) (s : Store) : Overwrite → Bool × Store
  | set key value ttl => (true, s.modify key (·.set now value ttl))
  | setAbsolute key value expireAt => (true, s.modify key (·.setAbsolute value expireAt))
  | getSet key value => (s.onKey key (·.getSet now value)).map Except.isOk id
  | setNX key value ttl => s.onKey key (·.setNX now value ttl)
  | setXX key value ttl => s.onKey key (·.setXX now value ttl)
  | mSetNX pairs => s.mSetNX now pairs

/-- The keys with the values they are given. -/
def pairs : Overwrite → List (Bytes × Bytes)
  | set key value _ | setAbsolute key value _ | getSet key value | setNX key value _
  | setXX key value _ => [(key, value)]
  | mSetNX pairs => pairs

/-- The value a key is given; of two values for one key the later one counts. -/
def valueOf (w : Overwrite) (k : Bytes) : Option Bytes := w.pairs.reverse.lookup k

/-- The expiry the call asks for. -/
def requested (now : Time) : Overwrite → Option Time
  | set _ _ ttl | setNX _ _ ttl | setXX _ _ ttl => if 0 < ttl then some (now + ttl) else none
  | setAbsolute _ _ expireAt => if isZero expireAt then none else some expireAt
  | getSet _ _ | mSetNX _ => none

/-- An absolute expiry is zero or lies in the future. -/
def Ahead (now : Time) : Overwrite → Prop
  | setAbsolute _ _ expireAt => isZero expireAt = true ∨ now < expireAt
  | _ => True

/-- What the key must not have left over: a delay that is still running, and for `SetNX`
without a time to live an expiry. -/
def Fresh (now : Time) (e : Entry) : Overwrite → Prop
  | set .. | setAbsolute .. => e.visible now = true
  | getSet .. | mSetNX _ => (e.purged now).visible now = true
  | setNX _ _ ttl =>
    (e.purged now).visible now = true ∧ (0 < ttl ∨ (e.purged now).expires = none)
  | setXX .. => True

end Overwrite

/-- The key holds the new value as a string, with the expiry that was asked for, and no key but
those that are written has changed. -/
structure Replaced (now : Time) (w : Overwrite) (s s' : Store) (k value : Bytes) : Prop where
  get : (s'.entries k).get now = some value
  type : (s'.entries k).type now = bytes "string"
  expires : (s'.entries k).expires = w.requested now
  others : ∀ j, w.valueOf j = none → s'.entries j = s.entries j

variable {now : Time} {value : Bytes} {e : Entry}

/-! ## One entry -/

theorem get_and_type_iff (hkv : e.kv = some value) (hexp : e.expired now = false) :
    (e.get now = some value ∧ e.type now = bytes "string") ↔ e.visible now = true := by
  unfold Entry.get Entry.type
  rw [hexp, hkv]
  cases hv : e.visible now with
  | true => simp
  | false => simp

theorem not_expired_of_lt {at_ : Time} (hx : e.expires = some at_) (h : now < at_) :
    e.expired now = false := by
  unfold Entry.expired
  rw [hx]
  simp only [Bool.and_eq_false_iff, decide_eq_false_iff_not]
  exact .inr (not_le_of_gt h)

theorem not_expired_of_none (hx : e.expires = none) : e.expired now = false := by
  unfold Entry.expired
  rw [hx]

theorem not_expired_of_requested {w : Overwrite} (hahead : w.Ahead now)
    (hx : e.expires = w.requested now) : e.expired now = false := by
  have hlater : ∀ ttl : Duration, 0 < ttl → now < now + ttl :=
    fun ttl h => Int.lt_add_of_pos_right now h
  cases w with
  | set key value ttl | setNX key value ttl | setXX key value ttl =>
    simp only [Overwrite.requested] at hx
    split at hx
    case isTrue httl => exact not_expired_of_lt hx (hlater ttl httl)
    case isFalse => exact not_expired_of_none hx
  | setAbsolute key value at_ =>
    simp only [Overwrite.requested] at hx
    split at hx
    case isTrue => exact not_expired_of_none hx
    case isFalse hzero => exact not_expired_of_lt hx (hahead.resolve_left hzero)
  | getSet | mSetNX => exact not_expired_of_none hx

/-! ## The writers -/

/-- An entry that was written: it holds the value, and it is read with the expiry asked for
exactly if the entry before was fresh. -/
structure Wrote (now : Time) (w : Overwrite) (value : Bytes) (before after : Entry) : Prop where
  kv : after.kv = some value
  reads : (after.visible now = true ∧ after.expires = w.requested now) ↔ w.Fresh now before

section
variable (c : Cell) (key : Bytes) (ttl : Duration)

theorem set_wrote :
    Wrote now (.set key value ttl) value c.toEntry (c.set now value ttl).toEntry := by
  unfold Cell.set
  split
  case isTrue httl => exact ⟨rfl, and_iff_left (if_pos httl).symm⟩
  case isFalse httl => exact ⟨rfl, and_iff_left (if_neg httl).symm⟩

theorem setAbsolute_wrote (expireAt : Time) :
    Wrote now (.setAbsolute key value expireAt) value c.toEntry
      (c.setAbsolute value expireAt).toEntry := by
  unfold Cell.setAbsolute
  split
  case isTrue hzero => exact ⟨rfl, and_iff_left (if_pos hzero).symm⟩
  case isFalse hzero => exact ⟨rfl, and_iff_left (if_neg hzero).symm⟩

theorem getSet_wrote (hok : (c.getSet now value).1.isOk = true) :
    Wrote now (.getSet key value) value c.toEntry (c.getSet now value).2.toEntry := by
  have hpurge := c.purge_toEntry now
  unfold Cell.getSet at hok ⊢
  dsimp only at hok ⊢
  split at hok
  case isTrue => cases hok
  case isFalse hconf =>
    rw [if_neg hconf]
    refine ⟨rfl, (and_iff_left rfl).trans ?_⟩
    unfold Overwrite.Fresh
    rw [← hpurge]
    rfl

theorem setNX_wrote (hok : (c.setNX now value ttl).1 = true) :
    Wrote now (.setNX key value ttl) value c.toEntry (c.setNX now value ttl).2.toEntry := by
  have hpurge := c.purge_toEntry now
  unfold Cell.setNX at hok ⊢
  dsimp only at hok ⊢
  split at hok
  case isTrue => cases hok
  case isFalse hexists =>
    rw [if_neg hexists]
    refine ⟨rfl, ?_⟩
    simp only [Overwrite.Fresh, Overwrite.requested]
    rw [← hpurge]
    by_cases httl : 0 < ttl
    · rw [if_pos httl, if_pos httl]
      exact and_congr_right fun _ => iff_of_true rfl (.inl httl)
    · rw [if_neg httl, if_neg httl]
      exact and_congr_right fun _ => (or_iff_right httl).symm

theorem setXX_wrote (hok : (c.setXX now value ttl).1 = true) :
    Wrote now (.setXX key value ttl) value c.toEntry (c.setXX now value ttl).2.toEntry := by
  unfold Cell.setXX at hok ⊢
  split at hok
  case isTrue => cases hok
  case isFalse hexp =>
    split at hok
    case isTrue => cases hok
    case isFalse hexists =>
      rw [if_neg hexp, if_neg hexists]
      -- a key that exists is visible
      have hvisible : c.visible now = true := by
        rw [Bool.not_eq_true', Bool.not_eq_false] at hexists
        unfold Entry.existsAt at hexists
        rw [Bool.and_eq_true, Bool.and_eq_true] at hexists
        exact hexists.1.2
      split
      case isTrue httl => exact ⟨rfl, iff_of_true ⟨hvisible, (if_pos httl).symm⟩ trivial⟩
      case isFalse httl => exact ⟨rfl, iff_of_true ⟨hvisible, (if_neg httl).symm⟩ trivial⟩

/-- An entry after the last of the pairs of `MSetNX` that name its key. -/
def writtenOver (e : Entry) (value : Option Bytes) : Entry :=
  value.elim e fun value => { e with kv := some value, expires := none }

theorem lookup_singleton (p : Bytes × Bytes) (k : Bytes) :
    [p].lookup k = if k = p.1 then some p.2 else none := by
  rw [List.lookup_cons, List.lookup_nil]
  by_cases hk : k = p.1
  · simp [hk]
  · simp [hk, beq_eq_false_iff_ne.mpr hk]

theorem foldl_mSetNXWrite_entries (pairs : List (Bytes × Bytes)) (s : Store) (k : Bytes) :
    (pairs.foldl (fun s p => s.modify p.1 (Cell.mSetNXWrite p.2)) s).entries k
      = writtenOver (s.entries k) (pairs.reverse.lookup k) := by
  induction pairs generalizing s with
  | nil => rfl
  | cons p rest ih =>
    rw [List.foldl_cons, ih, List.reverse_cons, List.lookup_append, Store.modify_entries]
    cases hrest : rest.reverse.lookup k with
    | none =>
      by_cases hk : k = p.1
      · subst hk
        simp [Cell.mSetNXWrite, lookup_singleton, writtenOver]
      · simp [hk, lookup_singleton, writtenOver]
    | some value =>
      by_cases hk : k = p.1
      · subst hk
        simp [Cell.mSetNXWrite, writtenOver]
      · simp [hk, writtenOver]

theorem mSetNX_entries {pairs : List (Bytes × Bytes)} {s : Store}
    (hok : (s.mSetNX now pairs).1 = true) (k : Bytes) : (s.mSetNX now pairs).2.entries k
      = writtenOver (if k ∈ pairs.map (·.1) then (s.entries k).purged now else s.entries k)
          (pairs.reverse.lookup k) := by
  have hpass := Store.mSetNXCheck_pass now (pairs.map (·.1)) s
  unfold Store.mSetNX at hok ⊢
  generalize Store.mSetNXCheck now (pairs.map (·.1)) s = r at hok hpass ⊢
  obtain ⟨passed, t⟩ := r
  cases passed with
  | false => cases hok
  | true => rw [foldl_mSetNXWrite_entries, (hpass rfl).2 k]

end

/-! ## The store -/

section
variable {s : Store} {w : Overwrite} {k : Bytes}

theorem lookup_reverse_eq_none {pairs : List (Bytes × Bytes)} {k : Bytes} :
    pairs.reverse.lookup k = none ↔ k ∉ pairs.map (·.1) := by
  rw [List.lookup_eq_none_iff]
  simp only [List.mem_reverse, bne_iff_ne, List.mem_map, not_exists, not_and]
  exact forall₂_congr fun p _ => ne_comm

theorem put_entries_cases {key new : Bytes} {c : Cell} (hw : w.pairs = [(key, new)])
    (hc : Wrote now w new (s.entries key) c.toEntry) (k : Bytes) :
    (∀ value, w.valueOf k = some value → Wrote now w value (s.entries k) ((s.put key c).entries k))
    ∧ (w.valueOf k = none → (s.put key c).entries k = s.entries k) := by
  unfold Overwrite.valueOf
  rw [hw, List.reverse_singleton, lookup_singleton, Store.put_entries_apply]
  by_cases hk : k = key
  · rw [if_pos hk, if_pos hk, hk]
    refine ⟨?_, nofun⟩
    intro value hvalue
    cases hvalue
    exact hc
  · rw [if_neg hk, if_neg hk]
    exact ⟨fun value h => (nomatch h), fun _ => rfl⟩

theorem apply_entries (hok : (w.apply now s).1 = true) (k : Bytes) :
    (∀ value, w.valueOf k = some value →
      Wrote now w value (s.entries k) ((w.apply now s).2.entries k))
    ∧ (w.valueOf k = none → (w.apply now s).2.entries k = s.entries k) := by
  cases w with
  | set key value ttl => exact put_entries_cases rfl (set_wrote (s.cell key) key ttl) k
  | setAbsolute key value at_ =>
    exact put_entries_cases rfl (setAbsolute_wrote (s.cell key) key at_) k
  | getSet key value => exact put_entries_cases rfl (getSet_wrote (s.cell key) key hok) k
  | setNX key value ttl => exact put_entries_cases rfl (setNX_wrote (s.cell key) key ttl hok) k
  | setXX key value ttl => exact put_entries_cases rfl (setXX_wrote (s.cell key) key ttl hok) k
  | mSetNX pairs =>
    have hentry := mSetNX_entries hok k
    unfold Overwrite.valueOf Overwrite.pairs
    cases hvalue : pairs.reverse.lookup k with
    | none =>
      refine ⟨fun value h => (nomatch h), fun _ => ?_⟩
      exact hentry.trans (by rw [hvalue, if_neg (lookup_reverse_eq_none.mp hvalue)]; rfl)
    | some new =>
      have hmem : k ∈ pairs.map (·.1) := by
        by_contra hnot
        rw [lookup_reverse_eq_none.mpr hnot] at hvalue
        cases hvalue
      refine ⟨fun value h => ?_, nofun⟩
      cases h
      rw [hvalue, if_pos hmem] at hentry
      show Wrote now _ _ _ ((s.mSetNX now pairs).2.entries k)
      rw [hentry]
      exact ⟨rfl, and_iff_left rfl⟩

/-- A call that reports success replaces a key it names exactly if nothing that would hide the
new value or give it another expiry is left over from before. -/
theorem overwrite_replaces_iff (s : Store) (now : Time) (w : Overwrite) (k value : Bytes)
    (hok : (w.apply now s).1 = true) (hahead : w.Ahead now) (hk : w.valueOf k = some value) :
    Replaced now w s (w.apply now s).2 k value ↔ w.Fresh now (s.entries k) := by
  have hwrote := (apply_entries hok k).1 value hk
  have hothers : ∀ j, w.valueOf j = none → (w.apply now s).2.entries j = s.entries j :=
    fun j => (apply_entries hok j).2
  have hreads := (and_congr_left fun hx =>
    get_and_type_iff hwrote.kv (not_expired_of_requested hahead hx)).trans hwrote.reads
  rw [and_assoc] at hreads
  constructor
  · intro h
    exact hreads.mp ⟨h.get, h.type, h.expires⟩
  · intro h
    obtain ⟨hget, htype, hexpires⟩ := hreads.mpr h
    exact ⟨hget, htype, hexpires, hothers⟩

end

/-- A hash with an expiry. -/
def expiringHash : List (Time × Op) :=
  [(1, .cell (bytes "k") (.hSet [(bytes "f", bytes "v")])),
    (1, .cell (bytes "k") (.expire (100 * second)))]

theorem overwrite_replaces_hash :
    Replaced 2 (.set (bytes "k") (bytes "w") 0) (Store.after default expiringHash)
      ((Overwrite.set (bytes "k") (bytes "w") 0).apply 2 (Store.after default expiringHash)).2
      (bytes "k") (bytes "w") :=
  (overwrite_replaces_iff (Store.after default expiringHash) 2 (.set (bytes "k") (bytes "w") 0)
    (bytes "k") (bytes "w") rfl trivial rfl).mpr
    (by decide : ((Store.after default expiringHash).entries (bytes "k")).visible 2 = true)

/-- The writers, `SetXX` apart, on the key `k`. -/
def writersOf (value : Bytes) : List Overwrite :=
  [.set (bytes "k") value 0, .setAbsolute (bytes "k") value zeroTime, .getSet (bytes "k") value,
    .setNX (bytes "k") value 0, .mSetNX [(bytes "k", value)]]

/-- A key waits for its delay: each writer reports success and the value is not there. The expiry
of a deleted document is the expiry of the value `SetNX` writes without one. -/
theorem overwrite_hidden :
    let deleted := Store.after nullRuntime deletedDocument
    let setNX := Overwrite.setNX (bytes "k") (bytes "w") 0
    (Reachable (default : Runtime) delayedStore
      ∧ ∀ w ∈ writersOf (bytes "w"), (w.apply 1 delayedStore).1 = true ∧ w.Ahead 1
        ∧ w.valueOf (bytes "k") = some (bytes "w")
        ∧ ((w.apply 1 delayedStore).2.entries (bytes "k")).get 1 = none
        ∧ ((w.apply 1 delayedStore).2.entries (bytes "k")).type 1 = bytes "none")
    ∧ Reachable nullRuntime deleted ∧ (setNX.apply 1 deleted).1 = true
      ∧ ((setNX.apply 1 deleted).2.entries (bytes "k")).ttl 1 = 100 := by
  refine ⟨⟨.step 1 _ .new rfl trivial, ?_⟩, reachable_after _ (by decide), by decide, by decide⟩
  simp only [writersOf, List.forall_mem_cons, List.not_mem_nil, false_imp_iff, implies_true,
    and_true]
  refine ⟨⟨rfl, trivial, rfl, ?_, ?_⟩, ⟨rfl, .inl rfl, rfl, ?_, ?_⟩, ⟨?_, trivial, rfl, ?_, ?_⟩,
    ⟨?_, trivial, rfl, ?_, ?_⟩, ⟨?_, trivial, rfl, ?_, ?_⟩⟩
  all_goals decide

end Vole
