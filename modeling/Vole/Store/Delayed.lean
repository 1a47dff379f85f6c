import Vole.Store.Ranges
import Vole.Store.Reads

/-!
# Delayed keys

`SetDelayed` stores a string that is to become visible later. The listing, `Get`, `Exists`,
`Type` and `TTL` ask for the delay; `RandomKey`, the other readers of strings, and the
operations that return the old value of a key do not.
-/

namespace Vole

open Go Cell Entry Store List

variable (start stop : Int)

/-- The entry was last written by `SetDelayed`, with a time of visibility after `now`. -/
def Delayed (now : Time) (value : Bytes) (e : Entry) : Prop :=
  ∃ (c : Cell) (written : Time) (delay ttl : Duration),
    now < written + delay ∧ e = (c.setDelayed written value delay ttl).toEntry

/-- The store without a key. -/
def Store.without (s : Store) (k : Bytes) : Store := { s with entries := s.entries.erase k }

/-- The operations that are to see no delayed key; those that also write are taken for what
they return. -/
inductive Lookup where
  | get (key : Bytes)
  | mGet (keys : List Bytes)
  | exist (keys : List Bytes)
  | type (key : Bytes)
  | keys (pattern : Bytes)
  | scan (cursor count : Int) (pattern : Bytes)
  | dbSize
  | ttl (key : Bytes)
  | randomKey (hint : List Bytes)
  | strlen (key : Bytes)
  | getRange (key : Bytes) (start stop : Int)
  | getBit (key : Bytes) (offset : Int)
  | bitCount (key : Bytes) (start stop : Int) (hasBounds : Bool)
  | bitPos (key : Bytes) (bit start stop : Int) (hasBounds : Bool)
  | getEx (key : Bytes) (ttl : Duration) (persist : Bool)
  | getDel (key : Bytes)
  | getSet (key value : Bytes)
  | copy (src dst : Bytes) (replace : Bool)

namespace Lookup

def Answer : Lookup → Type
  | get _ | getEx _ _ _ | getDel _ | randomKey _ => Option Bytes
  | mGet _ => List (Option Bytes)
  | exist _ | dbSize => Nat
  | type _ => Bytes
  | keys _ => List Bytes
  | scan _ _ _ => Except Err (Int × List Bytes)
  | ttl _ => Int
  | strlen _ | getBit _ _ | bitCount _ _ _ _ => Except Err Nat
  | getRange _ _ _ => Except Err Bytes
  | bitPos _ _ _ _ _ => Except Err Int
  | getSet _ _ => Except Err (Option Bytes)
  | copy _ _ _ => Bool

def answer (s : Store) (now : Time) : (r : Lookup) → r.Answer
  | get key => (s.entries key).get now
  | mGet ks => s.mGet now ks
  | exist ks => s.existCount now ks
  | type key => (s.entries key).type now
  | keys pattern => s.keys now pattern
  | scan cursor count pattern => s.scan now cursor count pattern
  | dbSize => s.dbSize now
  | ttl key => (s.entries key).ttl now
  | randomKey hint => s.randomKey now hint
  | strlen key => (s.entries key).strlen now
  | getRange key start stop => (s.entries key).getRange now start stop
  | getBit key offset => (s.entries key).getBit now offset
  | bitCount key start stop hasBounds => (s.entries key).bitCount now start stop hasBounds
  | bitPos key bit start stop hasBounds => (s.entries key).bitPos now bit start stop hasBounds
  | getEx key expiry persist => (s.onKey key (Cell.getEx now expiry persist)).1
  | getDel key => (s.onKey key (Cell.getDel now)).1
  | getSet key value => (s.onKey key (Cell.getSet now value)).1
  | copy src dst replace => (s.copy now src dst replace).1

/-- What keeps the delayed key `k` from showing. A key that is also a series is an error to
the readers of strings, and an absent key is not. -/
def Blind (s : Store) (now : Time) (k value : Bytes) : Lookup → Prop
  | randomKey hint => ∃ before after j, enumerate hint s.held = before ++ k :: after
      ∧ j ∈ before ∧ s.Drawable now .string j
  | strlen key => key = k → (s.entries k).timeseries = none ∧ value = []
  | getRange key start stop => key = k → (s.entries k).timeseries = none ∧
      ((Entry.clampRange start stop value.length).2 < (Entry.clampRange start stop value.length).1
        ∨ (value.length : Int) ≤ (Entry.clampRange start stop value.length).1)
  | getBit key offset => key = k → 0 ≤ offset →
      (s.entries k).timeseries = none ∧ Cell.bitAt value offset.toNat = 0
  | bitCount key start stop hasBounds => key = k → (s.entries k).timeseries = none ∧
      ((Entry.bitRange start stop hasBounds value.length).2
          < (Entry.bitRange start stop hasBounds value.length).1
        ∨ ∀ b ∈ Entry.slice value (Entry.bitRange start stop hasBounds value.length),
          Entry.popcount b = 0)
  | bitPos key bit start stop hasBounds => key = k → (s.entries k).timeseries = none ∧
      if bit = 0 then
        (Entry.bitRange start stop hasBounds value.length).1 = 0
          ∧ 0 ≤ (Entry.bitRange start stop hasBounds value.length).2 ∧ Cell.bitAt value 0 = 0
      else ∀ o : Nat, 8 * (Entry.bitRange start stop hasBounds value.length).1 ≤ o →
        (o : Int) < 8 * ((Entry.bitRange start stop hasBounds value.length).2 + 1) →
        ((Cell.bitAt value o).toNat : Int) ≠ bit
  | getEx key _ _ | getDel key | getSet key _ => key ≠ k
  | _ => True

end Lookup

/-! ## The entry of a delayed key -/

section
variable {now : Time} {value : Bytes} {e : Entry}

variable (h : Delayed now value e)
include h

theorem Delayed.kv : e.kv = some value := by
  obtain ⟨c, written, delay, ttl, -, rfl⟩ := h
  unfold setDelayed
  split <;> rfl

theorem Delayed.not_visible : e.visible now = false := by
  obtain ⟨c, written, delay, ttl, hlater, rfl⟩ := h
  have hnb : (c.setDelayed written value delay ttl).notBefore = some (written + delay) := by
    unfold setDelayed
    split <;> rfl
  unfold visible
  rw [hnb]
  exact decide_eq_false (Int.not_le.mpr hlater)

omit h in
theorem setDelayed_expires (c : Cell) (written : Time) (value : Bytes) (delay ttl : Duration) :
    (c.setDelayed written value delay ttl).expires
      = if 0 < ttl then some (written + delay + ttl) else none := by
  unfold setDelayed
  split <;> rfl

theorem Delayed.not_expired : e.expired now = false := by
  obtain ⟨c, written, delay, ttl, hlater, rfl⟩ := h
  unfold expired
  rw [setDelayed_expires]
  by_cases httl : 0 < ttl
  · have hle : ¬ (written + delay + ttl ≤ now) :=
      Int.not_le.mpr (Int.lt_trans hlater (Int.lt_add_of_pos_right _ httl))
    simp [httl, hle]
  · simp [httl]

theorem Delayed.existsAt : e.existsAt now = false := by
  simp [Entry.existsAt, h.not_visible]

theorem Delayed.get : e.get now = empty.get now := by
  show _ = none
  simp [Entry.get, h.not_visible]

theorem Delayed.type : e.type now = empty.type now := by
  show _ = bytes "none"
  simp [Entry.type, h.not_visible]

theorem Delayed.ttl : e.ttl now = empty.ttl now := by
  show _ = (-2 : Int)
  simp [Entry.ttl, expiryQuery, h.existsAt]

/-- Of the other types only a series survives `SetDelayed`. -/
theorem Delayed.conflicts : e.conflicts .string = e.timeseries.isSome := by
  obtain ⟨c, written, delay, ttl, -, rfl⟩ := h
  unfold setDelayed
  split <;> simp [Data.conflicts, Data.hasAny, DataType.others, DataType.all, Data.has,
    touch]

omit h in
theorem readConflict_string (e : Entry) (now : Time) :
    e.readConflict now .string = e.conflicts .string := by
  simp [readConflict, Data.conflicts, Data.hasAny, DataType.others, DataType.all]

theorem Delayed.readConflict : e.readConflict now .string = e.timeseries.isSome := by
  rw [readConflict_string, h.conflicts]

/-! ## Reading the delayed string -/

theorem Delayed.strlen_iff :
    e.strlen now = empty.strlen now ↔ e.timeseries = none ∧ value = [] := by
  show e.strlen now = .ok 0 ↔ _
  unfold strlen
  rw [h.not_expired, h.readConflict, h.kv]
  cases e.timeseries <;> simp

omit h in
theorem slice_ne_nil (data : Bytes) (range : Int × Int) (hle : range.1 ≤ range.2)
    (h0 : 0 ≤ range.1) (hlt : range.1 < data.length) : slice data range ≠ [] := by
  unfold slice
  intro hnil
  have hlen := congrArg length hnil
  rw [length_take, length_drop, length_nil] at hlen
  omega

theorem Delayed.getRange_iff :
    e.getRange now start stop = empty.getRange now start stop ↔ e.timeseries = none ∧
      ((clampRange start stop value.length).2 < (clampRange start stop value.length).1
        ∨ (value.length : Int) ≤ (clampRange start stop value.length).1) := by
  show e.getRange now start stop = .ok [] ↔ _
  unfold getRange
  rw [h.not_expired, h.readConflict, h.kv]
  have hfst := (@clampRange_bounds start stop value.length).1
  dsimp only
  rw [inText_clampRange]
  generalize clampRange start stop value.length = range at hfst ⊢
  cases e.timeseries with
  | some => simp
  | none =>
    by_cases hout : range.2 < range.1 ∨ (value.length : Int) ≤ range.1
    · simp [hout]
    · have hnonempty := slice_ne_nil value range (by omega) hfst (by omega)
      simp [hout, hnonempty]

theorem Delayed.getBit_iff (offset : Int) : e.getBit now offset = empty.getBit now offset
      ↔ (0 ≤ offset → e.timeseries = none ∧ bitAt value offset.toNat = 0) := by
  have hempty : empty.getBit now offset
      = if offset < 0 then .error .bitOffset else .ok 0 := by
    unfold getBit
    split
    · rfl
    · show Except.ok (bitAt [] offset.toNat).toNat = _
      simp [bitAt]
  rw [hempty]
  unfold getBit
  rw [h.not_expired, h.readConflict, h.kv]
  by_cases hoff : offset < 0
  · simp [hoff, Int.not_le.mpr hoff]
  · rw [if_neg hoff, if_neg hoff]
    have hzero : ∀ b : UInt8, b.toNat = 0 ↔ b = 0 := fun b =>
      ⟨fun hb => UInt8.toNat_inj.mp hb, fun hb => by rw [hb]; rfl⟩
    cases e.timeseries <;> simp [Int.not_lt.mp hoff, hzero]

theorem Delayed.bitCount_iff (hasBounds : Bool) :
    e.bitCount now start stop hasBounds = empty.bitCount now start stop hasBounds
      ↔ e.timeseries = none ∧ ((bitRange start stop hasBounds value.length).2
            < (bitRange start stop hasBounds value.length).1
          ∨ ∀ b ∈ slice value (bitRange start stop hasBounds value.length), popcount b = 0) := by
  show e.bitCount now start stop hasBounds = .ok 0 ↔ _
  unfold bitCount
  rw [h.not_expired, h.readConflict, h.kv]
  dsimp only
  rw [inText_bitRange]
  generalize bitRange start stop hasBounds value.length = range
  cases e.timeseries with
  | some => simp
  | none =>
    by_cases hout : range.2 < range.1
    · simp [hout]
    · simp [hout, List.sum_eq_zero_iff_forall_eq_nat]

theorem Delayed.shows (hseries : e.timeseries = none) : e.Shows now value :=
  ⟨h.kv, h.not_expired, by rw [h.readConflict, hseries]; rfl⟩

theorem Delayed.bitPos_one_iff {bit : Int} (hbit : bit ≠ 0) (start stop : Int) (hasBounds : Bool) :
    e.bitPos now bit start stop hasBounds = .ok (-1) ↔ e.timeseries = none ∧
      ∀ o : Nat, 8 * (bitRange start stop hasBounds value.length).1 ≤ o →
        (o : Int) < 8 * ((bitRange start stop hasBounds value.length).2 + 1) →
        ((bitAt value o).toNat : Int) ≠ bit := by
  cases hseries : e.timeseries with
  | some => simp [bitPos, h.not_expired, h.readConflict, hseries]
  | none =>
    rcases bitPos_cases (h.shows hseries) bit start stop hasBounds rfl with
      ⟨o, heq, hin, htest, -⟩ | ⟨hnone, heq⟩
    · refine iff_of_false ?_ (fun hall => hall.2 o ?_ ?_ htest)
      · rw [heq, Except.ok.injEq]
        omega
      · have := hin.1
        omega
      · have := hin.2
        omega
    · refine iff_of_true ?_ ⟨rfl, fun o hlow hhigh => hnone o ⟨by omega, by omega⟩⟩
      rw [heq, if_neg (fun hall => hbit hall.2.1)]

theorem Delayed.bitPos_zero_iff (hasBounds : Bool) :
    e.bitPos now 0 start stop hasBounds = .ok 0 ↔ e.timeseries = none ∧
      (bitRange start stop hasBounds value.length).1 = 0
        ∧ 0 ≤ (bitRange start stop hasBounds value.length).2 ∧ bitAt value 0 = 0 := by
  have hbounds := @bitRange_bounds start stop value.length hasBounds
  cases hseries : e.timeseries with
  | some => simp [bitPos, h.not_expired, h.readConflict, hseries]
  | none =>
    rcases bitPos_cases (h.shows hseries) 0 start stop hasBounds rfl with
      ⟨o, heq, hin, htest, hfirst⟩ | ⟨hnone, heq⟩
    · rw [heq, Except.ok.injEq]
      constructor
      · intro ho
        obtain rfl : o = 0 := by omega
        have := hin.1
        have := hin.2
        exact ⟨rfl, by omega, by omega, UInt8.toNat_inj.mp (Int.ofNat_inj.mp htest)⟩
      · rintro ⟨-, hzero, hnonneg, hbit⟩
        by_contra hne
        exact hfirst 0 (by omega) ⟨by omega, by omega⟩ (by rw [hbit]; rfl)
    · refine iff_of_false ?_ ?_
      · -- the answer is the end of the text, or `-1`
        rw [heq, Except.ok.injEq]
        split <;> omega
      · rintro ⟨-, hzero, hnonneg, hbit⟩
        exact hnone 0 ⟨by omega, by omega⟩ (by rw [hbit]; rfl)

theorem Delayed.bitPos_iff (bit start stop : Int) (hasBounds : Bool) :
    e.bitPos now bit start stop hasBounds = empty.bitPos now bit start stop hasBounds
      ↔ e.timeseries = none ∧ if bit = 0 then (bitRange start stop hasBounds value.length).1 = 0
            ∧ 0 ≤ (bitRange start stop hasBounds value.length).2 ∧ bitAt value 0 = 0
        else ∀ o : Nat, 8 * (bitRange start stop hasBounds value.length).1 ≤ o →
          (o : Int) < 8 * ((bitRange start stop hasBounds value.length).2 + 1) →
          ((bitAt value o).toNat : Int) ≠ bit := by
  by_cases hbit : bit = 0
  · rw [if_pos hbit, hbit]
    exact h.bitPos_zero_iff start stop hasBounds
  · have hempty : empty.bitPos now bit start stop hasBounds = .ok (-1) := if_neg hbit
    rw [if_neg hbit, hempty]
    exact h.bitPos_one_iff hbit start stop hasBounds

/-! ## Operations that return the old value -/

theorem Delayed.getEx_ne (expiry : Duration) (persist : Bool) : (getEx now expiry persist ⟨e, 0⟩).1
      ≠ (getEx now expiry persist ⟨empty, 0⟩).1 := by
  have hempty : (getEx now expiry persist ⟨empty, 0⟩).1 = none := rfl
  rw [hempty]
  simp [getEx, h.not_expired, h.kv]

theorem Delayed.getDel_ne : (getDel now ⟨e, 0⟩).1 ≠ (getDel now ⟨empty, 0⟩).1 := by
  have hempty : (getDel now ⟨empty, 0⟩).1 = none := rfl
  rw [hempty]
  simp [getDel, h.not_expired, h.kv]

theorem Delayed.getSet_ne (new : Bytes) :
    (getSet now new ⟨e, 0⟩).1 ≠ (getSet now new ⟨empty, 0⟩).1 := by
  have hempty : (getSet now new ⟨empty, 0⟩).1 = .ok none := rfl
  rw [hempty]
  simp only [getSet, purge, h.not_expired, Bool.false_eq_true, if_false, h.kv]
  split <;> simp

end

/-! ## The store without the key -/

namespace Store

variable {s : Store} {now : Time} {k value : Bytes}

theorem without_entries (s : Store) (k j : Bytes) :
    (s.without k).entries j = if j = k then 0 else s.entries j :=
  DFinsupp.erase_apply ..

theorem without_entries_self (s : Store) (k : Bytes) : (s.without k).entries k = empty := by
  rw [without_entries, if_pos rfl]
  rfl

theorem without_entries_of_ne (s : Store) {k j : Bytes} (h : j ≠ k) :
    (s.without k).entries j = s.entries j := by
  rw [without_entries, if_neg h]

theorem without_iff {α : Type} (f : Entry → α) (s : Store) (k key : Bytes) :
    f (s.entries key) = f ((s.without k).entries key) ↔ (key = k → f (s.entries k) = f empty) := by
  by_cases hkey : key = k
  · rw [hkey, without_entries_self]
    simp
  · rw [without_entries_of_ne s hkey]
    simp [hkey]

theorem without_congr {α : Type} (f : Entry → α) (h : f (s.entries k) = f empty)
    (key : Bytes) : f (s.entries key) = f ((s.without k).entries key) :=
  (without_iff f s k key).mpr (fun _ => h)

section
variable (hk : Delayed now value (s.entries k))
include hk

theorem without_existsAt (key : Bytes) :
    (s.entries key).existsAt now = ((s.without k).entries key).existsAt now :=
  without_congr (fun e => e.existsAt now) hk.existsAt key

theorem without_allKeys :
    s.allKeys now = (s.without k).allKeys now :=
  allKeys_congr (without_congr (fun e => e.listed now)
    (listed_of_not_existsAt hk.existsAt))

theorem without_keys (pattern : Bytes) :
    s.keys now pattern = (s.without k).keys now pattern := by
  unfold keys
  rw [without_allKeys hk]

end

theorem copy_fst (s : Store) (src dst : Bytes) (replace : Bool) : (s.copy now src dst replace).1
      = ((s.entries src).existsAt now && (replace || !(s.entries dst).existsAt now)) := by
  have hpurge : ∀ (s : Store) (j key : Bytes),
      ((s.purgeKey now j).entries key).existsAt now = (s.entries key).existsAt now := by
    intro s j key
    rw [purgeKey_entries]
    split
    · rename_i hkey
      rw [hkey, purged_existsAt]
    · rfl
  unfold copy
  simp only [hpurge]
  cases (s.entries src).existsAt now <;> cases (s.entries dst).existsAt now <;> cases replace <;> rfl

/-! ## Drawing a key -/

variable (hk : Delayed now value (s.entries k))
include hk

theorem drawable_of_delayed : s.Drawable now .string k :=
  ⟨by simp [Data.has, hk.kv], hk.not_expired⟩

omit hk in
theorem not_drawable_without (t : DataType) : ¬ (s.without k).Drawable now t k := by
  intro hdraw
  have hhas := hdraw.1
  rw [without_entries_self] at hhas
  cases t <;> cases hhas

omit hk in
theorem nodup_enumerate (hint : List Bytes) (held : Finset Bytes) :
    (enumerate hint held).Nodup := by
  refine List.Nodup.append (hint.nodup_dedup.filter _) ((Finset.sort_nodup ..).filter _) ?_
  intro j hfront hrest
  have hnot := (mem_filter.mp hrest).2
  simp only [decide_not, Bool.not_eq_true', decide_eq_false_iff_not] at hnot
  exact hnot hfront

omit hk in
theorem find?_passing_over {l : List Bytes} {p : Bytes → Bool} (h : l.find? p ≠ some k) :
    l.find? (fun j => decide (j ≠ k) && p j) = l.find? p := by
  induction l with
  | nil => rfl
  | cons j rest ih =>
    cases hp : p j with
    | true =>
      have hj : j ≠ k := by
        intro hjk
        rw [find?_cons_of_pos hp, hjk] at h
        exact h rfl
      rw [find?_cons_of_pos hp, find?_cons_of_pos (by simp [hj, hp])]
    | false =>
      have hp' : ¬ p j = true := by simp [hp]
      rw [find?_cons_of_neg hp'] at h
      rw [find?_cons_of_neg hp', find?_cons_of_neg (by simp [hp]), ih h]

omit hk in
theorem draw_without {hint : List Bytes} {t : DataType} (h : s.draw now hint t ≠ some k) :
    (s.without k).draw now hint t = s.draw now hint t := by
  have htest : ∀ j, (((s.without k).entries j).has t && !((s.without k).entries j).expired now)
      = (decide (j ≠ k) && ((s.entries j).has t && !(s.entries j).expired now)) := by
    intro j
    by_cases hj : j = k
    · have hnone : empty.has t = false := has_empty t
      rw [hj, without_entries_self, hnone]
      simp
    · simp [without_entries_of_ne s hj, hj]
  have hheld : ∀ j, (decide (j ≠ k) && ((s.entries j).has t && !(s.entries j).expired now)) = true →
      (j ∈ (s.without k).held ↔ j ∈ s.held) := by
    intro j hj
    simp only [Bool.and_eq_true, decide_eq_true_eq] at hj
    unfold held
    rw [DFinsupp.mem_support_iff, DFinsupp.mem_support_iff, without_entries_of_ne s hj.1]
  refine Eq.trans ?_ (find?_passing_over h)
  unfold draw
  simp only [htest]
  rw [← head?_filter, ← head?_filter, filter_enumerate_congr hint hheld]

/-- The first map has a key to draw, `k` at least. -/
theorem randomKey_of_delayed (hint : List Bytes) :
    ∃ j, s.draw now hint .string = some j ∧ s.randomKey now hint = some j := by
  cases hdraw : s.draw now hint .string with
  | none => exact absurd (drawable_of_delayed hk) (draw_eq_none_iff.mp hdraw k)
  | some j =>
    refine ⟨j, rfl, ?_⟩
    show randomTypes.findSome? (s.draw now hint) = some j
    simp [randomTypes, hdraw]

theorem randomKey_eq_without_iff (hint : List Bytes) :
    s.randomKey now hint = (s.without k).randomKey now hint ↔ s.draw now hint .string ≠ some k := by
  obtain ⟨j, hdraw, hrandom⟩ := randomKey_of_delayed hk hint
  rw [hrandom]
  constructor
  · intro heq hself
    obtain rfl : j = k := Option.some.inj (hdraw.symm.trans hself)
    obtain ⟨-, t, -, -, -, hdrawn⟩ := randomKey_eq_some heq.symm
    exact not_drawable_without t hdrawn
  · intro hother
    show some j = randomTypes.findSome? ((s.without k).draw now hint)
    simp [randomTypes, draw_without hother, hdraw]

theorem draw_ne_iff (hint : List Bytes) :
    s.draw now hint .string ≠ some k
      ↔ ∃ before after j, enumerate hint s.held = before ++ k :: after
        ∧ j ∈ before ∧ s.Drawable now .string j := by
  have hdrawable := drawable_of_delayed hk
  obtain ⟨before, after, hsplit⟩ := append_of_mem (mem_enumerate.mpr hdrawable.held)
  constructor
  · intro hother
    by_contra hnone
    apply hother
    unfold draw
    rw [find?_eq_some_iff_append]
    refine ⟨by simp [hdrawable.1, hdrawable.2], before, after, hsplit, ?_⟩
    intro j hj
    by_contra hpass
    simp only [Bool.not_eq_true', Bool.not_eq_false, Bool.and_eq_true] at hpass
    exact hnone ⟨before, after, j, hsplit, hj, hpass⟩
  · rintro ⟨before', after', j, hsplit', hj, hpass⟩ hself
    obtain ⟨-, front, rest, hfront, hskip⟩ := find?_eq_some_iff_append.mp hself
    have hnodup := nodup_enumerate hint s.held
    -- `k` stands once in the order, so the two ways to split at it are one
    have hsame : front = before' := by
      rw [hfront] at hnodup hsplit'
      have hnot := (nodup_middle.mp hnodup).notMem
      rw [mem_append, not_or] at hnot
      exact ((append_cons_inj_of_notMem hnot.1 hnot.2).mp hsplit').1
    have hno := hskip j (hsame ▸ hj)
    simp [hpass.1, hpass.2] at hno

end Store

/-! ## Invisibility -/

/-- On a store with a delayed key `k`, an operation returns what it returns without `k`
exactly when it is blind to it. -/
theorem delayed_invisible_iff (s : Store) (now : Time) (k value : Bytes)
    (hk : Delayed now value (s.entries k)) (r : Lookup) :
    r.answer s now = r.answer (s.without k) now ↔ r.Blind s now k value := by
  cases r with
  | get => exact iff_of_true (without_congr (fun e => e.get now) hk.get _) trivial
  | mGet ks =>
    refine iff_of_true (map_congr_left fun key _ => ?_) trivial
    exact without_congr (fun e => e.get now) hk.get key
  | exist ks =>
    refine iff_of_true (countP_congr fun key _ => ?_) trivial
    rw [without_existsAt hk]
  | type => exact iff_of_true (without_congr (fun e => e.type now) hk.type _) trivial
  | keys => exact iff_of_true (without_keys hk _) trivial
  | scan cursor count pattern =>
    refine iff_of_true ?_ trivial
    show s.scan now cursor count pattern = (s.without k).scan now cursor count pattern
    unfold scan
    rw [without_keys hk]
  | dbSize => exact iff_of_true (congrArg length (without_allKeys hk)) trivial
  | ttl => exact iff_of_true (without_congr (fun e => e.ttl now) hk.ttl _) trivial
  | randomKey => exact (randomKey_eq_without_iff hk _).trans (draw_ne_iff hk _)
  | strlen =>
    exact (without_iff (fun e => e.strlen now) s k _).trans (forall_congr' fun _ => hk.strlen_iff)
  | getRange =>
    exact (without_iff (fun e => e.getRange now ..) s k _).trans (forall_congr' fun _ =>
      hk.getRange_iff ..)
  | getBit =>
    exact (without_iff (fun e => e.getBit now _) s k _).trans (forall_congr' fun _ => hk.getBit_iff
      _)
  | bitCount =>
    exact (without_iff (fun e => e.bitCount now ..) s k _).trans (forall_congr' fun _ =>
      hk.bitCount_iff ..)
  | bitPos =>
    exact (without_iff (fun e => e.bitPos now ..) s k _).trans (forall_congr' fun _ =>
      hk.bitPos_iff ..)
  | getEx =>
    exact (without_iff (fun e => (getEx now _ _ ⟨e, 0⟩).1) s k _).trans (forall_congr' fun _ =>
      iff_false_intro (hk.getEx_ne _ _))
  | getDel =>
    exact (without_iff (fun e => (getDel now ⟨e, 0⟩).1) s k _).trans (forall_congr' fun _ =>
      iff_false_intro hk.getDel_ne)
  | getSet =>
    exact (without_iff (fun e => (getSet now _ ⟨e, 0⟩).1) s k _).trans (forall_congr' fun _ =>
      iff_false_intro (hk.getSet_ne _))
  | copy src dst replace =>
    refine iff_of_true ?_ trivial
    show (s.copy now src dst replace).1 = ((s.without k).copy now src dst replace).1
    rw [copy_fst, copy_fst, without_existsAt hk, without_existsAt hk]

/-- A store with one key, set to appear in a second. -/
def delayedStore : Store :=
  (Op.cell (bytes "k") (.setDelayed (bytes "v") second 0)).apply default 1 Store.new

theorem delayedStore_delayed : Delayed 1 (bytes "v") (delayedStore.entries (bytes "k")) :=
  ⟨⟨empty, 0⟩, 1, second, 0, by decide, rfl⟩

theorem delayed_invisible_get : Delayed 1 (bytes "v") (delayedStore.entries (bytes "k"))
      ∧ (Lookup.get (bytes "k")).answer delayedStore 1
        = (Lookup.get (bytes "k")).answer (delayedStore.without (bytes "k")) 1 :=
  ⟨delayedStore_delayed,
    (delayed_invisible_iff _ 1 _ (bytes "v") delayedStore_delayed (.get (bytes "k"))).mpr trivial⟩

/-- A key that is to appear in a second is drawn by `RandomKey` now, has the length of its
value, and gives its value to `GetRange`, `GetEx`, `GetDel` and `GetSet`. -/
theorem delayed_key_leaks : Reachable (default : Runtime) delayedStore
      ∧ Delayed 1 (bytes "v") (delayedStore.entries (bytes "k"))
      ∧ (∀ hint, (Lookup.randomKey hint).answer delayedStore 1
          ≠ (Lookup.randomKey hint).answer (delayedStore.without (bytes "k")) 1)
      ∧ ∀ r ∈ [Lookup.strlen (bytes "k"), .getRange (bytes "k") 0 0, .getBit (bytes "k") 1,
          .bitCount (bytes "k") 0 0 false, .bitPos (bytes "k") 1 0 0 false,
          .getEx (bytes "k") 0 false, .getDel (bytes "k"), .getSet (bytes "k") (bytes "w")],
        r.answer delayedStore 1 ≠ r.answer (delayedStore.without (bytes "k")) 1 := by
  refine ⟨.step 1 _ .new rfl trivial, delayedStore_delayed, ?_, ?_⟩
  · intro hint heq
    obtain ⟨before, after, j, hsplit, hj, hpass⟩ := (draw_ne_iff delayedStore_delayed hint).mp
      ((randomKey_eq_without_iff delayedStore_delayed hint).mp heq)
    have hnodup := nodup_enumerate hint delayedStore.held
    rw [hsplit] at hnodup
    -- no other key is held
    have hjk : j = bytes "k" := by
      by_contra hne
      exact DFinsupp.mem_support_iff.mp hpass.held (put_entries_ne _ _ _ hne)
    have hnot := (nodup_middle.mp hnodup).notMem
    exact hnot (mem_append_left _ (hjk ▸ hj))
  · simp only [forall_mem_cons, not_mem_nil, false_imp_iff, implies_true, and_true]
    refine ⟨?_, ?_, ?_, ?_, ?_, ?_, ?_, ?_⟩
    · intro heq
      exact absurd (delayedStore_delayed.strlen_iff.mp heq).2 (by decide)
    · intro heq
      exact absurd ((delayedStore_delayed.getRange_iff 0 0).mp heq).2 (by decide)
    · intro heq
      exact absurd ((delayedStore_delayed.getBit_iff 1).mp heq (by decide)).2 (by decide)
    · intro heq
      exact absurd ((delayedStore_delayed.bitCount_iff 0 0 false).mp heq).2 (by decide +kernel)
    · intro heq
      have hnone := ((delayedStore_delayed.bitPos_iff 1 0 0 false).mp heq).2
      exact hnone 1 (by decide) (by decide) rfl
    · exact delayedStore_delayed.getEx_ne 0 false
    · exact delayedStore_delayed.getDel_ne
    · exact delayedStore_delayed.getSet_ne (bytes "w")

end Vole
