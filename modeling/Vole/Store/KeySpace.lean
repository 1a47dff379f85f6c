import Vole.Store.OneType
import Vole.Store.Queries
import Mathlib.Algebra.BigOperators.Group.List.Basic
import Mathlib.Algebra.Group.Action.Defs

/-!
# The views of the key space

`Keys`, `Exists`, `Type`, `TTL`, `DBSize` and `RandomKey` each walk the type maps with a list
of maps and a test of their own. The first five agree on which keys there are; how often
`Keys` lists a key is the number of maps that hold it. `RandomKey` leaves out the last two
maps, and it does not ask whether a key is visible yet.
-/

namespace Vole

open Go Store List Entry

variable {k : Bytes} {t : DataType} {hint : List Bytes}

/-! ## The listing -/

namespace Entry

/-- How often `allKeysRLocked` lists the key. -/
def listed (e : Entry) (now : Time) : Nat :=
  if e.expired now || !e.visible now then 0 else DataType.all.countP e.has

variable {e : Entry} {now : Time}

theorem listed_pos_iff : 0 < e.listed now ↔ e.existsAt now = true := by
  unfold listed existsAt
  cases he : e.expired now with
  | true => simp
  | false =>
    cases hv : e.visible now with
    | false => simp
    | true => simp [Data.hasAny, countP_pos_iff]

theorem listed_of_not_existsAt (h : e.existsAt now = false) : e.listed now = 0 := by
  by_contra hne
  rw [listed_pos_iff.mp (Nat.pos_of_ne_zero hne)] at h
  cases h

theorem listed_le_one_iff (h : e.existsAt now = true) : e.listed now ≤ 1 ↔ OneType e.toData := by
  have hcount : e.listed now = (DataType.all.filter e.has).toFinset.card := by
    have hlisted : e.listed now = DataType.all.countP e.has := by
      have hparts : (e.expired now || !e.visible now) = false := by
        simp only [existsAt, Bool.and_eq_true, Bool.not_eq_true'] at h
        simp [h.1.1, h.1.2]
      unfold listed
      rw [hparts]
      rfl
    have hnodup : (DataType.all.filter e.has).Nodup := List.Nodup.filter _ (by decide)
    rw [hlisted, countP_eq_length_filter, toFinset_card_of_nodup hnodup]
  rw [hcount, Finset.card_le_one]
  simp only [mem_toFinset, mem_filter, DataType.mem_all, true_and]
  exact ⟨fun h t u ht hu => h t ht u hu, fun h t ht u hu => h t u ht hu⟩

end Entry

namespace Store

variable {s t : Store} {now : Time}

theorem allKeys_eq (s : Store) (now : Time) :
    s.allKeys now = (s.held.sort (· ≤ ·)).flatMap (fun k =>
      replicate ((s.entries k).listed now) k) := by
  refine congrArg (fun f => flatMap f (s.held.sort (· ≤ ·))) (funext fun k => ?_)
  dsimp only
  unfold listed
  split <;> rfl

theorem listed_of_not_held (h : k ∉ s.held) : (s.entries k).listed now = 0 := by
  have hzero : s.entries k = 0 := DFinsupp.notMem_support_iff.mp h
  rw [hzero]
  rfl

theorem count_allKeys (s : Store) (now : Time) (k : Bytes) :
    (s.allKeys now).count k = (s.entries k).listed now := by
  rw [allKeys_eq, count_flatMap, sum_map_eq_nsmul_single k]
  · rw [smul_eq_mul, Function.comp_apply, count_replicate_self]
    by_cases hk : k ∈ s.held
    · refine (congrArg (· * _) ?_).trans (one_mul _)
      exact @count_eq_one_of_mem _ instBEqOfDecidableEq inferInstance _ _
        (Finset.sort_nodup ..) ((Finset.mem_sort _).mpr hk)
    · rw [listed_of_not_held hk, mul_zero]
  · intro j hj _
    rw [Function.comp_apply, count_replicate]
    exact if_neg (by simpa using hj)

theorem pairwise_allKeys (s : Store) (now : Time) :
    (s.allKeys now).Pairwise (fun a b => a ≤ b) := by
  rw [allKeys_eq, pairwise_flatMap]
  constructor
  · intro k _
    exact pairwise_replicate.mpr (.inr (le_refl k))
  · refine (Finset.pairwise_sort s.held (· ≤ ·)).imp ?_
    intro a b hab x hx y hy
    rw [eq_of_mem_replicate hx, eq_of_mem_replicate hy]
    exact hab

theorem allKeys_congr (h : ∀ k, (s.entries k).listed now = (t.entries k).listed now) :
    s.allKeys now = t.allKeys now := by
  refine List.Perm.eq_of_pairwise' (pairwise_allKeys s now) (pairwise_allKeys t now) ?_
  rw [perm_iff_count]
  intro k
  rw [count_allKeys, count_allKeys, h k]

theorem mem_allKeys : k ∈ s.allKeys now ↔ (s.entries k).existsAt now = true := by
  rw [← count_pos_iff, count_allKeys, listed_pos_iff]

theorem nodup_allKeys : (s.allKeys now).Nodup
      ↔ ∀ k, (s.entries k).existsAt now = true → OneType (s.entries k).toData := by
  rw [nodup_iff_count_le_one]
  refine forall_congr' (fun k => ?_)
  rw [count_allKeys]
  constructor
  · intro hle hex
    exact (listed_le_one_iff hex).mp hle
  · intro h
    cases hex : (s.entries k).existsAt now with
    | true => exact (listed_le_one_iff hex).mpr (h hex)
    | false => simp [listed_of_not_existsAt hex]

end Store

/-! ## Queries on one key -/

namespace Entry

variable {e : Entry} {now : Time}

theorem type_ne_none_iff : e.type now ≠ bytes "none" ↔ e.existsAt now = true := by
  unfold type existsAt
  cases he : e.expired now with
  | true => simp
  | false =>
    cases hv : e.visible now with
    | false => simp
    | true =>
      simp only [Bool.not_true, Bool.or_self, Bool.false_eq_true, if_false, Bool.not_false,
        Bool.and_self, Bool.true_and, Data.hasAny, DataType.all, any_cons, any_nil,
        Data.has]
      -- each branch has a word of its own, and only the last one is "none"
      split_ifs <;> simp_all <;> decide

/-- The expiry of a key that exists is zero or to come, so `TTL` answers `-2` for no such
key. -/
theorem ttl_ne_iff : e.ttl now ≠ -2 ↔ e.existsAt now = true := by
  unfold ttl expiryQuery
  cases hex : e.existsAt now with
  | false => simp
  | true =>
    have hexp : e.expired now = false := by
      simp only [existsAt, Bool.and_eq_true, Bool.not_eq_true'] at hex
      exact hex.1.1
    simp only [Bool.not_true, Bool.false_eq_true, if_false, ne_eq, iff_true]
    cases hx : e.expires with
    | none => simp
    | some t =>
      dsimp only
      split
      · simp
      · rename_i hzero
        have hlater : now < t := by
          simp only [expired, hx, Bool.and_eq_false_iff, Bool.not_eq_false',
            decide_eq_false_iff_not] at hexp
          exact Int.not_le.mp (hexp.resolve_left hzero)
        have hdiv : (0 : Int) ≤ (timeSub t now).tdiv second :=
          Int.tdiv_nonneg (timeSub_nonneg (Int.not_le.mpr hlater)) (by decide)
        intro htwo
        rw [htwo] at hdiv
        cases hdiv

end Entry

/-! ## Random keys -/

/-- The maps that `RandomKey` looks at, in its order. -/
def randomTypes : List DataType := [.string, .hash, .list, .set, .zset, .stream, .hll]

/-- The test of `RandomKey` for a key in the map of a type. -/
def Store.Drawable (s : Store) (now : Time) (t : DataType) (k : Bytes) : Prop :=
  (s.entries k).has t = true ∧ (s.entries k).expired now = false

namespace Store

variable {s : Store} {now : Time}

theorem Drawable.held (h : s.Drawable now t k) : k ∈ s.held := by
  refine DFinsupp.mem_support_iff.mpr (fun hzero => ?_)
  have hhas := h.1
  rw [hzero] at hhas
  cases t <;> cases hhas

/-- The choice within one map: the first key in the order of its iteration. -/
def draw (s : Store) (now : Time) (hint : List Bytes) (t : DataType) : Option Bytes :=
  (enumerate hint s.held).find? (fun key =>
    (s.entries key).has t && !(s.entries key).expired now)

theorem draw_eq_some (h : s.draw now hint t = some k) : s.Drawable now t k := by
  have htest := find?_some h
  simp only [Bool.and_eq_true, Bool.not_eq_true'] at htest
  exact htest

theorem draw_eq_none_iff : s.draw now hint t = none ↔ ∀ k, ¬ s.Drawable now t k := by
  unfold draw
  rw [find?_eq_none]
  constructor
  · intro h k hk
    refine h k (mem_enumerate.mpr hk.held) ?_
    simp [hk.1, hk.2]
  · intro h k _ htest
    simp only [Bool.and_eq_true, Bool.not_eq_true'] at htest
    exact h k htest

theorem draw_hint (h : s.Drawable now t k) : s.draw now [k] t = some k := by
  have hfront : enumerate [k] s.held = k :: (s.held.sort (· ≤ ·)).filter (· ∉ [k]) := by
    unfold enumerate
    have hdedup : [k].dedup.filter (· ∈ s.held) = [k] := by
      simp [h.held]
    rw [hdedup]
    rfl
  unfold draw
  rw [hfront, find?_cons_of_pos]
  simp [h.1, h.2]

theorem randomKey_eq_some (h : s.randomKey now hint = some k) :
    ∃ before t after, randomTypes = before ++ t :: after
      ∧ (∀ u ∈ before, ∀ j, ¬ s.Drawable now u j) ∧ s.Drawable now t k := by
  have hfind : randomTypes.findSome? (s.draw now hint) = some k := h
  obtain ⟨before, t, after, hsplit, ht, hbefore⟩ := findSome?_eq_some_iff.mp hfind
  refine ⟨before, t, after, hsplit, ?_, draw_eq_some ht⟩
  intro u hu
  exact draw_eq_none_iff.mp (hbefore u hu)

theorem randomKey_hint {before after : List DataType} (hsplit : randomTypes = before ++ t :: after)
    (hbefore : ∀ u ∈ before, ∀ j, ¬ s.Drawable now u j) (h : s.Drawable now t k) :
    s.randomKey now [k] = some k := by
  refine findSome?_eq_some_iff.mpr ⟨before, t, after, hsplit, draw_hint h, ?_⟩
  intro u hu
  exact draw_eq_none_iff.mpr (hbefore u hu)

theorem randomKey_eq_none_iff :
    s.randomKey now hint = none ↔ ∀ t ∈ randomTypes, ∀ k, ¬ s.Drawable now t k := by
  show randomTypes.findSome? (s.draw now hint) = none ↔ _
  rw [findSome?_eq_none_iff]
  exact forall₂_congr (fun t _ => draw_eq_none_iff)

end Store

/-! ## Agreement -/

/-- The six views of the key space agree, whatever order `RandomKey` iterates in. -/
structure ViewsAgree (s : Store) (now : Time) : Prop where
  once : (s.keys now (bytes "*")).Nodup
  exist : ∀ k, k ∈ s.keys now (bytes "*") ↔ s.existCount now [k] = 1
  type : ∀ k, k ∈ s.keys now (bytes "*") ↔ (s.entries k).type now ≠ bytes "none"
  ttl : ∀ k, k ∈ s.keys now (bytes "*") ↔ (s.entries k).ttl now ≠ -2
  size : (s.keys now (bytes "*")).toFinset.card = s.dbSize now
  random : ∀ hint k, s.randomKey now hint = some k → k ∈ s.keys now (bytes "*")
  randomNone : ∀ hint, s.randomKey now hint = none → s.keys now (bytes "*") = []

/-- What the views take for granted: keys that exist have one type, the keys that `RandomKey`
can come to are visible, and it comes to one if there is any. -/
structure OneView (s : Store) (now : Time) : Prop where
  oneType : ∀ k, (s.entries k).existsAt now = true → OneType (s.entries k).toData
  shown : ∀ before t after k, randomTypes = before ++ t :: after →
    (∀ u ∈ before, ∀ j, ¬ s.Drawable now u j) → s.Drawable now t k →
    (s.entries k).visible now = true
  drawn : ∀ k, (s.entries k).existsAt now = true →
    ∃ t ∈ randomTypes, ∃ j, s.Drawable now t j

section
variable {s : Store} {now : Time}

theorem keys_star (s : Store) (now : Time) : s.keys now (bytes "*") = s.allKeys now :=
  if_pos (.inr rfl)

theorem existCount_singleton (k : Bytes) :
    s.existCount now [k] = 1 ↔ (s.entries k).existsAt now = true := by
  unfold existCount
  cases h : (s.entries k).existsAt now <;> simp [h]

theorem Store.Drawable.existsAt (h : s.Drawable now t k)
    (hv : (s.entries k).visible now = true) : (s.entries k).existsAt now = true := by
  have hany : (s.entries k).hasAny DataType.all = true :=
    any_eq_true.mpr ⟨t, DataType.mem_all t, h.1⟩
  simp [Entry.existsAt, h.2, hv, hany]

theorem ViewsAgree.oneView (h : ViewsAgree s now) : OneView s now where
  oneType := by
    have honce := h.once
    rw [keys_star] at honce
    exact nodup_allKeys.mp honce
  shown := by
    intro before t after k hsplit hbefore hk
    have hmem := h.random [k] k (randomKey_hint hsplit hbefore hk)
    rw [keys_star, mem_allKeys] at hmem
    simp only [existsAt, Bool.and_eq_true] at hmem
    exact hmem.1.2
  drawn := by
    intro k hk
    by_contra hnone
    have hempty := h.randomNone [] (randomKey_eq_none_iff.mpr (fun t ht j hj =>
      hnone ⟨t, ht, j, hj⟩))
    rw [keys_star] at hempty
    have hmem : k ∈ s.allKeys now := mem_allKeys.mpr hk
    rw [hempty] at hmem
    cases hmem

theorem OneView.viewsAgree (h : OneView s now) : ViewsAgree s now where
  once := by
    rw [keys_star]
    exact nodup_allKeys.mpr h.oneType
  exist k := by rw [keys_star, mem_allKeys, existCount_singleton]
  type k := by rw [keys_star, mem_allKeys, type_ne_none_iff]
  ttl k := by rw [keys_star, mem_allKeys, ttl_ne_iff]
  size := by
    rw [keys_star]
    exact toFinset_card_of_nodup (nodup_allKeys.mpr h.oneType)
  random := by
    intro hint k hk
    obtain ⟨before, t, after, hsplit, hbefore, hdraw⟩ := randomKey_eq_some hk
    rw [keys_star, mem_allKeys]
    exact hdraw.existsAt (h.shown before t after k hsplit hbefore hdraw)
  randomNone := by
    intro hint hnone
    rw [keys_star, eq_nil_iff_forall_not_mem]
    intro k hk
    obtain ⟨t, ht, j, hj⟩ := h.drawn k (mem_allKeys.mp hk)
    exact randomKey_eq_none_iff.mp hnone t ht j hj

end

/-- The views agree on a store exactly when its keys have one type each and `RandomKey` comes
to visible keys, to one at least if there are any. -/
theorem views_agree_iff (s : Store) (now : Time) : ViewsAgree s now ↔ OneView s now :=
  ⟨ViewsAgree.oneView, OneView.viewsAgree⟩

/-- With a delayed key as the only key of the store, nothing is listed and `RandomKey` returns
it; with a series as the only key, it is listed and `RandomKey` finds none. -/
theorem random_key_disagrees :
    let delayed := (Op.cell (bytes "k") (.setDelayed (bytes "v") second 0)).apply default 1 Store.new
    let series := (Op.cell (bytes "k") (.tsAdd 1 F64.zero [])).apply default 1 Store.new
    (Reachable (default : Runtime) delayed ∧ ¬ ViewsAgree delayed 1) ∧
      Reachable (default : Runtime) series ∧ ¬ ViewsAgree series 1 := by
  refine ⟨⟨.step 1 _ .new rfl trivial, ?_⟩, .step 1 _ .new rfl trivial, ?_⟩
  · intro h
    have hvisible := h.oneView.shown [] .string _ (bytes "k") rfl (by simp)
      ⟨by decide, by decide⟩
    cases hvisible
  · intro h
    obtain ⟨t, ht, j, hhas, -⟩ := h.oneView.drawn (bytes "k") (by decide)
    have hj : j = bytes "k" := by
      by_contra hj
      rw [show entries _ j = 0 from put_entries_ne _ _ _ hj] at hhas
      cases t <;> cases hhas
    subst hj
    cases t <;> first | exact absurd ht (by decide) | cases hhas

end Vole
