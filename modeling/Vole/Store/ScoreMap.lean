import Vole.Store.SortedSound
import Vole.Store.Deque
import Mathlib.Data.Finset.Sort

/-!
# Sorted sets as maps of scores

A sorted set with scores of any type that has a linear order. The map of the scores says what the
set holds; the ordered slice and the binary searches in it are there to answer faster what
filtering and cutting the sorted list of the pairs would give.
-/

namespace Vole

open Go SortedLists List SortedSet

variable {σ : Type} [LinearOrder σ] {member : Bytes} {z : SortedSet σ}

/-! ## The order of the pairs -/

namespace ZMember

theorem key_injective : Function.Injective (@ZMember.key σ _) := by
  rintro ⟨_, _⟩ ⟨_, _⟩ h
  cases h
  rfl

instance linearOrder : LinearOrder (ZMember σ) := LinearOrder.lift' key key_injective

theorem lt_iff {a b : ZMember σ} :
    a < b ↔ a.score < b.score ∨ a.score = b.score ∧ a.member < b.member :=
  Prod.Lex.toLex_lt_toLex

theorem score_le_of_lt {a b : ZMember σ} (h : a < b) : a.score ≤ b.score :=
  (lt_iff.mp h).elim le_of_lt (fun h => h.1.le)

end ZMember

/-- The pairs of a score map. -/
def pairsOf (scores : GoMap σ) : Finset (ZMember σ) :=
  scores.keys.biUnion (fun k => ((scores.get k).map (ZMember.mk k)).toFinset)

/-- The pairs of a score map, in order. -/
def sortedPairs (scores : GoMap σ) : List (ZMember σ) := (pairsOf scores).sort (· ≤ ·)

theorem mem_pairsOf {scores : GoMap σ} {m : ZMember σ} :
    m ∈ pairsOf scores ↔ scores.get m.member = some m.score := by
  simp only [pairsOf, Finset.mem_biUnion, Option.mem_toFinset, Option.mem_def,
    Option.map_eq_some_iff]
  constructor
  · rintro ⟨k, -, score, hscore, rfl⟩
    exact hscore
  · intro h
    have hkey : m.member ∈ scores.keys :=
      Finmap.mem_keys.mpr (Finmap.mem_of_lookup_eq_some h)
    exact ⟨m.member, hkey, m.score, h, rfl⟩

/-! ## The slice and the map -/

namespace SortedSet

@[simp] theorem score_lt {x y : σ} : Score.lt x y = decide (x < y) := rfl

@[simp] theorem score_le {x y : σ} : Score.le x y = decide (x ≤ y) := rfl

theorem remove_eq (z : SortedSet σ) (member : Bytes) :
    (z.remove member).1 = (z.scores.get member).isSome
      ∧ (z.remove member).2.scores = z.scores.erase member := by
  unfold remove
  cases hscore : z.scores.get member with
  | none =>
    refine ⟨rfl, Finmap.ext_lookup fun k => ?_⟩
    by_cases hk : k = member
    · rw [hk, Finmap.lookup_erase]
      exact hscore
    · exact (Finmap.lookup_erase_ne hk).symm
  | some score => exact ⟨rfl, removeOrdered_scores _ member score⟩

theorem add_eq (z : SortedSet σ) (member : Bytes) (score : σ) :
    (z.add member score).1 = (z.scores.get member).isNone
      ∧ (z.add member score).2.scores = z.scores.insert member score := by
  unfold add
  cases hold : z.scores.get member with
  | none => exact ⟨rfl, rfl⟩
  | some old =>
    dsimp only
    split
    case isTrue heq =>
      cases of_decide_eq_true heq
      exact ⟨rfl, (GoMap.insert_of_get hold).symm⟩
    case isFalse =>
      rw [removeOrdered_scores]
      exact ⟨rfl, rfl⟩

namespace Sound

variable (h : z.Sound)
include h

theorem increasing : z.ordered.Pairwise (· < ·) := h.sorted

theorem mem_iff (m : ZMember σ) : m ∈ z.ordered ↔ z.scores.get m.member = some m.score :=
  ⟨h.scores m, h.covered m.member m.score⟩

theorem ordered_eq : z.ordered = sortedPairs z.scores := by
  refine List.Pairwise.eq_of_mem_iff h.increasing (Finset.sortedLT_sort _).pairwise fun m => ?_
  rw [sortedPairs, Finset.mem_sort, mem_pairsOf]
  exact h.mem_iff m

end Sound

/-! ## Walks -/

/-- `LIMIT` in the range queries: `count ≤ 0` sets no limit. -/
def limited {α : Type} (items : List α) (offset count : Int) : List α :=
  let items := if 0 < offset then items.drop offset.toNat else items
  if 0 < count then items.take count.toNat else items

theorem limited_eq {α : Type} (items : List α) (offset count : Int) :
    limited items offset count
      = if 0 < count then (items.drop offset.toNat).take count.toNat
        else items.drop offset.toNat := by
  have hdrop : (if 0 < offset then items.drop offset.toNat else items)
      = items.drop offset.toNat := by
    split
    · rfl
    · rw [Int.toNat_of_nonpos (by omega), drop_zero]
  unfold limited
  rw [hdrop]

/-- What is left to take of the items, once some were skipped and some taken. -/
def remaining {α : Type} (offset count : Int) (skipped taken : Nat) (items : List α) : List α :=
  if 0 < count then (items.drop (offset - skipped).toNat).take (count - taken).toNat
  else items.drop (offset - skipped).toNat

theorem walk_eq {α : Type} (pass stop : α → Bool) (offset count : Int) (l : List α)
    (skipped : Nat) (result : List α) (hroom : 0 < count → (result.length : Int) < count) :
    walk pass stop offset count skipped result l
      = result ++ remaining offset count skipped result.length
          ((l.filter (fun m => !pass m)).takeWhile (fun m => !stop m)) := by
  induction l generalizing skipped result with
  | nil => simp [walk, remaining]
  | cons m l ih =>
    rw [walk]
    cases hpass : pass m with
    | true =>
      rw [if_pos rfl, filter_cons_of_neg (by simp [hpass])]
      exact ih skipped result hroom
    | false =>
      rw [if_neg Bool.false_ne_true, filter_cons_of_pos (by simp [hpass])]
      cases hstop : stop m with
      | true =>
        rw [if_pos rfl, takeWhile_cons_of_neg (by simp [hstop])]
        simp [remaining]
      | false =>
        rw [if_neg Bool.false_ne_true, takeWhile_cons_of_pos (by simp [hstop])]
        split
        case isTrue hskip =>
          have hdrop : (offset - skipped).toNat
              = (offset - (skipped + 1 : Nat)).toNat + 1 := by omega
          rw [ih (skipped + 1) result hroom]
          unfold remaining
          rw [hdrop, drop_succ_cons]
        case isFalse hskip =>
          have hdrop : (offset - skipped).toNat = 0 := by omega
          have hlength : (result ++ [m]).length = result.length + 1 := by simp
          split
          case isTrue hfull =>
            have htake : (count - result.length).toNat = 1 := by omega
            unfold remaining
            rw [hdrop, htake, if_pos hfull.1]
            rfl
          case isFalse hfull =>
            rw [ih skipped (result ++ [m]) (by omega), append_assoc,
              singleton_append]
            unfold remaining
            rw [hdrop, drop_zero, drop_zero, hlength]
            split
            case isTrue hcount =>
              have htake : (count - result.length).toNat
                  = (count - (result.length + 1 : Nat)).toNat + 1 := by omega
              rw [htake, take_succ_cons]
            case isFalse => rfl

theorem walk_nil {α : Type} (pass stop : α → Bool) (offset count : Int) (l : List α) :
    walk pass stop offset count 0 [] l
      = limited ((l.filter (fun m => !pass m)).takeWhile (fun m => !stop m))
          offset count := by
  rw [walk_eq _ _ _ _ _ _ _ id, limited_eq, nil_append]
  simp [remaining]

theorem countLoop_eq (max : σ) (n : Nat) (l : List (ZMember σ)) :
    countLoop max n l = n + (l.takeWhile (fun m => !decide (max < m.score))).length := by
  induction l generalizing n with
  | nil => rfl
  | cons m l ih =>
    rw [countLoop]
    split
    case isTrue h => rw [takeWhile_cons_of_neg (by simpa using h), length_nil, add_zero]
    case isFalse h =>
      rw [ih, takeWhile_cons_of_pos (by simpa using h), length_cons]
      omega

/-! ## Queries -/

namespace Sound

variable (h : z.Sound)
include h

theorem drop_scoreStart (min max : σ) :
    (z.ordered.drop (z.scoreStart min)).takeWhile (fun m => !decide (max < m.score))
      = z.ordered.filter (fun m => decide (min ≤ m.score ∧ m.score ≤ max)) := by
  have hrising : Rising (fun m => Score.le min m.score) z.ordered :=
    h.increasing.imp fun hab ha =>
      decide_eq_true ((of_decide_eq_true ha).trans (ZMember.score_le_of_lt hab))
  have hfalling : Falling (fun m => !decide (max < m.score)) z.ordered := by
    refine h.increasing.imp fun hab hb => ?_
    simp only [Bool.not_eq_true', decide_eq_false_iff_not, not_lt] at hb ⊢
    exact (ZMember.score_le_of_lt hab).trans hb
  unfold scoreStart
  rw [drop_search hrising (fun _ _ hm => by rw [hm]; rfl),
    takeWhile_eq_filter (hfalling.sublist filter_sublist), filter_filter]
  refine filter_congr fun m _ => ?_
  rw [score_le, ← decide_not, ← Bool.decide_and]
  exact decide_eq_decide.mpr ⟨fun hm => ⟨hm.2, not_lt.mp hm.1⟩, fun hm => ⟨not_lt.mpr hm.2, hm.1⟩⟩

theorem rangeByScore_eq (min max : σ) (offset count : Int) :
    z.rangeByScore min max offset count = limited
          (z.ordered.filter (fun m => decide (min ≤ m.score ∧ m.score ≤ max))) offset count := by
  unfold rangeByScore
  rw [walk_nil, ← h.drop_scoreStart min max]
  simp

theorem countByScore_eq (min max : σ) : z.countByScore min max
      = (z.ordered.filter (fun m => decide (min ≤ m.score ∧ m.score ≤ max))).length := by
  unfold countByScore
  rw [countLoop_eq, h.drop_scoreStart, zero_add]

theorem rank_eq (member : Bytes) :
    z.rank member = z.ordered.findIdx? (fun m => decide (m.member = member)) := by
  unfold rank
  cases hscore : z.scores.get member with
  | none =>
    refine (findIdx?_eq_none_iff.mpr fun m hm => decide_eq_false ?_).symm
    rintro rfl
    rw [h.mem_iff, hscore] at hm
    cases hm
  | some score =>
    obtain ⟨front, back, hz⟩ := append_of_mem (h.covered member score hscore)
    have hfront : front.findIdx? (fun m => decide (m.member = member)) = none :=
      findIdx?_eq_none_iff.mpr fun m hm =>
        decide_eq_false (h.toOrdered.member_ne hz m (mem_append_left _ hm))
    have hpos : z.findPos score member = front.length :=
      h.toOrdered.findPos_eq (m := ⟨member, score⟩) hz
    rw [Option.bind_some]
    dsimp only
    rw [hpos, hz, findIdx?_append, hfront]
    simp [findIdx?_cons]

end Sound

theorem lexLTE_of_le {a b bound : Bytes} (hab : a ≤ b) (h : lexLTE b bound = true) :
    lexLTE a bound = true := by
  unfold lexLTE at h ⊢
  by_cases hplus : bound = bytes "+"
  · rw [if_pos hplus]
  by_cases hminus : bound = bytes "-"
  · rw [if_neg hplus, if_pos hminus] at h
    cases h
  rw [if_neg hplus, if_neg hminus] at h ⊢
  split at h
  · exact decide_eq_true (hab.trans (of_decide_eq_true h))
  · exact decide_eq_true (hab.trans_lt (of_decide_eq_true h))
  · exact decide_eq_true (hab.trans (of_decide_eq_true h))

/-- Members with one score stand in the order of their names. -/
theorem Sound.rangeByLex_eq (h : z.Sound)
    (hscore : ∀ a ∈ z.ordered, ∀ b ∈ z.ordered, a.score = b.score)
    (min max : Bytes) (offset count : Int) : z.rangeByLex min max offset count
      = limited (z.ordered.filter (fun m =>
          lexGTE m.member min && lexLTE m.member max)) offset count := by
  have hfalling : Falling (fun m => lexLTE m.member max) z.ordered := by
    refine h.increasing.imp_of_mem fun ha hb hab => lexLTE_of_le ?_
    rcases ZMember.lt_iff.mp hab with hlt | ⟨-, hmember⟩
    · exact absurd (hscore _ ha _ hb) hlt.ne
    · exact hmember.le
  unfold rangeByLex
  rw [walk_nil]
  simp only [Bool.not_not]
  rw [takeWhile_eq_filter (hfalling.sublist filter_sublist), filter_filter]
  congr 1
  exact filter_congr fun m _ => Bool.and_comm _ _

theorem filterMap_range_reverse {α : Type} (l : List α) (a k : Nat) (h : a + k ≤ l.length) :
    (List.range k).filterMap (fun i => l[l.length - 1 - a - i]?) = (l.reverse.drop a).take k := by
  induction k with
  | zero => rfl
  | succ k ih =>
    have hnext : (l.reverse.drop a)[k]? = l[l.length - 1 - a - k]? := by
      rw [getElem?_drop, getElem?_reverse (by omega)]
      congr 1
      omega
    rw [range_succ, filterMap_append, ih (by omega), take_add_one, hnext]
    rfl

theorem readBack_eq {α : Type} (ordered : List α) (start stop : Int) :
    readBack ordered start stop = rangeOf ordered.reverse start stop := by
  unfold readBack rangeOf
  rw [List.length_reverse]
  dsimp only
  cases hnorm : normalizeRange start stop ordered.length with
  | none => rfl
  | some bounds =>
    obtain ⟨a, b⟩ := bounds
    obtain ⟨hle, hlt⟩ := normalizeRange_eq_some hnorm
    exact filterMap_range_reverse ordered a (b - a + 1) (by omega)

end SortedSet

/-! ## The set and the map -/

/-- A change of a sorted set. -/
inductive RankedOp (σ : Type) where
  | add (member : Bytes) (score : σ)
  | remove (member : Bytes)
  | popMin (count : Int)
  | popMax (count : Int)

/-- What a change returns. -/
inductive RankedOut (σ : Type) where
  | flag (b : Bool)
  | popped (members : List (ZMember σ))

namespace RankedOp

def run (z : SortedSet σ) : RankedOp σ → RankedOut σ × SortedSet σ
  | add member score => (z.add member score).map .flag id
  | remove member => (z.remove member).map .flag id
  | popMin count => (z.popMin count).map .popped id
  | popMax count => (z.popMax count).map .popped id

/-- The number of members asked for: one, unless the count is positive. -/
def wanted (count : Int) : Nat := if count ≤ 0 then 1 else count.toNat

/-- The same change of a plain map of scores. The members that are popped are the first, or the
last, of its sorted pairs. -/
def onMap (scores : GoMap σ) : RankedOp σ → RankedOut σ × GoMap σ
  | add member score => (.flag (scores.get member).isNone, scores.insert member score)
  | remove member => (.flag (scores.get member).isSome, scores.erase member)
  | popMin count =>
    let popped := (sortedPairs scores).take (wanted count)
    (.popped popped, dropScores scores popped)
  | popMax count =>
    let popped := (sortedPairs scores).reverse.take (wanted count)
    (.popped popped, dropScores scores popped)

/-- One change: the set returns what the map returns, goes on to hold the same scores and keeps
its slice in order. -/
theorem run_eq {z : SortedSet σ} (h : z.Sound) (op : RankedOp σ) :
    (op.run z).1 = (op.onMap z.scores).1 ∧ (op.run z).2.scores = (op.onMap z.scores).2
      ∧ (op.run z).2.Sound := by
  cases op with
  | add member score =>
    obtain ⟨hflag, hscores⟩ := add_eq z member score
    exact ⟨congrArg RankedOut.flag hflag, hscores, h.add member rfl⟩
  | remove member =>
    obtain ⟨hflag, hscores⟩ := remove_eq z member
    exact ⟨congrArg RankedOut.flag hflag, hscores, h.remove member⟩
  | popMin count =>
    have hpopped : (z.popMin count).1 = (sortedPairs z.scores).take (wanted count) := by
      rw [← h.ordered_eq, take_eq_take_min]
      rfl
    refine ⟨congrArg RankedOut.popped hpopped, ?_, h.popMin count⟩
    exact congrArg (dropScores z.scores) hpopped
  | popMax count =>
    have hpopped : (z.popMax count).1 = (sortedPairs z.scores).reverse.take (wanted count) := by
      rw [← h.ordered_eq, take_eq_take_min, length_reverse, take_reverse]
      rfl
    refine ⟨congrArg RankedOut.popped hpopped, ?_, h.popMax count⟩
    exact congrArg (dropScores z.scores) hpopped

/-- A sequence of changes: their results, and the set after them. -/
def runAll (z : SortedSet σ) : List (RankedOp σ) → List (RankedOut σ) × SortedSet σ
  | [] => ([], z)
  | op :: ops => (runAll (op.run z).2 ops).map ((op.run z).1 :: ·) id

def onMapAll (scores : GoMap σ) : List (RankedOp σ) → List (RankedOut σ) × GoMap σ
  | [] => ([], scores)
  | op :: ops => (onMapAll (op.onMap scores).2 ops).map ((op.onMap scores).1 :: ·) id

theorem runAll_eq {z : SortedSet σ} (h : z.Sound) (ops : List (RankedOp σ)) :
    (runAll z ops).1 = (onMapAll z.scores ops).1
      ∧ (runAll z ops).2.scores = (onMapAll z.scores ops).2 ∧ (runAll z ops).2.Sound := by
  induction ops generalizing z with
  | nil => exact ⟨rfl, rfl, h⟩
  | cons op ops ih =>
    obtain ⟨hout, hscores, hnext⟩ := run_eq h op
    obtain ⟨houts, hlast, hend⟩ := ih hnext
    rw [hscores] at houts hlast
    refine ⟨?_, hlast, hend⟩
    show (op.run z).1 :: (runAll (op.run z).2 ops).1
      = (op.onMap z.scores).1 :: (onMapAll (op.onMap z.scores).2 ops).1
    rw [hout, houts]

end RankedOp

/-- A question to a sorted set. -/
inductive RankedQuery (σ : Type) where
  | range (start stop : Int)
  | revRange (start stop : Int)
  | rank (member : Bytes)
  | rangeByScore (min max : σ) (offset count : Int)
  | countByScore (min max : σ)
  | rangeByLex (min max : Bytes) (offset count : Int)

inductive RankedAnswer (σ : Type) where
  | members (items : List (ZMember σ))
  | position (rank : Option Nat)
  | count (n : Nat)

namespace RankedQuery

def answer (z : SortedSet σ) : RankedQuery σ → RankedAnswer σ
  | range start stop => .members (z.range start stop)
  | revRange start stop => .members (z.revRange start stop)
  | rank member => .position (z.rank member)
  | rangeByScore min max offset count => .members (z.rangeByScore min max offset count)
  | countByScore min max => .count (z.countByScore min max)
  | rangeByLex min max offset count => .members (z.rangeByLex min max offset count)

/-- The answer by filtering and cutting a list of pairs. -/
def onPairs (pairs : List (ZMember σ)) : RankedQuery σ → RankedAnswer σ
  | range start stop => .members (between pairs start stop)
  | revRange start stop => .members (between pairs.reverse start stop)
  | rank member => .position (pairs.findIdx? (fun m => decide (m.member = member)))
  | rangeByScore min max offset count =>
    .members (limited
      (pairs.filter (fun m => decide (min ≤ m.score ∧ m.score ≤ max))) offset count)
  | countByScore min max =>
    .count (pairs.filter (fun m => decide (min ≤ m.score ∧ m.score ≤ max))).length
  | rangeByLex min max offset count =>
    .members (limited (pairs.filter (fun m =>
      lexGTE m.member min && lexLTE m.member max)) offset count)

/-- `RangeByLex` is meant for members that all have the same score. -/
def Applies (pairs : List (ZMember σ)) : RankedQuery σ → Prop
  | rangeByLex .. => ∀ a ∈ pairs, ∀ b ∈ pairs, a.score = b.score
  | _ => True

theorem answer_eq {z : SortedSet σ} (h : z.Sound) (q : RankedQuery σ) (hq : q.Applies z.ordered) :
    q.answer z = q.onPairs z.ordered := by
  cases q with
  | range start stop => exact congrArg RankedAnswer.members (rangeOf_eq_between _ _ _)
  | revRange start stop =>
    exact congrArg RankedAnswer.members
      ((readBack_eq _ _ _).trans (rangeOf_eq_between _ _ _))
  | rank member => exact congrArg RankedAnswer.position (h.rank_eq member)
  | rangeByScore min max offset count =>
    exact congrArg RankedAnswer.members (h.rangeByScore_eq min max offset count)
  | countByScore min max => exact congrArg RankedAnswer.count (h.countByScore_eq min max)
  | rangeByLex min max offset count =>
    exact congrArg RankedAnswer.members (h.rangeByLex_eq hq min max offset count)

end RankedQuery

/-- After every sequence of changes of the empty set: the changes have returned what they return
on the map of scores, the set holds these scores, its slice is strictly increasing and holds
exactly their pairs, and each query is answered as from the sorted list of the pairs. -/
theorem sorted_set_refines {σ : Type} [LinearOrder σ] (ops : List (RankedOp σ)) :
    (RankedOp.runAll SortedSet.empty ops).1 = (RankedOp.onMapAll (∅ : GoMap σ) ops).1
      ∧ (RankedOp.runAll SortedSet.empty ops).2.scores = (RankedOp.onMapAll (∅ : GoMap σ) ops).2
      ∧ (RankedOp.runAll SortedSet.empty ops).2.ordered.Pairwise (· < ·)
      ∧ (∀ m : ZMember σ, m ∈ (RankedOp.runAll SortedSet.empty ops).2.ordered
          ↔ (RankedOp.runAll SortedSet.empty ops).2.scores.get m.member = some m.score)
      ∧ ∀ q : RankedQuery σ,
          q.Applies (sortedPairs (RankedOp.runAll SortedSet.empty ops).2.scores) →
          q.answer (RankedOp.runAll SortedSet.empty ops).2
            = q.onPairs (sortedPairs (RankedOp.runAll SortedSet.empty ops).2.scores) := by
  have hempty : (SortedSet.empty : SortedSet σ).Sound := SortedSet.Sound.empty
  obtain ⟨houts, hscores, h⟩ := RankedOp.runAll_eq hempty ops
  refine ⟨houts, hscores, h.sorted, h.mem_iff, fun q hq => ?_⟩
  rw [← h.ordered_eq] at hq ⊢
  exact RankedQuery.answer_eq h q hq

/-- Two members with the same score: the run, and a query by name that it makes possible. -/
theorem sorted_set_refines_lex :
    let z := (RankedOp.runAll SortedSet.empty
      [.add (bytes "b") (1 : Int), .add (bytes "a") 2, .add (bytes "a") 1]).2
    let range := RankedQuery.rangeByLex (bytes "(a") (bytes "+") 0 0
    z.ordered = [⟨bytes "a", 1⟩, ⟨bytes "b", 1⟩] ∧
      range.answer z = range.onPairs (sortedPairs z.scores) := by
  obtain ⟨-, -, -, hmem, hquery⟩ := sorted_set_refines
    [.add (bytes "b") (1 : Int), .add (bytes "a") 2, .add (bytes "a") 1]
  suffices hone : ∀ m : ZMember Int, m ∈ _ → m.score = 1 from
    ⟨rfl, hquery _ fun a ha b hb => (hone a ha).trans (hone b hb).symm⟩
  intro m hm
  rw [sortedPairs, Finset.mem_sort, mem_pairsOf, ← hmem] at hm
  have hm : m ∈ [_, _] := hm
  simp only [mem_cons, not_mem_nil, or_false] at hm
  rcases hm with rfl | rfl <;> rfl

end Vole
