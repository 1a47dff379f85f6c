import Vole.Store.Mirror

/-!
# Set algebra

`SUnion` and `SDiff` look at every key before they answer. `SInter` answers at the first key whose
set is empty or absent, and does not see a key of another type behind it.
-/

namespace Vole.Store

open Go List

variable (s : Store) (now : Time)

/-- The key is live and holds something that is not a set. -/
def nonSet (k : Bytes) : Bool := !(s.entries k).expired now && (s.entries k).readConflict now .set

/-- The set of a key; an absent or expired one counts as empty. -/
def liveSet (k : Bytes) : Finset Bytes :=
  if (s.entries k).expired now then ∅ else (s.entries k).sets.getD ∅

/-- The members in all of the sets. -/
def intersection (keys : List Bytes) : Finset Bytes :=
  (keys.toFinset.biUnion (s.liveSet now)).filter (fun x => ∀ k ∈ keys, x ∈ s.liveSet now k)

/-- The answer of set algebra: an error if there is a key of another type, else the members. -/
def setAnswer (keys : List Bytes) (members : Finset Bytes) : Except Err (List Bytes) :=
  if keys.any (s.nonSet now) then .error .wrongType else .ok (members.sort (· ≤ ·))

/-- `SInter` ends its loop at this key. -/
def endsInter (k : Bytes) : Bool := s.nonSet now k || decide (s.liveSet now k = ∅)

/-- The key at which `SInter` ends its loop, if there is one, has the wrong type, or no key has. -/
def InterSeesAll (keys : List Bytes) : Prop :=
  ∀ k, keys.find? (s.endsInter now) = some k → s.nonSet now k = false →
    keys.any (s.nonSet now) = false

variable {s now}

theorem setAt_map (k : Bytes) : (s.setAt now k).map (·.getD ∅)
    = if s.nonSet now k then .error .wrongType else .ok (s.liveSet now k) := by
  unfold setAt nonSet liveSet
  dsimp only
  cases (s.entries k).expired now with
  | true => rfl
  | false => cases (s.entries k).readConflict now .set <;> rfl

theorem setsAt_eq (keys : List Bytes) : s.setsAt now keys
    = if keys.any (s.nonSet now) then .error .wrongType else .ok (keys.map (s.liveSet now)) := by
  induction keys with
  | nil => rfl
  | cons k rest ih =>
    rw [setsAt_cons, setAt_map, ih, any_cons]
    cases s.nonSet now k with
    | true => rfl
    | false => cases rest.any (s.nonSet now) <;> rfl

theorem foldl_union (acc : Finset Bytes) (keys : List Bytes) :
    (keys.map (s.liveSet now)).foldl (· ∪ ·) acc = acc ∪ keys.toFinset.biUnion (s.liveSet now) := by
  induction keys generalizing acc with
  | nil => simp
  | cons k rest ih =>
    rw [map_cons, foldl_cons, ih, toFinset_cons, Finset.biUnion_insert,
      Finset.union_assoc]

theorem sUnion_eq (keys : List Bytes) : s.sUnion now keys
    = s.setAnswer now keys (keys.toFinset.biUnion (s.liveSet now)) := by
  unfold sUnion setAnswer
  rw [setsAt_eq]
  cases keys.any (s.nonSet now) with
  | true => rfl
  | false =>
    refine congrArg (fun t : Finset Bytes => Except.ok (t.sort (· ≤ ·))) ?_
    rw [foldl_union, Finset.empty_union]

theorem sDiff_eq (k : Bytes) (rest : List Bytes) : s.sDiff now (k :: rest)
    = s.setAnswer now (k :: rest) (s.liveSet now k \ rest.toFinset.biUnion (s.liveSet now)) := by
  unfold sDiff setAnswer
  rw [setsAt_eq]
  cases (k :: rest).any (s.nonSet now) with
  | true => rfl
  | false =>
    refine congrArg (fun t : Finset Bytes => Except.ok (t.sort (· ≤ ·))) ?_
    rw [map_cons, headD_cons, tail_cons, foldl_union, Finset.empty_union]

theorem interLoop_eq (acc : Finset Bytes) (keys : List Bytes) : s.interLoop now acc keys
    = match keys.find? (s.endsInter now) with
      | some k => if s.nonSet now k then .error .wrongType else .ok ∅
      | none => .ok (acc.filter (fun x => ∀ k ∈ keys, x ∈ s.liveSet now k)) := by
  induction keys generalizing acc with
  | nil => simp [interLoop]
  | cons k rest ih =>
    rw [interLoop_cons, setAt_map]
    by_cases hwrong : s.nonSet now k = true
    · have hends : s.endsInter now k = true := by simp [endsInter, hwrong]
      rw [find?_cons_of_pos hends, if_pos hwrong]
      simp [Except.bind, hwrong]
    rw [if_neg hwrong]
    by_cases hempty : s.liveSet now k = ∅
    · have hends : s.endsInter now k = true := by simp [endsInter, hempty]
      rw [find?_cons_of_pos hends]
      simp [Except.bind, hempty, hwrong]
    · have hgoes : ¬ s.endsInter now k = true := by simp [endsInter, hwrong, hempty]
      rw [find?_cons_of_neg hgoes]
      show (if s.liveSet now k = ∅ then _ else s.interLoop now (acc ∩ s.liveSet now k) rest) = _
      rw [if_neg hempty, ih]
      split
      · rfl
      · refine congrArg Except.ok (Finset.ext (fun x => ?_))
        simp [and_assoc]

/-- Beginning the loop with the first set or with all members makes no difference. -/
theorem sInter_eq (k : Bytes) (rest : List Bytes) : s.sInter now (k :: rest)
    = match (k :: rest).find? (s.endsInter now) with
      | some j => if s.nonSet now j then .error .wrongType else .ok []
      | none => .ok ((s.intersection now (k :: rest)).sort (· ≤ ·)) := by
  have hloop : s.sInter now (k :: rest)
      = (s.interLoop now (s.liveSet now k) (k :: rest)).map (·.sort (· ≤ ·)) := by
    rw [sInter_cons, interLoop_cons, setAt_map]
    split
    · rfl
    · show (if s.liveSet now k = ∅ then _ else _)
        = Except.map _ (if s.liveSet now k = ∅ then _ else _)
      rw [Finset.inter_self]
      split
      · exact congrArg Except.ok (Finset.sort_empty _).symm
      · rfl
  rw [hloop, interLoop_eq]
  split
  · split
    · rfl
    · exact congrArg Except.ok (Finset.sort_empty _)
  · refine congrArg (fun t : Finset Bytes => Except.ok (t.sort (· ≤ ·))) (Finset.ext (fun x => ?_))
    simp only [intersection, Finset.mem_filter, Finset.mem_biUnion, mem_toFinset]
    exact and_congr_left (fun hall => iff_of_true (hall k (.head _))
      ⟨k, (.head _), hall k (.head _)⟩)

theorem intersection_eq_empty {keys : List Bytes} {k : Bytes} (hk : k ∈ keys)
    (hempty : s.liveSet now k = ∅) : s.intersection now keys = ∅ := by
  refine Finset.filter_eq_empty_iff.mpr (fun x _ hall => ?_)
  exact absurd (hempty ▸ hall k hk) (Finset.notMem_empty x)

theorem sInter_iff (k : Bytes) (rest : List Bytes) :
    s.sInter now (k :: rest) = s.setAnswer now (k :: rest) (s.intersection now (k :: rest))
      ↔ s.InterSeesAll now (k :: rest) := by
  rw [sInter_eq]
  unfold InterSeesAll setAnswer
  generalize k :: rest = keys
  cases hfind : keys.find? (s.endsInter now) with
  | none =>
    have hnone : keys.any (s.nonSet now) = false := by
      refine any_eq_false.mpr (fun j hj hwrong => ?_)
      exact find?_eq_none.mp hfind j hj (by simp [endsInter, hwrong])
    simp [hnone]
  | some j =>
    have hmem := mem_of_find?_eq_some hfind
    have hends := find?_some hfind
    by_cases hwrong : s.nonSet now j = true
    · have hany : keys.any (s.nonSet now) = true := any_eq_true.mpr ⟨j, hmem, hwrong⟩
      simp [hwrong, hany]
    · have hempty : s.liveSet now j = ∅ := by simpa [endsInter, hwrong] using hends
      simp only [intersection_eq_empty hmem hempty, Finset.sort_empty, if_neg hwrong]
      cases keys.any (s.nonSet now) <;> simp [hwrong]

theorem setAnswer_perm {keys keys' : List Bytes} (h : keys.Perm keys') (members : Finset Bytes) :
    s.setAnswer now keys members = s.setAnswer now keys' members := by
  unfold setAnswer
  rw [h.any_eq]

theorem intersection_perm {keys keys' : List Bytes} (h : keys.Perm keys') :
    s.intersection now keys = s.intersection now keys' := by
  unfold intersection
  rw [toFinset_eq_of_perm _ _ h]
  simp only [h.mem_iff]

/-- **Set algebra**: `SUnion` and `SDiff` answer as they should, `SUnion` in any order of the keys.
`SInter` does if and only if no key of another type hides behind an empty set, and its answer does
not depend on the order among such lists of keys. -/
theorem set_algebra_iff (s : Store) (now : Time) (k : Bytes) (rest : List Bytes) :
    s.sUnion now (k :: rest)
      = s.setAnswer now (k :: rest) ((k :: rest).toFinset.biUnion (s.liveSet now)) ∧
    s.sDiff now (k :: rest) = s.setAnswer now (k :: rest)
      (s.liveSet now k \ rest.toFinset.biUnion (s.liveSet now)) ∧
    (s.sInter now (k :: rest) = s.setAnswer now (k :: rest) (s.intersection now (k :: rest))
      ↔ s.InterSeesAll now (k :: rest)) ∧ ∀ k' rest', (k :: rest).Perm (k' :: rest') →
      s.sUnion now (k :: rest) = s.sUnion now (k' :: rest') ∧
      (s.InterSeesAll now (k :: rest) → s.InterSeesAll now (k' :: rest') →
        s.sInter now (k :: rest) = s.sInter now (k' :: rest')) := by
  refine ⟨sUnion_eq _, sDiff_eq k rest, sInter_iff k rest, fun k' rest' hperm =>
    ⟨?_, fun h h' => ?_⟩⟩
  · rw [sUnion_eq, sUnion_eq, setAnswer_perm hperm, toFinset_eq_of_perm _ _ hperm]
  · rw [(sInter_iff k rest).mpr h, (sInter_iff k' rest').mpr h', setAnswer_perm hperm,
      intersection_perm hperm]

/-- With the absent key `a` first, the string `b` is not noticed. -/
theorem sInter_hides_wrongType :
    (Store.new.modify (bytes "b") (Cell.set 1 [] 0)).sInter 1 [bytes "a", bytes "b"] = .ok [] ∧
    (Store.new.modify (bytes "b") (Cell.set 1 [] 0)).sInter 1 [bytes "b", bytes "a"]
      = .error .wrongType :=
  ⟨rfl, rfl⟩

end Vole.Store
