import Vole.Go.Runtime

/-!
# `sort.SliceStable`

Blocks of twenty elements are sorted by insertion, and neighbouring blocks are then merged in place:
a binary search finds what the two halves of the result take from each block. The comparison may be
any function; the result is in order if the comparison is a strict weak order on the elements.
-/

namespace Vole.Go

open List

section

variable {α : Type} (less : α → α → Bool)

/-- The element moves past those it is less than, from the end of the sorted part, which is given
in reverse. -/
def insertDown (x : α) : List α → List α
  | [] => [x]
  | y :: ys => if less x y then y :: insertDown x ys else x :: y :: ys

def insertionSortFunc (l : List α) : List α :=
  (l.foldl (fun sorted x => insertDown less x sorted) []).reverse

/-- The comparison of the elements at two places. -/
def lessAt (u : List α) (i : Nat) (v : List α) (j : Nat) : Bool :=
  match u[i]?, v[j]? with
  | some x, some y => less x y
  | _, _ => false

/-- How many elements of the first block go to the first half of the result. -/
def symMergeStart (u v : List α) : Nat :=
  let m := u.length
  let b := m + v.length
  let mid := b / 2
  let range := if mid < m then (mid + m - b, mid) else (0, m)
  searchLoop (fun c => lessAt less v (mid - 1 - c) u c) b range.1 range.2

/-- `symMerge_func` of two neighbouring blocks; `fuel` bounds the depth, and the blocks get smaller
in each call. -/
def symMergeFunc : Nat → List α → List α → List α
  | 0, u, v => u ++ v
  | fuel + 1, u, v =>
    if u = [] ∨ v = [] then u ++ v
    else if u.length = 1 then
      let i := search v.length (fun h => !lessAt less v h u 0)
      v.take i ++ u ++ v.drop i
    else if v.length = 1 then
      let i := search u.length (fun h => lessAt less v 0 u h)
      u.take i ++ v ++ u.drop i
    else
      let start := symMergeStart less u v
      let stop := (u.length + v.length) / 2 - start
      symMergeFunc fuel (u.take start) (v.take stop) ++
        symMergeFunc fuel (u.drop start) (v.drop stop)

/-- A pass over the blocks, which merges each with the next one. -/
def mergePass : List (List α) → List (List α)
  | u :: v :: rest => symMergeFunc less (u.length + v.length) u v :: mergePass rest
  | rest => rest

/-- The passes; `fuel` bounds them, and there are fewer blocks after each. -/
def mergePasses : Nat → List (List α) → List α
  | fuel + 1, u :: v :: rest => mergePasses fuel (mergePass less (u :: v :: rest))
  | _, blocks => blocks.flatten

/-- The blocks of twenty elements. -/
def stableBlocks : Nat → List α → List (List α)
  | 0, l => [l]
  | fuel + 1, l => if l.length < 20 then [l] else l.take 20 :: stableBlocks fuel (l.drop 20)

/-- `sort.SliceStable`. -/
def sliceStable (l : List α) : List α :=
  let blocks := (stableBlocks l.length l).map (insertionSortFunc less)
  mergePasses less blocks.length blocks

end

variable {α : Type} {less : α → α → Bool} {l u v : List α}

/-! ## The elements -/

theorem insertDown_perm (x : α) (l : List α) : insertDown less x l ~ x :: l := by
  induction l with
  | nil => rfl
  | cons y ys ih =>
    rw [insertDown]
    split
    · exact (ih.cons y).trans (.swap x y ys)
    · rfl

theorem insertionSortFunc_perm (l : List α) : insertionSortFunc less l ~ l := by
  have hfold : ∀ sorted, l.foldl (fun sorted x => insertDown less x sorted) sorted ~ l ++ sorted := by
    induction l with
    | nil => exact fun sorted => .rfl
    | cons x l ih =>
      intro sorted
      exact (ih _).trans (((insertDown_perm x sorted).append_left l).trans perm_middle)
  have hperm := hfold []
  rw [append_nil] at hperm
  exact (reverse_perm _).trans hperm

/-- A block between the two parts of the other one. -/
theorem splice_perm (i : Nat) (u v : List α) : v.take i ++ u ++ v.drop i ~ u ++ v := by
  refine (perm_append_comm.append_right _).trans ?_
  rw [append_assoc, take_append_drop]

theorem halves_perm {p q : List α} {i j : Nat} (hp : p ~ u.take i ++ v.take j)
    (hq : q ~ u.drop i ++ v.drop j) : p ++ q ~ u ++ v := by
  refine (hp.append hq).trans ?_
  rw [append_assoc, ← append_assoc (v.take j)]
  refine ((perm_append_comm.append_right _).append_left _).trans ?_
  rw [append_assoc, take_append_drop, ← append_assoc, take_append_drop]

theorem symMergeFunc_perm (fuel : Nat) (u v : List α) :
    symMergeFunc less fuel u v ~ u ++ v := by
  induction fuel generalizing u v with
  | zero => rfl
  | succ fuel ih =>
    rw [symMergeFunc]
    split_ifs
    · rfl
    · exact splice_perm _ u v
    · exact (splice_perm _ v u).trans perm_append_comm
    · exact halves_perm (ih _ _) (ih _ _)

theorem mergePass_perm (blocks : List (List α)) :
    (mergePass less blocks).flatten ~ blocks.flatten := by
  induction blocks using mergePass.induct with
  | case1 u v rest ih =>
    rw [mergePass, flatten_cons, flatten_cons, flatten_cons, ← append_assoc]
    exact (symMergeFunc_perm _ u v).append ih
  | case2 rest h => rw [mergePass.eq_2 _ _ h]

theorem mergePasses_perm (fuel : Nat) (blocks : List (List α)) :
    mergePasses less fuel blocks ~ blocks.flatten := by
  induction fuel, blocks using mergePasses.induct less with
  | case1 fuel u v rest ih => exact ih.trans (mergePass_perm _)
  | case2 fuel blocks h => rw [mergePasses.eq_2 _ _ _ h]

theorem stableBlocks_flatten (fuel : Nat) (l : List α) : (stableBlocks fuel l).flatten = l := by
  induction fuel generalizing l with
  | zero => exact append_nil l
  | succ fuel ih =>
    rw [stableBlocks]
    split
    · exact append_nil l
    · rw [flatten_cons, ih, take_append_drop]

theorem flatten_map_perm {g : List α → List α} (hg : ∀ l, g l ~ l) (blocks : List (List α)) :
    (blocks.map g).flatten ~ blocks.flatten := by
  induction blocks with
  | nil => rfl
  | cons block blocks ih => exact (hg block).append ih

theorem sliceStable_perm (l : List α) : sliceStable less l ~ l := by
  refine (mergePasses_perm _ _).trans ((flatten_map_perm insertionSortFunc_perm _).trans ?_)
  rw [stableBlocks_flatten]

/-! ## The order -/

/-- The comparison is a strict weak order on the elements of `S`. -/
structure WeakOn (less : α → α → Bool) (S : Set α) : Prop where
  asymm : ∀ a ∈ S, ∀ b ∈ S, less a b = true → less b a = false
  trans : ∀ a ∈ S, ∀ b ∈ S, ∀ c ∈ S, less b a = false → less c b = false → less c a = false

/-- Elements of `S` in order. -/
structure OrderedIn (less : α → α → Bool) (S : Set α) (l : List α) : Prop where
  mem : ∀ a ∈ l, a ∈ S
  pairwise : l.Pairwise (fun a b => less b a = false)

variable {S : Set α}

theorem OrderedIn.sublist (h : OrderedIn less S l) (hsub : u <+ l) : OrderedIn less S u :=
  ⟨fun a ha => h.mem a (hsub.subset ha), h.pairwise.sublist hsub⟩

theorem OrderedIn.append (hu : OrderedIn less S u) (hv : OrderedIn less S v)
    (h : ∀ x ∈ u, ∀ y ∈ v, less y x = false) : OrderedIn less S (u ++ v) :=
  ⟨fun a ha => (mem_append.mp ha).elim (hu.mem a) (hv.mem a),
    pairwise_append.mpr ⟨hu.pairwise, hv.pairwise, h⟩⟩

/-- The place a binary search ends at, whether or not the predicate is monotone. -/
theorem searchLoop_edge {f : Nat → Bool} (fuel : Nat) {i j : Nat} (hij : i ≤ j)
    (hfuel : j - i ≤ fuel) : i ≤ searchLoop f fuel i j ∧ searchLoop f fuel i j ≤ j
      ∧ (i < searchLoop f fuel i j → f (searchLoop f fuel i j - 1) = false)
      ∧ (searchLoop f fuel i j < j → f (searchLoop f fuel i j) = true) := by
  induction fuel generalizing i j with
  | zero =>
    rw [searchLoop]
    exact ⟨Nat.le_refl i, hij, fun h => absurd h (Nat.lt_irrefl i), fun h => by omega⟩
  | succ fuel ih =>
    rw [searchLoop]
    by_cases hlt : i < j
    · rw [if_pos hlt]
      dsimp only
      cases hf : f ((i + j) / 2) with
      | true =>
        rw [if_pos rfl]
        obtain ⟨hlo, hhi, hbelow, hat⟩ := @ih i ((i + j) / 2) (by omega) (by omega)
        refine ⟨hlo, by omega, hbelow, fun _ => ?_⟩
        rcases Nat.lt_or_eq_of_le hhi with h | h
        · exact hat h
        · rw [h, hf]
      | false =>
        rw [if_neg Bool.false_ne_true]
        obtain ⟨hlo, hhi, hbelow, hat⟩ := @ih ((i + j) / 2 + 1) j (by omega) (by omega)
        refine ⟨by omega, hhi, fun _ => ?_, hat⟩
        rcases Nat.lt_or_eq_of_le hlo with h | h
        · exact hbelow h
        · rw [← h, Nat.add_sub_cancel, hf]
    · rw [if_neg hlt]
      exact ⟨Nat.le_refl i, hij, fun h => absurd h (Nat.lt_irrefl i), fun h => absurd h hlt⟩

theorem search_edge (n : Nat) (f : Nat → Bool) : search n f ≤ n ∧
    (0 < search n f → f (search n f - 1) = false) ∧ (search n f < n → f (search n f) = true) :=
  (searchLoop_edge n (Nat.zero_le n) (Nat.sub_le n 0)).2

variable (hless : WeakOn less S)
include hless

theorem OrderedIn.getElem_le (h : OrderedIn less S l) {i j : Nat} {x y : α} (hij : i ≤ j)
    (hx : l[i]? = some x) (hy : l[j]? = some y) : less y x = false := by
  obtain ⟨hi, rfl⟩ := List.getElem?_eq_some_iff.mp hx
  obtain ⟨hj, rfl⟩ := List.getElem?_eq_some_iff.mp hy
  rcases Nat.lt_or_eq_of_le hij with hlt | rfl
  · exact pairwise_iff_getElem.mp h.pairwise i j hi hj hlt
  · have hS := h.mem _ (getElem_mem hi)
    exact Bool.eq_false_iff.mpr fun hself =>
      Bool.false_ne_true ((hless.asymm _ hS _ hS hself).symm.trans hself)

/-- A part at the front of a block is not above a part at the end of the other one if that holds
where the two were cut. -/
theorem OrderedIn.take_le_drop (hu : OrderedIn less S u) (hv : OrderedIn less S v) {i j : Nat}
    (hi : i ≤ u.length) (hcut : 0 < i → ∀ p ∈ u[i - 1]?, ∀ q ∈ v[j]?, less q p = false) :
    ∀ x ∈ u.take i, ∀ y ∈ v.drop j, less y x = false := by
  intro x hx y hy
  obtain ⟨k, hk, rfl⟩ := mem_take_iff_getElem.mp hx
  obtain ⟨n, hn, rfl⟩ := mem_drop_iff_getElem.mp hy
  have hlast : u[i - 1]? = some _ := getElem?_eq_getElem (by omega)
  have hfirst : v[j]? = some _ := getElem?_eq_getElem (by omega)
  have hmid := hcut (by omega) _ hlast _ hfirst
  have hlow := hu.getElem_le hless (show k ≤ i - 1 by omega) (getElem?_eq_getElem (by omega)) hlast
  have hhigh := hv.getElem_le hless (Nat.le_add_right j n) hfirst (getElem?_eq_getElem (by omega))
  have hin := hless.trans _ (hu.mem _ (getElem_mem _)) _ (hu.mem _ (getElem_mem _)) _
    (hv.mem _ (getElem_mem _)) hlow hmid
  exact hless.trans _ (hu.mem _ (getElem_mem _)) _ (hv.mem _ (getElem_mem _)) _
    (hv.mem _ (getElem_mem _)) hin hhigh

omit hless in
theorem OrderedIn.take_le_rest (h : OrderedIn less S l) {i : Nat} :
    ∀ x ∈ l.take i, ∀ y ∈ l.drop i, less y x = false := by
  have hpair := h.pairwise
  rw [← take_append_drop i l] at hpair
  exact (pairwise_append.mp hpair).2.2

/-- The two halves of the result, each in order. -/
theorem OrderedIn.halves (hu : OrderedIn less S u) (hv : OrderedIn less S v) {i j : Nat}
    (hi : i ≤ u.length) (hj : j ≤ v.length)
    (huv : 0 < i → ∀ p ∈ u[i - 1]?, ∀ q ∈ v[j]?, less q p = false)
    (hvu : 0 < j → ∀ p ∈ v[j - 1]?, ∀ q ∈ u[i]?, less q p = false) {p q : List α}
    (hp : p ~ u.take i ++ v.take j) (hq : q ~ u.drop i ++ v.drop j)
    (hps : OrderedIn less S p) (hqs : OrderedIn less S q) : OrderedIn less S (p ++ q) := by
  refine hps.append hqs fun x hx y hy => ?_
  rcases mem_append.mp (hp.mem_iff.mp hx) with hx | hx <;>
    rcases mem_append.mp (hq.mem_iff.mp hy) with hy | hy
  · exact hu.take_le_rest x hx y hy
  · exact hu.take_le_drop hless hv hi huv x hx y hy
  · exact hv.take_le_drop hless hu hj hvu x hx y hy
  · exact hv.take_le_rest x hx y hy

/-- A block of one element, moved into the other one. -/
theorem OrderedIn.splice (hu : OrderedIn less S u) (hv : OrderedIn less S v) {i : Nat}
    (hone : u.length = 1) (hi : i ≤ v.length)
    (hvu : 0 < i → ∀ p ∈ v[i - 1]?, ∀ q ∈ u[0]?, less q p = false)
    (huv : ∀ p ∈ u[0]?, ∀ q ∈ v[i]?, less q p = false) :
    OrderedIn less S (v.take i ++ u ++ v.drop i) := by
  have hbelow := hv.take_le_drop hless hu hi hvu
  have habove := hu.take_le_drop hless hv hone.ge (fun _ => huv)
  rw [drop_zero] at hbelow
  rw [take_of_length_le hone.le] at habove
  refine ((hv.sublist (take_sublist i v)).append hu hbelow).append (hv.sublist (drop_sublist i v))
    fun x hx => ?_
  rcases mem_append.mp hx with hx | hx
  · exact hv.take_le_rest x hx
  · exact habove x hx

omit hless in
theorem lessAt_eq {i j : Nat} {p q : α} (hp : u[i]? = some p) (hq : v[j]? = some q) :
    lessAt less u i v j = less p q := by
  rw [lessAt, hp, hq]

/-- The binary search of `symMerge_func` cuts both blocks where the second half of the result can
begin. -/
theorem symMergeStart_cut (hu : OrderedIn less S u) (hv : OrderedIn less S v) {mid start stop : Nat}
    (hmid : (u.length + v.length) / 2 = mid) (hstart : symMergeStart less u v = start)
    (hstop : mid - start = stop) :
    start ≤ u.length ∧ stop ≤ v.length ∧ start + stop = mid
      ∧ (0 < start → ∀ p ∈ u[start - 1]?, ∀ q ∈ v[stop]?, less q p = false)
      ∧ (0 < stop → ∀ p ∈ v[stop - 1]?, ∀ q ∈ u[start]?, less q p = false) := by
  have hrange : (if mid < u.length then (mid + u.length - (u.length + v.length), mid)
      else (0, u.length)) = (mid + u.length - (u.length + v.length), min mid u.length) := by
    split <;> refine Prod.ext ?_ ?_ <;> dsimp only <;> omega
  unfold symMergeStart at hstart
  dsimp only at hstart
  rw [hmid, hrange] at hstart
  have hedge := @searchLoop_edge (fun c => lessAt less v (mid - 1 - c) u c) (u.length + v.length)
    (mid + u.length - (u.length + v.length)) (min mid u.length) (by omega) (by omega)
  rw [hstart] at hedge
  obtain ⟨hlo, hhi, hbelow, hat⟩ := hedge
  refine ⟨by omega, by omega, by omega, fun hpos p hp q hq => ?_, fun hpos p hp q hq => ?_⟩
  · have hlt := (List.getElem?_eq_some_iff.mp hq).1
    have hfalse := hbelow (by omega)
    rwa [show mid - 1 - (start - 1) = stop by omega, lessAt_eq hq hp] at hfalse
  · have hlt := (List.getElem?_eq_some_iff.mp hq).1
    have htrue := hat (by omega)
    rw [show mid - 1 - start = stop - 1 by omega, lessAt_eq hp hq] at htrue
    exact hless.asymm p (hv.mem p (mem_of_getElem? hp)) q (hu.mem q (mem_of_getElem? hq)) htrue

theorem symMergeFunc_ordered {fuel : Nat} (hfuel : u.length + v.length ≤ fuel)
    (hu : OrderedIn less S u) (hv : OrderedIn less S v) :
    OrderedIn less S (symMergeFunc less fuel u v) := by
  induction fuel generalizing u v with
  | zero =>
    have hnil : u = [] := eq_nil_of_length_eq_zero (by omega)
    rw [hnil]
    exact hv
  | succ fuel ih =>
    rw [symMergeFunc]
    split_ifs with hnil hone hone'
    · rcases hnil with rfl | rfl
      · exact hv
      · rw [append_nil]
        exact hu
    · obtain ⟨hhi, hbelow, hat⟩ := search_edge v.length (fun h => !lessAt less v h u 0)
      refine hu.splice hless hv hone hhi (fun hpos p hp q hq => ?_) (fun p hp q hq => ?_)
      · have hfalse := hbelow hpos
        rw [lessAt_eq hp hq, Bool.not_eq_false'] at hfalse
        exact hless.asymm p (hv.mem p (mem_of_getElem? hp)) q (hu.mem q (mem_of_getElem? hq)) hfalse
      · have htrue := hat (List.getElem?_eq_some_iff.mp hq).1
        rwa [lessAt_eq hq hp, Bool.not_eq_true'] at htrue
    · obtain ⟨hhi, hbelow, hat⟩ := search_edge u.length (fun h => lessAt less v 0 u h)
      refine hv.splice hless hu hone' hhi (fun hpos p hp q hq => ?_) (fun p hp q hq => ?_)
      · have hfalse := hbelow hpos
        rwa [lessAt_eq hq hp] at hfalse
      · have htrue := hat (List.getElem?_eq_some_iff.mp hq).1
        rw [lessAt_eq hp hq] at htrue
        exact hless.asymm p (hv.mem p (mem_of_getElem? hp)) q (hu.mem q (mem_of_getElem? hq)) htrue
    · obtain ⟨hi, hj, hsum, huv, hvu⟩ := symMergeStart_cut hless hu hv rfl rfl rfl
      have hlu := length_pos_iff.mpr (fun h => hnil (.inl h))
      have hlv := length_pos_iff.mpr (fun h => hnil (.inr h))
      refine hu.halves hless hv hi hj huv hvu (symMergeFunc_perm _ _ _) (symMergeFunc_perm _ _ _)
        (ih ?_ (hu.sublist (take_sublist _ u)) (hv.sublist (take_sublist _ v)))
        (ih ?_ (hu.sublist (drop_sublist _ u)) (hv.sublist (drop_sublist _ v)))
      · rw [length_take, length_take]
        omega
      · rw [length_drop, length_drop]
        omega

/-! ## The passes -/

theorem insertDown_ordered {x : α} (hx : x ∈ S) (h : OrderedIn (flip less) S l) :
    OrderedIn (flip less) S (insertDown less x l) := by
  refine ⟨fun a ha => forall_mem_cons.mpr ⟨hx, h.mem⟩ a ((insertDown_perm x l).mem_iff.mp ha), ?_⟩
  induction l with
  | nil => exact pairwise_singleton _ x
  | cons y ys ih =>
    obtain ⟨hy, hys⟩ := forall_mem_cons.mp h.mem
    obtain ⟨hhead, htail⟩ := pairwise_cons.mp h.pairwise
    rw [insertDown]
    split
    · rename_i hlt
      refine pairwise_cons.mpr ⟨fun a ha => ?_, ih ⟨hys, htail⟩⟩
      rcases mem_cons.mp ((insertDown_perm x ys).mem_iff.mp ha) with rfl | ha
      · exact hless.asymm a hx y hy hlt
      · exact hhead a ha
    · rename_i hge
      have hge : less x y = false := Bool.eq_false_iff.mpr hge
      exact pairwise_cons.mpr ⟨forall_mem_cons.mpr
        ⟨hge, fun a ha => hless.trans a (hys a ha) y hy x hx (hhead a ha) hge⟩, h.pairwise⟩

theorem insertionSortFunc_ordered (hl : ∀ a ∈ l, a ∈ S) :
    OrderedIn less S (insertionSortFunc less l) := by
  have hfold : OrderedIn (flip less) S (l.foldl (fun sorted x => insertDown less x sorted) []) :=
    foldlRecOn l _ ⟨fun _ h => absurd h not_mem_nil, .nil⟩
      (fun _ hsorted x hx => insertDown_ordered hless (hl x hx) hsorted)
  exact ⟨fun a ha => hfold.mem a (mem_reverse.mp ha), pairwise_reverse.mpr hfold.pairwise⟩

theorem mergePass_ordered {blocks : List (List α)} (h : ∀ b ∈ blocks, OrderedIn less S b) :
    ∀ b ∈ mergePass less blocks, OrderedIn less S b := by
  induction blocks using mergePass.induct with
  | case1 u v rest ih =>
    rw [forall_mem_cons, forall_mem_cons] at h
    obtain ⟨hu, hv, hrest⟩ := h
    exact forall_mem_cons.mpr ⟨symMergeFunc_ordered hless (Nat.le_refl _) hu hv, ih hrest⟩
  | case2 rest hrest => rwa [mergePass.eq_2 _ _ hrest]

omit hless in
theorem length_mergePass (blocks : List (List α)) :
    (mergePass less blocks).length = (blocks.length + 1) / 2 := by
  induction blocks using mergePass.induct with
  | case1 u v rest ih =>
    rw [mergePass, length_cons, ih, length_cons, length_cons]
    omega
  | case2 rest h =>
    rw [mergePass.eq_2 _ _ h]
    rcases rest with _ | ⟨u, _ | ⟨v, rest⟩⟩
    · rw [length_nil]
    · rw [length_singleton]
    · exact absurd rfl (h u v rest)

theorem mergePasses_ordered {fuel : Nat} {blocks : List (List α)} (hfuel : blocks.length ≤ fuel)
    (h : ∀ b ∈ blocks, OrderedIn less S b) : OrderedIn less S (mergePasses less fuel blocks) := by
  induction fuel, blocks using mergePasses.induct less with
  | case1 fuel u v rest ih =>
    refine ih ?_ (mergePass_ordered hless h)
    rw [length_mergePass]
    simp only [length_cons] at hfuel ⊢
    omega
  | case2 fuel blocks hblocks =>
    rw [mergePasses.eq_2 _ _ _ hblocks]
    rcases blocks with _ | ⟨u, _ | ⟨v, rest⟩⟩
    · exact ⟨fun _ h => absurd h not_mem_nil, .nil⟩
    · rw [flatten_singleton]
      exact h u (mem_singleton_self u)
    · cases fuel with
      | zero => cases hfuel
      | succ fuel => exact absurd rfl (hblocks fuel u v rest rfl)

theorem sliceStable_ordered (hl : ∀ a ∈ l, a ∈ S) : OrderedIn less S (sliceStable less l) := by
  refine mergePasses_ordered hless (Nat.le_refl _) (forall_mem_map.mpr fun block hblock => ?_)
  refine insertionSortFunc_ordered hless (fun a ha => hl a ?_)
  rw [← stableBlocks_flatten l.length l]
  exact mem_flatten_of_mem hblock ha

/-- Two lists of the same elements in order differ in the places of equal ones only. -/
theorem OrderedIn.map_eq {γ : Type} {g : α → γ} (hg : ∀ a ∈ S, ∀ b ∈ S,
      g a = g b ↔ less a b = false ∧ less b a = false) (hu : OrderedIn less S u)
    (hv : OrderedIn less S v) (hperm : u ~ v) : u.map g = v.map g := by
  have hmap : ∀ l, OrderedIn less S l → (l.map g).Pairwise (fun x y => ∃ a ∈ S, ∃ b ∈ S,
      g a = x ∧ g b = y ∧ less b a = false) := fun l hl =>
    pairwise_map.mpr (hl.pairwise.imp_of_mem fun ha hb hab =>
      ⟨_, hl.mem _ ha, _, hl.mem _ hb, rfl, rfl, hab⟩)
  refine Perm.eq_of_pairwise ?_ (hmap u hu) (hmap v hv) (hperm.map g)
  rintro _ _ - - ⟨a, ha, b, hb, rfl, rfl, hab⟩ ⟨b', hb', a', ha', hgb, hga, hba⟩
  have hback := hless.trans b' hb' a' ha' a ha hba ((hg a' ha' a ha).mp hga).2
  exact (hg a ha b hb).mpr ⟨hless.trans b hb b' hb' a ha ((hg b' hb' b hb).mp hgb).1 hback, hab⟩

end Vole.Go
