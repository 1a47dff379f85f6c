import Vole.Store.SortedOrder

/-!
# Time series as maps

`Add` keeps the samples of a time series in one slice, ordered by timestamp, and finds the place
of a sample by binary search. The slice stands for a map from timestamps to values.
-/

namespace Vole.TimeSeries

open Go SortedLists List

variable {ts : TimeSeries} {m : Int → Option F64}

/-- The slice is strictly increasing by timestamp and holds the entries of the map. -/
structure Refines (ts : TimeSeries) (m : Int → Option F64) : Prop where
  sorted : ts.samples.Pairwise (fun a b => a.timestamp < b.timestamp)
  mem_iff : ∀ s : TSSample, s ∈ ts.samples ↔ m s.timestamp = some s.value

theorem rising {l : List TSSample} (h : l.Pairwise (fun a b => a.timestamp < b.timestamp))
    (t : Int) : Rising (fun s => decide (t ≤ s.timestamp)) l :=
  h.imp (fun hab ha => decide_eq_true ((of_decide_eq_true ha).trans hab.le))

theorem exists_parts (h : ts.samples.Pairwise (fun a b => a.timestamp < b.timestamp)) (t : Int) :
    ∃ front back, ts.samples = front ++ back ∧ position ts.samples t = front.length ∧
      (∀ a ∈ front, a.timestamp < t) ∧ ∀ b ∈ back, t ≤ b.timestamp := by
  obtain ⟨front, back, hparts, hfront, hback⟩ := (rising h t).exists_parts
  refine ⟨front, back, hparts, ?_, fun a ha => not_le.mp (of_decide_eq_false (hfront a ha)),
    fun b hb => of_decide_eq_true (hback b hb)⟩
  unfold position
  rw [hparts]
  exact search_append (fun _ _ ha => by rw [ha]) hfront hback

theorem exists_add (h : ts.samples.Pairwise (fun a b => a.timestamp < b.timestamp)) (t : Int)
    (v : F64) : ∃ older younger, (ts.add t v).samples = older ++ ⟨t, v⟩ :: younger ∧
      (older ++ younger).Sublist ts.samples ∧
      (∀ s ∈ ts.samples, s.timestamp ≠ t → s ∈ older ++ younger) ∧
      (∀ a ∈ older, a.timestamp < t) ∧ ∀ b ∈ younger, t < b.timestamp := by
  obtain ⟨front, back, hparts, hpos, hfront, hback⟩ := exists_parts h t
  unfold add
  dsimp only
  have hat : (front ++ back)[front.length]? = back.head? := by
    rw [getElem?_append_right le_rfl, Nat.sub_self, head?_eq_getElem?]
  rw [hpos, hparts, hat]
  rw [hparts] at h
  have hsorted := (pairwise_append.mp h).2.1
  by_cases hhead : (back.head?.map (·.timestamp)) = some t
  · -- the timestamp is there already: the head of `back` makes room
    obtain ⟨b, hb, hbt⟩ := Option.map_eq_some_iff.mp hhead
    obtain ⟨younger, rfl⟩ := head?_eq_some_iff.mp hb
    refine ⟨front, younger, ?_, ?_, fun s hs hne => ?_, hfront, fun s hs => ?_⟩
    · rw [if_pos hhead]
      simp
    · exact (List.Sublist.refl front).append (sublist_cons_self b younger)
    · rcases mem_append.mp hs with hs | hs
      · exact mem_append_left _ hs
      · rcases mem_cons.mp hs with rfl | hs
        · exact absurd hbt hne
        · exact mem_append_right _ hs
    · exact hbt ▸ rel_of_pairwise_cons hsorted hs
  · refine ⟨front, back, ?_, List.Sublist.refl _, fun s hs _ => hs, hfront, fun s hs => ?_⟩
    · rw [if_neg hhead]
      exact insertIdx_length_append front back _
    · refine lt_of_le_of_ne (hback s hs) (fun heq => hhead ?_)
      -- a sample of `back` with the timestamp is its head
      cases back with
      | nil => cases hs
      | cons b younger =>
        rcases mem_cons.mp hs with rfl | hs
        · exact congrArg some heq.symm
        · have hlt := rel_of_pairwise_cons hsorted hs
          have hle := hback b (.head _)
          omega

theorem Refines.add (h : ts.Refines m) (t : Int) (v : F64) :
    (ts.add t v).Refines (Function.update m t (some v)) := by
  obtain ⟨older, younger, heq, hsub, hrest, holder, hyounger⟩ := exists_add h.sorted t v
  refine ⟨?_, fun s => ?_⟩
  · rw [heq]
    exact pairwise_insert (h.sorted.sublist hsub) holder hyounger
  · have hmem : s ∈ (ts.add t v).samples ↔ s = ⟨t, v⟩ ∨ s ∈ older ++ younger := by
      rw [heq, mem_append, mem_cons, mem_append]
      tauto
    rw [hmem]
    by_cases hs : s.timestamp = t
    · have hnot : s ∉ older ++ younger := by
        intro hin
        rcases mem_append.mp hin with hin | hin
        · exact absurd hs (holder s hin).ne
        · exact absurd hs (hyounger s hin).ne'
      obtain ⟨_, value⟩ := s
      cases hs
      simp only [hnot, or_false, Function.update_self, TSSample.mk.injEq, true_and,
        Option.some.injEq]
      exact eq_comm
    · rw [Function.update_of_ne hs, ← h.mem_iff]
      constructor
      · rintro (rfl | hin)
        · exact absurd rfl hs
        · exact hsub.subset hin
      · exact fun hin => .inr (hrest s hin hs)

/-- The map that a sequence of `Add` calls describes: the last value of each timestamp. -/
def lastValues (calls : List (Int × F64)) : Int → Option F64 :=
  calls.foldl (fun m call => Function.update m call.1 (some call.2)) (fun _ => none)

/-- The series that a sequence of `Add` calls leaves. -/
def ofCalls (calls : List (Int × F64)) : TimeSeries :=
  calls.foldl (fun ts call => ts.add call.1 call.2) empty

theorem refines_foldl (h : ts.Refines m) (calls : List (Int × F64)) :
    (calls.foldl (fun ts call => ts.add call.1 call.2) ts).Refines
      (calls.foldl (fun m call => Function.update m call.1 (some call.2)) m) := by
  induction calls generalizing ts m with
  | nil => exact h
  | cons call calls ih => exact ih (h.add call.1 call.2)

theorem refines_ofCalls (calls : List (Int × F64)) :
    (ofCalls calls).Refines (lastValues calls) := by
  have hempty : empty.Refines (fun _ => none) :=
    ⟨List.Pairwise.nil, fun _ => iff_of_false not_mem_nil (fun h => nomatch h)⟩
  exact refines_foldl hempty calls

theorem Refines.range_eq (h : ts.Refines m) (start stop count : Int) :
    ts.range start stop count =
      let all := ts.samples.filter (fun s => start ≤ s.timestamp ∧ s.timestamp ≤ stop)
      if 0 < count then all.take count.toNat else all := by
  have hfalling : Falling (fun s : TSSample => decide (s.timestamp ≤ stop)) ts.samples :=
    h.sorted.imp (fun hab hb => decide_eq_true (hab.le.trans (of_decide_eq_true hb)))
  have hdrop : ts.samples.drop (position ts.samples start)
      = ts.samples.filter (fun s => decide (start ≤ s.timestamp)) :=
    drop_search (rising h.sorted start) (fun _ _ ha => by rw [ha])
  unfold range
  dsimp only
  rw [hdrop, takeWhile_eq_filter (hfalling.sublist filter_sublist), filter_filter]
  simp only [Bool.decide_and, Bool.and_comm]

/-- **Time series refine maps**: after any `Add` calls the samples are strictly increasing by
timestamp and are the last values, and `Range` lists those between its bounds. -/
theorem series_refines_map (calls : List (Int × F64)) :
    (ofCalls calls).samples.Pairwise (fun a b => a.timestamp < b.timestamp) ∧
      (∀ s, s ∈ (ofCalls calls).samples ↔ lastValues calls s.timestamp = some s.value) ∧
      ∀ start stop count, (ofCalls calls).range start stop count =
        let all := (ofCalls calls).samples.filter
          (fun s => start ≤ s.timestamp ∧ s.timestamp ≤ stop)
        if 0 < count then all.take count.toNat else all := by
  have h := refines_ofCalls calls
  exact ⟨h.sorted, h.mem_iff, h.range_eq⟩

end Vole.TimeSeries
