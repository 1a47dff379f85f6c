import Vole.Store.ConsumerGroups

/-!
# Reading a range of a stream

`XRange` looks for its first entry by binary search and ends at the first entry behind the range.
-/

namespace Vole

open Go List SortedLists

/-- `inRange` -/
def inRange (id start stop : Bytes) : Bool :=
  if start ≠ bytes "-" ∧ compareID id start = .lt then false
  else if stop ≠ bytes "+" ∧ compareID id stop = .gt then false
  else true

section
variable {entries : List StreamEntry}
  (h : entries.Pairwise (fun a b => compareID a.id b.id = .lt))
include h

theorem rising_from (start : Bytes) :
    Rising (fun x => decide (compareID x.id start ≠ .lt)) entries := by
  refine h.imp fun hxy hx => ?_
  simp only [decide_eq_true_eq, ne_eq, compareID_eq_lt, not_and] at hx ⊢
  exact fun hstart hy => hx hstart ((compareID_eq_lt.mp hxy).2.trans hy)

theorem falling_upTo (stop : Bytes) :
    Falling (fun x => stop = bytes "+" || compareID x.id stop ≠ .gt) entries := by
  refine (rising_after h stop).imp fun hxy hy => ?_
  unfold after at hxy
  simp only [Bool.or_eq_true, decide_eq_true_eq] at hxy hy ⊢
  exact hy.imp_right (fun hy hx => hy (hxy hx))

theorem xRange_eq {e : Entry} {now : Time} (hlive : e.expired now = false)
    (hs : e.streams = some entries) (start stop : Bytes) (count : Int) :
    e.xRange now start stop count
      = (let run := entries.filter (fun x => inRange x.id start stop)
        if 0 < count then run.take count.toNat else run) := by
  have hrange : ∀ x : StreamEntry, ((stop = bytes "+" || compareID x.id stop ≠ .gt) &&
      (start = bytes "-" || compareID x.id start ≠ .lt) : Bool) = inRange x.id start stop := by
    intro x
    unfold inRange
    grind
  unfold Entry.xRange
  rw [hlive, hs, if_neg Bool.false_ne_true, Option.getD_some]
  dsimp only
  simp only [← hrange]
  by_cases hstart : start = bytes "-"
  · rw [if_pos hstart, drop_zero, takeWhile_eq_filter (falling_upTo h stop)]
    simp only [hstart, decide_true, Bool.true_or, Bool.and_true]
  · rw [if_neg hstart, drop_search (rising_from h start) (fun i x hx => by rw [hx]),
      takeWhile_eq_filter ((falling_upTo h stop).sublist filter_sublist), filter_filter]
    simp only [hstart, decide_false, Bool.false_or]

/-- **Reading a stream.** From a stream in order, `XRange` returns the entries in the range, cut to
the count, and `XRead` those after each identifier it is given for the stream. -/
theorem stream_reads {s : Store} {now : Time} {key : Bytes}
    (hlive : (s.entries key).expired now = false) (hs : (s.entries key).streams = some entries) :
    (∀ start stop count, (s.entries key).xRange now start stop count
      = (let run := entries.filter (fun x => inRange x.id start stop)
        if 0 < count then run.take count.toNat else run)) ∧
    ∀ streams : List (Bytes × Bytes), ((s.xRead now streams).get key).getD []
      = (streams.filter (·.1 = key)).flatMap
          (fun p => entries.filter (fun x => compareID x.id p.2 = .gt)) := by
  refine ⟨xRange_eq h hlive hs, fun streams => ?_⟩
  have hread : ∀ id, (s.entries key).xRead now id
      = entries.filter (fun x => compareID x.id id = .gt) := by
    intro id
    unfold Entry.xRead
    rw [hlive, hs, if_neg Bool.false_ne_true]
    exact entriesAfter_eq h id
  unfold Store.xRead
  induction streams using reverseRecOn with
  | nil => rfl
  | append_singleton rest p ih =>
    rw [foldl_append, foldl_cons, foldl_nil, Store.addResults_get, ih, filter_append,
      flatMap_append]
    by_cases hp : key = p.1
    · rw [if_pos hp, ← hp, hread]
      simp [← hp]
    · simp [hp, Ne.symm hp]

end

def twoEntries : Store := Store.new.put (bytes "k")
  ⟨{ Entry.empty with streams := some [⟨bytes "1-1", []⟩, ⟨bytes "2-1", []⟩] }, 0⟩

theorem stream_reads_two :
    (twoEntries.entries (bytes "k")).xRange 1 (bytes "2") (bytes "+") 0 = [⟨bytes "2-1", []⟩] :=
  ((@stream_reads _ (by decide) twoEntries 1 (bytes "k") (by decide) rfl).1 ..).trans (by decide)

/-- **Reading the streams of a run.** Whatever `XADD`, `XTRIM`, `COPY`, `RENAME`, `DEL` and loading
a dump have made of a stream without an entry called `$`, `XRange` finds all that is in a range. -/
theorem xRange_reached {R : Runtime} {s : Store}
    (h : Reach R (fun _ _ op => op.onStreams = true ∧ op.NoDollar) s) {now : Time} {key : Bytes}
    {entries : List StreamEntry} (hlive : (s.entries key).expired now = false)
    (hs : (s.entries key).streams = some entries) (start stop : Bytes) (count : Int) :
    (s.entries key).xRange now start stop count
      = (let run := entries.filter (fun x => inRange x.id start stop)
        if 0 < count then run.take count.toNat else run) :=
  xRange_eq (h.inOrder key entries hs).sorted hlive hs start stop count

theorem xRange_reached_one : ((xAdded "5-1" Store.new).entries (bytes "s")).xRange 1
    (bytes "5") (bytes "+") 0 = [⟨bytes "5-1", [bytes "f", bytes "v"]⟩] := by
  have hreach : Reach default (fun _ _ op => op.onStreams = true ∧ op.NoDollar)
      (xAdded "5-1" Store.new) :=
    .step 1 _ (.step 1 _ .new rfl ⟨rfl, trivial⟩) rfl ⟨rfl, by show bytes "5-1" ≠ _; decide⟩
  exact (xRange_reached hreach rfl rfl _ _ _).trans (by decide)

end Vole
