import Vole.Server.CollectionRecords
import Vole.Store.StreamOrder

/-!
# The records of commands on streams, documents, series, tags and queues

For each case of `exec` that changes such a key: when its records, replayed on the entry as
it was, do what the command did. `XADD` logs the identifier it chose. `XTRIM`, `XCLAIM`,
`XAUTOCLAIM` and `DEQUEUE` log nothing, so only calls that find nothing to do are replayed.
-/

namespace Vole.Server

open Go Cmd Cell KeyRecordWord

section
variable {number : Bytes → Int} {env : KeyEnv} {e : Entry} {word : Bytes} {rest : List Bytes}

/-! ## Streams -/

/-- When the record of `XADD` adds the entry: the key has not expired, the fields have
values, and a made-up identifier does not overflow. -/
structure XAddRecorded (now : Time) (rest : List Bytes) (e : Entry) : Prop where
  fresh : e.expired now = false
  even : (rest.drop 1).length % 2 = 0
  room : arg rest 2 = bytes "*" → (parseID (lastIDOf (e.streams.getD []))).2 ≠ 2 ^ 63 - 1

theorem XAddRecorded.fields {now : Time} (h : XAddRecorded now rest e) (hn : 5 ≤ rest.length + 2) :
    ¬ badFields (rest.drop 1) = true := by
  have hlen : 2 ≤ (rest.drop 1).length := by
    rw [List.length_drop]
    omega
  have hne : rest.drop 1 ≠ [] := List.ne_nil_of_length_pos (by omega)
  simp only [badFields, hne, h.even]
  decide

/-- The second half of `XADD`, under an identifier that the first half has come up with. -/
theorem XAddRecorded.prepared {now : Time} {id : Bytes} (h : XAddRecorded now rest e)
    (hn : 5 ≤ rest.length + 2) (hgt : compareID id (lastID ⟨e, 0⟩) = .gt) :
    xAddPrepared now id (rest.drop 1) ⟨{ e with lastSeq := some (parseID id).2 }, 0⟩
      = (.ok (), addStreamEntry id (rest.drop 1)
          ⟨{ e with lastSeq := some (parseID id).2 }, 0⟩) := by
  have hfresh : Entry.expired { e with lastSeq := some (parseID id).2 } now = false := h.fresh
  have hexp : ¬ Entry.expired { e with lastSeq := some (parseID id).2 } now = true := by
    simp [hfresh]
  unfold xAddPrepared
  rw [if_neg (h.fields hn), if_neg hexp]
  exact if_neg (not_not.mpr hgt)

theorem replays_xAdd (hn : 5 ≤ rest.length + 2) (hrec : XAddRecorded env.now rest e) :
    Replays number env e (Cmd.xAdd.run env word rest ⟨e, 0⟩) := by
  have hpurge : purge ⟨e, 0⟩ env.now = ⟨e, 0⟩ := purge_of_fresh hrec.fresh
  dsimp only [Cmd.xAdd, KeyCmd.of]
  unfold nextStreamID
  rw [hpurge]
  dsimp only
  split
  · rename_i err c heq
    split at heq
    · cases heq
      exact .fail _
    · rcases prepareStreamID_cases (fun hstar _ => hrec.room hstar) with
        ⟨err', h⟩ | ⟨id', h, -, -⟩
      · rw [h] at heq
        cases heq
        exact .fail _
      · rw [h] at heq
        cases heq
  · rename_i id c heq
    split at heq
    · cases heq
    rename_i hconf
    rcases prepareStreamID_cases (fun hstar _ => hrec.room hstar) with
      ⟨err', h⟩ | ⟨id', h, hgt, hstar⟩
    · rw [h] at heq
      cases heq
    · rw [h] at heq
      cases heq
      refine .logged ((replayKey_text .xAdd _).trans ?_)
      -- the replayed identifier passes the same comparison with the last one
      have hgt : compareID id (lastID ⟨e, 0⟩) = .gt := hgt
      have hreplay : xAdd env.now id (rest.drop 1) ⟨e, 0⟩ = (.ok id,
          addStreamEntry id (rest.drop 1) ⟨{ e with lastSeq := some (parseID id).2 }, 0⟩) := by
        unfold Cell.xAdd prepareStreamID
        rw [if_neg (hrec.fields hn), hpurge]
        dsimp only
        rw [if_neg hconf, if_neg hstar, if_neg (not_not.mpr hgt)]
      show some (if 5 ≤ (id :: rest.drop 1).length + 2 then
        (xAdd env.now id (rest.drop 1) ⟨e, 0⟩).2 else ⟨e, 0⟩).toEntry = _
      rw [if_pos (by rw [List.length_cons, List.length_drop]; omega), hreplay, hrec.prepared hn hgt]

theorem echoes_xAck (hn : 4 ≤ rest.length + 2) :
    Cmd.xAck.Echoing True False .xAck number env e word rest := by
  show Echoes True False .xAck number env e word rest
    (if !e.xGroupExists env.now (arg rest 2) then
      .fail ⟨e, 0⟩ (bytes "consumer group does not exist")
    else .logged env.R (word, rest) (xAck env.now (arg rest 2) (rest.drop 1) ⟨e, 0⟩)
      (fun n => [.int n]))
  split
  · exact .fail _
  · refine .echo (fun _ => (xAck_checked _ _).untouched) ?_
    simp only [run, if_pos hn]

/-- `XTRIM` has nothing to trim. -/
def XTrimIdle (maxLen : Int) (e : Entry) : Prop := ((e.streams.getD []).length : Int) ≤ maxLen

theorem replays_xTrim (hrec : ∀ n, parseMaxLen env.R rest = .ok n → XTrimIdle n e) :
    Replays number env e (Cmd.xTrim.run env word rest ⟨e, 0⟩) := by
  refine .attempt (fun maxLen hparse => .unlogged rfl ?_)
  show (xTrim maxLen ⟨e, 0⟩).2.toEntry = e
  have hidle : ((e.streams.getD []).length : Int) ≤ maxLen := hrec maxLen hparse
  unfold Cell.xTrim
  dsimp only
  rw [if_pos hidle]

/-- The stream has no such consumer group. -/
def NoGroup (name : Bytes) (e : Entry) : Prop := e.groups.bind (·.get name) = none

theorem replays_xClaim (hrec : NoGroup (arg rest 2) e) :
    Replays number env e (Cmd.xClaim.run env word rest ⟨e, 0⟩) := by
  refine .attempt (fun minIdle _ => .unlogged rfl ?_)
  show (xClaim env.now (arg rest 2) (arg rest 3) minIdle (rest.drop 3) ⟨e, 0⟩).2.toEntry = e
  have hnone : group (arg rest 2) ⟨e, 0⟩ = none := hrec
  unfold Cell.xClaim
  rw [hnone]

theorem replays_xAutoClaim (hrec : NoGroup (arg rest 2) e) :
    Replays number env e (Cmd.xAutoClaim.run env word rest ⟨e, 0⟩) := by
  refine .attempt (fun minIdle _ => .attempt (fun count _ => .unlogged rfl ?_))
  show (xAutoClaim env.now (arg rest 2) (arg rest 3) minIdle (arg rest 5) count env.hint
    ⟨e, 0⟩).2.toEntry = e
  have hnone : group (arg rest 2) ⟨e, 0⟩ = none := hrec
  unfold Cell.xAutoClaim
  rw [hnone]

/-! ## Documents -/

theorem echoes_jsonSet (hn : rest.length + 2 = 4) :
    Cmd.jsonSet.Echoing (e.expired env.now = false) False .jsonSet number env e word rest := by
  refine .echo (jsonSet_checked _ _).untouched_fresh ?_
  simp only [run, if_pos hn]

theorem echoes_jsonDel : Cmd.jsonDel.Echoing True False .jsonDel number env e word rest :=
  .echo (fun _ => (jsonDel_checked _).untouched) rfl

theorem echoes_jsonNumIncrBy (hn : rest.length + 2 = 4) :
    Cmd.jsonNumIncrBy.Echoing (e.expired env.now = false) False .jsonNumIncrBy number env e word
      rest := by
  refine .attempt (fun delta hparse =>
    .echo (jsonNumIncrBy_checked _ delta).untouched_fresh ?_)
  simp only [run, if_pos hn, parseFloat64_eq_ok hparse, Option.getD_some]

theorem echoes_jsonArrAppend (hn : 4 ≤ rest.length + 2) :
    Cmd.jsonArrAppend.Echoing (e.expired env.now = false) False .jsonArrAppend number env e word
      rest := by
  refine .echo (jsonArrAppend_checked _ _).untouched_fresh ?_
  simp only [run, if_pos hn]

/-! ## Tags and series -/

theorem parseTags_eq_filterMap {R : Runtime} {args : List Bytes} {tags : List (Bytes × Bytes)}
    (h : parseTags R args = .ok tags) : args.filterMap splitEquals = tags := by
  induction args generalizing tags with
  | nil =>
    cases h
    rfl
  | cons text rest ih =>
    unfold parseTags at h
    cases htag : splitEquals text with
    | none =>
      rw [htag] at h
      cases h
    | some tag =>
      rw [htag] at h
      cases hrest : parseTags R rest with
      | error err =>
        rw [hrest] at h
        cases h
      | ok more =>
        rw [hrest] at h
        cases h
        rw [List.filterMap_cons_some htag, ih hrest]

theorem echoes_tag (hn : 3 ≤ rest.length + 2) :
    Cmd.tag.Echoing (e.expired env.now = false) False .tag number env e word rest := by
  refine .attempt (fun tags hparse => .echo (tagSet_checked tags).untouched_fresh ?_)
  simp only [run, if_pos hn, parseTags_eq_filterMap hparse]

theorem echoes_tagDel (hn : 3 ≤ rest.length + 2) :
    Cmd.tagDel.Echoing True False .tagDel number env e word rest := by
  refine .always rfl rfl ?_
  simp only [run, if_pos hn]
  rfl

theorem run_tsAdd {timestamp : Int} {value : F64} (hR : FloatLaws env.R)
    (hn : 4 ≤ rest.length + 2) (hsame : SameNumber (arg rest 2))
    (htime : parseTimestamp env.R (arg rest 2) = .ok timestamp)
    (hvalue : parseFloat64 env.R (arg rest 3) = .ok value) (c : Cell) :
    tsAdd.run number env.R env.now rest c
      = (c.tsAdd env.now timestamp value (parseLabels (rest.drop 2))).2 := by
  simp only [run, if_pos hn, hR.sscan_parse _ _ (parseFloat64_eq_ok hvalue)]
  unfold parseTimestamp at htime
  split at htime
  · rename_i hstar
    cases htime
    rw [if_pos hstar]
  · rename_i hstar
    rw [if_neg hstar, hsame timestamp (parseInt64_eq_ok htime)]

theorem echoes_tsAdd (hR : FloatLaws env.R) (hn : 4 ≤ rest.length + 2)
    (hrec : SameNumber (arg rest 2)) :
    Cmd.tsAdd.Echoing True False .tsAdd number env e word rest := by
  refine .attempt (fun _ htime => .attempt (fun _ hvalue =>
    .echo (fun _ => (tsAdd_checked _ _ _).untouched) ?_))
  rw [run_tsAdd hR hn hrec htime hvalue]

/-! ## Queues -/

theorem echoes_qAck (hn : rest.length + 2 = 3) :
    Cmd.qAck.Echoing True False .qAck number env e word rest := by
  refine .always rfl rfl ?_
  simp only [run, if_pos hn]
  rfl

theorem echoes_qNack (hn : rest.length + 2 = 3) :
    Cmd.qNack.Echoing True False .qNack number env e word rest := by
  refine .always rfl rfl ?_
  simp only [run, if_pos hn]
  rfl

theorem replays_dequeue (hrec : e.queues = none) :
    Replays number env e (Cmd.dequeue.run env word rest ⟨e, 0⟩) := by
  have hnone : dequeue env.now env.hint ⟨e, 0⟩ = (none, ⟨e, 0⟩) := by
    unfold Cell.dequeue
    rw [hrec]
  refine .attempt (fun _ _ => ?_)
  rw [hnone]
  exact .unlogged rfl rfl

end

end Vole.Server
