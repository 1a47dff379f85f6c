import Vole.Server.Restart
import Vole.Server.Replicated

/-!
# The writes of the HTTP interface

A handler of `http.go` appends a record to the append-only file and then calls the store. What
it appends is written by hand beside each call, so the record and the call can differ: a `PUT`
that sets no key is logged all the same, and `FLUSHDB` is not a word of `ReplayAOF`.
-/

namespace Vole.Server

open Go Cmd

variable {key : Bytes} {ex px : Int}

/-- A request that a handler answers with a write, its body decoded. -/
inductive HttpWrite where
  | put (key value : Bytes) (ex px : Int) (nx xx : Bool)
  | delete (key : Bytes)
  | incr (key : Bytes) (delta : Int)
  /-- the fields in the order in which the map of the body is iterated -/
  | hashPut (key : Bytes) (pairs : List (Bytes × Bytes))
  | hashDelete (key field : Bytes)
  | push (key : Bytes) (left : Bool) (values : List Bytes)
  | pop (key : Bytes) (left : Bool)
  | setAdd (key : Bytes) (members : List Bytes)
  | setRemove (key member : Bytes)
  | zsetAdd (key : Bytes) (members : List ZMember)
  | flush

namespace HttpWrite

/-- The time to live of a `PUT`; milliseconds win. -/
def putTTL (ex px : Int) : Duration :=
  if 0 < px then duration px millisecond else if 0 < ex then duration ex second else 0

/-- The time to live that a `PUT` logs; seconds win. -/
def recordedTTL (ex px : Int) : Duration :=
  if 0 < ex then duration ex second else if 0 < px then duration px millisecond else 0

/-- The options that a `PUT` logs. -/
def putOptions (ex px : Int) (nx xx : Bool) : List Bytes :=
  (if 0 < ex then [bytes "EX", formatInt ex]
    else if 0 < px then [bytes "PX", formatInt px] else [])
    ++ (if nx then [bytes "NX"] else []) ++ (if xx then [bytes "XX"] else [])

/-- The arguments of `persistWrite`. -/
def record (R : Runtime) : HttpWrite → Record
  | .put key value ex px nx xx => bytes "SET" :: key :: value :: putOptions ex px nx xx
  | .delete key => [bytes "DEL", key]
  | .incr key delta =>
    if delta = 1 then [bytes "INCR", key] else [bytes "INCRBY", key, formatInt delta]
  | .hashPut key pairs => bytes "HSET" :: key :: pairs.flatMap (fun p => [p.1, p.2])
  | .hashDelete key field => [bytes "HDEL", key, field]
  | .push key left values => bytes (if left then "LPUSH" else "RPUSH") :: key :: values
  | .pop key left => [bytes (if left then "LPOP" else "RPOP"), key]
  | .setAdd key members => bytes "SADD" :: key :: members
  | .setRemove key member => [bytes "SREM", key, member]
  | .zsetAdd key members =>
    bytes "ZADD" :: key :: members.flatMap (fun m => [R.formatFloat m.score, m.member])
  | .flush => [bytes "FLUSHDB"]

/-- `SetNX`, `SetXX` or `Set`. -/
def putCell (now : Time) (value : Bytes) (ttl : Duration) (nx xx : Bool) (c : Cell) : Cell :=
  if nx then (c.setNX now value ttl).2
  else if xx then (c.setXX now value ttl).2
  else c.set now value ttl

/-- The call of the store. -/
def effect (now : Time) (s : Store) : HttpWrite → Store
  | .put key value ex px nx xx => s.modify key (putCell now value (putTTL ex px) nx xx)
  | .delete key => (Store.del now [key] s).2
  | .incr key delta => s.modify key (fun c => (c.incrBy now delta).2)
  | .hashPut key pairs => s.modify key (fun c => (c.hSet now pairs).2)
  | .hashDelete key field => s.modify key (fun c => (c.hDel now [field]).2)
  | .push key left values => (s.pushList now key left values).2
  | .pop key left => s.modify key (fun c => (c.popList now left).2)
  | .setAdd key members => s.modify key (fun c => (c.sAdd now members).2)
  | .setRemove key member => s.modify key (fun c => (c.sRem now [member]).2)
  | .zsetAdd key members => s.modify key (fun c => (c.zAdd now members).2)
  | .flush => s.flushDB

/-- A number of type `int64`. -/
def InInt64 (n : Int) : Prop := -(2 ^ 63) ≤ n ∧ n < 2 ^ 63

/-- What a decoded body is that its handler accepts: numbers are of type `int64`, lists are not
empty, and a score is a number. -/
def Decoded : HttpWrite → Prop
  | .put _ _ ex px _ _ => InInt64 ex ∧ InInt64 px
  | .incr _ delta => InInt64 delta
  | .hashPut _ pairs => pairs ≠ []
  | .push _ _ values => values ≠ []
  | .setAdd _ members => members ≠ []
  | .zsetAdd _ members => members ≠ [] ∧ ∀ m ∈ members, m.score.isNaN = false
  | _ => True

/-- When the record does what the call does. A `PUT` has one time to live, and finds the key
such that it is set; the lists of a body are not empty, as the handlers check; a score is a
number; and a flush finds nothing. -/
def Recorded (now : Time) (s : Store) : HttpWrite → Prop
  | .put key _ ex px nx xx => InInt64 ex ∧ InInt64 px ∧ ¬ (0 < ex ∧ 0 < px) ∧
      (nx = true → Unset now (s.entries key) ∧
        (0 < putTTL ex px ∨ (s.entries key).expires = none) ∧
        (s.entries key).existsAt now = false) ∧
      (nx = false → xx = true → (s.entries key).existsAt now = true)
  | .flush => s.entries = 0
  | w => w.Decoded

end HttpWrite

section
variable {R : Runtime} {now : Time} {s : Store}

theorem recordTTL_put (hex : HttpWrite.InInt64 ex) (hpx : HttpWrite.InInt64 px)
    (value : Bytes) (nx xx : Bool) : recordTTL sscanInt (value :: HttpWrite.putOptions ex px nx xx)
      = HttpWrite.recordedTTL ex px := by
  unfold HttpWrite.putOptions HttpWrite.recordedTTL
  by_cases hex0 : 0 < ex
  · rw [if_pos hex0, if_pos hex0]
    show (if 5 ≤ _ then if toUpper (bytes "EX") = bytes "PX" then _
      else if toUpper (bytes "EX") = bytes "EX" then duration (sscanInt (formatInt ex)) second
      else 0 else 0) = _
    rw [if_pos (by simp), if_neg (by decide), if_pos (by decide), sscanInt_formatInt hex]
  by_cases hpx0 : 0 < px
  · rw [if_neg hex0, if_pos hpx0, if_neg hex0, if_pos hpx0]
    show (if 5 ≤ _ then if toUpper (bytes "PX") = bytes "PX"
        then duration (sscanInt (formatInt px)) millisecond else _ else 0) = _
    rw [if_pos (by simp), if_pos (by decide), sscanInt_formatInt hpx]
  · rw [if_neg hex0, if_neg hpx0, if_neg hex0, if_neg hpx0]
    cases nx <;> cases xx <;> rfl

theorem recordedTTL_of_one (hone : ¬ (0 < ex ∧ 0 < px)) :
    HttpWrite.recordedTTL ex px = HttpWrite.putTTL ex px := by
  unfold HttpWrite.recordedTTL HttpWrite.putTTL
  by_cases hex : 0 < ex
  · rw [if_pos hex, if_neg (fun hpx => hone ⟨hex, hpx⟩), if_pos hex]
  · rw [if_neg hex, if_neg hex]

theorem run_put (hex : HttpWrite.InInt64 ex) (hpx : HttpWrite.InInt64 px)
    (value : Bytes) (nx xx : Bool) (e : Entry) :
    (KeyRecordWord.set.run sscanInt R now (value :: HttpWrite.putOptions ex px nx xx)
      ⟨e, 0⟩).toEntry = e.asString value (if 0 < HttpWrite.recordedTTL ex px
        then some (now + HttpWrite.recordedTTL ex px) else none) := by
  simp only [KeyRecordWord.run]
  rw [if_pos (by simp), recordTTL_put hex hpx]
  exact set_toEntry value _

/-- The write calls an operation on one key, and its record comes to the same entry. -/
def HttpWrite.RunsAs (R : Runtime) (now : Time) (w : HttpWrite) : Prop :=
  ∃ (word : KeyRecordWord) (key : Bytes) (rest : List Bytes) (f : Cell → Cell),
    w.record R = bytes (RecordWord.text (.key word)) :: key :: rest
      ∧ (∀ s, w.effect now s = s.modify key f)
      ∧ ∀ e, (f ⟨e, 0⟩).toEntry = (word.run sscanInt R now rest ⟨e, 0⟩).toEntry

theorem sameReplay_key (hs : s.Idle) (w : KeyRecordWord) (key : Bytes) (rest : List Bytes)
    (f : Cell → Cell) (h : (f ⟨s.entries key, 0⟩).toEntry
      = (w.run sscanInt R now rest ⟨s.entries key, 0⟩).toEntry) : (s.modify key f).Same
      (replayRecord R now s (bytes (RecordWord.text (.key w)) :: key :: rest)) := by
  rw [replayRecord_keyText]
  exact Store.Same.modify_congr (.refl hs) key h

namespace HttpWrite

theorem RunsAs.same {w : HttpWrite} (h : w.RunsAs R now) (hs : s.Idle) :
    (w.effect now s).Same (replayRecord R now s (w.record R)) := by
  obtain ⟨word, key, rest, f, hrecord, heffect, hrun⟩ := h
  rw [hrecord, heffect]
  exact sameReplay_key hs word key rest f (hrun _)

theorem runsAs_incr {delta : Int} (h : InInt64 delta) : (HttpWrite.incr key delta).RunsAs R now := by
  by_cases hone : delta = 1
  · refine ⟨.incr, key, [], fun c => (c.incrBy now delta).2, if_pos hone, fun _ => rfl, ?_⟩
    intro e
    rw [hone]
    rfl
  · refine ⟨.incrBy, key, [formatInt delta], fun c => (c.incrBy now delta).2, if_neg hone,
      fun _ => rfl, ?_⟩
    intro e
    show _ = (Cell.incrBy now (sscanInt (formatInt delta)) ⟨e, 0⟩).2.toEntry
    rw [sscanInt_formatInt h]

theorem runsAs_hashPut {pairs : List (Bytes × Bytes)} (h : pairs ≠ []) :
    (HttpWrite.hashPut key pairs).RunsAs R now := by
  refine ⟨.hSet, key, _, fun c => (c.hSet now pairs).2, rfl, fun _ => rfl, ?_⟩
  intro e
  exact Option.some.inj ((replayKey_hSet (R := R) h).symm.trans (replayKey_text .hSet _))

theorem runsAs_hashDelete (key field : Bytes) : (HttpWrite.hashDelete key field).RunsAs R now :=
  ⟨.hDel, key, [field], fun c => (c.hDel now [field]).2, rfl, fun _ => rfl, fun _ => rfl⟩

theorem runsAs_pop (key : Bytes) (left : Bool) : (HttpWrite.pop key left).RunsAs R now := by
  cases left with
  | true => exact ⟨.lPop, key, [], fun c => (c.popList now true).2, rfl, fun _ => rfl, fun _ => rfl⟩
  | false =>
    exact ⟨.rPop, key, [], fun c => (c.popList now false).2, rfl, fun _ => rfl, fun _ => rfl⟩

theorem runsAs_setAdd {members : List Bytes} (h : members ≠ []) :
    (HttpWrite.setAdd key members).RunsAs R now := by
  refine ⟨.sAdd, key, members, fun c => (c.sAdd now members).2, rfl, fun _ => rfl, ?_⟩
  intro e
  have hpos : 0 < members.length := List.length_pos_iff.mpr h
  simp only [KeyRecordWord.run]
  rw [if_pos (by omega)]

theorem runsAs_setRemove (key member : Bytes) : (HttpWrite.setRemove key member).RunsAs R now :=
  ⟨.sRem, key, [member], fun c => (c.sRem now [member]).2, rfl, fun _ => rfl, fun _ => rfl⟩

theorem runsAs_zsetAdd (hR : FloatLaws R) {members : List ZMember}
    (h : (HttpWrite.zsetAdd key members).Decoded) : (HttpWrite.zsetAdd key members).RunsAs R now := by
  refine ⟨.zAdd, key, _, fun c => (c.zAdd now members).2, rfl, fun _ => rfl, ?_⟩
  intro e
  exact Option.some.inj ((replayKey_zAdd hR h.1 h.2).symm.trans (replayKey_text .zAdd _))

theorem replay_push {left : Bool} {values : List Bytes} (h : values ≠ []) :
    replayRecord R now s ((HttpWrite.push key left values).record R)
      = (s.pushList now key left values).2 := by
  have hlen : 2 < values.length + 2 := by
    have hpos : 0 < values.length := List.length_pos_iff.mpr h
    omega
  cases left with
  | true => exact (replayRecord_word .lPush rfl).trans (if_pos hlen)
  | false => exact (replayRecord_word .rPush rfl).trans (if_pos hlen)

end HttpWrite

/-- `PUT`: the record is a `SET` with the options of the request, and replay
overwrites the key whatever they say. -/
theorem HttpWrite.replays_put {key value : Bytes} {nx xx : Bool} (hs : s.Idle)
    (hrec : (HttpWrite.put key value ex px nx xx).Recorded now s) :
    ((HttpWrite.put key value ex px nx xx).effect now s).Same
      (replayRecord R now s ((HttpWrite.put key value ex px nx xx).record R)) := by
  obtain ⟨hex, hpx, hone, hnx, hxx⟩ := hrec
  refine sameReplay_key hs .set key (value :: putOptions ex px nx xx) (putCell now value _ nx xx) ?_
  rw [run_put hex hpx, recordedTTL_of_one hone]
  cases hnx' : nx with
  | true =>
    obtain ⟨hset, hexp, hnot⟩ := hnx hnx'
    exact (setNX_unset value hset hexp hnot).2
  | false =>
    cases hxx' : xx with
    | true => exact (setXX_exists value _ (hxx hnx' hxx')).2
    | false => exact set_toEntry value _

theorem HttpWrite.replays (hR : FloatLaws R) (hs : s.Idle) {w : HttpWrite}
    (hrec : w.Recorded now s) : (w.effect now s).Same (replayRecord R now s (w.record R)) := by
  cases w with
  | put key value ex px nx xx => exact replays_put hs hrec
  | delete key =>
    exact ((Store.Same.refl hs).del Function.injective_id [key]).snd
  | incr key delta => exact (runsAs_incr hrec).same hs
  | hashPut key pairs => exact (runsAs_hashPut hrec).same hs
  | hashDelete key field => exact (runsAs_hashDelete key field).same hs
  | push key left values =>
    rw [replay_push hrec]
    exact ((Store.Same.refl hs).pushList Function.injective_id key left values).snd
  | pop key left => exact (runsAs_pop key left).same hs
  | setAdd key members => exact (runsAs_setAdd hrec).same hs
  | setRemove key member => exact (runsAs_setRemove key member).same hs
  | zsetAdd key members => exact (runsAs_zsetAdd hR hrec).same hs
  | flush =>
    -- replay does not know `FLUSHDB`: there must have been nothing to flush
    have hnone : s.entries = 0 := hrec
    refine .of_entries (fun k => ?_) (fun _ => rfl) hs rfl
    show (0 : Π₀ _ : Bytes, Entry) k = s.entries k
    rw [hnone]

end

end Vole.Server
