import Vole.Server.DocumentRecords
import Vole.Server.Reading

/-!
# The records of commands on several keys

Replaying a record on two stores that hold the same leaves two stores that hold the same.
For each case of `exec` that changes more than one key, or a key that is not its first
argument: when replaying its records on the store as it was does what the command did.
-/

namespace Vole.Server

open Go Store List Cell

variable {r : Result} {keys : List Bytes} {now : Time} {env : Env}

/-! ## Replay on stores that hold the same -/

section
variable {R : Runtime} {now : Time} {s t : Store}

theorem modify_same (h : s.Same t) (key : Bytes) (f : Cell → Cell) :
    (s.modify key f).Same (t.modify key f) :=
  h.modify Function.injective_id key f

/-- A record with the wrong number of arguments is skipped. -/
theorem ite_same {p : Prop} [Decidable p] {s' t' : Store} (h : s.Same t) (h' : s'.Same t') :
    (if p then s' else s).Same (if p then t' else t) := by
  split
  · exact h'
  · exact h

theorem StoreRecordWord.run_same (h : s.Same t) (w : StoreRecordWord) (args : List Bytes) :
    (w.run now args s).Same (w.run now args t) := by
  have hid := Function.injective_id (α := Bytes)
  cases w with
  | mSetAbs => exact ite_same h (h.foldl _ (fun s t p hst => modify_same hst p.1 _))
  | del =>
    have hdel : (Store.del now (args.tail.map id) s).2.Same (Store.del now args.tail t).2 :=
      (h.del hid args.tail).snd
    exact ite_same h (by rwa [map_id] at hdel)
  | lPush => exact ite_same h (h.pushList hid _ _ _).snd
  | rPush => exact ite_same h (h.pushList hid _ _ _).snd
  | sMove => exact ite_same h (h.sMove hid _ _ _).snd
  | rename => exact ite_same h (h.rename hid _ _).snd
  | xGroup => exact ite_same h (modify_same h _ _)
  | pfMerge =>
    have hmerge : (s.pfMerge now (args.getD 1 []) ((args.drop 2).map id)).Same
        (t.pfMerge now (args.getD 1 []) (args.drop 2)) := h.pfMerge hid _ _
    exact ite_same h (by rwa [map_id] at hmerge)
  | copy => exact ite_same h (h.copy hid _ _ _).snd
  | enqueue => exact ite_same h (Store.Same.enqueue h _ _ _)

theorem replayRecord_same (h : s.Same t) (record : Record) :
    (replayRecord R now s record).Same (replayRecord R now t record) := by
  unfold replayRecord
  cases RecordWord.ofArgs record with
  | none => exact h
  | some w =>
    cases w with
    | store w => exact w.run_same h record
    | key w =>
      match record with
      | [] => exact h
      | [_] => exact h
      | _ :: key :: rest => exact modify_same h key _

/-- **Replay does not tell stores apart that hold the same.** -/
theorem replay_same (h : s.Same t) (records : List Record) :
    (replay R now records s).Same (replay R now records t) :=
  h.foldl records (fun _ _ record hst => replayRecord_same hst record)

end

/-! ## What it is for records to do what a command did -/

/-- Replaying the records of a command on the store as it was leaves what the command left. -/
def ReplaysStore (R : Runtime) (now : Time) (s : Store) (r : Result) : Prop :=
  r.store.Same (replay R now r.log s)

section
variable {R : Runtime} {now : Time} {s : Store}

theorem replayRecord_word {args : Record} (w : StoreRecordWord)
    (hword : toUpper (args.headD []) = bytes (RecordWord.text (.store w))) :
    replayRecord R now s args = w.run now args s := by
  unfold replayRecord RecordWord.ofArgs
  rw [hword, RecordWord.parse_text]
  rfl

theorem replayRecord_keyWord {word : Bytes} (w : KeyRecordWord)
    (hword : toUpper word = bytes (RecordWord.text (.key w))) (key : Bytes) (rest : List Bytes) :
    replayRecord R now s (word :: key :: rest) = s.modify key (w.run sscanInt R now rest) := by
  unfold replayRecord RecordWord.ofArgs
  rw [headD_cons, hword, RecordWord.parse_text]
  rfl

theorem replayRecord_keyText (w : KeyRecordWord) (key : Bytes) (rest : List Bytes) :
    replayRecord R now s (bytes (RecordWord.text (.key w)) :: key :: rest)
      = s.modify key (w.run sscanInt R now rest) :=
  replayRecord_keyWord w (RecordWord.toUpper_text _) key rest

namespace ReplaysStore

variable (hs : s.Idle)
include hs

theorem unlogged (hlog : r.log = []) (hstore : r.store = s) : ReplaysStore R now s r := by
  unfold ReplaysStore
  rw [hlog, hstore]
  exact .refl hs

theorem still (h : StillStore s r) : ReplaysStore R now s r :=
  unlogged hs h.log h.store

theorem answer (reply : Reply) : ReplaysStore R now s (.answer s reply) :=
  unlogged hs rfl rfl

theorem fail (err : Bytes) : ReplaysStore R now s (.fail s err) :=
  unlogged hs rfl rfl

theorem attempt {α : Type} {p : Except Bytes α} {k : α → Result}
    (h : ∀ a, p = .ok a → ReplaysStore R now s (k a)) : ReplaysStore R now s (.attempt s p k) :=
  Result.attempt_elim (fail hs) h

theorem owned (h : ReplaysStore R now s r) : ReplaysStore R now s (.owned env keys s r) :=
  Result.owned_elim (answer hs) h

theorem counted {name : String} {ok : Nat → Bool} {run : Cmd.StoreCmd}
    {args : List Bytes} (h : ok args.length = true → ReplaysStore R now s (run env args s)) :
    ReplaysStore R now s (Cmd.counted name ok run env args s) :=
  Cmd.counted_elim (fail hs) h

theorem exactly (h : r.store = replay R now r.log s) : ReplaysStore R now s r := by
  unfold ReplaysStore
  rw [h]
  exact .refl (replay_same (.refl hs) r.log).idle

theorem echo {args : Record} (w : StoreRecordWord)
    (hword : toUpper (args.headD []) = bytes (RecordWord.text (.store w))) (hlog : r.log = [args])
    (h : r.store = w.run now args s) : ReplaysStore R now s r := by
  refine exactly hs ?_
  rw [h, hlog]
  exact (replayRecord_word w hword).symm

end ReplaysStore

theorem replaysStore_act (hs : s.Idle) {cmd : KeyCmd} {word key : Bytes} {rest : List Bytes}
    (h : (cmd.run (env.at key) word rest (s.cell key)).log.foldlM (replayKey sscanInt R now)
      (s.entries key) = some (cmd.run (env.at key) word rest (s.cell key)).cell.toEntry) :
    ReplaysStore R now s (cmd.act env word key rest s) := by
  have hstart : (s.put key ⟨s.entries key, 0⟩).Same s := by
    rw [show (⟨s.entries key, 0⟩ : Cell) = s.cell key from rfl, put_cell]
    exact .refl hs
  have hreplay := replay_keyRecords h hstart
  have hcell : (s.put key (cmd.run (env.at key) word rest (s.cell key)).cell).Same
      (s.put key ⟨(cmd.run (env.at key) word rest (s.cell key)).cell.toEntry, 0⟩) :=
    (Store.Same.refl hs).put Function.injective_id key rfl
  exact Store.Same.trans hcell hreplay

theorem replaysStore_exec (hs : s.Idle) {cmd : KeyCmd} {args : List Bytes}
    (h : ∀ word key rest, args = word :: key :: rest → cmd.arity (rest.length + 2) = true →
      cmd.check env.R rest = none → Replays sscanInt (env.at key) (s.entries key)
        (cmd.run (env.at key) word rest ⟨s.entries key, 0⟩)) :
    ReplaysStore env.R env.now s (cmd.exec env args s) := by
  rcases cmd.exec_cases env args s with
    ⟨word, key, rest, hargs, harity, hcheck, -, heq⟩ | ⟨reply, heq, -⟩
  · exact heq ▸ replaysStore_act hs (h word key rest hargs harity hcheck)
  · exact heq ▸ .answer hs reply

end

/-! ## Strings -/

open Cmd

section
variable {env : Env} {args : List Bytes} {s : Store}

theorem tripleUp_flatMap (pairs : List (Bytes × Bytes)) :
    tripleUp (pairs.flatMap (fun p => [p.1, p.2, bytes "0"]))
      = pairs.map (fun p => (p.1, p.2, bytes "0")) := by
  induction pairs with
  | nil => rfl
  | cons p rest ih =>
    rw [flatMap_cons, map_cons, ← ih]
    rfl

theorem length_mSetAbs (pairs : List (Bytes × Bytes)) :
    (mSetAbs pairs).length = 1 + 3 * pairs.length := by
  unfold mSetAbs
  induction pairs with
  | nil => rfl
  | cons p rest ih =>
    rw [length_cons] at ih
    rw [flatMap_cons, length_cons, length_append]
    show 3 + (rest.flatMap _).length + 1 = 1 + 3 * (rest.length + 1)
    omega

theorem replayRecord_mSetAbs {R : Runtime} {pairs : List (Bytes × Bytes)} (hne : pairs ≠ []) :
    replayRecord R now s (mSetAbs pairs)
      = pairs.foldl (fun s p => s.modify p.1 (setAbsolute p.2 zeroTime)) s := by
  have hpos : 0 < pairs.length := length_pos_iff.mpr hne
  have hlen := length_mSetAbs pairs
  rw [replayRecord_word .mSetAbs rfl]
  simp only [StoreRecordWord.run]
  rw [if_pos ⟨by omega, by omega⟩]
  show (tripleUp (pairs.flatMap (fun p => [p.1, p.2, bytes "0"]))).foldl _ s = _
  rw [tripleUp_flatMap, foldl_map]
  simp only [absTime_none]

theorem replays_mSet (hs : s.Idle) : ReplaysStore env.R env.now s (Cmd.mSet env args s) := by
  refine .counted hs (fun hn => .owned hs (.exactly hs ?_))
  have hlen : 3 ≤ args.length := (of_decide_eq_true hn).1
  have hpairs : pairUp args.tail ≠ [] := pairUp_length (by rw [length_tail]; omega)
  show _ = replayRecord env.R env.now s (mSetAbs (pairUp args.tail))
  rw [replayRecord_mSetAbs hpairs]

/-- A key that is made a string in the same way by `MSetNX` and by its record. -/
def PlainString (e : Entry) : Prop := e.conflicts .string = false ∧ e.lastSeq = none

theorem mSetNXWrite_eq {e : Entry} {b : Nat} (h : PlainString e) (value : Bytes) :
    (mSetNXWrite value ⟨e, b⟩).toEntry = (setAbsolute value zeroTime ⟨e, b⟩).toEntry ∧
      PlainString (mSetNXWrite value ⟨e, b⟩).toEntry := by
  refine ⟨?_, h.1, h.2⟩
  rw [setAbsolute_toEntry]
  rw [asString_of_string h.1 h.2]
  rfl

theorem foldl_mSetNXWrite {t : Store} (hst : s.Same t) (pairs : List (Bytes × Bytes))
    (h : ∀ p ∈ pairs, PlainString (s.entries p.1)) :
    (pairs.foldl (fun s p => s.modify p.1 (mSetNXWrite p.2)) s).Same
      (pairs.foldl (fun s p => s.modify p.1 (setAbsolute p.2 zeroTime)) t) := by
  induction pairs generalizing s t with
  | nil => exact hst
  | cons p rest ih =>
    obtain ⟨hwrite, hplain⟩ := mSetNXWrite_eq (b := 0) (h p (by simp)) p.2
    have hcell : t.cell p.1 = s.cell p.1 := by
      unfold cell
      rw [← hst.inside p.1]
      rfl
    have hstep : (s.modify p.1 (mSetNXWrite p.2)).Same
        (t.modify p.1 (setAbsolute p.2 zeroTime)) := by
      unfold Store.modify
      rw [hcell]
      exact hst.put Function.injective_id p.1 hwrite
    refine ih hstep (fun q hq => ?_)
    unfold Store.modify
    rw [put_entries_apply]
    split
    · exact hplain
    · exact h q (by simp [hq])

/-- When the record of `MSETNX` does what `MSetNX` did. -/
def MSetNXRecorded (now : Time) (keys : List Bytes) (s : Store) : Prop :=
  (∀ k ∈ keys, (s.entries k).expired now = false) ∧
    ((∃ k ∈ keys, (s.entries k).existsAt now = true) ∨
      ∀ k ∈ keys, (s.entries k).visible now = true ∧ (s.entries k).lastSeq = none)

theorem mSetNXCheck_of_fresh (h : ∀ k ∈ keys, (s.entries k).expired now = false) :
    mSetNXCheck now keys s = (decide (∀ k ∈ keys, (s.entries k).existsAt now = false), s) := by
  induction keys with
  | nil => rfl
  | cons k rest ih =>
    unfold mSetNXCheck
    rw [purgeKey_of_fresh (h k (by simp))]
    dsimp only
    split
    · rename_i hex
      rw [decide_eq_false (fun hall => by simp [hall k] at hex)]
    · rename_i hex
      rw [ih (fun j hj => h j (by simp [hj]))]
      simp [hex]

theorem replays_mSetNX (hs : s.Idle)
    (hrec : MSetNXRecorded env.now ((pairUp args.tail).map (·.1)) s) :
    ReplaysStore env.R env.now s (Cmd.mSetNX env args s) := by
  refine .counted hs (fun hn => .owned hs ?_)
  have hlen : 3 ≤ args.length := (of_decide_eq_true hn).1
  have hpairs : pairUp args.tail ≠ [] := pairUp_length (by rw [length_tail]; omega)
  generalize pairUp args.tail = pairs at hrec hpairs
  obtain ⟨hfresh, hrest⟩ := hrec
  unfold Store.mSetNX
  rw [mSetNXCheck_of_fresh hfresh]
  by_cases hnone : ∀ k ∈ pairs.map (·.1), (s.entries k).existsAt env.now = false
  · rw [decide_eq_true hnone]
    have hplain : ∀ p ∈ pairs, PlainString (s.entries p.1) := by
      intro p hp
      have hk : p.1 ∈ pairs.map (·.1) := mem_map_of_mem hp
      rcases hrest with ⟨k, hk', hex⟩ | hvis
      · exact absurd hex (by simp [hnone k hk'])
      · have hdata := Entry.toData_of_not_exists (hfresh _ hk) (hvis _ hk).1 (hnone _ hk)
        refine ⟨?_, (hvis _ hk).2⟩
        rw [hdata]
        rfl
    show (pairs.foldl _ s).Same (replayRecord env.R env.now s (mSetAbs pairs))
    rw [replayRecord_mSetAbs hpairs]
    exact foldl_mSetNXWrite (.refl hs) pairs hplain
  · rw [decide_eq_false hnone]
    exact .answer hs _

/-- The key has nothing that a `SETABS` record leaves in place. -/
structure Cleared (e : Entry) : Prop where
  jsons : e.jsons = none
  timeseries : e.timeseries = none
  groups : e.groups = none
  rateLimiters : e.rateLimiters = none
  queues : e.queues = none
  tags : e.tags = none
  notBefore : e.notBefore = none

theorem Cleared.asString {e : Entry} (h : Cleared e) (value : Bytes) :
    e.asString value none = { Entry.empty with kv := some value } := by
  obtain ⟨⟨⟩⟩ := e
  obtain ⟨rfl, rfl, rfl, rfl, rfl, rfl, rfl⟩ := h
  rfl

theorem bitOpRead_of_fresh (h : ∀ k ∈ keys, (s.entries k).expired now = false) :
    (bitOpRead now keys s).2 = s := by
  induction keys with
  | nil => rfl
  | cons k rest ih =>
    have hrest := ih (fun j hj => h j (by simp [hj]))
    unfold bitOpRead
    rw [purgeKey_of_fresh (h k (by simp))]
    dsimp only
    split
    · rfl
    · revert hrest
      rcases bitOpRead now rest s with ⟨r, s'⟩
      rintro rfl
      cases r <;> rfl

/-- When the `SETABS` record of `BITOP` does what `BitOp` did. -/
def BitOpRecorded (now : Time) (dest : Bytes) (keys : List Bytes) (s : Store) : Prop :=
  (∀ k ∈ keys, (s.entries k).expired now = false) ∧ Cleared (s.entries dest)

theorem replays_bitOp (hs : s.Idle)
    (hrec : BitOpRecorded env.now (args.getD 2 []) (args.drop 3) s) :
    ReplaysStore env.R env.now s (Cmd.bitOp env args s) := by
  refine .counted hs (fun _ => .owned hs ?_)
  obtain ⟨hfresh, hdest⟩ := hrec
  have hread := bitOpRead_of_fresh hfresh
  generalize args.getD 2 [] = dest at hdest
  unfold Store.bitOp
  dsimp only
  generalize toUpper (args.getD 1 []) = op
  by_cases hnot : op = bytes "NOT" ∧ (args.drop 3).length ≠ 1
  · rw [if_pos hnot]
    exact .unlogged hs rfl rfl
  rw [if_neg hnot]
  revert hread
  rcases bitOpRead env.now (args.drop 3) s with ⟨r, s'⟩
  rintro rfl
  cases r with
  | error err => exact .unlogged hs rfl rfl
  | ok bufs =>
    dsimp only
    cases bitOpResult op bufs with
    | error err => exact .unlogged hs rfl rfl
    | ok result =>
      have hrecord : replayRecord env.R env.now s' [bytes "SETABS", dest, result, bytes "0"]
          = s'.modify dest (KeyRecordWord.setAbs.run sscanInt env.R env.now
              [result, bytes "0"]) := replayRecord_keyText .setAbs dest _
      have hwrite : Entry.asString (s'.entries dest) result
          (if isZero (absTime (sscanInt (bytes "0"))) then none
            else some (absTime (sscanInt (bytes "0"))))
          = { Entry.empty with kv := some result } := by
        rw [absTime_none]
        exact hdest.asString result
      dsimp only
      unfold Store.modify
      rw [put_entries_self]
      show (s'.put dest _).Same (replayRecord env.R env.now s'
        [bytes "SETABS", dest, result, bytes "0"])
      refine hrecord ▸ (Store.Same.refl hs).put Function.injective_id dest ?_
      exact ((setAbsolute_toEntry _ _ _).trans hwrite).symm

end

/-! ## Keys -/

section
variable {env : Env} {args : List Bytes} {s : Store}

theorem replays_del (hs : s.Idle) (hword : toUpper (args.headD []) = bytes "DEL") :
    ReplaysStore env.R env.now s (Cmd.del env args s) := by
  refine .counted hs (fun hn => .owned hs (.echo hs .del hword rfl ?_))
  have hlen : 2 ≤ args.length := of_decide_eq_true hn
  simp only [StoreRecordWord.run]
  rw [if_pos (by omega)]

theorem replays_unlink (hs : s.Idle) : ReplaysStore env.R env.now s (Cmd.unlink env args s) := by
  have hword : toUpper ((bytes "DEL" :: args.tail).headD []) = bytes "DEL" := rfl
  refine .counted hs (fun hn => .owned hs (.echo hs .del hword rfl ?_))
  have hlen : 2 ≤ args.length := of_decide_eq_true hn
  simp only [StoreRecordWord.run, length_cons, tail_cons, length_tail]
  rw [if_pos (by omega)]

theorem replays_rename (hs : s.Idle) (hword : toUpper (args.headD []) = bytes "RENAME") :
    ReplaysStore env.R env.now s (Cmd.rename env args s) := by
  refine .counted hs (fun hn => .owned hs (.echo hs .rename hword rfl ?_))
  have hlen : args.length = 3 := of_decide_eq_true hn
  simp only [StoreRecordWord.run, if_pos hlen]
  rfl

theorem copy_refused {src : Bytes} (dst : Bytes) (replace : Bool)
    (hfresh : (s.entries src).expired now = false)
    (h : (s.copy now src dst replace).1 = false) : (s.copy now src dst replace).2 = s := by
  rcases copy_cases now src dst replace s with ⟨-, heq⟩ | ⟨-, hok, -⟩
  · rw [heq, purgeKey_of_fresh hfresh]
  · exact absurd (h.symm.trans hok) (by decide)

theorem run_copy (now : Time) (s : Store) (hlen : 3 ≤ args.length) :
    StoreRecordWord.run now .copy args s = (s.copy now (args.getD 1 []) (args.getD 2 [])
      ((args.drop 3).any (fun a => equalFold a "REPLACE"))).2 := by
  simp only [StoreRecordWord.run, if_pos hlen]

theorem replays_copy (hs : s.Idle) (hword : toUpper (args.headD []) = bytes "COPY")
    (hfresh : (s.entries (args.getD 1 [])).expired env.now = false) :
    ReplaysStore env.R env.now s (Cmd.copy env args s) := by
  refine .counted hs (fun hn => .owned hs ?_)
  dsimp only
  have hrefused := copy_refused (args.getD 2 [])
    ((args.drop 3).any (fun a => equalFold a "REPLACE")) hfresh
  have hrun := run_copy env.now s (of_decide_eq_true hn).1
  revert hrefused hrun
  rcases s.copy env.now (args.getD 1 []) (args.getD 2 [])
    ((args.drop 3).any (fun a => equalFold a "REPLACE")) with ⟨ok, s'⟩
  intro hrefused hrun
  cases ok with
  | false => exact .unlogged hs rfl (hrefused rfl)
  | true => exact .echo hs .copy hword rfl hrun.symm

end

end Vole.Server
