import Vole.Server.Crash

/-!
# Restarts of a server that saves snapshots

A server takes `SET`, `INCR`, `DEL`, `RPUSH`, `LPOP`, `HSET`, `SADD`, `SAVE` and `FLUSHDB`,
each at its own time, and is started again at a later time from the snapshot and the
append-only file it has left. As long as nothing expires before the restart, the time at
which a command is run or replayed makes no difference. `FLUSHDB` empties the append-only
file and leaves the snapshot, which then brings the old keys back.
-/

namespace Vole.Server

open Go Cmd Store Data

/-! ## Keys that do not expire before the restart -/

/-- What else a key holds than a string, a hash, a list, a set and an expiry. -/
def otherParts (e : Entry) : Entry :=
  { e with kv := none, hashes := none, lists := none, sets := none, expires := none }

/-- What a key can hold: a string, a hash, a list or a set, with an expiry that lies after
the restart and goes with the value. -/
structure Simple (later : Int) (e : Entry) : Prop where
  unused : otherParts e = Entry.empty
  late : ∀ x : Int, e.expires = some x → later < x
  idle : e.hasAny DataType.all = false → e.expires = none

namespace Simple

variable {now later : Int} {e : Entry}

theorem empty (later : Int) : Simple later Entry.empty :=
  ⟨rfl, nofun, fun _ => rfl⟩

variable (h : Simple later e)
include h

theorem notBefore : e.notBefore = none :=
  congrArg Entry.notBefore h.unused

theorem lastSeq : e.lastSeq = none := congrArg Entry.lastSeq h.unused

theorem fresh (hle : now ≤ later) : e.expired now = false := by
  unfold Entry.expired
  cases hx : e.expires with
  | none => rfl
  | some x =>
    have hlate : later < x := h.late x hx
    simp only [Bool.and_eq_false_iff, decide_eq_false_iff_not]
    exact .inr (fun hx' => absurd (Int.le_trans hx' hle) (Int.not_le.mpr hlate))

theorem visible (now : Time) : e.visible now = true := by
  unfold Entry.visible
  rw [h.notBefore]

theorem kept (R : Runtime) : Kept R later e := by
  refine ⟨h.fresh le_rfl, ?_⟩
  obtain ⟨⟨_, _, _, sets⟩⟩ := e
  have hunused := h.unused
  obtain ⟨⟨rfl, rfl, rfl, rfl, rfl⟩, rfl, rfl, rfl, rfl, rfl, rfl⟩ := hunused
  cases sets with
  | none => rfl
  | some members =>
    simp only [Entry.snap, SnapEntry.restore, Option.map_some, Finset.sort_toFinset]
    rfl

theorem write {e' : Entry} (t : DataType) (hunused : otherParts e' = otherParts e)
    (hexpires : e'.expires = e.expires) (ht : e'.has t = true) : Simple later e' :=
  ⟨hunused.trans h.unused, fun x hx => h.late x (hexpires ▸ hx),
    fun hno => absurd ht (List.any_eq_false.mp hno t (by cases t <;> decide))⟩

theorem asString (value : Bytes) {expires : Option Time}
    (hlate : ∀ x : Int, expires = some x → later < x) :
    Simple later (e.asString value expires) := by
  refine ⟨?_, hlate, fun hno => absurd hno (by simp [hasAny, DataType.all, has,
    Entry.asString])⟩
  obtain ⟨⟨⟩⟩ := e
  have hunused := h.unused
  obtain ⟨⟨rfl, rfl, rfl, rfl, rfl⟩, rfl, rfl, rfl, rfl, rfl, rfl⟩ := hunused
  rfl

end Simple

/-! ## The time of a command -/

/-- The same environment at another time. -/
def Env.shift (env : Env) (later : Time) : Env := { env with now := later }

section
variable {now later : Int} {e : Entry} {b : Nat} (h : Simple later e) (hle : now ≤ later)
include h hle

theorem purge_shift : Cell.purge ⟨e, b⟩ now = Cell.purge ⟨e, b⟩ later := by
  rw [Cell.purge_of_fresh (h.fresh hle), Cell.purge_of_fresh (h.fresh le_rfl)]

theorem expired_shift : e.expired now = e.expired later := by
  rw [h.fresh hle, h.fresh le_rfl]

theorem existsAt_shift : e.existsAt now = e.existsAt later := by
  unfold Entry.existsAt
  rw [expired_shift h hle, h.visible now, h.visible later]

theorem type_shift : e.type now = e.type later := by
  unfold Entry.type
  rw [expired_shift h hle, h.visible now, h.visible later]

theorem delCell_shift : delCell now ⟨e, b⟩ = delCell later ⟨e, b⟩ := by
  unfold delCell
  rw [expired_shift h hle, existsAt_shift h hle, purge_shift h hle]

end

/-! ## Commands on one key -/

/-- Replaying the records at the time of the restart does what the command did, and the key
will not have expired by then. -/
structure Outlasts (R : Runtime) (later : Int) (e : Entry) (o : Outcome) : Prop where
  replays : o.log.foldlM (replayKey sscanInt R later) e = some o.cell.toEntry
  simple : Simple later o.cell.toEntry

section
variable {later : Int} {env : KeyEnv} {e : Entry} {word : Bytes} {rest : List Bytes}

section
variable (h : Simple later e)
include h

theorem Outlasts.unlogged {R : Runtime} {o : Outcome} (hlog : o.log = [])
    (hcell : o.cell.toEntry = e) : Outlasts R later e o := by
  refine ⟨?_, by rwa [hcell]⟩
  rw [hlog, hcell]
  rfl

omit h in
/-- What a command does at the time of the restart, its records do. -/
theorem Outlasts.of_shift {cmd : KeyCmd}
    (heq : cmd.run env word rest ⟨e, 0⟩ = cmd.run { env with now := later } word rest ⟨e, 0⟩)
    (hreplays : Replays sscanInt { env with now := later } e
      (cmd.run { env with now := later } word rest ⟨e, 0⟩))
    (hsimple : Simple later (cmd.run { env with now := later } word rest ⟨e, 0⟩).cell.toEntry) :
    Outlasts env.R later e (cmd.run env word rest ⟨e, 0⟩) :=
  heq ▸ ⟨hreplays, hsimple⟩

theorem Simple.incrBy (delta : Int) :
    Simple later (Cell.incrBy later delta ⟨e, 0⟩).2.toEntry := by
  unfold Cell.incrBy
  rw [Cell.purge_of_fresh (h.fresh le_rfl)]
  dsimp only
  split
  · exact h
  split
  · exact h
  · exact h.write .string rfl rfl rfl

theorem Simple.hSet (pairs : List (Bytes × Bytes)) :
    Simple later (Cell.hSet later pairs ⟨e, 0⟩).2.toEntry := by
  unfold Cell.hSet
  rw [Cell.purge_of_fresh (h.fresh le_rfl)]
  dsimp only
  split
  · exact h
  split
  · exact h
  · exact h.write .hash rfl rfl rfl

theorem Simple.sAdd (members : List Bytes) :
    Simple later (Cell.sAdd later members ⟨e, 0⟩).2.toEntry := by
  unfold Cell.sAdd
  rw [Cell.purge_of_fresh (h.fresh le_rfl)]
  dsimp only
  split
  · exact h
  split
  · exact h
  · exact h.write .set rfl rfl rfl

theorem Simple.pushList (left : Bool) (values : List Bytes) :
    Simple later (Cell.pushList later left values ⟨e, 0⟩).2.toEntry := by
  unfold Cell.pushList
  rw [Cell.purge_of_fresh (h.fresh le_rfl)]
  dsimp only
  split
  · exact h
  split
  · exact h
  · exact h.write .list rfl rfl rfl

theorem Simple.popList (left : Bool) :
    Simple later (Cell.popList later left ⟨e, 0⟩).2.toEntry := by
  have hexp : ¬ (Cell.mk e 0).expired later = true := by
    rw [h.fresh le_rfl]
    exact Bool.false_ne_true
  unfold Cell.popList
  rw [if_neg hexp]
  split
  · exact h
  split
  · exact h
  · unfold Cell.setList
    split
    · exact ⟨h.unused, nofun, fun _ => rfl⟩
    · exact h.write .list rfl rfl rfl

end

variable (hle : env.now ≤ later) (h : Simple later e)
include hle h

theorem outlasts_incr (hword : toUpper word = bytes "INCR") (hn : rest.length + 2 = 2) :
    Outlasts env.R later e (Cmd.incr.run env word rest ⟨e, 0⟩) := by
  refine .of_shift ?_ ((echoes_incr hn).replays hword) ?_
  · have hget : (Cell.mk e 0).get env.now = (Cell.mk e 0).get later := by
      unfold Entry.get
      rw [expired_shift h hle, h.visible env.now, h.visible later]
    have hincr : Cell.incrBy env.now 1 ⟨e, 0⟩ = Cell.incrBy later 1 ⟨e, 0⟩ := by
      unfold Cell.incrBy
      rw [purge_shift h hle]
    unfold Cmd.incr KeyCmd.of
    dsimp only
    rw [hget, hincr]
  unfold Cmd.incr KeyCmd.of
  dsimp only
  split
  · split
    · exact h
    · exact h.incrBy 1
  · exact h.incrBy 1

theorem outlasts_lPop (hword : toUpper word = bytes "LPOP") (hn : rest.length + 2 = 2) :
    Outlasts env.R later e (Cmd.lPop.run env word rest ⟨e, 0⟩) := by
  refine .of_shift ?_ ((echoes_lPop hn).replays hword) ?_
  · have hpop : Cell.popList env.now true ⟨e, 0⟩ = Cell.popList later true ⟨e, 0⟩ := by
      unfold Cell.popList
      rw [expired_shift h hle, purge_shift h hle]
    unfold Cmd.lPop Cmd.listPop takeGuard
    dsimp only
    rw [hpop, type_shift h hle]
  unfold Cmd.lPop Cmd.listPop takeGuard
  dsimp only
  split
  · exact h
  split
  · exact h
  · exact h.popList true

theorem outlasts_hSet (hn : 4 ≤ rest.length + 2) :
    Outlasts env.R later e (Cmd.hSet.run env word rest ⟨e, 0⟩) := by
  refine .of_shift ?_ (replays_hSet hn) ?_
  · have hset : Cell.hSet env.now (pairUp rest) ⟨e, 0⟩ = Cell.hSet later (pairUp rest) ⟨e, 0⟩ := by
      unfold Cell.hSet
      rw [purge_shift h hle]
    unfold Cmd.hSet KeyCmd.of addGuard
    dsimp only
    rw [hset, type_shift h hle]
  unfold Cmd.hSet KeyCmd.of addGuard
  dsimp only
  split
  · exact h
  split
  · exact h
  · exact h.hSet _

theorem outlasts_sAdd (hword : toUpper word = bytes "SADD") (hn : 3 ≤ rest.length + 2) :
    Outlasts env.R later e (Cmd.sAdd.run env word rest ⟨e, 0⟩) := by
  refine .of_shift ?_ ((echoes_sAdd hn).replays hword) ?_
  · have hadd : Cell.sAdd env.now rest ⟨e, 0⟩ = Cell.sAdd later rest ⟨e, 0⟩ := by
      unfold Cell.sAdd
      rw [purge_shift h hle]
    unfold Cmd.sAdd KeyCmd.of addGuard
    dsimp only
    rw [hadd, type_shift h hle]
  unfold Cmd.sAdd KeyCmd.of addGuard
  dsimp only
  split
  · exact h
  · exact h.sAdd _

end

/-! ## `SET` -/

/-- `SET` without a delay, whose expiry, if there is one, lies after the restart and can be
written to the log. -/
structure LastingSet (now later : Int) (o : SetOptions) : Prop where
  delay : ¬ 0 < o.delay
  ttl : (0 : Int) < o.ttl → later < now + o.ttl ∧ now + o.ttl < 2 ^ 63

section
variable {now later : Int} {R : Runtime} {e : Entry} {o : SetOptions}

theorem LastingSet.late (ho : LastingSet now later o) (x : Int)
    (hx : (if isZero (expiryAfter now o.ttl) then none else some (expiryAfter now o.ttl))
      = some x) : later < x := by
  unfold expiryAfter at hx
  by_cases httl : (0 : Int) < o.ttl
  · rw [if_pos httl] at hx
    split at hx
    · cases hx
    · cases hx
      exact (ho.ttl httl).1
  · rw [if_neg httl] at hx
    cases hx

section
variable (h : Simple later e) (hle : now ≤ later)
include h hle

theorem existsAt_false (hex : e.existsAt now = false) : e.hasAny DataType.all = false := by
  unfold Entry.existsAt at hex
  simpa [h.fresh hle, h.visible now] using hex

variable (ho : LastingSet now later o)
include ho

theorem LastingSet.recorded : SetRecorded now o e := by
  unfold SetRecorded
  rw [if_neg ho.delay]
  refine ⟨fun httl => (ho.ttl httl).2, fun _ => ?_, fun _ => h.fresh hle⟩
  cases hex : e.existsAt now with
  | true => exact .inl hex
  | false =>
    exact .inr ⟨⟨h.fresh hle, h.visible now, h.lastSeq⟩,
      .inr (h.idle (existsAt_false h hle hex))⟩

theorem Simple.setNX (value : Bytes) :
    Simple later (Cell.setNX now value o.ttl ⟨e, 0⟩).2.toEntry := by
  unfold Cell.setNX
  rw [Cell.purge_of_fresh (h.fresh hle)]
  dsimp only
  split
  · exact h
  by_cases httl : (0 : Int) < o.ttl
  · rw [if_pos httl]
    refine ⟨h.unused, fun x hx => ?_, fun hno => absurd hno (by simp [hasAny, DataType.all,
      has])⟩
    cases hx
    exact (ho.ttl httl).1
  · rw [if_neg httl]
    exact h.write .string rfl rfl rfl

theorem Simple.setXX (value : Bytes) :
    Simple later (Cell.setXX now value o.ttl ⟨e, 0⟩).2.toEntry := by
  have hexp : ¬ (Cell.mk e 0).expired now = true := by
    rw [h.fresh hle]
    exact Bool.false_ne_true
  unfold Cell.setXX
  rw [if_neg hexp]
  split
  · exact h
  by_cases httl : (0 : Int) < o.ttl
  · simp only [if_pos httl]
    refine h.asString value (fun x hx => ?_)
    cases hx
    exact (ho.ttl httl).1
  · simp only [if_neg httl]
    exact h.asString value (fun x hx => absurd hx (by simp))

theorem Simple.setRun (value : Bytes) :
    Simple later (setRun now value o ⟨e, 0⟩).cell.toEntry := by
  have hnx := h.setNX hle ho value
  have hxx := h.setXX hle ho value
  unfold Cmd.setRun
  rw [if_neg ho.delay]
  split
  · generalize Cell.setNX now value o.ttl ⟨e, 0⟩ = r at hnx ⊢
    obtain ⟨done, c⟩ := r
    cases done <;> exact hnx
  split
  · generalize Cell.setXX now value o.ttl ⟨e, 0⟩ = r at hxx ⊢
    obtain ⟨done, c⟩ := r
    cases done <;> exact hxx
  · rw [Cell.setAbsolute_toEntry]
    exact h.asString value ho.late

end

/-- Without a delay `SET` logs one `SETABS` record or none, and that is replayed the same way
at any time. -/
theorem setRun_replay_shift (ho : LastingSet now later o) (value : Bytes) :
    (setRun now value o ⟨e, 0⟩).log.foldlM (replayKey sscanInt R now) e
      = (setRun now value o ⟨e, 0⟩).log.foldlM (replayKey sscanInt R later) e := by
  unfold Cmd.setRun
  rw [if_neg ho.delay]
  split
  · rcases Cell.setNX now value o.ttl ⟨e, 0⟩ with ⟨done, c⟩
    cases done <;> rfl
  split
  · rcases Cell.setXX now value o.ttl ⟨e, 0⟩ with ⟨done, c⟩
    cases done <;> rfl
  · rfl

theorem outlasts_set {env : KeyEnv} {word : Bytes} {rest : List Bytes} (hnow : 0 ≤ env.now)
    (hle : env.now ≤ later) (h : Simple later e)
    (ho : ∀ o, setOptions env.R rest = .ok o → LastingSet env.now later o) :
    Outlasts env.R later e (Cmd.set.run env word rest ⟨e, 0⟩) := by
  have hreplays : Replays sscanInt env e (Cmd.set.run env word rest ⟨e, 0⟩) :=
    replays_set hnow (fun o hopt => (ho o hopt).recorded h hle)
  unfold Cmd.set at hreplays ⊢
  dsimp only at hreplays ⊢
  cases hopt : setOptions env.R rest with
  | error err => exact .unlogged h rfl rfl
  | ok o =>
    rw [hopt] at hreplays
    refine ⟨?_, h.setRun hle (ho o hopt) _⟩
    exact (setRun_replay_shift (ho o hopt) _).symm.trans hreplays

end

/-! ## The store -/

/-- Replaying the records at the time of the restart does to the store what the command did,
and nothing will have expired by then. -/
structure Lasts (R : Runtime) (later : Int) (s : Store) (r : Result) : Prop where
  same : r.store.Same (replay R later r.log s)
  simple : ∀ k, Simple later (r.store.entries k)
  queueSeq : r.store.queueSeq = s.queueSeq

section
variable {R : Runtime} {later : Int} {env : Env} {args : List Bytes} {s : Store}
  (hs : s.Idle) (h : ∀ k, Simple later (s.entries k))
include hs h

theorem Lasts.unlogged {r : Result} (hlog : r.log = []) (hstore : r.store = s) :
    Lasts R later s r := by
  refine ⟨?_, fun k => by rw [hstore]; exact h k, by rw [hstore]⟩
  rw [hlog, hstore]
  exact .refl hs

theorem lasts_act {cmd : KeyCmd} {word key : Bytes} {rest : List Bytes}
    (hcmd : Outlasts R later (s.entries key) (cmd.run (env.at key) word rest ⟨s.entries key, 0⟩)) :
    Lasts R later s (cmd.act env word key rest s) := by
  refine ⟨?_, fun k => ?_, rfl⟩
  · exact replaysStore_act hs hcmd.replays
  · show Simple later ((s.put key _).entries k)
    rw [put_entries_apply]
    split
    · exact hcmd.simple
    · exact h k

theorem lasts_exec {cmd : KeyCmd}
    (hcmd : ∀ word key rest, args = word :: key :: rest → cmd.arity (rest.length + 2) = true →
      Outlasts R later (s.entries key) (cmd.run (env.at key) word rest ⟨s.entries key, 0⟩)) :
    Lasts R later s (cmd.exec env args s) := by
  rcases cmd.exec_cases env args s with ⟨word, key, rest, hargs, harity, -, -, heq⟩ | ⟨_, heq, -⟩
  · exact heq ▸ lasts_act hs h (hcmd word key rest hargs harity)
  · exact heq ▸ .unlogged hs h rfl rfl

omit hs in
theorem del_shift {now : Int} (hle : now ≤ later) (keys : List Bytes) :
    del now keys s = del later keys s ∧ (∀ k, Simple later ((del later keys s).2.entries k)) ∧
      (del later keys s).2.queueSeq = s.queueSeq := by
  induction keys generalizing s with
  | nil => exact ⟨rfl, h, rfl⟩
  | cons key rest ih =>
    have hcell : s.onKey key (delCell now) = s.onKey key (delCell later) := by
      unfold onKey cell
      rw [delCell_shift (h key) hle]
    have hafter : ∀ k, Simple later ((s.onKey key (delCell later)).2.entries k) := by
      intro k
      show Simple later ((s.put key _).entries k)
      rw [put_entries_apply]
      split
      · unfold Store.delCell
        rw [if_neg (by rw [show (s.cell key).expired later = false from
          (h key).fresh le_rfl]; exact Bool.false_ne_true)]
        split
        · exact .empty later
        · exact h key
      · exact h k
    have hseq : (s.onKey key (Store.delCell later)).2.queueSeq = s.queueSeq := rfl
    obtain ⟨hrest, hsimple, hrestSeq⟩ := ih hafter
    unfold Store.del
    rw [hcell]
    dsimp only at hrest hsimple hrestSeq hseq ⊢
    rw [hrest]
    exact ⟨rfl, hsimple, hrestSeq.trans hseq⟩

theorem lasts_del (hle : env.now ≤ later) (hword : toUpper (args.headD []) = bytes "DEL") :
    Lasts env.R later s (Cmd.del env args s) := by
  refine Cmd.counted_elim (fun _ => .unlogged hs h rfl rfl)
    (fun hn => Result.owned_elim (fun _ => .unlogged hs h rfl rfl) ?_)
  have hlen : 2 ≤ args.length := of_decide_eq_true hn
  obtain ⟨hdel, hsimple, hseq⟩ := del_shift h hle args.tail
  have hreplay : (del later args.tail s).2 = replay env.R later [args] s := by
    show _ = replayRecord env.R later s args
    rw [replayRecord_word .del hword]
    simp only [StoreRecordWord.run]
    rw [if_pos (by omega)]
  rw [hdel]
  refine ⟨?_, hsimple, hseq⟩
  show (del later args.tail s).2.Same (replay env.R later [args] s)
  rw [hreplay]
  exact .refl (replay_same (.refl hs) [args]).idle

omit h in
theorem pushList_idle (now : Time) (key : Bytes) (left : Bool) (values : List Bytes) :
    (s.pushList now key left values).2
      = s.put key (Cell.pushList now left values (s.cell key)).2 := by
  unfold pushList onKey
  generalize Cell.pushList now left values (s.cell key) = r
  obtain ⟨result, c⟩ := r
  cases result with
  | error err => rfl
  | ok u =>
    show wakeLoop key (s.listWaits key) _ = _
    rw [hs key]
    rfl

theorem lasts_rPush (hle : env.now ≤ later) (hword : toUpper (args.headD []) = bytes "RPUSH") :
    Lasts env.R later s (Cmd.rPush env args s) := by
  have hreplays : ReplaysStore env.R later s (Cmd.rPush (env.shift later) args s) :=
    replays_rPush hs hword
  have hpush : Cell.pushList env.now false (args.drop 2) (s.cell (args.getD 1 []))
      = Cell.pushList later false (args.drop 2) (s.cell (args.getD 1 [])) := by
    unfold Cell.pushList cell
    rw [purge_shift (h _) hle]
  have hrun : Cmd.rPush env args s = Cmd.rPush (env.shift later) args s := by
    unfold Cmd.rPush listPush Result.owned pushList onKey
    dsimp only
    rw [hpush, type_shift (h _) hle]
    rfl
  rw [hrun]
  refine ⟨hreplays, fun k => ?_, ?_⟩
  · unfold Cmd.rPush listPush Result.owned
    split
    · exact h k
    dsimp only
    split
    · exact h k
    split
    · exact h k
    · show Simple later ((pushList later _ false (args.drop 2) s).2.entries k)
      rw [pushList_idle hs, put_entries_apply]
      split
      · exact (h _).pushList false _
      · exact h k
  · unfold Cmd.rPush listPush Result.owned
    split
    · rfl
    dsimp only
    split
    · rfl
    split
    · rfl
    · show (pushList later _ false (args.drop 2) s).2.queueSeq = s.queueSeq
      rw [pushList_idle hs]
      rfl

end

/-! ## Runs -/

/-- The commands of such a server, and what they have to meet: an expiry lies after the
restart, and `FLUSHDB` finds no snapshot that holds a key. -/
def Word.Lasting (env : Env) (later : Int) (args : List Bytes) (st : State) : Word → Prop
  | .key .set => ∀ word key rest o, args = word :: key :: rest →
      setOptions env.R rest = .ok o → LastingSet env.now later o
  | .key .incr | .key .lPop | .key .hSet | .key .sAdd | .store .del | .store .rPush
  | .save => True
  | .flushDB => st.snapshot = none ∨ st.snapshot = some 0
  | _ => False

/-- A command that is run before the restart and meets its condition. -/
structure Lasting (R : Runtime) (later : Int) (st : State) (req : Request) : Prop where
  runtime : req.1.R = R
  started : 0 ≤ req.1.now
  before : req.1.now ≤ later
  word : ∃ w, Word.ofArgs req.2 = some w ∧ w.Lasting req.1 later req.2 st

/-- What holds along such a run: a restart would recover the store, in which nothing
expires before it. -/
structure Recoverable (R : Runtime) (later : Int) (st : State) : Prop where
  same : ∀ hint, st.store.Same (st.disk.startup R later hint)
  simple : ∀ k, Simple later (st.store.entries k)
  queueSeq : st.store.queueSeq = 0

section
variable {R : Runtime} {later : Int} {env : Env} {args : List Bytes} {st : State}

theorem recoverable_new : Recoverable R later State.new :=
  ⟨fun _ => .refl new_idle, fun _ => .empty later, rfl⟩

theorem Recoverable.idle (h : Recoverable R later st) : st.store.Idle := (h.same []).idle

theorem recoverable_take {r : Result} (h : Recoverable R later st) (hr : Lasts R later st.store r) :
    Recoverable R later (st.take r).2 := by
  have hreplays : ReplaysStore R later st.store r := hr.same
  exact ⟨fun hint => hreplays.append (h.same hint), hr.simple, hr.queueSeq.trans h.queueSeq⟩

theorem dump_new (now : Time) (hint : List Bytes) : (new.dump R now hint).1 = 0 := by
  refine DFinsupp.ext (fun k => ?_)
  rw [dump_entries]
  rfl

theorem recoverable_flush (hseq : st.store.queueSeq = 0)
    (hsnap : st.snapshot = none ∨ st.snapshot = some 0) : Recoverable R later st.flush.2 := by
  refine ⟨fun hint => ?_, fun _ => .empty later, hseq⟩
  show st.store.flushDB.Same (loadSnapshot R later hint st.snapshot new)
  have hnew : st.store.flushDB.Same (contents new) :=
    .of_entries (fun _ => rfl) (fun _ => rfl) (fun _ => rfl) hseq
  rcases hsnap with hsnap | hsnap
  · rw [hsnap]
    exact hnew
  · rw [hsnap]
    have hload : (contents new).Same
        (new.load R later hint (new.dump R later []).1) :=
      load_dump_same le_rfl (fun _ => (Simple.empty later).kept R)
    rw [dump_new] at hload
    exact Store.Same.trans hnew hload

theorem recoverable_saveSnapshot (hR : env.R = R) (hle : env.now ≤ later) (h : Recoverable R later st) :
    Recoverable R later (st.saveSnapshot env) := by
  subst hR
  have hstore : (st.saveSnapshot env).store = st.store :=
    purgeExpired_of_fresh (fun k => (h.simple k).fresh hle)
  refine ⟨fun hint => ?_, ?_, ?_⟩
  · rw [hstore]
    exact startup_saveSnapshot hle h.idle h.queueSeq (fun k => (h.simple k).kept env.R)
  · rw [hstore]
    exact h.simple
  · rw [hstore]
    exact h.queueSeq

theorem recoverable_saveCmd {name done : String} (hR : env.R = R) (hle : env.now ≤ later)
    (h : Recoverable R later st) : Recoverable R later (st.saveCmd name done env args).2 := by
  unfold State.saveCmd
  split
  · exact h
  split
  · exact h
  · exact recoverable_saveSnapshot hR hle h

theorem recoverable_execWord {w : Word} (hR : env.R = R) (hnow : 0 ≤ env.now)
    (hle : env.now ≤ later) (hword : toUpper (args.headD []) = bytes w.text)
    (hw : w.Lasting env later args st) (h : Recoverable R later st) :
    Recoverable R later (execWord env args st w).2 := by
  subst hR
  have hs := h.idle
  have hnow : ∀ key, 0 ≤ (env.at key).now := fun _ => hnow
  have hle' : ∀ key, (env.at key).now ≤ later := fun _ => hle
  match w, hw with
  | .key .set, hw =>
    refine recoverable_take h (lasts_exec hs h.simple (fun word key rest hargs _ => ?_))
    exact outlasts_set (hnow key) (hle' key) (h.simple key) (fun o => hw word key rest o hargs)
  | .key .incr, _ =>
    refine recoverable_take h (lasts_exec hs h.simple (fun word key rest hargs harity => ?_))
    subst hargs
    exact outlasts_incr (hle' key) (h.simple key) hword (of_decide_eq_true harity)
  | .key .lPop, _ =>
    refine recoverable_take h (lasts_exec hs h.simple (fun word key rest hargs harity => ?_))
    subst hargs
    exact outlasts_lPop (hle' key) (h.simple key) hword (of_decide_eq_true harity)
  | .key .hSet, _ =>
    refine recoverable_take h (lasts_exec hs h.simple (fun word key rest _ harity => ?_))
    exact outlasts_hSet (hle' key) (h.simple key) (of_decide_eq_true harity).1
  | .key .sAdd, _ =>
    refine recoverable_take h (lasts_exec hs h.simple (fun word key rest hargs harity => ?_))
    subst hargs
    exact outlasts_sAdd (hle' key) (h.simple key) hword (of_decide_eq_true harity)
  | .store .del, _ => exact recoverable_take h (lasts_del hs h.simple hle hword)
  | .store .rPush, _ => exact recoverable_take h (lasts_rPush hs h.simple hle hword)
  | .save, _ => exact recoverable_saveCmd rfl hle h
  | .flushDB, hw => exact recoverable_flush h.queueSeq hw

theorem recoverable_exec (h : Recoverable R later st) {req : Request} (hreq : Lasting R later st req) :
    Recoverable R later (exec req.1 req.2 st).2 := by
  obtain ⟨w, hw, hlasting⟩ := hreq.word
  rw [exec_of_word hw (by rintro rfl; exact hlasting) (by rintro rfl; exact hlasting)]
  exact recoverable_execWord hreq.runtime hreq.started hreq.before (Word.text_of_parse hw) hlasting h

end

/-- **A restart recovers the live store.** From an empty store, in every run of `SET`, `INCR`,
`DEL`, `RPUSH`, `LPOP`, `HSET`, `SADD`, `SAVE` and `FLUSHDB` at any times before the restart:
if nothing is set to expire before the restart and no flush comes after a snapshot that holds
a key, then the restarted server has each key as it was. -/
theorem restart_recovers {R : Runtime} {later : Int} {st : State}
    (hrun : Transition.Reaches serve (Lasting R later) State.new st) (hint : List Bytes)
    (k : Bytes) : (st.disk.startup R later hint).entries k = st.store.entries k := by
  have hinv : Recoverable R later st := hrun.invariant recoverable_new (by
    intro st st' req h hreq hserve
    cases hserve
    exact recoverable_exec h hreq)
  exact ((hinv.same hint).inside k).symm

/-- The environment of a server with a snapshot path. -/
def savingEnv : Env := { Env.plain integralRuntime 1 with snapshotPath := true }

theorem lasting_of {args : List Bytes} {st : State} {w : Word} (hw : Word.ofArgs args = some w)
    (h : w.Lasting savingEnv 2 args st) : Lasting integralRuntime 2 st (savingEnv, args) :=
  ⟨rfl, show (0 : Int) ≤ 1 by decide, show (1 : Int) ≤ 2 by decide, w, hw, h⟩

/-- `SET k v`, `SAVE`, `INCR n`, and a restart one nanosecond later. -/
theorem restart_recovers_saved :
    let st := serveAll savingEnv [[bytes "SET", bytes "k", bytes "v"], [bytes "SAVE"],
      [bytes "INCR", bytes "n"]] State.new
    st.snapshot.isSome = true ∧
      ∀ k, (st.disk.startup integralRuntime 2 []).entries k = st.store.entries k := by
  refine ⟨rfl, restart_recovers ?_ []⟩
  refine .tail (savingEnv, [bytes "INCR", bytes "n"]) (.tail (savingEnv, [bytes "SAVE"])
    (.tail (savingEnv, [bytes "SET", bytes "k", bytes "v"]) .refl (lasting_of rfl ?_) rfl)
    (lasting_of (w := .save) rfl trivial) rfl) (lasting_of (w := .key .incr) rfl trivial) rfl
  intro word key rest o hargs hopt
  cases hargs
  cases hopt
  exact ⟨by decide, nofun⟩

/-- `SET k v`, `SAVE`, `FLUSHDB`: the live store is empty, and a restart brings `k` back. -/
theorem restart_revives_flushed :
    let st := serveAll savingEnv [[bytes "SET", bytes "k", bytes "v"], [bytes "SAVE"],
      [bytes "FLUSHDB"]] State.new
    st.store.entries (bytes "k") = Entry.empty ∧
      ((st.disk.startup integralRuntime 1 []).entries (bytes "k")).kv = some (bytes "v") := by
  intro st
  refine ⟨rfl, ?_⟩
  have hset : (served [bytes "SET", bytes "k", bytes "v"]).store.entries
      = (0 : Π₀ _ : Bytes, Entry).update (bytes "k")
        { Entry.empty with kv := some (bytes "v") } := rfl
  -- the snapshot is that of the store after `SET`, and the append-only file is empty
  have hload : (contents (served [bytes "SET", bytes "k", bytes "v"]).store).Same
      (st.disk.startup integralRuntime 1 []) :=
    load_dump_same (Int.le_refl 1) (kept_of_oneString hset integralRuntime 1)
  exact (congrArg (fun e : Entry => e.kv) (hload.inside (bytes "k"))).symm.trans rfl

end Vole.Server
