import Vole.Server.Recovery
import Vole.Store.Changes

/-!
# A crash between two records

A crash can cut the append-only file after any record. A command that logs one record is
recovered as a whole or not at all. The commands that log several (`RPOPLPUSH`, `LMOVE`,
`SORT ... STORE`, `SINTERSTORE` and its kin, `XREADGROUP` on several streams) are recovered
half-done, unless there is nothing to move or their first record, a `DEL`, finds nothing to
delete.
-/

namespace Vole.Server

open Go Cmd List Store

variable {R : Runtime} {requests : List Request} {now : Time} {r : Result}

/-! ## At most one record -/

/-- The words whose case changes its key and appends no record. -/
def KeyWord.silent : KeyWord → Bool
  | .rateLimit | .rateLimitReset | .dequeue | .xClaim | .xAutoClaim | .xTrim => true
  | _ => false

/-- The command logs at most one record. -/
def Brief (o : Outcome) : Prop := o.log.length ≤ 1

/-- A command that appends nothing changes nothing. -/
def Quiet (now : Time) (c : Cell) (o : Outcome) : Prop :=
  o.log = [] → c.toEntry.Stays now o.cell.toEntry

structure Neat (now : Time) (c : Cell) (o : Outcome) : Prop where
  brief : Brief o
  quiet : Quiet now c o

namespace Neat

variable {now : Time} {c : Cell}

theorem still {o : Outcome} (h : Still c o) : Neat now c o := by
  refine ⟨?_, fun _ => ?_⟩
  · unfold Brief
    rw [h.log]
    exact Nat.zero_le _
  · rw [h.cell]
    exact .refl _

theorem none {reply : Reply} {c' : Cell} (h : c.toEntry.Stays now c'.toEntry) :
    Neat now c ⟨reply, c', []⟩ := ⟨Nat.zero_le _, fun _ => h⟩

theorem answer (reply : Reply) : Neat now c (.answer c reply) := none (.refl _)

theorem fail (e : Bytes) : Neat now c (.fail c e) := none (.refl _)

theorem one (reply : Reply) (c' : Cell) (record : KeyRecord) :
    Neat now c ⟨reply, c', [record]⟩ := ⟨le_rfl, nofun⟩

theorem logged {α : Type} (R : Runtime) (record : KeyRecord) (r : Except Err α × Cell)
    (out : α → List Out) : Neat now c (.logged R record r out) := ⟨le_rfl, nofun⟩

theorem attempt {α : Type} {p : Except Bytes α} {k : α → Outcome} (h : ∀ a, Neat now c (k a)) :
    Neat now c (.attempt c p k) :=
  Outcome.attempt_elim fail (fun a _ => h a)

theorem ite {p : Prop} [Decidable p] {o o' : Outcome} (h : Neat now c o) (h' : Neat now c o') :
    Neat now c (if p then o else o') := by
  split
  · exact h
  · exact h'

theorem addGuard {own : String} {o : Outcome} (h : Neat now c o) :
    Neat now c (Cmd.addGuard now own c o) :=
  .ite (.fail _) h

theorem logging {α : Type} {r : Except Err α × Cell} {out : α → List Out}
    {records : α → List KeyRecord} (hlength : ∀ a, (records a).length ≤ 1)
    (h : c.StaysIf now (fun res => ∀ a, res = .ok a → records a = []) r) :
    Neat now c (.logging R r out records) := by
  obtain ⟨res, c'⟩ := r
  cases res with
  | error e => exact none (h (fun a ha => nomatch ha))
  | ok a =>
    refine ⟨hlength a, fun hlog => h (fun b hb => ?_)⟩
    cases hb
    exact hlog

theorem logging_one {α : Type} {r : Except Err α × Cell} {out : α → List Out}
    {record : α → KeyRecord} (h : c.StaysIf now Declined r) :
    Neat now c (.logging R r out (fun a => [record a])) := by
  refine logging (fun _ => le_rfl) (fun hnone => h ?_)
  obtain ⟨res, c'⟩ := r
  cases res with
  | error e => rfl
  | ok a => exact absurd (hnone a rfl) (cons_ne_nil _ _)

theorem logging_taken {α : Type} {r : Except Err (List α) × Cell}
    {out : List α → List Out} {record : List α → KeyRecord} [DecidableEq α]
    (h : c.StaysIf now TakesNothing r) :
    Neat now c (.logging R r out (fun taken => if taken = [] then [] else [record taken])) := by
  refine logging (fun taken => ?_) (fun hnone => h (fun taken htaken => ?_))
  · split
    · exact Nat.zero_le _
    · exact le_rfl
  · by_contra hne
    have hlog := hnone taken htaken
    rw [if_neg hne] at hlog
    cases hlog

end Neat

section
variable {now : Time} {c : Cell}

theorem neat_of_flag {r : Bool × Cell} {no yes : Reply} {record : KeyRecord} :
    c.StaysIf now (· = false) r →
    Neat now c (match r with
      | (false, c) => .answer c no
      | (true, c) => ⟨yes, c, [record]⟩) := by
  intro h
  obtain ⟨ok, c'⟩ := r
  cases ok with
  | false => exact .none (h rfl)
  | true => exact .one _ _ _

theorem neat_setRun (value : Bytes) (o : SetOptions) : Neat now c (setRun now value o c) := by
  refine .ite (.one _ _ _) (.ite ?_ (.ite ?_ (.one _ _ _)))
  · exact neat_of_flag (Cell.stays_setNX value o.ttl)
  · exact neat_of_flag (Cell.stays_setXX value o.ttl)

theorem neat_getExRun (ttl : Duration) (persist : Bool) :
    Neat now c (getExRun now ttl persist c) := by
  have hstays : c.StaysIf now _ (c.getEx now ttl persist) := Cell.stays_getEx
  unfold getExRun
  generalize c.getEx now ttl persist = r at hstays ⊢
  obtain ⟨v, c'⟩ := r
  cases v with
  | none => exact .none (hstays (.inl rfl))
  | some v =>
    dsimp only
    split
    · exact .one _ _ _
    split
    · exact .one _ _ _
    · rename_i hpersist httl
      exact .none (hstays (.inr ⟨by simpa using hpersist, httl⟩))

variable (env : KeyEnv) (word : Bytes) (rest : List Bytes)

theorem neat_xAdd :
    Neat env.now c (Cmd.xAdd.run env word rest c) := by
  have hstays : c.StaysIf env.now Declined _ := .of_checked (Cell.nextStreamID_checked (arg rest 2))
  dsimp only [Cmd.xAdd, KeyCmd.of]
  generalize c.nextStreamID env.now (arg rest 2) = r at hstays ⊢
  obtain ⟨res, c'⟩ := r
  cases res with
  | error e => exact .none (hstays rfl)
  | ok id => exact .logged _ _ _ _

theorem neat_incr :
    Neat env.now c (Cmd.incr.run env word rest c) := by
  dsimp only [Cmd.incr, KeyCmd.of]
  split
  · exact .ite (.fail _) (.logged _ _ _ _)
  · exact .logged _ _ _ _

theorem neat_hSet :
    Neat env.now c (Cmd.hSet.run env word rest c) := by
  dsimp only [Cmd.hSet, KeyCmd.of]
  split
  · exact .fail _
  · exact .addGuard (.logged _ _ _ _)

theorem neat_hIncrBy :
    Neat env.now c (Cmd.hIncrBy.run env word rest c) := by
  refine .attempt (fun _ => ?_)
  split
  · exact .fail _
  · exact .logged _ _ _ _

theorem neat_setNX :
    Neat env.now c (Cmd.setNX.run env word rest c) := by
  have hstays : c.StaysIf env.now _ _ := Cell.stays_setNX (arg rest 2) 0
  dsimp only [Cmd.setNX, KeyCmd.of]
  generalize c.setNX env.now (arg rest 2) 0 = r at hstays ⊢
  obtain ⟨ok, c'⟩ := r
  cases ok with
  | false => exact .none (hstays rfl)
  | true => exact .one _ _ _

theorem neat_getDel :
    Neat env.now c (Cmd.getDel.run env word rest c) := by
  have hstays : c.StaysIf env.now _ (c.getDel env.now) := Cell.stays_getDel
  dsimp only [Cmd.getDel, KeyCmd.of]
  generalize c.getDel env.now = r at hstays ⊢
  obtain ⟨v, c'⟩ := r
  cases v with
  | none => exact .none (hstays rfl)
  | some v => exact .one _ _ _

theorem neat_hSetNX :
    Neat env.now c (Cmd.hSetNX.run env word rest c) := by
  dsimp only [Cmd.hSetNX, KeyCmd.of]
  split
  · exact .fail _
  · refine .logging (fun ok => by cases ok <;> simp)
      (fun hnone => Cell.stays_hSetNX (arg rest 2) (arg rest 3) (fun hset => ?_))
    exact absurd (hnone true hset) (cons_ne_nil _ _)

/-- **A command on one key appends at most one record, and one that appends nothing changes
nothing**, a silent one apart. -/
theorem KeyWord.neat {w : KeyWord} (hsilent : w.silent = false) (env : KeyEnv) (word : Bytes)
    (rest : List Bytes) (c : Cell) : Neat env.now c (w.cmd.run env word rest c) := by
  by_cases hreads : w.reads = true
  · exact .still (KeyWord.still hreads env word rest c)
  cases w
  -- the record comes first, after the checks of the arguments and of the key
  case decr | jsonSet | jsonDel | jsonArrAppend => exact .logged _ _ _ _
  case qAck | qNack | tagDel => exact .one _ _ _
  case incrBy | decrBy | incrByFloat | lSet | lRem | jsonNumIncrBy | tag =>
    exact .attempt (fun _ => .logged _ _ _ _)
  case tsAdd => exact .attempt (fun _ => .attempt (fun _ => .logged _ _ _ _))
  case setEX | pSetEX => exact .attempt (fun _ => .ite (.fail _) (.one _ _ _))
  case expire | pExpire => exact .attempt (fun _ => .ite (.answer _) (.one _ _ _))
  case pExpireAt => exact .attempt (fun _ => .one _ _ _)
  case setDelayed => exact .attempt (fun _ => .attempt (fun _ => .one _ _ _))
  case hDel | lPop | rPop | sRem | zRem =>
    exact .ite (.answer _) (.ite (.fail _) (.logged _ _ _ _))
  case sAdd => exact .addGuard (.logged _ _ _ _)
  case zAdd => exact .attempt (fun _ => .addGuard (.logged _ _ _ _))
  case lInsert | xAck => exact .ite (.fail _) (.logged _ _ _ _)
  case geoAdd => exact .ite (.fail _) (.attempt (fun _ => .logged _ _ _ _))
  case xAdd => exact neat_xAdd env word rest
  case incr => exact neat_incr env word rest
  case hSet => exact neat_hSet env word rest
  case hIncrBy => exact neat_hIncrBy env word rest
  -- the operation comes first
  case set => exact .attempt (fun o => neat_setRun _ o)
  case setNX => exact neat_setNX env word rest
  case persist => exact neat_of_flag Cell.stays_persist
  case getDel => exact neat_getDel env word rest
  case getEx => exact .attempt (fun o => neat_getExRun _ _)
  case append => exact .logging_one (.of_checked (Cell.append_checked _))
  case getSet => exact .logging_one (.of_checked (Cell.getSet_checked _))
  case pfAdd => exact .logging_one (.of_checked (Cell.pfAdd_checked _))
  case setRange => exact .attempt (fun _ => .logging_one (.of_checked (Cell.setRange_checked _ _)))
  case setBit =>
    exact .attempt (fun _ => .attempt (fun _ => .logging_one (.of_checked (Cell.setBit_checked _ _))))
  case zIncrBy => exact .attempt (fun _ => .logging_one (.of_checked (Cell.zIncrBy_checked _ _)))
  case sPop => exact .attempt (fun _ => .logging_taken (Cell.stays_sPop _ _))
  case zPopMin => exact .attempt (fun _ => .logging_taken (Cell.stays_zPopMin _))
  case zPopMax => exact .attempt (fun _ => .logging_taken (Cell.stays_zPopMax _))
  case hSetNX => exact neat_hSetNX env word rest
  all_goals first
    | exact absurd rfl hreads
    | cases hsilent

theorem attempt_log {α : Type} {p : Except Bytes α} {k : α → Outcome} (h : ∀ a, (k a).log = []) :
    (Outcome.attempt c p k).log = [] := by
  cases p with
  | error e => rfl
  | ok a => exact h a

/-- The silent cases append nothing. -/
theorem KeyWord.log_of_silent {w : KeyWord} (h : w.silent = true) (env : KeyEnv) (word : Bytes)
    (rest : List Bytes) (c : Cell) : (w.cmd.run env word rest c).log = [] := by
  cases w
  case rateLimit | xAutoClaim => exact attempt_log (fun _ => attempt_log (fun _ => rfl))
  case rateLimitReset => rfl
  case xClaim | xTrim => exact attempt_log (fun _ => rfl)
  case dequeue =>
    refine attempt_log (fun _ => ?_)
    split <;> rfl
  all_goals cases h

theorem KeyWord.brief (w : KeyWord) (env : KeyEnv) (word : Bytes) (rest : List Bytes) (c : Cell) :
    Brief (w.cmd.run env word rest c) := by
  cases hsilent : w.silent with
  | false => exact (KeyWord.neat hsilent env word rest c).brief
  | true =>
    unfold Brief
    rw [KeyWord.log_of_silent hsilent]
    exact Nat.zero_le _

end

/-! ## At most one record that matters -/

/-- Any cut in the records of a command leaves the store as it was before the command or after
it. -/
def CutSafe (R : Runtime) (now : Time) (s : Store) (r : Result) : Prop :=
  ∀ n, s.Same (replay R now (r.log.take n) s) ∨ r.store.Same (replay R now (r.log.take n) s)

/-- The command logs one record, or two of which the first does nothing. -/
def Tame (R : Runtime) (now : Time) (s : Store) (r : Result) : Prop :=
  r.log.length ≤ 1 ∨
    ∃ first second, r.log = [first, second] ∧ s.Same (replayRecord R now s first)

section
variable {R : Runtime} {now : Time} {s : Store}

theorem Tame.cutSafe (hs : s.Idle) (h : Tame R now s r)
    (hrep : ReplaysStore R now s r) : CutSafe R now s r := by
  intro n
  by_cases hlong : r.log.length ≤ n
  · rw [take_of_length_le hlong]
    exact .inr hrep
  · refine .inl ?_
    rcases h with hone | ⟨first, second, hlog, hsame⟩
    · have hn : n = 0 := by omega
      subst hn
      exact .refl hs
    · rw [hlog] at hlong ⊢
      rcases n with _ | _ | n
      · exact .refl hs
      · exact hsame
      · exact absurd (Nat.le_add_left 2 n) hlong

namespace Tame

theorem brief (h : r.log.length ≤ 1) : Tame R now s r := .inl h

theorem answer (reply : Reply) : Tame R now s (.answer s reply) := brief (Nat.zero_le _)

theorem fail (err : Bytes) : Tame R now s (.fail s err) := brief (Nat.zero_le _)

theorem attempt {α : Type} {p : Except Bytes α} {k : α → Result}
    (h : ∀ a, p = .ok a → Tame R now s (k a)) : Tame R now s (.attempt s p k) :=
  Result.attempt_elim fail h

theorem owned {env : Env} {keys : List Bytes} (h : Tame R now s r) :
    Tame R now s (.owned env keys s r) :=
  Result.owned_elim answer h

theorem counted {name : String} {ok : Nat → Bool} {run : StoreCmd} {env : Env}
    {args : List Bytes} (h : Tame R now s (run env args s)) :
    Tame R now s (Cmd.counted name ok run env args s) :=
  Cmd.counted_elim fail (fun _ => h)

theorem logThen {α : Type} (record : Record) (r : Except Err α × Store) (out : α → List Out) :
    Tame R now s (Cmd.logThen R record r out) := brief le_rfl

end Tame

theorem tame_exec (w : KeyWord) (env : Env) (args : List Bytes) :
    Tame R now s (w.cmd.exec env args s) := by
  rcases w.cmd.exec_cases env args s with ⟨word, key, rest, -, -, -, -, heq⟩ | ⟨reply, heq, -⟩
  · refine .brief ?_
    rw [heq]
    show ((w.cmd.run _ _ _ _).log.map _).length ≤ 1
    rw [length_map]
    exact w.brief _ _ _ _
  · exact heq ▸ .answer reply

end

/-! ## Commands on several keys -/

/-- When a command on several keys logs one record, or two of which the first does nothing: there
is nothing to move, the destination holds nothing that is deleted first, or one stream is
read. -/
def StoreWord.Atomic (env : Env) (args : List Bytes) (s : Store) : StoreWord → Prop
  | .rPopLPush | .lMove => ((s.entries (args.getD 1 [])).purged env.now).lists.getD [] = []
  | .sort => ∀ o, parseSort env.R ⟨false, false, 0, 0, []⟩ (args.drop 2) = .ok o →
      o.storeKey ≠ [] → s.entries o.storeKey = Entry.empty
  | .sInterStore | .sUnionStore | .sDiffStore => s.entries (args.getD 1 []) = Entry.empty
  | .xReadGroup => ∀ o streams, parseReadGroup env.R 10 (args.drop 4) = .ok o →
      parseStreams "XREADGROUP" o.2 = .ok streams → streams.length ≤ 1
  | _ => True

section
variable {env : Env} {args : List Bytes} {s : Store}

theorem replayRecord_del_nothing (hs : s.Idle) {key : Bytes}
    (hempty : s.entries key = Entry.empty) : s.Same (replayRecord R now s [bytes "DEL", key]) := by
  have hkeep : s.modify key id = s := put_cell s key
  have hsame : (s.modify key id).Same
      (s.modify key (fun c => (delCell now c).2)) := by
    refine Store.Same.modify_congr (.refl hs) key ?_
    have hcell : s.cell key = ⟨Entry.empty, 0⟩ := by
      unfold cell
      rw [hempty]
    rw [hcell]
    rfl
  rwa [hkeep] at hsame

theorem popValue_nil (left : Bool) : Cell.popValue left [] = none := by
  cases left with
  | true => rfl
  | false => rfl

theorem tame_moveElement {srcLeft dstLeft : Bool} {src dst : Bytes}
    (hnone : ((s.entries src).purged env.now).lists.getD [] = []) :
    Tame env.R env.now s (moveElement srcLeft dstLeft env src dst s) := by
  have hentries : (s.purgeKey env.now src).entries src = (s.entries src).purged env.now := by
    rw [purgeKey_entries, if_pos rfl]
  refine .brief ?_
  unfold moveElement Store.lMove
  dsimp only
  rw [hentries, hnone, popValue_nil]
  by_cases hconf : lMoveConflicts ((s.entries src).purged env.now) = true
  · rw [if_pos hconf]
    exact Nat.zero_le _
  · rw [if_neg hconf]
    exact Nat.zero_le _

theorem tame_sortRun (hs : s.Idle) {key : Bytes} {o : SortOptions}
    (hempty : o.storeKey ≠ [] → s.entries o.storeKey = Entry.empty) :
    Tame env.R env.now s (sortRun env key o s) := by
  unfold sortRun
  dsimp only
  generalize s.sort env.R env.now key o.alpha o.desc o.offset o.count _ env.hint = r
  obtain ⟨outcome, s'⟩ := r
  cases outcome with
  | error err => exact .brief (Nat.zero_le _)
  | ok result =>
    dsimp only
    split
    · exact .brief (Nat.zero_le _)
    · rename_i hstore
      by_cases hnil : result = []
      · exact .brief (by simp [hnil])
      · refine .inr ⟨_, bytes "RPUSH" :: o.storeKey :: result, ?_,
          replayRecord_del_nothing hs (hempty hstore)⟩
        rw [if_neg hnil]

theorem tame_setStore (hs : s.Idle) (name : String) (read : SetReader)
    (hempty : s.entries (args.getD 1 []) = Entry.empty) :
    Tame env.R env.now s (setStore name read env args s) := by
  refine .counted (.owned ?_)
  cases read s env.now (args.drop 2) with
  | error err => exact .fail _
  | ok members =>
    by_cases hnil : members = []
    · exact .brief (by simp [hnil])
    · refine .inr ⟨_, bytes "SADD" :: args.getD 1 [] :: members, ?_,
        replayRecord_del_nothing hs hempty⟩
      dsimp only
      rw [if_neg hnil]

theorem length_deliverAll (now : Time) (group consumer : Bytes) (results : Store.StreamResults)
    (streams : List Bytes) (s : Store) :
    (deliverAll now group consumer results streams s).2.2.length ≤ streams.length := by
  induction streams generalizing s with
  | nil => exact le_rfl
  | cons stream rest ih =>
    unfold deliverAll
    dsimp only
    split
    · exact Nat.le_add_left 1 rest.length
    · exact Nat.succ_le_succ (ih _)

theorem length_sortedKeys_xReadGroupPlan {group consumer : Bytes} {count : Int}
    {streams : List (Bytes × Bytes)} {results : Store.StreamResults}
    (h : s.xReadGroupPlan now group consumer count ∅ streams = .ok results) :
    results.sortedKeys.length ≤ streams.length := by
  have hsub : results.keys ⊆ (streams.map (·.1)).toFinset := by
    intro k hk
    rcases mem_xReadGroupPlan h (Finmap.mem_keys.mp hk) with hin | ⟨hin, -⟩
    · exact absurd hin (Finmap.notMem_empty)
    · exact mem_toFinset.mpr hin
  calc results.sortedKeys.length = results.keys.card := Finset.length_sort _
    _ ≤ (streams.map (·.1)).toFinset.card := Finset.card_le_card hsub
    _ ≤ (streams.map (·.1)).length := toFinset_card_le _
    _ = streams.length := length_map _

theorem tame_xReadGroup (hone : ∀ o streams, parseReadGroup env.R 10 (args.drop 4) = .ok o →
      parseStreams "XREADGROUP" o.2 = .ok streams → streams.length ≤ 1) :
    Tame env.R env.now s (xReadGroup env args s) := by
  unfold xReadGroup
  split
  · exact .fail _
  refine .attempt (fun o ho => .attempt (fun streams hstreams => .owned (.brief ?_)))
  unfold readGroupRun
  split
  · exact Nat.zero_le _
  · rename_i results hplan
    split
    · exact Nat.zero_le _
    · calc (deliverAll _ _ _ results results.sortedKeys s).2.2.length
          ≤ results.sortedKeys.length := length_deliverAll _ _ _ _ _ _
        _ ≤ streams.length := length_sortedKeys_xReadGroupPlan hplan
        _ ≤ 1 := hone o streams ho hstreams

theorem tame_listPush (left : Bool) : Tame env.R env.now s (listPush left env args s) := by
  unfold listPush
  split
  · exact .fail _
  · refine .owned ?_
    split
    · exact .fail _
    · exact .logThen _ _ _

theorem tame_blpop (left : Bool) : Tame env.R env.now s (blpop left env args s) := by
  unfold blpop
  split
  · exact .fail _
  · refine .attempt (fun _ _ => .owned ?_)
    split
    · exact .brief (Nat.zero_le _)
    · exact .brief le_rfl

theorem length_xGroupRun (env : KeyEnv) (record : Record) (group id : Bytes) (mkstream : Bool)
    (c : Cell) : (xGroupRun env record group id mkstream c).2.2.length ≤ 1 := by
  unfold xGroupRun
  dsimp only
  split
  · exact Nat.zero_le _
  split
  · exact Nat.zero_le _
  split
  · exact Nat.zero_le _
  · exact le_rfl

/-- **A command on several keys logs one record, or two of which the first does nothing.** -/
theorem StoreWord.tame {w : StoreWord} (hs : s.Idle) (hatomic : w.Atomic env args s) :
    Tame env.R env.now s (w.cmd env args s) := by
  by_cases hreads : w.reads = true
  · refine .brief ?_
    rw [(StoreWord.still hreads env args s).log]
    exact Nat.zero_le _
  cases w
  case mSet => exact .counted (.owned (.brief le_rfl))
  case del => exact .counted (.owned (.brief le_rfl))
  case lPush => exact tame_listPush true
  case rPush => exact tame_listPush false
  case sMove => exact .counted (.owned (.owned (.logThen _ _ _)))
  case xGroup =>
    refine .counted ?_
    split
    · exact .fail _
    split
    · exact .fail _
    · exact .owned (.brief (length_xGroupRun _ _ _ _ _ _))
  case xReadGroup => exact tame_xReadGroup hatomic
  case pfMerge => exact .counted (.owned (.brief le_rfl))
  case info => exact .brief (Nat.zero_le _)
  case rename => exact .counted (.owned (.logThen _ _ _))
  case bitOp =>
    refine .counted (.owned ?_)
    split
    · exact .brief (Nat.zero_le _)
    · exact .brief le_rfl
  case bLPop => exact tame_blpop true
  case bRPop => exact tame_blpop false
  case copy =>
    refine .counted (.owned ?_)
    dsimp only
    split
    · exact .brief (Nat.zero_le _)
    · exact .brief le_rfl
  case mSetNX =>
    refine .counted (.owned ?_)
    split
    · exact .brief (Nat.zero_le _)
    · exact .brief le_rfl
  case sort =>
    refine .counted (.owned (.attempt (fun o ho => ?_)))
    split
    · exact tame_sortRun hs (hatomic o ho)
    · exact .owned (tame_sortRun hs (hatomic o ho))
  case unlink => exact .counted (.owned (.brief le_rfl))
  case sInterStore => exact tame_setStore hs _ _ hatomic
  case sUnionStore => exact tame_setStore hs _ _ hatomic
  case sDiffStore => exact tame_setStore hs _ _ hatomic
  case rPopLPush => exact .counted (.owned (tame_moveElement hatomic))
  case lMove =>
    refine .counted (.owned ?_)
    dsimp only
    split
    · exact .fail _
    · exact tame_moveElement hatomic
  case enqueue => exact .counted (.owned (.attempt (fun _ _ => .brief le_rfl)))
  case tsDownsample => exact .counted (.owned (.brief (Nat.zero_le _)))
  all_goals exact absurd rfl hreads

end

/-! ## One command -/

/-- The condition of a command that is not a script. -/
def PlainAtomic (env : Env) (args : List Bytes) (st : State) : Prop :=
  ∀ w, Word.ofArgs args = some (.store w) → w.Atomic env args st.store

/-- The condition of a command; a script runs at most one command. -/
structure AtomicCall (env : Env) (args : List Bytes) (st : State) : Prop where
  one : (expand env args).length ≤ 1
  each : ∀ call ∈ expand env args, PlainAtomic env call st

/-- Any cut of the log after a command is a cut of the log before it, or leaves the store before
the command or after it. -/
def Cuts (R : Runtime) (now : Time) (st st' : State) : Prop :=
  ∀ n, st'.aof.take n = st.aof.take n ∨ st.store.Same (replay R now (st'.aof.take n) Store.new) ∨
    st'.store.Same (replay R now (st'.aof.take n) Store.new)

section
variable {env : Env} {args : List Bytes} {st : State}

theorem cuts_self (R : Runtime) (now : Time) (st : State) : Cuts R now st st := fun _ => .inl rfl

theorem cuts_take (h : st.Recovers env.R env.now)
    (hcut : CutSafe env.R env.now st.store r) : Cuts env.R env.now st (st.take r).2 := by
  intro n
  show (st.aof ++ r.log).take n = _ ∨ st.store.Same (replay _ _ ((st.aof ++ r.log).take n) _) ∨
    r.store.Same (replay _ _ ((st.aof ++ r.log).take n) _)
  by_cases hn : n ≤ st.aof.length
  · exact .inl (take_append_of_le_length hn)
  · have hsplit : (st.aof ++ r.log).take n = st.aof ++ r.log.take (n - st.aof.length) := by
      rw [take_append, take_of_length_le (by omega)]
    have hreplay : replay env.R env.now (st.aof ++ r.log.take (n - st.aof.length)) new
        = replay env.R env.now (r.log.take (n - st.aof.length))
            (replay env.R env.now st.aof new) := foldl_append
    rw [hsplit, hreplay]
    have hsame : (replay env.R env.now (r.log.take (n - st.aof.length)) st.store).Same _ :=
      replay_same h (r.log.take (n - st.aof.length))
    rcases hcut (n - st.aof.length) with hbefore | hafter
    · exact .inr (.inl (hbefore.trans hsame))
    · exact .inr (.inr (hafter.trans hsame))

theorem cuts_flush (hseq : st.store.queueSeq = 0) : Cuts env.R env.now st st.flush.2 := by
  intro n
  have hnil : st.flush.2.aof.take n = [] := take_nil
  rw [hnil]
  exact .inr (.inr (recovers_flush hseq))

theorem saveCmd_of_noPath {name done : String}
    (hpath : args.length = 1 → env.snapshotPath = false) : (st.saveCmd name done env args).2 = st := by
  unfold State.saveCmd
  split
  · rfl
  · rename_i hlen
    rw [if_pos (by simp [hpath (not_not.mp hlen)])]

theorem execWord_cuts {w : Word} (hR : FloatLaws env.R) (hnow : InEpoch env.now)
    (hw : Word.ofArgs args = some w) (hrec : w.Recorded env args st)
    (hatomic : PlainAtomic env args st) (h : st.Recovers env.R env.now) :
    Cuts env.R env.now st (execWord env args st w).2 := by
  have hs : st.store.Idle := h.idle
  have hword := Word.text_of_parse hw
  cases w with
  | key w =>
    exact cuts_take h ((tame_exec w env args).cutSafe hs
      (KeyWord.replaysStore hR hnow hs hword hrec))
  | store w =>
    exact cuts_take h ((StoreWord.tame hs (hatomic w hw)).cutSafe hs
      (StoreWord.replays hnow hs hword hrec))
  | flushDB => exact cuts_flush hrec
  | flushAll => exact cuts_flush hrec
  | save =>
    show Cuts env.R env.now st (st.saveCmd "SAVE" "OK" env args).2
    rw [saveCmd_of_noPath hrec]
    exact cuts_self _ _ st
  | bgSave =>
    show Cuts env.R env.now st (st.saveCmd "BGSAVE" "Background saving started" env args).2
    rw [saveCmd_of_noPath hrec]
    exact cuts_self _ _ st
  | eval => exact cuts_self _ _ st
  | evalSha => exact cuts_self _ _ st

theorem execPlain_cuts (hR : FloatLaws env.R) (hnow : InEpoch env.now)
    (hrec : PlainRecorded env args st) (hatomic : PlainAtomic env args st)
    (h : st.Recovers env.R env.now) : Cuts env.R env.now st (execPlain env args st).2 := by
  unfold execPlain
  cases hw : Word.ofArgs args with
  | none => exact cuts_self _ _ st
  | some w => exact execWord_cuts hR hnow hw (hrec w hw) hatomic h

theorem exec_cuts (hR : FloatLaws env.R) (hnow : InEpoch env.now) (hrec : Recorded env args st)
    (hatomic : AtomicCall env args st) (h : st.Recovers env.R env.now) :
    Cuts env.R env.now st (exec env args st).2 := by
  obtain ⟨hone, heach⟩ := hatomic
  unfold Recorded at hrec
  show Cuts env.R env.now st (execState env args st)
  unfold execState
  generalize expand env args = calls at hone heach hrec
  cases calls with
  | nil => exact cuts_self _ _ st
  | cons call rest =>
    have hrest : rest = [] := length_eq_zero_iff.mp (by
      rw [length_cons] at hone
      omega)
    subst hrest
    exact execPlain_cuts hR hnow hrec.1 (heach call (.head _)) h

end

/-! ## Runs -/

/-- The server after the first `k` commands. -/
def afterFirst (requests : List Request) (k : Nat) : State :=
  (requests.take k).foldl (fun st req => (exec req.1 req.2 st).2) State.new

theorem afterFirst_append {k : Nat} (hk : k ≤ requests.length)
    (req : Request) : afterFirst (requests ++ [req]) k = afterFirst requests k := by
  unfold afterFirst
  rw [take_append_of_le_length hk]

theorem afterFirst_succ (requests : List Request) (req : Request) :
    afterFirst (requests ++ [req]) (requests ++ [req]).length
      = (exec req.1 req.2 (afterFirst requests requests.length)).2 := by
  unfold afterFirst
  rw [take_length, take_length, foldl_append]
  rfl

/-- Every command of the run meets its conditions where it is run. -/
def AllAtomic (R : Runtime) (now : Time) (requests : List Request) : Prop :=
  ∀ k req, requests[k]? = some req → Meets R now (afterFirst requests k) req ∧
    AtomicCall req.1 req.2 (afterFirst requests k)

theorem AllAtomic.init {req : Request}
    (h : AllAtomic R now (requests ++ [req])) : AllAtomic R now requests := by
  intro k req' hk
  have hlt : k < requests.length := (List.getElem?_eq_some_iff.mp hk).1
  have hmeets := h k req' (by rw [getElem?_append_left hlt]; exact hk)
  rwa [afterFirst_append hlt.le] at hmeets

theorem AllAtomic.last {req : Request} (h : AllAtomic R now (requests ++ [req])) :
    Meets R now (afterFirst requests requests.length) req ∧
      AtomicCall req.1 req.2 (afterFirst requests requests.length) := by
  have hmeets := h requests.length req (by simp)
  rwa [afterFirst_append le_rfl] at hmeets

theorem cuts_of_run (hR : FloatLaws R) (hnow : InEpoch now)
    (h : AllAtomic R now requests) : (afterFirst requests requests.length).Recovers R now ∧
      ∀ n, ∃ k ≤ requests.length, (afterFirst requests k).store.Same
        (replay R now ((afterFirst requests requests.length).aof.take n) new) := by
  induction requests using reverseRecOn with
  | nil => exact ⟨.refl new_idle, fun n => ⟨0, le_rfl, by
      rw [show (afterFirst [] ([] : List Request).length).aof.take n = [] from take_nil]
      exact .refl new_idle⟩⟩
  | append_singleton requests req ih =>
    obtain ⟨hrecovers, hcuts⟩ := ih h.init
    obtain ⟨env, args⟩ := req
    obtain ⟨⟨rfl, rfl, hrec⟩, hatomic⟩ := h.last
    have hafter := afterFirst_succ requests (env, args)
    have hlen : requests.length ≤ (requests ++ [(env, args)]).length := by simp
    refine ⟨by rw [hafter]; exact exec_recovers hR hnow hrec hrecovers, fun n => ?_⟩
    rw [hafter]
    rcases exec_cuts hR hnow hrec hatomic hrecovers n with hold | hbefore | hnew
    · obtain ⟨k, hk, hsame⟩ := hcuts n
      refine ⟨k, hk.trans hlen, ?_⟩
      rw [afterFirst_append hk]
      rw [hold]
      exact hsame
    · refine ⟨requests.length, hlen, ?_⟩
      rw [afterFirst_append le_rfl]
      exact hbefore
    · refine ⟨_, le_rfl, ?_⟩
      rw [hafter]
      exact hnew

/-- **A crash recovers whole commands.** In every run whose commands replay faithfully, are not
scripts of several commands, and log no second record that matters: whatever prefix of the
log a crash leaves, replaying it gives what the live store held after some of the
commands. -/
theorem crash_atomic {R : Runtime} {now : Time} (hR : FloatLaws R) (hnow : InEpoch now)
    {requests : List Request} (h : AllAtomic R now requests) (n : Nat) :
    ∃ k ≤ requests.length, ∀ key,
      (replay R now ((afterFirst requests requests.length).aof.take n) Store.new).entries key
        = (afterFirst requests k).store.entries key := by
  obtain ⟨k, hk, hsame⟩ := (cuts_of_run hR hnow h).2 n
  exact ⟨k, hk, fun key => (hsame.inside key).symm⟩

/-- Commands at one instant. -/
def plainRequests (commands : List (List String)) : List Request :=
  commands.map (fun command => (Env.plain integralRuntime 1, command.map bytes))

/-- `SADD s a` and `SUNIONSTORE d s`, cut between the two records of the second. -/
theorem crash_atomic_union :
    let requests := plainRequests [["SADD", "s", "a"], ["SUNIONSTORE", "d", "s"]]
    (afterFirst requests 2).aof.length = 3 ∧ ∃ k ≤ 2, ∀ key,
      (replay integralRuntime 1 ((afterFirst requests 2).aof.take 2) new).entries key
        = (afterFirst requests k).store.entries key := by
  intro requests
  have hatomic : AllAtomic integralRuntime 1 requests := ?_
  · exact ⟨by decide +kernel, crash_atomic floatLaws_integral ⟨by decide, by decide⟩ hatomic 2⟩
  intro k req hk
  rcases k with _ | _ | k
  · cases hk
    refine ⟨⟨rfl, rfl, recorded_of rfl rfl (fun _ _ _ _ => trivial)⟩, le_rfl, ?_⟩
    intro call hcall w hw
    rw [mem_singleton.mp hcall] at hw
    exact absurd (show some (Word.key .sAdd) = some (.store w) from hw) (by simp)
  · cases hk
    refine ⟨⟨rfl, rfl, recorded_of (w := .store .sUnionStore) rfl rfl trivial⟩, le_rfl, ?_⟩
    intro call hcall w hw
    rw [mem_singleton.mp hcall] at hw ⊢
    cases (show some (Word.store .sUnionStore) = some (.store w) from hw)
    rfl
  · cases hk

/-- `RPUSH a x y` and `RPOPLPUSH a b`: a crash between the two records of the second loses the
value that was moved. -/
theorem crash_loses_moved :
    let requests := plainRequests [["RPUSH", "a", "x", "y"], ["RPOPLPUSH", "a", "b"]]
    let recovered := replay integralRuntime 1 ((afterFirst requests 2).aof.take 2) new
    (recovered.entries (bytes "a")).lists = some [bytes "x"] ∧
      (recovered.entries (bytes "b")).lists = none ∧
      ∀ k ≤ 2, ¬ ∀ key, recovered.entries key = (afterFirst requests k).store.entries key := by
  refine ⟨by decide +kernel, by decide +kernel, fun k hk hall => ?_⟩
  have ha := congrArg (·.lists) (hall (bytes "a"))
  have hb := congrArg (·.lists) (hall (bytes "b"))
  rcases k with _ | _ | _ | k
  · cases ha
  · cases ha
  · cases hb
  · omega

end Vole.Server
