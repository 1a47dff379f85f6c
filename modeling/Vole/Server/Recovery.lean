import Vole.Server.MoveRecords
import Vole.Lib.Transition

/-!
# Recovery from the append-only file

A server without a snapshot that starts again replays its append-only file into an empty
store. Each case of `exec` logs what it did in its own way, and for most of them replay
reads it back only under a condition on the arguments and on what the key holds. Under these
conditions the replayed store holds what the live one holds, in every run.
-/

namespace Vole.Server

open Go Cmd

variable {args : List Bytes} {env : Env}

/-! ## Commands on one key -/

/-- When the records of a command on one key do what the command did, given the arguments
after the key and what the key holds. Words that are not listed always do. -/
def KeyWord.Recorded (env : KeyEnv) (rest : List Bytes) (e : Entry) : KeyWord → Prop
  | .set => ∀ o, setOptions env.R rest = .ok o → SetRecorded env.now o e
  | .setNX => SetNXRecorded env.now 0 e
  | .setEX => ExpiringRecorded env.now second (arg rest 2)
  | .pSetEX => ExpiringRecorded env.now millisecond (arg rest 2)
  | .incrBy | .decrBy | .tsAdd => SameNumber (arg rest 2)
  | .hIncrBy => SameNumber (arg rest 3)
  | .getDel => GetDelRecorded env.now e
  | .getSet | .persist | .sPop => e.expired env.now = false
  | .getEx => ∀ o, parseGetEx env.R (0, false) rest = .ok o → GetExRecorded env.now o.1 o.2 e
  | .expire => ∀ n, parseInt (arg rest 2) = some n →
      ExpiryRecorded (env.now + duration n second)
  | .pExpire => ∀ n, parseInt (arg rest 2) = some n →
      ExpiryRecorded (env.now + duration n millisecond)
  | .pExpireAt => ∀ n, parseInt (arg rest 2) = some n → duration n millisecond ≠ 0
  | .setRange | .setBit => LeftRecorded env.now e
  | .setDelayed => SameNumber (arg rest 3) ∧ (6 ≤ rest.length + 2 → SameNumber (arg rest 5))
  | .rateLimit => parseInt (arg rest 2) = none ∨ parseInt (arg rest 3) = none
  | .rateLimitReset => e.rateLimiters = none
  | .zPopMin | .zPopMax => ZPopRecorded env.now e
  | .zIncrBy => ∀ incr, env.R.parseFloat (arg rest 2) = some incr →
      ZIncrRecorded env.R ((e.purged env.now).zsets.getD .empty) incr (arg rest 3)
  | .geoAdd => GeoRecorded env.R rest
  | .xAdd => XAddRecorded env.now rest e
  | .xTrim => ∀ n, parseMaxLen env.R rest = .ok n → XTrimIdle n e
  | .xClaim | .xAutoClaim => NoGroup (arg rest 2) e
  | .dequeue => e.queues = none
  | _ => True

/-- **The records of a command on one key do what the command did.** -/
theorem KeyWord.replays {w : KeyWord} {number : Bytes → Int} {env : KeyEnv} {word : Bytes}
    {rest : List Bytes} {e : Entry} (hR : FloatLaws env.R) (hnow : InEpoch env.now)
    (hword : toUpper word = bytes w.text) (harity : w.cmd.arity (rest.length + 2) = true)
    (hrec : w.Recorded env rest e) : Replays number env e (w.cmd.run env word rest ⟨e, 0⟩) := by
  by_cases hreads : w.reads = true
  · have hstill := KeyWord.still hreads env word rest ⟨e, 0⟩
    exact .unlogged hstill.log (congrArg Cell.toEntry hstill.cell)
  cases w
  all_goals try replace harity := of_decide_eq_true harity
  case set => exact replays_set hnow.1 hrec
  case setNX => exact replays_setNX hrec
  case setEX => exact replays_setExpiring hrec
  case pSetEX => exact replays_setExpiring hrec
  case incr => exact (echoes_incr harity).replays hword
  case incrBy => exact (echoes_incrBy harity hrec).replays hword
  case decrBy => exact (echoes_decrBy harity hrec).replays hword
  case decr => exact (echoes_decr harity).replays hword
  case incrByFloat => exact (echoes_incrByFloat hR harity).replays hword
  case expire => exact replays_expireIn hrec
  case pExpire => exact replays_expireIn hrec
  case hSet => exact replays_hSet harity.1
  case hDel => exact (echoes_hDel harity).replays hword
  case hIncrBy => exact (echoes_hIncrBy harity hrec).replays hword
  case hSetNX => exact replays_hSetNX
  case lPop => exact (echoes_lPop harity).replays hword
  case rPop => exact (echoes_rPop harity).replays hword
  case lSet => exact (echoes_lSet harity).replays hword
  case lInsert => exact (echoes_lInsert harity).replays hword
  case lRem => exact (echoes_lRem harity).replays hword
  case sAdd => exact (echoes_sAdd harity).replays hword
  case sRem => exact (echoes_sRem harity).replays hword
  case sPop => exact replays_sPop hrec
  case zAdd => exact (echoes_zAdd hR harity).replays hword
  case zRem => exact (echoes_zRem harity).replays hword
  case xAdd => exact replays_xAdd harity hrec
  case xAck => exact (echoes_xAck harity).replays hword
  case pfAdd =>
    exact .logging (Cell.pfAdd_checked _).untouched
      (fun _ _ => foldlM_one (replayKey_word .pfAdd hword _))
  case persist => exact replays_persist hrec
  case pExpireAt => exact replays_pExpireAt hrec
  case append =>
    exact .logging (Cell.append_checked _).untouched
      (fun _ _ => foldlM_one (replayKey_text .append _))
  case getDel => exact replays_getDel hrec
  case setBit => exact replays_setBit hnow.1 hrec
  case zPopMin =>
    exact replays_zPop hrec.1 (fun count _ hz => SortedSet.foldl_remove_popMin (hrec.2 _ hz) count)
  case zPopMax =>
    exact replays_zPop hrec.1 (fun count _ hz => SortedSet.foldl_remove_popMax (hrec.2 _ hz) count)
  case zIncrBy => exact replays_zIncrBy hR hrec
  case geoAdd => exact replays_geoAdd hR harity hrec
  case getSet => exact replays_getSet hrec
  case getEx => exact .attempt (fun o ho => replays_getExRun hnow.1 (hrec o ho))
  case setRange => exact replays_setRange hnow.1 hrec
  case rateLimit => exact replays_rateLimit hrec
  case rateLimitReset => exact replays_rateLimitReset hrec
  case setDelayed => exact (echoes_setDelayed harity hrec.1 hrec.2).replays hword
  case dequeue => exact replays_dequeue hrec
  case qAck => exact (echoes_qAck harity).replays hword
  case qNack => exact (echoes_qNack harity).replays hword
  case jsonSet => exact (echoes_jsonSet harity).replays hword
  case jsonDel => exact echoes_jsonDel.replays hword
  case jsonNumIncrBy => exact (echoes_jsonNumIncrBy harity).replays hword
  case jsonArrAppend => exact (echoes_jsonArrAppend harity).replays hword
  case tag => exact (echoes_tag harity).replays hword
  case tagDel => exact (echoes_tagDel harity).replays hword
  case tsAdd => exact (echoes_tsAdd hR harity hrec).replays hword
  case xClaim => exact replays_xClaim hrec
  case xAutoClaim => exact replays_xAutoClaim hrec
  case xTrim => exact replays_xTrim hrec
  all_goals exact absurd rfl hreads

/-! ## Commands on several keys -/

/-- When the records of a command on several keys do what the command did, given all its
arguments. -/
def StoreWord.Recorded (env : Env) (args : List Bytes) (s : Store) : StoreWord → Prop
  | .mSetNX => MSetNXRecorded env.now ((pairUp args.tail).map (·.1)) s
  | .bitOp => BitOpRecorded env.now (args.getD 2 []) (args.drop 3) s
  | .copy => (s.entries (args.getD 1 [])).expired env.now = false
  | .bLPop | .bRPop => ∀ k ∈ args.tail.dropLast, PlainList env.now (s.entries k)
  | .rPopLPush | .lMove => MoveRecorded env.now (s.entries (args.getD 1 [])) ∧
      MoveRecorded env.now (s.entries (args.getD 2 []))
  | .sort => ∀ o, parseSort env.R ⟨false, false, 0, 0, []⟩ (args.drop 2) = .ok o →
      SortRecorded env.now env.hint o (s.entries (args.getD 1 [])) (s.entries o.storeKey)
  | .enqueue => 5 ≤ args.length → SameNumber (args.getD 4 [])
  | .tsDownsample => (s.entries (args.getD 1 [])).expired env.now = false ∧
      (s.entries (args.getD 1 [])).timeseries = none
  | .info => ∀ k, (s.entries k).expired env.now = false
  | _ => True

/-- **The records of a command on several keys do what the command did.** -/
theorem StoreWord.replays {w : StoreWord} {s : Store}
    (hnow : InEpoch env.now) (hs : s.Idle) (hword : toUpper (args.headD []) = bytes w.text)
    (hrec : w.Recorded env args s) : ReplaysStore env.R env.now s (w.cmd env args s) := by
  by_cases hreads : w.reads = true
  · exact .still hs (StoreWord.still hreads env args s)
  cases w
  case mSet => exact replays_mSet hs
  case del => exact replays_del hs hword
  case lPush =>
    exact replays_listPush hs .lPush hword (fun hn => by simp only [StoreRecordWord.run, if_pos hn])
  case rPush => exact replays_rPush hs hword
  case sMove => exact replays_sMove hs hword
  case xGroup => exact replays_xGroup hs hword
  case xReadGroup => exact replays_xReadGroup hs hnow
  case pfMerge => exact replays_pfMerge hs hword
  case info => exact .unlogged hs rfl (purgeExpired_of_fresh hrec)
  case rename => exact replays_rename hs hword
  case bitOp => exact replays_bitOp hs hrec
  case bLPop => exact replays_blpop hs hrec
  case bRPop => exact replays_blpop hs hrec
  case copy => exact replays_copy hs hword hrec
  case mSetNX => exact replays_mSetNX hs hrec
  case sort => exact replays_sort hs hrec
  case unlink => exact replays_unlink hs
  case sInterStore => exact replays_setStore hs _ _
  case sUnionStore => exact replays_setStore hs _ _
  case sDiffStore => exact replays_setStore hs _ _
  case rPopLPush =>
    exact .counted hs (fun _ => .owned hs (replays_moveElement hs hrec.1 hrec.2))
  case lMove => exact replays_lMove hs hrec.1 hrec.2
  case enqueue =>
    exact .counted hs (fun hn => .owned hs (.attempt hs (fun _ hdel =>
      .echo hs .enqueue hword rfl (run_enqueue (of_decide_eq_true hn) hrec hdel).symm)))
  case tsDownsample => exact replays_tsDownsample hs hrec
  all_goals exact absurd rfl hreads

theorem KeyWord.replaysStore {w : KeyWord} {s : Store}
    (hR : FloatLaws env.R) (hnow : InEpoch env.now) (hs : s.Idle)
    (hword : toUpper (args.headD []) = bytes w.text)
    (hrec : ∀ word key rest, args = word :: key :: rest →
      w.Recorded (env.at key) rest (s.entries key)) :
    ReplaysStore env.R env.now s (w.cmd.exec env args s) := by
  refine replaysStore_exec hs (fun word key rest hargs harity _ => ?_)
  subst hargs
  exact KeyWord.replays hR hnow hword harity (hrec word key rest rfl)

/-! ## One command -/

/-- The condition of one case of `exec`. A flush keeps the counter of the queues, which
replay starts again, and a snapshot takes the records over. -/
def Word.Recorded (env : Env) (args : List Bytes) (st : State) : Word → Prop
  | .key w => ∀ word key rest, args = word :: key :: rest →
      w.Recorded (env.at key) rest (st.store.entries key)
  | .store w => w.Recorded env args st.store
  | .flushDB | .flushAll => st.store.queueSeq = 0
  | .save | .bgSave => args.length = 1 → env.snapshotPath = false
  | .eval | .evalSha => True

/-- The condition of a command that is not a script. -/
def PlainRecorded (env : Env) (args : List Bytes) (st : State) : Prop :=
  ∀ w, Word.ofArgs args = some w → w.Recorded env args st

/-- The conditions of commands that are run one after the other. -/
def CallsRecorded (env : Env) : List (List Bytes) → State → Prop
  | [], _ => True
  | args :: rest, st =>
    PlainRecorded env args st ∧ CallsRecorded env rest (execPlain env args st).2

/-- The condition of a command; a script must meet it at each command it runs. -/
def Recorded (env : Env) (args : List Bytes) (st : State) : Prop :=
  CallsRecorded env (expand env args) st

/-- Replaying the append-only file gives what the live store holds. -/
def State.Recovers (R : Runtime) (now : Time) (st : State) : Prop :=
  st.store.Same (replay R now st.aof Store.new)

section
variable {env : Env} {args : List Bytes} {st : State}

theorem new_idle : Store.new.Idle := fun _ => rfl

theorem ReplaysStore.append {R : Runtime} {now : Time} {s start : Store} {aof : List Record}
    {r : Result} (hr : ReplaysStore R now s r) (h : s.Same (replay R now aof start)) :
    r.store.Same (replay R now (aof ++ r.log) start) := by
  unfold replay
  rw [List.foldl_append]
  exact Store.Same.trans hr (replay_same h r.log)

theorem recovers_take {r : Result} (h : st.Recovers env.R env.now)
    (hr : ReplaysStore env.R env.now st.store r) : (st.take r).2.Recovers env.R env.now :=
  hr.append h

theorem recovers_flush {R : Runtime} {now : Time} (hseq : st.store.queueSeq = 0) :
    st.flush.2.Recovers R now :=
  .of_entries (fun _ => rfl) (fun _ => rfl) new_idle hseq

theorem recovers_saveCmd {name done : String} (h : st.Recovers env.R env.now)
    (hpath : args.length = 1 → env.snapshotPath = false) :
    (st.saveCmd name done env args).2.Recovers env.R env.now := by
  unfold State.saveCmd
  split
  · exact h
  · rename_i hlen
    rw [if_pos (by simp [hpath (not_not.mp hlen)])]
    exact h

theorem execWord_recovers {w : Word} (hR : FloatLaws env.R) (hnow : InEpoch env.now)
    (hword : toUpper (args.headD []) = bytes w.text) (hrec : w.Recorded env args st)
    (h : st.Recovers env.R env.now) : (execWord env args st w).2.Recovers env.R env.now := by
  have hs : st.store.Idle := h.idle
  cases w with
  | key w => exact recovers_take h (KeyWord.replaysStore hR hnow hs hword hrec)
  | store w => exact recovers_take h (StoreWord.replays hnow hs hword hrec)
  | flushDB => exact recovers_flush hrec
  | flushAll => exact recovers_flush hrec
  | save => exact recovers_saveCmd h hrec
  | bgSave => exact recovers_saveCmd h hrec
  | eval => exact h
  | evalSha => exact h

theorem execPlain_recovers (hR : FloatLaws env.R) (hnow : InEpoch env.now)
    (hrec : PlainRecorded env args st) (h : st.Recovers env.R env.now) :
    (execPlain env args st).2.Recovers env.R env.now := by
  unfold execPlain
  cases hw : Word.ofArgs args with
  | none => exact h
  | some w => exact execWord_recovers hR hnow (Word.text_of_parse hw) (hrec w hw) h

theorem exec_recovers (hR : FloatLaws env.R) (hnow : InEpoch env.now)
    (hrec : Recorded env args st) (h : st.Recovers env.R env.now) :
    (exec env args st).2.Recovers env.R env.now := by
  unfold Recorded at hrec
  show (execState env args st).Recovers env.R env.now
  unfold execState
  generalize expand env args = calls at hrec
  induction calls generalizing st with
  | nil => exact h
  | cons call rest ih => exact ih (execPlain_recovers hR hnow hrec.1 h) hrec.2

end

/-! ## Runs -/

/-- A client's command: what it reads from outside, and its arguments. -/
abbrev Request := Env × List Bytes

/-- The server takes one command. -/
def serve (st : State) (req : Request) : Option State := some (exec req.1 req.2 st).2

/-- The server takes several commands in the same environment. -/
def serveAll (env : Env) (requests : List (List Bytes)) (st : State) : State :=
  requests.foldl (fun st args => (exec env args st).2) st

/-- The clock stands still, and the command meets its condition. -/
def Meets (R : Runtime) (now : Time) (st : State) (req : Request) : Prop :=
  req.1.R = R ∧ req.1.now = now ∧ Recorded req.1 req.2 st

/-- What `exec_recovers` says of one command holds after a whole run. -/
theorem recovers_of_reaches {R : Runtime} {now : Time} (hR : FloatLaws R) (hnow : InEpoch now)
    {st : State} (hrun : Transition.Reaches serve (Meets R now) State.new st) :
    st.Recovers R now := by
  refine hrun.invariant (.refl new_idle) ?_
  rintro st st' ⟨env, args⟩ h ⟨rfl, rfl, hrec⟩ hserve
  cases hserve
  exact exec_recovers hR hnow hrec h

/-- **Replaying the append-only file recovers the live store.** From an empty store, in every
run whose commands all meet their conditions, each key holds after replay what it holds in
the live store: its value of whatever type, its expiry, groups, queue, tags and delay. -/
theorem replay_recovers {R : Runtime} {now : Time} (hR : FloatLaws R) (hnow : InEpoch now)
    {st : State} (hrun : Transition.Reaches serve (Meets R now) State.new st) (key : Bytes) :
    (replay R now st.aof Store.new).entries key = st.store.entries key :=
  ((recovers_of_reaches hR hnow hrun).inside key).symm

/-- A runtime that writes a number as the integer of its bits; the laws can be met. -/
def integralRuntime : Runtime :=
  { (default : Runtime) with
    parseFloat := fun _ => none
    formatFloat := fun x => formatInt (x.bits.toNat - 2 ^ 63)
    sscanFloat := fun s => ⟨UInt64.ofNat (sscanInt s + 2 ^ 63).toNat⟩ }

theorem floatLaws_integral : FloatLaws integralRuntime := by
  refine ⟨fun s x h => absurd h (by simp [integralRuntime]), fun x _ => ?_⟩
  have hlt : x.bits.toNat < 2 ^ 64 := UInt64.toNat_lt x.bits
  show F64.mk (UInt64.ofNat (sscanInt (formatInt ((x.bits.toNat : Int) - 2 ^ 63)) + 2 ^ 63).toNat)
    = x
  rw [sscanInt_formatInt ⟨by omega, by omega⟩, Int.sub_add_cancel, Int.toNat_natCast,
    UInt64.ofNat_toNat]

/-- The conditions of several commands in the same environment. -/
def AllRecorded (env : Env) : List (List Bytes) → State → Prop
  | [], _ => True
  | args :: rest, st => Recorded env args st ∧ AllRecorded env rest (exec env args st).2

theorem reaches_serveAll {R : Runtime} {now : Time} {requests : List (List Bytes)}
    {st₀ st : State} (hR : env.R = R) (hnow : env.now = now) (hrec : AllRecorded env requests st)
    (hrun : Transition.Reaches serve (Meets R now) st₀ st) :
    Transition.Reaches serve (Meets R now) st₀ (serveAll env requests st) := by
  induction requests generalizing st with
  | nil => exact hrun
  | cons args rest ih =>
    exact ih hrec.2 (.tail (env, args) hrun ⟨hR, hnow, hrec.1⟩ rfl)

theorem recorded_of {st : State} {w : Word}
    (hw : Word.ofArgs args = some w) (hcalls : expand env args = [args])
    (h : w.Recorded env args st) : Recorded env args st := by
  unfold Recorded
  rw [hcalls]
  refine ⟨fun w' hw' => ?_, trivial⟩
  rw [hw] at hw'
  cases hw'
  exact h

/-- `INCR k`, `INCRBY k 5`, `RPUSH l a b`, `LPOP l`. -/
theorem replay_recovers_counter :
    let st := serveAll (Env.plain integralRuntime 1)
      [[bytes "INCR", bytes "k"], [bytes "INCRBY", bytes "k", bytes "5"],
        [bytes "RPUSH", bytes "l", bytes "a", bytes "b"], [bytes "LPOP", bytes "l"]] State.new
    (st.store.entries (bytes "k")).kv = some (bytes "6") ∧
      (st.store.entries (bytes "l")).lists = some [bytes "b"] ∧
      ∀ key, (replay integralRuntime 1 st.aof Store.new).entries key = st.store.entries key := by
  refine ⟨by decide +kernel, by decide +kernel, ?_⟩
  refine replay_recovers floatLaws_integral ⟨by decide, by decide⟩ ?_
  refine reaches_serveAll rfl rfl ⟨?_, ?_, ?_, ?_, trivial⟩ .refl
  · exact recorded_of rfl rfl (fun _ _ _ _ => trivial)
  · refine recorded_of rfl rfl (fun word key rest hargs => ?_)
    cases hargs
    exact SameNumber.of_noLeadingZero (by decide)
  · exact recorded_of (w := .store .rPush) rfl rfl trivial
  · exact recorded_of rfl rfl (fun _ _ _ _ => trivial)

/-- `XTRIM` logs nothing: after `XADD s 1-0 f v`, `XADD s 2-0 f v` and `XTRIM s MAXLEN 1`
replay brings the first entry back. -/
theorem replay_restores_trimmed :
    let st := serveAll (Env.plain integralRuntime 1)
      [[bytes "XADD", bytes "s", bytes "1-0", bytes "f", bytes "v"],
        [bytes "XADD", bytes "s", bytes "2-0", bytes "f", bytes "v"],
        [bytes "XTRIM", bytes "s", bytes "MAXLEN", bytes "1"]] State.new
    (st.store.entries (bytes "s")).streams
        = some [⟨bytes "2-0", [bytes "f", bytes "v"]⟩] ∧
      ((replay integralRuntime 1 st.aof Store.new).entries (bytes "s")).streams
        = some [⟨bytes "1-0", [bytes "f", bytes "v"]⟩, ⟨bytes "2-0", [bytes "f", bytes "v"]⟩] := by
  decide +kernel

end Vole.Server
