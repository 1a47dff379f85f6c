import Vole.Server.Http
import Vole.Store.Blocking
import Vole.Lib.Schedule

/-!
# The order of the records and the order of the effects

Most cases of `exec` hold `persistMu` over their store operation and their records. `BLPOP`,
`BRPOP` and `GETEX` run the operation first and take the lock only to append the record;
`QACK`, `QNACK` and the handlers of `http.go` append the record under the lock and run the
operation after it. Others come in between: the records then stand in an order that is not that
of the effects, or `saveSnapshot` truncates a record whose effect is not in the snapshot.
-/

namespace Vole.Server

open Go Cmd Schedule Transition

variable {R : Runtime} {now : Time}

/-! ## Requests as programs -/

/-- `AOF.Append`, once for each record. -/
def appendAll : List Record → Prog State → Prog State
  | [], next => next
  | r :: rest, next =>
    .step (fun st => { st with aof := st.aof ++ [r] }) (fun _ => appendAll rest next)

/-- The operation of a command on the store; what it came to says what to append. -/
def operate (result : Store → Result) (next : List Record → Prog State) : Prog State :=
  .step (fun st => { st with store := (result st.store).store })
    (fun st => next (result st.store).log)

/-- A case that holds `persistMu` over both. Only the holder appends, so it makes no difference
to the file which of the two comes first. -/
def lockedProg (result : Store → Result) : Prog State :=
  .lock (operate result (fun log => appendAll log (.unlock .done)))

/-- A case that takes `persistMu` after its operation, if there is something to append. -/
def lateProg (result : Store → Result) : Prog State :=
  operate result (fun log => if log = [] then .done else .lock (appendAll log (.unlock .done)))

/-- A request that appends under `persistMu` and runs its operation after it. -/
def earlyProg (record : Record) (run : Store → Store) : Prog State :=
  .lock (appendAll [record] (.unlock
    (.step (fun st => { st with store := run st.store }) (fun _ => .done))))

/-- The deferred `removeListWaiter` of `BPop`. -/
def leaveProg (keys : List Bytes) (w : Nat) (next : Prog State) : Prog State :=
  .step (fun st => { st with store := st.store.removeListWaiter keys w }) (fun _ => next)

/-- What `blpop` does once `BPop` has returned a key. -/
def poppedProg (left : Bool) (key : Bytes) : Prog State :=
  .lock (appendAll [[bytes (if left then "LPOP" else "RPOP"), key]] (.unlock .done))

/-- `BPop` in its `select`: an element arrives, or the timeout. -/
def blockedProg (left : Bool) (keys : List Bytes) (w : Nat) : Prog State :=
  .await (fun st => (st.store.waiters w).chan.isSome)
    (.step (fun st => { st with store := Clients.drain st.store w }) (fun st =>
      leaveProg keys w (match (st.store.waiters w).chan with
        | some (key, _) => poppedProg left key
        | none => .done)))
    (leaveProg keys w .done)

/-- `blpop` -/
def blpopProg (left : Bool) (env : Env) (args : List Bytes) : Prog State :=
  let keys := args.tail.dropLast
  if 3 ≤ args.length ∧ (parseFloat64 env.R (args.getLastD [])).isOk ∧ env.refuse keys = none then
    .step (fun st => { st with store := (st.store.bPopStart env.now keys left).2 }) (fun st =>
      match (Store.bPopTry env.now left keys st.store).1 with
      | some (key, _) => poppedProg left key
      | none => blockedProg left keys st.store.nextWaiter)
  else .done

/-- `FlushDB` and `AOF.Reset`, under the lock. -/
def flushProg : Prog State :=
  .lock (.step (fun st => { st with store := st.store.flushDB })
    (fun _ => .step (fun st => { st with aof := [] }) (fun _ => .unlock .done)))

/-- `saveSnapshot(true)`: `SaveSnapshot` and `AOF.Reset`, under the lock. -/
def saveProg (env : Env) : Prog State :=
  .lock (.step (fun st =>
      let (snapshot, store) := st.store.dump env.R env.now env.hint
      { st with store := store, snapshot := some snapshot })
    (fun _ => .step (fun st => { st with aof := [] }) (fun _ => .unlock .done)))

/-- The words whose case holds `persistMu` over its operation and its records. -/
def KeyWord.locks (w : KeyWord) : Bool :=
  !w.reads && !decide (w ∈ [.rateLimit, .rateLimitReset, .dequeue, .getEx, .qAck, .qNack])

@[inherit_doc KeyWord.locks]
def StoreWord.locks (w : StoreWord) : Bool :=
  !w.reads && !decide (w ∈ [.info, .bLPop, .bRPop])

/-- A case of `exec` as a program. The commands of a script are requests of their own. -/
def Word.program (env : Env) (args : List Bytes) : Word → Prog State
  | .key w =>
    if w.locks then lockedProg (w.cmd.exec env args)
    else if w = .qAck ∨ w = .qNack then
      if args.length = 3 ∧ env.refuse [args.getD 1 []] = none then
        earlyProg args (fun s => (w.cmd.exec env args s).store)
      else .done
    else lateProg (w.cmd.exec env args)
  | .store .bLPop => blpopProg true env args
  | .store .bRPop => blpopProg false env args
  | .store w => if w.locks then lockedProg (w.cmd env args) else lateProg (w.cmd env args)
  | .flushDB | .flushAll => flushProg
  | .save | .bgSave => if args.length = 1 ∧ env.snapshotPath = true then saveProg env else .done
  | .eval | .evalSha => .done

/-- A command of a RESP client, a write of an HTTP handler, or the saving of a snapshot. -/
inductive Job where
  | command (env : Env) (args : List Bytes)
  | http (env : Env) (write : HttpWrite)
  | save (env : Env)

def Job.program : Job → Prog State
  | .command env args =>
    match Word.ofArgs args with
    | none => .done
    | some w => w.program env args
  | .http env write => earlyProg (write.record env.R) (fun s => write.effect env.now s)
  | .save env => saveProg env

/-! ## What a program does alone -/

section
variable {env : Env} {args : List Bytes} {st : State} {result : Store → Result}

end

/-! ## Recovery -/

/-- Starting from the files gives what the live store holds. -/
def State.Persisted (R : Runtime) (now : Time) (st : State) : Prop :=
  ∀ hint, st.store.Same (st.disk.startup R now hint)

/-- When a snapshot takes over what the files hold: each key is one that it brings back, and
the counter of the queues, which it does not have, is at its start. -/
def State.Saved (R : Runtime) (now : Time) (st : State) : Prop :=
  st.store.queueSeq = 0 ∧ ∀ k, Kept R now (st.store.entries k)

/-- The condition of one case of `exec`. A flush leaves the snapshot where it is. -/
def Word.Persists (env : Env) (args : List Bytes) (st : State) : Word → Prop
  | .flushDB | .flushAll =>
    st.store.queueSeq = 0 ∧ (st.snapshot = none ∨ st.snapshot = some 0)
  | .save | .bgSave => args.length = 1 → env.snapshotPath = true → st.Saved env.R env.now
  | w => w.Recorded env args st

/-- The condition of a request on the state in which it begins. -/
def Job.Recorded (R : Runtime) (now : Time) : Job → State → Prop
  | .command env args, st =>
    env.R = R ∧ env.now = now ∧ ∀ w, Word.ofArgs args = some w → w.Persists env args st
  | .http env write, st => env.R = R ∧ env.now = now ∧ write.Recorded now st.store
  | .save env, st => env.R = R ∧ env.now = now ∧ st.Saved R now

section
variable {env : Env} {args : List Bytes} {st : State}

theorem State.Persisted.idle (h : st.Persisted R now) : st.store.Idle :=
  (h []).idle

theorem State.Persisted.congr {s : Store} (h : st.Persisted R now)
    (hs : s.Same st.store) : State.Persisted R now { st with store := s } :=
  fun hint => Store.Same.trans hs (h hint)

end

end Vole.Server
