import Vole.Server.Cluster
import Vole.Server.Frame

/-!
# Commands that this node does not serve

`ensureOwns` is asked before a case of `exec` reads or writes its keys. All keys of the command
have to be in one slot, and this node has to serve it. Two cases ask about their keys one at a
time, `SMOVE` and `SORT` with a destination, and two do not ask at all, `FLUSHDB` and
`FLUSHALL`.
-/

namespace Vole.Server

open Go List

variable {w : Word} {r : Result} {k : Bytes} {R : Runtime}

/-! ## The keys of a command -/

/-- The destination of `SORT`, if it has one. -/
def sortDest (R : Runtime) (args : List Bytes) : List Bytes :=
  match Cmd.parseSort R ⟨false, false, 0, 0, []⟩ (args.drop 2) with
  | .error _ => []
  | .ok o => if o.storeKey = [] then [] else [o.storeKey]

/-- The keys of `SINTERCARD`. -/
def cardKeys (R : Runtime) (args : List Bytes) : List Bytes :=
  match atoi R (args.getD 1 []) with
  | .error _ => []
  | .ok n => (args.drop 2).take n.toNat

/-- The streams of `XREAD`. -/
def readStreams (R : Runtime) (args : List Bytes) : List Bytes :=
  match Cmd.parseXRead R args.tail with
  | .error _ => []
  | .ok streams => streams.map (·.1)

/-- The streams of `XREADGROUP`. -/
def groupStreams (R : Runtime) (args : List Bytes) : List Bytes :=
  match Cmd.parseReadGroup R 10 (args.drop 4) with
  | .error _ => []
  | .ok o =>
    match Cmd.parseStreams "XREADGROUP" o.2 with
    | .error _ => []
    | .ok streams => streams.map (·.1)

/-- The keys among the arguments of a command on several keys. -/
def StoreWord.namedKeys (R : Runtime) (args : List Bytes) : StoreWord → List Bytes
  | .lPush | .rPush | .enqueue => args.tail.take 1
  | .rename | .copy | .sMove | .rPopLPush | .lMove | .tsDownsample => args.tail.take 2
  | .mGet | .exists_ | .touch | .del | .unlink | .pfCount | .pfMerge | .sInter | .sUnion | .sDiff
  | .sInterStore | .sUnionStore | .sDiffStore => args.tail
  | .mSet | .mSetNX => (pairUp args.tail).map (·.1)
  | .bitOp => args.drop 2
  | .object | .memory | .xGroup | .xInfo => (args.drop 2).take 1
  | .bLPop | .bRPop => args.tail.dropLast
  | .sort => args.tail.take 1 ++ sortDest R args
  | .sInterCard => cardKeys R args
  | .xRead => readStreams R args
  | .xReadGroup => groupStreams R args
  | .keys | .scan | .hSearch | .info | .dbSize | .randomKey | .tagQuery => []

/-- The keys that a command on several keys writes. -/
def StoreWord.writes (R : Runtime) (args : List Bytes) (w : StoreWord) : List Bytes :=
  match w with
  | .pfMerge | .sInterStore | .sUnionStore | .sDiffStore => args.tail.take 1
  | .bitOp | .copy | .tsDownsample => (args.drop 2).take 1
  | .sort => sortDest R args
  | w => if w.reads then [] else w.namedKeys R args

namespace Word

/-- The keys among the arguments of a command. -/
def namedKeys (R : Runtime) (args : List Bytes) : Word → List Bytes
  | .key _ => args.tail.take 1
  | .store w => w.namedKeys R args
  | _ => []

end Word

/-! ## `ensureOwns` -/

section
variable {c : Cluster} {keys : List Bytes}

end

/-! ## Refusals -/

/-- `exec` returned an error or wrote one. -/
def Reply.isError : Reply → Bool
  | .error _ => true
  | .ok [.error _] => true
  | .ok _ => false

/-- The command was answered by an error and did nothing. -/
structure Result.Refused (s : Store) (r : Result) : Prop where
  error : Reply.isError r.reply = true
  store : r.store = s
  log : r.log = []

namespace Result.Refused

variable {s : Store} {env : Env}

theorem fail (e : Bytes) : Refused s (.fail s e) := ⟨rfl, rfl, rfl⟩

theorem attempt {α : Type} {p : Except Bytes α} {k : α → Result}
    (h : ∀ a, p = .ok a → Refused s (k a)) : Refused s (.attempt s p k) :=
  Result.attempt_elim fail h

theorem owned {keys : List Bytes} (h : env.refuse keys ≠ none) (r : Result) :
    Refused s (.owned env keys s r) := by
  unfold Result.owned
  split
  · exact ⟨rfl, rfl, rfl⟩
  · exact absurd ‹_› h

theorem checked {p : Prop} [Decidable p] {e : Bytes} (h : ¬ p → Refused s r) :
    Refused s (if p then .fail s e else r) := by
  split
  · exact fail e
  · exact h ‹_›

end Result.Refused

/-- The cases that ask about their keys one at a time, or about none of them. -/
def StoreWord.asksAtOnce : StoreWord → Bool
  | .sMove | .sort | .object | .memory => false
  | _ => true

theorem take_two (args : List Bytes) (h : 3 ≤ args.length) :
    args.tail.take 2 = [args.getD 1 [], args.getD 2 []] := by
  match args, h with
  | _ :: _ :: _ :: _, _ => rfl

theorem take_one (args : List Bytes) (h : 2 ≤ args.length) :
    args.tail.take 1 = [args.getD 1 []] := by
  match args, h with
  | _ :: _ :: _, _ => rfl

theorem drop_two_take (args : List Bytes) (h : 3 ≤ args.length) :
    (args.drop 2).take 1 = [args.getD 2 []] := by
  match args, h with
  | _ :: _ :: _ :: _, _ => rfl

section
variable {env : Env} {args : List Bytes} {s : Store}

open Result

/-- **A command on several keys that `ensureOwns` does not let through leaves no trace.** -/
theorem StoreWord.refused {w : StoreWord} (hw : w.asksAtOnce = true)
    (hkeys : w.namedKeys env.R args ≠ []) (h : env.refuse (w.namedKeys env.R args) ≠ none) :
    Refused s (w.cmd env args s) := by
  cases w
  case mGet | exists_ | touch | del | unlink | pfCount | pfMerge | sInter | sUnion | sDiff |
      sInterStore | sUnionStore | sDiffStore | mSet | mSetNX | bitOp =>
      exact .checked (fun _ => .owned h _)
  case rename | rPopLPush =>
    refine .checked (fun hn => ?_)
    have hlength : args.length = 3 := of_counted hn
    have htail : args.tail.take 2 = args.tail := take_of_length_le (by simp [hlength])
    exact .owned (htail ▸ h) _
  case copy =>
    refine .checked (fun hn => ?_)
    have hlength : 3 ≤ args.length ∧ args.length ≤ 5 := of_counted hn
    exact .owned (take_two args hlength.1 ▸ h) _
  case lMove =>
    refine .checked (fun hn => ?_)
    have hlength : args.length = 5 := of_counted hn
    exact .owned (take_two args (by omega) ▸ h) _
  case tsDownsample =>
    refine .checked (fun hn => ?_)
    have hlength : args.length = 7 := of_counted hn
    exact .owned (take_two args (by omega) ▸ h) _
  case lPush | rPush | enqueue =>
    refine .checked (fun hn => ?_)
    have hlength : 3 ≤ args.length := of_counted hn
    exact .owned (take_one args (by omega) ▸ h) _
  case xInfo =>
    refine .checked (fun hn => ?_)
    have hlength : 3 ≤ args.length := of_counted hn
    exact .owned (drop_two_take args hlength ▸ h) _
  case xGroup =>
    refine .checked (fun hn => .checked (fun _ => .checked (fun _ => ?_)))
    have hlength : args.length = 5 ∨ args.length = 6 := of_counted hn
    exact .owned (drop_two_take args (by omega) ▸ h) _
  case bLPop | bRPop => exact .checked (fun _ => .attempt (fun _ _ => .owned h _))
  case sInterCard =>
    refine .checked (fun _ => .attempt (fun n hn => .checked (fun _ => .checked (fun _ => ?_))))
    have hcard : cardKeys env.R args = (args.drop 2).take n.toNat := by
      unfold cardKeys
      rw [hn]
    exact .owned (hcard ▸ h) _
  case xRead =>
    refine .attempt (fun streams hstreams => ?_)
    have hread : readStreams env.R args = streams.map (·.1) := by
      unfold readStreams
      rw [hstreams]
    exact .owned (hread ▸ h) _
  case xReadGroup =>
    refine .checked (fun _ => .attempt (fun o ho => .attempt (fun streams hstreams => ?_)))
    have hread : groupStreams env.R args = streams.map (·.1) := by
      unfold groupStreams
      rw [ho]
      dsimp only
      rw [hstreams]
    exact .owned (hread ▸ h) _
  case keys | scan | hSearch | info | dbSize | randomKey | tagQuery => exact absurd rfl hkeys
  all_goals cases hw

theorem KeyWord.refused {w : KeyWord} (h : env.refuse (args.tail.take 1) ≠ none) :
    Refused s (w.cmd.exec env args s) := by
  unfold KeyCmd.exec
  split
  · refine .checked (fun _ => ?_)
    split
    · exact .fail _
    · exact .owned h _
  · exact .fail _

end

/-! ## A node of a cluster -/

/-- The environment of a command on a node of the cluster. -/
def Env.within (c : Cluster) (env : Env) : Env := { env with refuse := c.ensureOwns }

/-- Both keys are served here, and they are in different slots of a cluster. -/
def Cluster.Splits (c : Cluster) (k k' : Bytes) : Prop :=
  1 < c.nodes.length ∧ slot k ≠ slot k' ∧ c.selfOwns k = true ∧ c.selfOwns k' = true

/-- `exec` answers with an error and leaves store, log and snapshot file alone. -/
structure Refused (st : State) (r : Reply × State) : Prop where
  error : Reply.isError r.1 = true
  state : r.2 = st

section
variable {c : Cluster} {env : Env} {args : List Bytes} {st : State} {s : Store}

theorem Refused.take (h : Result.Refused st.store r) : Refused st (st.take r) := by
  refine ⟨h.error, ?_⟩
  unfold State.take
  rw [h.store, h.log, append_nil]

end

end Vole.Server
