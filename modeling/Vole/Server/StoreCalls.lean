import Vole.Lib.Serial
import Vole.Server.Recovery

/-!
# Commands as sequences of store calls

Each method of the store is atomic, but several cases of `exec` call more than one. `mset` calls
`SetAbsolute` once for each pair; `SINTERSTORE` and its kin read the sets, lock `persistMu`, delete
the destination and add the members; `sadd` and `srem` ask for the type first. The writing
commands hold `persistMu`, `MGET` and the first call of the `STORE` commands do not.
-/

namespace Vole.Server

open Go Cmd Serial Transition

variable {name : String} {cmd : KeyCmd}

/-- A command on the store. Nobody reads the append-only file, so its records are left out. -/
abbrev StoreCode := Code Store Reply

/-! ## The calls of each command -/

/-- The arity check of a case. -/
def countedCode (name : String) (ok : Nat → Bool) (args : List Bytes) (k : StoreCode) : StoreCode :=
  if !ok args.length then .ret (.error (wrongArgs (bytes name))) else k

/-- `if ok, err := s.ensureOwns(w, keys...); !ok { return err }` -/
def ownedCode (env : Env) (keys : List Bytes) (k : StoreCode) : StoreCode :=
  match env.refuse keys with
  | some refusal => .ret (.ok [.error refusal])
  | none => k

/-- The checks of a case whose key is the first argument. -/
def keyCode (cmd : KeyCmd) (env : Env) (args : List Bytes)
    (k : Bytes → Bytes → List Bytes → StoreCode) : StoreCode :=
  match args with
  | word :: key :: rest =>
    if !cmd.arity (rest.length + 2) then .ret (.error (wrongArgs (cmd.name word)))
    else
      match cmd.check env.R rest with
      | some e => .ret (.error e)
      | none => ownedCode env [key] (k word key rest)
  | _ => .ret (.error (wrongArgs (cmd.name (args.headD []))))

/-- The deferred `persistMu.Unlock`. -/
def leave (reply : Reply) : StoreCode := .unlock (.ret reply)

def mGetCode (env : Env) (args : List Bytes) : StoreCode :=
  countedCode "MGET" (2 ≤ ·) args (ownedCode env args.tail
    (.read (fun s => .ret (.ok (.arrayLen args.tail.length
      :: (s.mGet env.now args.tail).flatMap bulkOrNull)))))

/-- The loop of `mset`. -/
def setAllCode : List (Bytes × Bytes) → StoreCode
  | [] => leave okReply
  | p :: rest =>
    .write (fun s => s.modify p.1 (Cell.setAbsolute p.2 zeroTime)) (fun _ => setAllCode rest)

/-- `mset` -/
def mSetCode (env : Env) (args : List Bytes) : StoreCode :=
  countedCode "MSET" (fun n => 3 ≤ n ∧ n % 2 = 1) args
    (ownedCode env ((pairUp args.tail).map (·.1)) (.lock (setAllCode (pairUp args.tail))))

/-- `set`: one of `SetDelayed`, `SetNX`, `SetXX` and `SetAbsolute`. -/
def setCode (env : Env) (args : List Bytes) : StoreCode :=
  keyCode Cmd.set env args (fun word key rest =>
    .lock (.write (fun s => (Cmd.set.act env word key rest s).store)
      (fun s => leave (Cmd.set.act env word key rest s).reply)))

def delCode (env : Env) (args : List Bytes) : StoreCode :=
  countedCode "DEL" (2 ≤ ·) args (ownedCode env args.tail
    (.lock (.write (fun s => (Store.del env.now args.tail s).2)
      (fun s => leave (intReply (Store.del env.now args.tail s).1)))))

/-- `sadd`: `Type`, then `SAdd`. -/
def sAddCode (env : Env) (args : List Bytes) : StoreCode :=
  keyCode Cmd.sAdd env args (fun _ key members =>
    .lock (.read (fun s =>
      if (s.cell key).type env.now ≠ bytes "none" ∧ (s.cell key).type env.now ≠ bytes "set" then
        leave (.error (bytes "wrong type"))
      else
        .write (fun s => s.modify key (fun c => (c.sAdd env.now members).2)) (fun s =>
          leave (replyOf env.R ((s.cell key).sAdd env.now members).1 (fun n => [.int n]))))))

/-- `srem`: `Type`, then `SRem`. -/
def sRemCode (env : Env) (args : List Bytes) : StoreCode :=
  keyCode Cmd.sRem env args (fun _ key members =>
    .lock (.read (fun s =>
      if (s.cell key).type env.now = bytes "none" then leave (intReply 0)
      else if (s.cell key).type env.now ≠ bytes "set" then leave (.error (bytes "wrong type"))
      else
        .write (fun s => s.modify key (fun c => (c.sRem env.now members).2)) (fun s =>
          leave (replyOf env.R ((s.cell key).sRem env.now members).1 (fun n => [.int n]))))))

/-- `SINTERSTORE`, `SUNIONSTORE` and `SDIFFSTORE`: the sets are read before the lock, then `Del`
and `SAdd` replace the destination. -/
def setStoreCode (name : String) (read : SetReader)
    (env : Env) (args : List Bytes) : StoreCode :=
  countedCode name (3 ≤ ·) args (ownedCode env args.tail
    (.read (fun s =>
      match read s env.now (args.drop 2) with
      | .error e => .ret (.error (e.text env.R))
      | .ok members =>
        .lock (.write (fun s => (Store.del env.now [args.getD 1 []] s).2) (fun _ =>
          if members = [] then leave (intReply members.length)
          else
            .write (fun s => s.modify (args.getD 1 []) (fun c => (c.sAdd env.now members).2))
              (fun _ => leave (intReply members.length)))))))

/-- The words of these commands. -/
inductive CallWord where
  | mSet | mGet | set | del | sAdd | sRem | sInterStore | sUnionStore | sDiffStore

namespace CallWord

def toWord : CallWord → Word
  | mSet => .store .mSet
  | mGet => .store .mGet
  | set => .key .set
  | del => .store .del
  | sAdd => .key .sAdd
  | sRem => .key .sRem
  | sInterStore => .store .sInterStore
  | sUnionStore => .store .sUnionStore
  | sDiffStore => .store .sDiffStore

def code (env : Env) (args : List Bytes) : CallWord → StoreCode
  | mSet => mSetCode env args
  | mGet => mGetCode env args
  | set => setCode env args
  | del => delCode env args
  | sAdd => sAddCode env args
  | sRem => sRemCode env args
  | sInterStore => setStoreCode "SINTERSTORE" Store.sInter env args
  | sUnionStore => setStoreCode "SUNIONSTORE" Store.sUnion env args
  | sDiffStore => setStoreCode "SDIFFSTORE" Store.sDiff env args

end CallWord

/-! ## What a command does alone -/

/-- The part of a result that the store and the client see. -/
def Result.seen (r : Result) : Reply × Store := (r.reply, r.store)

section
variable {env : Env} {args : List Bytes} {s : Store} {k : StoreCode} {r : Result}

theorem countedCode_finish {ok : Nat → Bool} {run : StoreCmd}
    (h : k.finish s = (run env args s).seen) :
    (countedCode name ok args k).finish s = (counted name ok run env args s).seen := by
  unfold countedCode counted
  split
  · rfl
  · exact h

theorem ownedCode_finish {keys : List Bytes} (h : k.finish s = r.seen) :
    (ownedCode env keys k).finish s = (Result.owned env keys s r).seen := by
  unfold ownedCode Result.owned
  cases env.refuse keys with
  | some refusal => rfl
  | none => exact h

theorem keyCode_finish {k : Bytes → Bytes → List Bytes → StoreCode}
    (h : ∀ word key rest, (k word key rest).finish s = (cmd.act env word key rest s).seen) :
    (keyCode cmd env args k).finish s = (cmd.exec env args s).seen := by
  match args with
  | [] => rfl
  | [_] => rfl
  | word :: key :: rest =>
    unfold keyCode KeyCmd.exec
    dsimp only
    split
    · rfl
    · cases cmd.check env.R rest with
      | some e => rfl
      | none => exact ownedCode_finish (h word key rest)

theorem setAllCode_finish (pairs : List (Bytes × Bytes)) : (setAllCode pairs).finish s
      = (okReply, pairs.foldl (fun s p => s.modify p.1 (Cell.setAbsolute p.2 zeroTime)) s) := by
  induction pairs generalizing s with
  | nil => rfl
  | cons p rest ih => exact ih

theorem setStoreCode_finish {read : SetReader} :
    (setStoreCode name read env args).finish s = (setStore name read env args s).seen := by
  refine countedCode_finish (ownedCode_finish ?_)
  show (match read s env.now (args.drop 2) with
    | .error e => .ret (.error (e.text env.R))
    | .ok members => _ : StoreCode).finish s = _
  cases read s env.now (args.drop 2) with
  | error e => rfl
  | ok members =>
    by_cases hmembers : members = []
    · subst hmembers
      rfl
    · simp [Code.finish, leave, Result.seen, replaceSet, hmembers]

theorem act_of_answer {word key : Bytes} {rest : List Bytes} {reply : Reply}
    (h : cmd.run (env.at key) word rest (s.cell key) = .answer (s.cell key) reply) :
    (cmd.act env word key rest s).seen = (reply, s) := by
  unfold KeyCmd.act Result.seen
  rw [h]
  exact congrArg (Prod.mk reply) (Store.put_cell s key)

/-- The guard sees the cell that the operation then works on. -/
theorem sAddCode_finish : (sAddCode env args).finish s = (Cmd.sAdd.exec env args s).seen := by
  refine keyCode_finish (fun word key members => ?_)
  show (if _ then _ else _ : StoreCode).finish s = _
  split
  · rename_i hwrong
    exact (act_of_answer (if_pos hwrong)).symm
  · rename_i hgood
    unfold KeyCmd.act
    have hrun : Cmd.sAdd.run (env.at key) word members (s.cell key)
        = .logged env.R (word, members) ((s.cell key).sAdd env.now members) (fun n => [.int n]) :=
      if_neg hgood
    rw [hrun]
    rfl

theorem sRemCode_finish : (sRemCode env args).finish s = (Cmd.sRem.exec env args s).seen := by
  refine keyCode_finish (fun word key members => ?_)
  show (if _ then _ else if _ then _ else _ : StoreCode).finish s = _
  split
  · rename_i habsent
    exact (act_of_answer (if_pos habsent)).symm
  · rename_i hpresent
    split
    · rename_i hwrong
      exact (act_of_answer ((if_neg hpresent).trans (if_pos hwrong))).symm
    · rename_i hset
      unfold KeyCmd.act
      have hrun : Cmd.sRem.run (env.at key) word members (s.cell key)
          = .logged env.R (word, members) ((s.cell key).sRem env.now members)
              (fun n => [.int n]) :=
        (if_neg hpresent).trans (if_neg hset)
      rw [hrun]
      rfl

/-- Alone, a command made of its calls is the case of `exec`. -/
theorem CallWord.code_finish (w : CallWord) (st : State) : (w.code env args).finish st.store
      = ((execWord env args st w.toWord).1, (execWord env args st w.toWord).2.store) := by
  cases w with
  | mSet =>
    show (mSetCode env args).finish st.store = (Cmd.mSet env args st.store).seen
    exact countedCode_finish (by exact ownedCode_finish (setAllCode_finish _))
  | mGet =>
    show (mGetCode env args).finish st.store = (Cmd.mGet env args st.store).seen
    exact countedCode_finish (by exact ownedCode_finish rfl)
  | set => exact keyCode_finish (fun _ _ _ => rfl)
  | del =>
    show (delCode env args).finish st.store = (Cmd.del env args st.store).seen
    exact countedCode_finish (by exact ownedCode_finish rfl)
  | sAdd => exact sAddCode_finish
  | sRem => exact sRemCode_finish
  | sInterStore => exact setStoreCode_finish
  | sUnionStore => exact setStoreCode_finish
  | sDiffStore => exact setStoreCode_finish

end

/-! ## The lock -/

section
variable {env : Env} {args : List Bytes} {k : StoreCode}

theorem leave_guarded (reply : Reply) : (leave reply).Guarded True :=
  ⟨trivial, id, Option.some_ne_none _⟩

theorem countedCode_guarded {ok : Nat → Bool} (h : k.Guarded False) :
    (countedCode name ok args k).Guarded False := by
  unfold countedCode
  split
  · exact id
  · exact h

theorem ownedCode_guarded {keys : List Bytes} (h : k.Guarded False) :
    (ownedCode env keys k).Guarded False := by
  unfold ownedCode
  split
  · exact id
  · exact h

theorem keyCode_guarded {k : Bytes → Bytes → List Bytes → StoreCode}
    (h : ∀ word key rest, (k word key rest).Guarded False) :
    (keyCode cmd env args k).Guarded False := by
  unfold keyCode
  split
  · split
    · exact id
    · split
      · exact id
      · exact ownedCode_guarded (h _ _ _)
  · exact id

theorem setAllCode_guarded (pairs : List (Bytes × Bytes)) : (setAllCode pairs).Guarded True := by
  induction pairs with
  | nil => exact leave_guarded _
  | cons p rest ih => exact ⟨trivial, fun _ => ih⟩

theorem setStoreCode_guarded {read : SetReader} :
    (setStoreCode name read env args).Guarded False := by
  refine countedCode_guarded (ownedCode_guarded (fun s => ?_))
  dsimp only
  cases read s env.now (args.drop 2) with
  | error e => exact id
  | ok members =>
    refine ⟨id, trivial, fun _ => ?_⟩
    split
    · exact leave_guarded _
    · exact ⟨trivial, fun _ => leave_guarded _⟩

/-- Every change is made under `persistMu`. -/
theorem CallWord.code_guarded (w : CallWord) : (w.code env args).Guarded False := by
  cases w with
  | mSet =>
    show (mSetCode env args).Guarded False
    refine countedCode_guarded (ownedCode_guarded ?_)
    exact ⟨id, setAllCode_guarded _⟩
  | mGet =>
    show (mGetCode env args).Guarded False
    refine countedCode_guarded (ownedCode_guarded ?_)
    exact fun _ => id
  | set => exact keyCode_guarded (fun _ _ _ => ⟨id, trivial, fun _ => leave_guarded _⟩)
  | del =>
    show (delCode env args).Guarded False
    refine countedCode_guarded (ownedCode_guarded ?_)
    exact ⟨id, trivial, fun _ => leave_guarded _⟩
  | sAdd =>
    refine keyCode_guarded (fun _ _ _ => ⟨id, fun s => ?_⟩)
    dsimp only
    split
    · exact leave_guarded _
    · exact ⟨trivial, fun _ => leave_guarded _⟩
  | sRem =>
    refine keyCode_guarded (fun _ _ _ => ⟨id, fun s => ?_⟩)
    dsimp only
    split
    · exact leave_guarded _
    · split
      · exact leave_guarded _
      · exact ⟨trivial, fun _ => leave_guarded _⟩
  | sInterStore => exact setStoreCode_guarded
  | sUnionStore => exact setStoreCode_guarded
  | sDiffStore => exact setStoreCode_guarded

end

/-! ## Clients -/

/-- One of these commands as a client sends it. -/
structure CallRequest where
  env : Env
  args : List Bytes
  word : CallWord
  named : Word.ofArgs args = some word.toWord

namespace CallRequest

/-- Its calls. -/
def code (r : CallRequest) : StoreCode := r.word.code r.env r.args

/-- `exec` on the whole command: the reply, and the store after it. -/
def exec (r : CallRequest) (s : Store) : Reply × Store :=
  let done := Server.exec r.env r.args { State.new with store := s }
  (done.1, done.2.store)

theorem code_finish (r : CallRequest) (s : Store) : r.code.finish s = r.exec s := by
  have hplain : r.word.toWord ≠ .eval ∧ r.word.toWord ≠ .evalSha := by
    cases r.word <;> exact ⟨nofun, nofun⟩
  unfold exec
  rw [exec_of_word r.named hplain.1 hplain.2]
  exact r.word.code_finish { State.new with store := s }

end CallRequest

/-- **When commands look atomic.** Clients send commands in any interleaving of their calls. If no
`MGET` and no first call of a `STORE` command comes between two calls of a command that has begun
to change the store, and no change comes between the first call of a `STORE` command and its
last, the replies and the store are those of whole commands in some serial order. -/
theorem commands_serializable {κ : Type} [DecidableEq κ] {script : κ → List CallRequest} {s : Store}
    {x : System κ CallRequest Store Reply}
    (hrun : Reaches (System.step CallRequest.code) System.Careful (System.start s script) x)
    (hdone : x.Finished) : x.Serializable CallRequest.exec script s :=
  serializable_of_careful (fun r => r.word.code_guarded) CallRequest.code_finish hrun hdone

/-- `MSET a 1 b 1` -/
def setPair : CallRequest :=
  ⟨Env.plain integralRuntime 1, [bytes "MSET", bytes "a", bytes "1", bytes "b", bytes "1"], .mSet,
    rfl⟩

/-- `MGET a b` -/
def getPair : CallRequest :=
  ⟨Env.plain integralRuntime 1, [bytes "MGET", bytes "a", bytes "b"], .mGet, rfl⟩

/-- `SINTERSTORE b a` -/
def interPair : CallRequest :=
  ⟨Env.plain integralRuntime 1, [bytes "SINTERSTORE", bytes "b", bytes "a"], .sInterStore, rfl⟩

/-- Two clients with one command each. -/
def pairOf (first second : CallRequest) (client : Bool) : List CallRequest :=
  [if client then second else first]

/-- `MGET a b` comes after `MSET a 1 b 1` has taken the lock and before its first call. -/
theorem commands_serializable_pair : ∃ x : System Bool CallRequest Store Reply,
      Reaches (System.step CallRequest.code) System.Careful
        (System.start Store.new (pairOf setPair getPair)) x ∧ x.Finished ∧
      x.Serializable CallRequest.exec (pairOf setPair getPair) Store.new := by
  suffices h : ∃ x, Reaches (System.step CallRequest.code) System.Careful _ x ∧ x.Finished from
    h.imp (fun _ hx => ⟨hx.1, hx.2, commands_serializable hx.1 hx.2⟩)
  refine ⟨_, reaches_of_runMeets ?_ (show runAll _ _
    [false, false, true, true, false, false, true, false, false] = some _ from rfl), ?_⟩
  · refine ⟨trivial, trivial, trivial, .inr ?_, ?_, ?_, trivial, trivial, trivial, trivial⟩
    all_goals
      rintro (_ | _) hq
      all_goals first | rfl | exact absurd rfl hq
  · intro p
    cases p <;> exact ⟨rfl, rfl⟩

/-- **Two ways to tell.** An `MGET a b` between the two calls of `MSET a 1 b 1` sees the new `a`
and no `b`. And `SINTERSTORE b a` finds no `a`, is overtaken by `MSET a 1 b 1`, and deletes the new
`b`: whole, it would have left `b` to `MSET`, or refused an `a` of the wrong type. -/
theorem half_and_stale_reads :
    let Anomaly := fun a b => ∃ x : System Bool CallRequest Store Reply,
      Reaches (System.step CallRequest.code) (fun _ _ => True)
        (System.start Store.new (pairOf a b)) x ∧ x.Finished ∧
      ¬ x.Serializable CallRequest.exec (pairOf a b) Store.new
    Anomaly setPair getPair ∧ Anomaly setPair interPair := by
  refine ⟨⟨_, reaches_of_runAll (show runAll _ _
      [false, false, false, true, true, true, false, false, false] = some _ from rfl), ?_, ?_⟩,
    ⟨_, reaches_of_runAll (show runAll _ _
      [true, true, false, false, false, false, false, false, true, true, true, true]
        = some _ from rfl), ?_, ?_⟩⟩
  · intro p
    cases p <;> exact ⟨rfl, rfl⟩
  · rintro ⟨order, hjobs, hserved⟩
    have hreply := congrArg (fun y => y.replies true) hserved
    rcases order_of_two (fun p => if p then getPair else setPair) hjobs with rfl | rfl
    · cases hreply
    · cases hreply
  · intro p
    cases p <;> exact ⟨rfl, rfl⟩
  · rintro ⟨order, hjobs, hserved⟩
    have hreply := congrArg (fun y => y.replies true) hserved
    have hb := congrArg (fun y => (y.st.entries (bytes "b")).kv) hserved
    rcases order_of_two (fun p => if p then interPair else setPair) hjobs with rfl | rfl
    · cases hreply
    · cases hb

end Vole.Server
