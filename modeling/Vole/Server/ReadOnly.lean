import Vole.Server.Connection
import Vole.Server.Recovery

/-!
# What a client can do to a follower

A follower is meant to be read-only. The gate of `handleConn` is a list of words, and it is
asked only for a single command outside a transaction: `EXEC` and scripts go past it, and
words that are missing in the list (`UNLINK`, `GETEX`, `LMOVE`, ...) are run. So are `CRON.ADD`,
whose jobs never meet the gate, and `REPLICAOF`, which brings in another leader's data.
-/

namespace Vole.Server

open Go Transition

variable {args : List Bytes} {env : Env} {st : State}

/-! ## Commands that change nothing -/

/-- No key waits to be removed. -/
def Unexpired (now : Time) (s : Store) : Prop := ∀ k, (s.entries k).expired now = false

/-- A case of `exec` that does not change the store: one that reads, or one that at most removes
expired keys, of which there are none. -/
def Word.Harmless (now : Time) (s : Store) : Word → Prop
  | .key w => w.reads = true
  | .store w => w.reads = true ∨ (w = .info ∧ Unexpired now s)
  | .flushDB | .flushAll => False
  | .save | .bgSave => Unexpired now s
  | .eval | .evalSha => True

/-- Every command that `exec` runs for `args` has such a case, or none, and leaves nothing behind
that writes later. -/
def Harmless (env : Env) (s : Store) (args : List Bytes) : Prop :=
  ∀ call ∈ expand env args, AtOnce call = true ∧
    ∀ w, Word.ofArgs call = some w → w.Harmless env.now s

theorem KeyWord.exec_store {w : KeyWord} (h : w.reads = true) (env : Env) (args : List Bytes)
    (s : Store) : (w.cmd.exec env args s).store = s := by
  rcases w.cmd.exec_cases env args s with ⟨word, key, rest, -, -, -, -, heq⟩ | ⟨_, heq, -⟩
  · rw [heq]
    show s.put key (w.cmd.run (env.at key) word rest (s.cell key)).cell = s
    rw [(KeyWord.still h _ word rest _).cell, Store.put_cell]
  · rw [heq]
    rfl

theorem execWord_store {w : Word}
    (h : w.Harmless env.now st.store) : (execWord env args st w).2.store = st.store := by
  have hsave : ∀ name done, Unexpired env.now st.store →
      (st.saveCmd name done env args).2.store = st.store := by
    intro name done hfresh
    unfold State.saveCmd
    split
    · rfl
    · split
      · rfl
      · exact purgeExpired_of_fresh hfresh
  cases w with
  | key w => exact KeyWord.exec_store h env args st.store
  | store w =>
    rcases h with hreads | ⟨rfl, hfresh⟩
    · exact (StoreWord.still hreads env args st.store).store
    · exact purgeExpired_of_fresh hfresh
  | flushDB => exact absurd h id
  | flushAll => exact absurd h id
  | save => exact hsave _ _ h
  | bgSave => exact hsave _ _ h
  | eval => rfl
  | evalSha => rfl

/-- **A harmless command leaves the store as it is**, scripts included. -/
theorem exec_store (h : Harmless env st.store args) : (exec env args st).2.store = st.store := by
  refine exec_invariant (P := fun t => t.store = st.store) rfl ?_
  intro call hcall w hw t ht
  have hharmless : w.Harmless env.now t.store := by
    rw [ht]
    exact (h call hcall).2 w hw
  exact (execWord_store hharmless).trans ht

/-! ## A connection to a follower -/

/-- One connection, and the server behind it. -/
structure ClientSession where
  conn : Conn
  st : State

namespace ClientSession

def step (x : ClientSession) (call : ClientCall) : Option ClientSession :=
  let r := handleCommand call.node call.env call.args x.conn x.st
  some ⟨r.2.1, r.2.2⟩

/-- The role is that of a follower, and the command is one the gate is enough for: the queue of
an `EXEC` is harmless, and so is a command that `isWriteCommand` does not know. -/
structure Gated (x : ClientSession) (call : ClientCall) : Prop where
  replica : call.node.isReplica = true
  single : call.node.multiMaster = false
  sync : (toUpper (call.args.headD []) = bytes "REPLSYNC" ∨
    (toUpper (call.args.headD []) = bytes "REPLPEER" ∧ call.args.length = 3)) →
      Unexpired call.env.now x.st.store
  queued : toUpper (call.args.headD []) = bytes "EXEC" → x.conn.active = true →
    ∀ args ∈ x.conn.queue, Harmless call.env x.st.store args
  unlisted : x.conn.active = false → isWriteCommand (toUpper (call.args.headD [])) = false →
    Harmless call.env x.st.store (prefixKeyArgs call.args x.conn.nsPrefix)

/-- A command of which `exec` finds only reading cases. -/
def onlyReads (env : Env) (args : List Bytes) : Bool :=
  (expand env args).all (fun call => AtOnce call &&
    match Word.ofArgs call with
    | none => true
    | some (.key w) => w.reads
    | some (.store w) => w.reads
    | some _ => false)

theorem harmless_of_onlyReads {s : Store} (h : onlyReads env args = true) : Harmless env s args := by
  intro call hcall
  obtain ⟨hatOnce, hone⟩ := Bool.and_eq_true_iff.mp (List.all_eq_true.mp h call hcall)
  refine ⟨hatOnce, fun w hw => ?_⟩
  rw [hw] at hone
  cases w with
  | key w => exact hone
  | store w => exact .inl hone
  | _ => cases hone

/-- A follower's client that queues reading commands and sends reading or listed ones. -/
def reads (x : ClientSession) (call : ClientCall) : Bool :=
  let cmd := toUpper (call.args.headD [])
  call.node.isReplica && !call.node.multiMaster
    && cmd != bytes "REPLSYNC" && cmd != bytes "REPLPEER"
    && x.conn.queue.all (onlyReads call.env)
    && (isWriteCommand cmd || onlyReads call.env (prefixKeyArgs call.args x.conn.nsPrefix))

theorem Gated.of_reads {x : ClientSession} {call : ClientCall} (h : x.reads call = true) :
    x.Gated call := by
  unfold reads at h
  simp only [Bool.and_eq_true, Bool.not_eq_true', bne_iff_ne, ne_eq] at h
  obtain ⟨⟨⟨⟨⟨hreplica, hsingle⟩, hsync⟩, hpeer⟩, hqueue⟩, hlisted⟩ := h
  refine ⟨hreplica, hsingle, ?_, ?_, ?_⟩
  · rintro (h | ⟨h, _⟩)
    · exact absurd h hsync
    · exact absurd h hpeer
  · intro _ _ args hargs
    exact harmless_of_onlyReads (List.all_eq_true.mp hqueue args hargs)
  · intro _ hwrite
    rw [hwrite, Bool.false_or] at hlisted
    exact harmless_of_onlyReads hlisted

end ClientSession

theorem handleCommand_store {x : ClientSession} {call : ClientCall} (h : x.Gated call) :
    (handleCommand call.node call.env call.args x.conn x.st).2.2.store = x.st.store := by
  have hexec : ∀ args, Harmless call.env x.st.store args → ∀ t : State, t.store = x.st.store →
      (exec call.env args t).2.store = x.st.store := by
    intro args hargs t ht
    rw [← ht] at hargs
    exact (exec_store hargs).trans ht
  have hgate : (call.node.isReplica && !call.node.multiMaster) = true := by
    rw [h.replica, h.single]
    rfl
  refine handleCommand_invariant (P := fun t => t.store = x.st.store) rfl
    (fun hsync => purgeExpired_of_fresh (h.sync hsync)) ?_ ?_
  · intro hcmd hactive
    exact execQueue_invariant (P := fun t => t.store = x.st.store) rfl
      (fun q hq => hexec q (h.queued hcmd hactive q hq))
  · intro _ hactive
    refine runCommand_invariant (P := fun t => t.store = x.st.store) rfl
      (fun hopen => absurd hgate (by simp [hopen])) ?_
    -- a listed word is refused
    intro hopen
    refine hexec _ (h.unlisted hactive ?_)
    rw [headD_prefixKeyArgs, hgate] at hopen
    simpa using hopen

/-- **In every run of commands that the gate is enough for, a follower's store stays as it is.** -/
theorem follower_read_only {x y : ClientSession}
    (hrun : Reaches ClientSession.step ClientSession.Gated x y) : y.st.store = x.st.store := by
  have hstart : x.st.store = x.st.store := rfl
  have hstep : ∀ t u call, t.st.store = x.st.store → ClientSession.Gated t call →
      ClientSession.step t call = some u → u.st.store = x.st.store := by
    intro t u call hsame hgated hen
    cases hen
    exact (handleCommand_store hgated).trans hsame
  exact hrun.invariant hstart hstep

/-- A client of a follower that holds one key. -/
def followerSession : ClientSession :=
  ⟨Conn.new, ⟨Store.new.modify (bytes "k") (Cell.setAbsolute (bytes "a") zeroTime), [], none⟩⟩

def followerCall (words : List String) : ClientCall :=
  ⟨Node.follower, Env.plain integralRuntime 0, words.map bytes⟩

/-- A reader's session: a `GET` in a transaction, a refused `SET`, and `KEYS`. -/
theorem follower_read_only_reader : ∃ y, runAll ClientSession.step followerSession
        [followerCall ["MULTI"], followerCall ["GET", "k"], followerCall ["EXEC"],
          followerCall ["SET", "k", "b"], followerCall ["KEYS", "*"]] = some y ∧
      y.st.store = followerSession.st.store := by
  have hreads : ∀ {x call}, ClientSession.reads x call = true → x.Gated call := .of_reads
  exact exists_of_runMeets ClientSession.Gated ⟨hreads (by decide +kernel), hreads (by decide +kernel),
    hreads (by decide +kernel), hreads (by decide +kernel), hreads (by decide +kernel), trivial⟩ rfl
    follower_read_only

/-- A `SET` that comes in a transaction is not refused: the follower's key is overwritten. -/
theorem follower_overwritten :
    (followerSession.st.store.entries (bytes "k")).get 0 = some (bytes "a") ∧
      ∃ y, runAll ClientSession.step followerSession
          [followerCall ["MULTI"], followerCall ["SET", "k", "b"], followerCall ["EXEC"]] = some y ∧
        (y.st.store.entries (bytes "k")).get 0 = some (bytes "b") := by
  exact ⟨by decide +kernel, _, rfl, by decide +kernel⟩

end Vole.Server
