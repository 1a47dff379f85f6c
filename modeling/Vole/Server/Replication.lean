import Vole.Server.Replicated
import Vole.Server.ReadOnly

/-!
# A leader and its follower, one command at a time

A client's commands come one after the other, and each write is handed to the follower before
the next command. Three tables have to agree for the stores to stay equal: the commands that
change the store, those that `isWriteCommand` hands on, and those that
`applyReplicatedCommand` understands, in the form in which the client wrote them.
-/

namespace Vole.Server

open Go Cmd Transition

/-! ## One command -/

/-- The condition of one case of `exec`, for commands that a leader hands on. -/
def Word.Followed (env : Env) (args : List Bytes) (s : Store) : Word → Prop
  | .key w => ∀ word key rest, args = word :: key :: rest →
      env.refuse [key] = none ∧ w.Followed (env.at key) rest (s.entries key)
  | .store w => w.Followed env args s
  | _ => False

/-- The command changes nothing, or it is handed on and the follower does the same with it. -/
def Followed (env : Env) (args : List Bytes) (s : Store) : Prop :=
  Harmless env s args ∨ ∃ w, Word.ofArgs args = some w ∧ w.Followed env args s

/-- No word of `isWriteCommand` has a harmless case in `exec`, and one without a case there has
none in the follower's table. -/
theorem writeWords_change : writeWords.all (fun text =>
    match Word.parse (bytes text) with
    | none => (RecordWord.parse (bytes text)).isNone
    | some (.key w) => !w.reads
    | some (.store w) => !w.reads && decide (w ≠ .info)
    | some _ => false) = true := by
  decide +kernel

section
variable {env : Env} {args : List Bytes} {s t : Store}

theorem applyReplicated_harmless (h : Harmless env s args)
    (hwrite : isWriteCommand (toUpper (args.headD [])) = true) :
    applyReplicatedCommand env.R env.now args t = t := by
  obtain ⟨text, hmem, htext⟩ := List.any_eq_true.mp hwrite
  have htext : toUpper (args.headD []) = bytes text := of_decide_eq_true htext
  have hentry := List.all_eq_true.mp writeWords_change text hmem
  rw [← htext] at hentry
  cases hw : Word.parse (toUpper (args.headD [])) with
  | none =>
    rw [hw] at hentry
    have hnone : RecordWord.ofArgs args = none := Option.isNone_iff_eq_none.mp hentry
    unfold applyReplicatedCommand
    rw [hnone]
  | some w =>
    rw [hw] at hentry
    have hword : Word.ofArgs args = some w := hw
    have hcase (heval : w ≠ .eval) (hevalSha : w ≠ .evalSha) : w.Harmless env.now s := by
      refine (h args ?_).2 w hword
      rw [expand_of_word hword heval hevalSha]
      exact List.mem_singleton_self args
    cases w with
    | key w =>
      have hreads : w.reads = true := hcase (by simp) (by simp)
      exact absurd hentry (by simp [hreads])
    | store w =>
      rcases hcase (by simp) (by simp) with hreads | ⟨hinfo, -⟩
      · exact absurd hentry (by simp [hreads])
      · exact absurd hentry (by simp [hinfo])
    | _ => cases hentry

theorem applyReplicated_key {word key : Bytes} {rest : List Bytes} {w : KeyRecordWord}
    (hne : w ≠ .lRem) (hword : toUpper word = bytes (RecordWord.text (.key w))) :
    applyReplicatedCommand env.R env.now (word :: key :: rest) t
      = t.modify key (w.run parseIntValue env.R env.now rest) := by
  have hof : RecordWord.ofArgs (word :: key :: rest) = some (.key w) := by
    unfold RecordWord.ofArgs
    rw [List.headD_cons, hword, RecordWord.parse_text]
  unfold applyReplicatedCommand
  rw [hof]
  cases w <;> first | rfl | exact absurd rfl hne

theorem applyReplicated_store {w : StoreRecordWord} (hne : w ≠ .sMove)
    (hword : toUpper (args.headD []) = bytes (RecordWord.text (.store w))) :
    applyReplicatedCommand env.R env.now args t = w.run env.now args t := by
  have hof : RecordWord.ofArgs args = some (.store w) := by
    unfold RecordWord.ofArgs
    rw [hword, RecordWord.parse_text]
  unfold applyReplicatedCommand
  rw [hof]
  cases w <;> first | rfl | exact absurd rfl hne

theorem KeyWord.isWrite_of_followed {w : KeyWord} {env : KeyEnv} {rest : List Bytes} {e : Entry}
    (h : w.Followed env rest e) : isWriteCommand (bytes w.text) = true := by
  cases w <;> first | exact absurd h id | decide

theorem StoreWord.isWrite_of_followed {w : StoreWord} (h : w.Followed env args s) :
    isWriteCommand (bytes w.text) = true := by
  cases w <;> first | exact absurd h id | decide

/-- What is left of a command and of its words on a follower that held the same. -/
structure Agrees (args : List Bytes) (env : Env) (t : Store) (r : Result) : Prop where
  sent : r.reply.isOk = true → r.store.Same (applyReplicatedCommand env.R env.now args t)
  kept : r.reply.isOk = false → r.store.Same t

theorem agrees_fail (h : s.Same t) (err : Bytes) : Agrees args env t (.fail s err) :=
  ⟨nofun, fun _ => h⟩

theorem agrees_key {w : KeyWord} (hR : FloatLaws env.R) (hnow : 0 ≤ env.now) (h : s.Same t)
    (hword : toUpper (args.headD []) = bytes w.text)
    (hfol : (Word.key w).Followed env args s) : Agrees args env t (w.cmd.exec env args s) := by
  unfold KeyCmd.exec
  split
  · rename_i word key rest
    obtain ⟨hserved, hfol⟩ := hfol word key rest rfl
    split
    · exact agrees_fail h _
    rename_i harity
    split
    · exact agrees_fail h _
    have hkey : s.cell key = t.cell key := h.cell_eq key
    obtain ⟨rw', hne, htext, hfollows⟩ := KeyWord.follows word hR hnow (by simpa using harity) hfol
    unfold Result.owned
    rw [hserved]
    refine ⟨fun hok => ?_, fun herr => ?_⟩
    · rw [applyReplicated_key hne (by rw [htext]; exact hword)]
      refine h.put Function.injective_id key ?_
      rw [← hkey]
      exact (hfollows.sent hok).symm
    · have hput : (s.put key (w.cmd.run (env.at key) word rest (s.cell key)).cell).Same
          (t.put key (t.cell key)) := by
        refine h.put Function.injective_id key ?_
        rw [← hkey]
        exact hfollows.kept herr
      rwa [Store.put_cell] at hput
  · exact agrees_fail h _

theorem agrees_store {w : StoreWord} (h : s.Same t)
    (hword : toUpper (args.headD []) = bytes w.text) (hfol : w.Followed env args s) :
    Agrees args env t (w.cmd env args s) := by
  obtain ⟨rw', hne, htext, hfollows⟩ := StoreWord.follows hfol
  refine ⟨fun hok => ?_, fun herr => ?_⟩
  · rw [hfollows.sent hok, applyReplicated_store hne (by rw [htext]; exact hword)]
    exact rw'.run_same h args
  · rw [hfollows.kept herr]
    exact h

/-- **One command.** The leader runs it, and hands it on if it is a write that succeeded; then
both stores hold the same again. -/
theorem exec_follows {st : State} (hR : FloatLaws env.R) (hnow : 0 ≤ env.now)
    (h : st.store.Same t) (hfol : Followed env args st.store) : (exec env args st).2.store.Same
      (if propagated args (exec env args st).1 then applyReplicatedCommand env.R env.now args t
        else t) := by
  rcases hfol with hharmless | ⟨w, hw, hfol⟩
  · rw [exec_store hharmless]
    split
    · rename_i hsent
      rw [applyReplicated_harmless hharmless (Bool.and_eq_true_iff.mp hsent).1]
      exact h
    · exact h
  -- a case that is handed on if it succeeds
  have htext := Word.text_of_parse hw
  have hstep (r : Result) (hr : execWord env args st w = st.take r)
      (hwrite : r.reply.isOk = true → isWriteCommand (toUpper (args.headD [])) = true)
      (hagrees : Agrees args env t r) (heval : w ≠ .eval) (hevalSha : w ≠ .evalSha) :
      (exec env args st).2.store.Same
        (if propagated args (exec env args st).1 then
          applyReplicatedCommand env.R env.now args t else t) := by
    rw [exec_of_word hw heval hevalSha, hr]
    show r.store.Same (if isWriteCommand (toUpper (args.headD [])) && r.reply.isOk then
      applyReplicatedCommand env.R env.now args t else t)
    cases hok : r.reply.isOk with
    | true =>
      rw [hwrite hok]
      exact hagrees.sent hok
    | false =>
      rw [Bool.and_false]
      exact hagrees.kept hok
  cases w with
  | key w =>
    refine hstep _ rfl (fun hok => ?_) (agrees_key hR hnow h htext hfol) (by simp) (by simp)
    rw [htext]
    match args, hfol with
    | [], _ => cases hok
    | [_], _ => cases hok
    | word :: key :: rest, hfol => exact KeyWord.isWrite_of_followed (hfol word key rest rfl).2
  | store w =>
    refine hstep _ rfl (fun _ => ?_) (agrees_store h htext hfol) (by simp) (by simp)
    rw [htext]
    exact StoreWord.isWrite_of_followed hfol
  | _ => exact absurd hfol id

end

/-! ## Runs -/

/-- A leader and a follower that is registered with it. -/
structure Pair where
  leader : State
  follower : Store

namespace Pair

/-- A client's command at the leader; what is handed on reaches the follower at once. -/
def step (p : Pair) (call : ClientCall) : Option Pair :=
  let (_, st, handed) := runCommand call.node call.env call.args p.leader
  some ⟨st, handed.elim p.follower
    (applyReplicatedCommand call.env.R call.env.now · p.follower)⟩

/-- The leader takes the command, nothing is evicted, and the tables agree on it. -/
structure Meets (R : Runtime) (p : Pair) (call : ClientCall) : Prop where
  leads : call.node.isReplica = false
  keeps : call.node.victims = []
  runtime : call.env.R = R
  clock : 0 ≤ call.env.now
  followed : Followed call.env call.args p.leader.store

end Pair

theorem runCommand_follows {call : ClientCall} {st : State} {t : Store}
    (hleads : call.node.isReplica = false) (hkeeps : call.node.victims = [])
    (hR : FloatLaws call.env.R) (hnow : 0 ≤ call.env.now) (h : st.store.Same t)
    (hfol : Followed call.env call.args st.store) :
    (runCommand call.node call.env call.args st).2.1.store.Same
      ((runCommand call.node call.env call.args st).2.2.elim t
        (applyReplicatedCommand call.env.R call.env.now · t)) := by
  have hexec := exec_follows hR hnow h hfol
  unfold runCommand
  by_cases hwrite : isWriteCommand (toUpper (call.args.headD [])) = true
  · have hevict : { st with store := st.store.evict call.node.victims } = st := by
      rw [hkeeps]
      rfl
    rw [if_pos hwrite, hleads, if_neg (by simp), hevict]
    cases call.node.oom with
    | some e => exact h
    | none =>
      dsimp only
      split at hexec
      · rename_i hsent
        rw [if_pos hsent]
        exact hexec
      · rename_i hsent
        rw [if_neg hsent]
        exact hexec
  · -- not a write, so nothing is handed on
    have hsent : propagated call.args (exec call.env call.args st).1 = false := by
      unfold propagated
      rw [Bool.not_eq_true] at hwrite
      rw [hwrite, Bool.false_and]
    rw [if_neg (by rw [hsent]; exact Bool.false_ne_true)] at hexec
    rw [if_neg hwrite]
    exact hexec

/-- **The follower equals the leader.** From equal stores, in every run of commands that meet
their conditions, each key holds on the follower after every command what it holds on the
leader, and so does the counter of queue messages. -/
theorem follower_equals_leader {R : Runtime} (hR : FloatLaws R) {p q : Pair}
    (hstart : p.leader.store.Same p.follower) (hrun : Reaches Pair.step (Pair.Meets R) p q) :
    (∀ key, q.follower.entries key = q.leader.store.entries key) ∧
      q.follower.queueSeq = q.leader.store.queueSeq := by
  have hstep : ∀ (u v : Pair) (call : ClientCall), u.leader.store.Same u.follower →
      u.Meets R call → u.step call = some v → v.leader.store.Same v.follower := by
    rintro u v call hsame ⟨hleads, hkeeps, rfl, hnow, hfol⟩ hen
    cases hen
    exact runCommand_follows hleads hkeeps hR hnow hsame hfol
  have hsame : q.leader.store.Same q.follower := hrun.invariant hstart hstep
  exact ⟨fun key => (hsame.inside key).symm, hsame.queueSeq.symm⟩

/-- A leader and a follower that both hold one key. -/
def pairStart : Pair :=
  let s := Store.new.modify (bytes "k") (Cell.setAbsolute (bytes "a") zeroTime)
  ⟨⟨s, [], none⟩, s⟩

def leaderCall (words : List String) : ClientCall :=
  ⟨Node.leader [], Env.plain integralRuntime 0, words.map bytes⟩

theorem follower_equals_leader_writes :
    ∃ q, runAll Pair.step pairStart [leaderCall ["SET", "k", "b", "EX", "10"],
        leaderCall ["RPUSH", "l", "x", "y"], leaderCall ["INCR", "n"],
        leaderCall ["GET", "k"]] = some q ∧
      (∀ key, q.follower.entries key = q.leader.store.entries key) ∧
        q.follower.queueSeq = q.leader.store.queueSeq := by
  have hstart : pairStart.leader.store.Same pairStart.follower := .refl (fun _ => rfl)
  refine exists_of_runMeets (Pair.Meets integralRuntime) ?_ rfl
    (follower_equals_leader floatLaws_integral hstart)
  refine ⟨⟨rfl, rfl, rfl, le_refl _, .inr ⟨.key .set, by decide +kernel, ?_⟩⟩,
    ⟨rfl, rfl, rfl, le_refl _, .inr ⟨.store .rPush, by decide +kernel, rfl⟩⟩,
    ⟨rfl, rfl, rfl, le_refl _, .inr ⟨.key .incr, by decide +kernel, fun _ _ _ _ =>
      ⟨rfl, trivial⟩⟩⟩,
    ⟨rfl, rfl, rfl, le_refl _, .inl (ClientSession.harmless_of_onlyReads (by decide +kernel))⟩,
    trivial⟩
  intro word key rest hargs
  cases hargs
  refine ⟨rfl, fun o ho => ?_⟩
  have hopts : (setOptions integralRuntime (["b", "EX", "10"].map bytes)).toOption.map
      (fun o => (o.ttl, o.delay, o.useNX, o.useXX)) = some (10 * second, 0, false, false) := by
    decide +kernel
  have ho : setOptions integralRuntime (["b", "EX", "10"].map bytes) = .ok o := ho
  rw [ho] at hopts
  obtain ⟨⟨⟩⟩ : o = ⟨10 * second, 0, false, false⟩ := by
    obtain ⟨ttl, delay, nx, xx⟩ := o
    cases hopts
    rfl
  exact ⟨by decide +kernel, by decide, by simp, by simp⟩

/-- A `SET` with `NX` on a key that exists is refused by the leader, but that is no error: the
follower is handed the words and sets the key. -/
theorem refused_set_applied : pairStart.leader.store = pairStart.follower ∧
      ∃ q, runAll Pair.step pairStart [leaderCall ["SET", "k", "b", "NX"]] = some q ∧
        (q.leader.store.entries (bytes "k")).get 0 = some (bytes "a") ∧
        (q.follower.entries (bytes "k")).get 0 = some (bytes "b") := by
  exact ⟨rfl, _, rfl, by decide +kernel, by decide +kernel⟩

end Vole.Server
