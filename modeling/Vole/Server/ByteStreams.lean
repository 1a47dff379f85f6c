import Vole.Server.Recovery
import Vole.Server.Scanning
import Vole.Server.Convergence
import Vole.Resp.RoundTrip

/-!
# The log and the replication link as bytes

`Recovery` replays a list of records, and in `Replication` a follower is handed the words of a
command. Here the bytes are read that `AOF.Append` wrote to the file and `PropagateToReplicas`
to a connection.
-/

namespace Vole.Server

open Vole.Go Vole.Resp List Transition

variable {R : Runtime} {now : Time}

/-! ## The append-only file -/

theorem scan_written {crc : Bytes → UInt32} {records : List Record}
    (hfits : ∀ args ∈ records, FitsScanner args) : (scan (written crc records)).2 = none := by
  induction records with
  | nil => rfl
  | cons args records ih =>
    show (scan (appendLine crc args ++ written crc records)).2 = none
    rw [scan_appendLine, if_pos (hfits args (.head _))]
    exact ih fun a ha => hfits a (.tail _ ha)

/-- **A restart from the bytes of the log.** From an empty store, in every run whose commands
meet their conditions and whose records pass the codec and the scanner, `ReplayAOF` reads the
file without an error, and each key holds what it held in the live store. -/
theorem restart_from_bytes (crc : Bytes → UInt32) (hR : FloatLaws R) (hnow : InEpoch now)
    {st : State} (hrun : Reaches serve (Meets R now) State.new st)
    (hrecords : ∀ args ∈ st.aof, Readable args ∧ FitsScanner args) :
    ∃ s, replayScanned crc R now (written crc st.aof) Store.new = (s, none) ∧
      ∀ key, s.entries key = st.store.entries key := by
  have hinv := recovers_of_reaches hR hnow hrun
  have hscan : (replayScanned crc R now (written crc st.aof) Store.new).2 = none :=
    scan_written fun args hargs => (hrecords args hargs).2
  refine ⟨_, Prod.ext ?_ hscan, fun key => (hinv.inside key).symm⟩
  rw [replayScanned_eq hscan, replayAOF_written crc fun args hargs => (hrecords args hargs).1]

theorem restart_from_bytes_two :
    let st := serveAll (Env.plain integralRuntime 1)
      [[bytes "INCR", bytes "k"], [bytes "RPUSH", bytes "l", bytes "a", bytes "b"]] State.new
    ∃ s, replayScanned checksumIEEE integralRuntime 1 (written checksumIEEE st.aof) Store.new
        = (s, none) ∧ ∀ key, s.entries key = st.store.entries key := by
  refine restart_from_bytes checksumIEEE floatLaws_integral ⟨by decide, by decide⟩ ?_
    (by decide +kernel)
  refine reaches_serveAll rfl rfl ⟨?_, ?_, trivial⟩ .refl
  · exact recorded_of rfl rfl (fun _ _ _ _ => trivial)
  · exact recorded_of (w := .store .rPush) rfl rfl trivial

/-! ## The replication link -/

/-- The loop of `syncFromLeader` behind the snapshot, on all the bytes that arrive, with the
fault of the reader that ends it. -/
def streamCommands (R : Runtime) (now : Time) : Nat → Bytes → Store → Option (Store × Fault)
  | 0, _, _ => none
  | fuel + 1, input, t =>
    match readCommand input with
    | .error fault => some (t, fault)
    | .ok (args, rest) =>
      let cmd := toUpper (args.headD [])
      -- keep-alives are not applied
      if args.length = 0 ∨ cmd = bytes "PING" ∨ cmd = bytes "PONG" then
        streamCommands R now fuel rest t
      else streamCommands R now fuel rest (applyReplicatedCommand R now args t)

/-- The follower after these commands. -/
def applyCommands (R : Runtime) (now : Time) (commands : List (List Bytes)) (t : Store) : Store :=
  commands.foldl (fun t args => applyReplicatedCommand R now args t) t

theorem streamCommands_written {commands : List (List Bytes)} (h : ∀ args ∈ commands, Held args)
    (t : Store) (fuel : Nat) :
    streamCommands R now (commands.length + 1 + fuel) (commands.flatMap writeCommand) t
      = some (applyCommands R now commands t, .err .eof) := by
  induction commands generalizing t with
  | nil =>
    rw [Nat.add_right_comm]
    rfl
  | cons args commands ih =>
    have hrest := ih (fun a ha => h a (.tail _ ha)) (applyReplicatedCommand R now args t)
    rw [length_cons, Nat.add_right_comm, flatMap_cons, streamCommands,
      readCommand_writeCommand (h args (.head _))]
    dsimp only
    split
    · -- the table has no entry for what is skipped
      rename_i hskip
      have hnone : RecordWord.ofArgs args = none := by
        unfold RecordWord.ofArgs
        rcases hskip with hnil | hping | hpong
        · rw [length_eq_zero_iff.mp hnil]
          rfl
        · rw [hping]
          decide +kernel
        · rw [hpong]
          decide +kernel
      have hsame : applyReplicatedCommand R now args t = t := by
        unfold applyReplicatedCommand
        rw [hnone]
      nth_rewrite 1 [hsame] at hrest
      exact hrest
    · exact hrest

/-- A leader, and the bytes that `PropagateToReplicas` has written to a follower. -/
structure Wired where
  leader : State
  sent : Bytes

namespace Wired

/-- A client's command at the leader. -/
def step (x : Wired) (call : ClientCall) : Option Wired :=
  let r := runCommand call.node call.env call.args x.leader
  some ⟨r.2.1, x.sent ++ r.2.2.elim [] writeCommand⟩

/-- As in `Pair.Meets`, with the clock standing still and a command that a process can hold. -/
structure Meets (R : Runtime) (now : Time) (x : Wired) (call : ClientCall) : Prop where
  leads : call.node.isReplica = false
  keeps : call.node.victims = []
  runtime : call.env.R = R
  clock : call.env.now = now
  followed : Followed call.env call.args x.leader.store
  held : Held call.args

/-- The bytes are those of commands that lead to the store of the leader. -/
def Inv (R : Runtime) (now : Time) (t : Store) (x : Wired) : Prop :=
  ∃ commands : List (List Bytes), x.sent = commands.flatMap writeCommand ∧
    (∀ args ∈ commands, Held args) ∧ x.leader.store.Same (applyCommands R now commands t)

theorem Inv.step {x y : Wired} {t : Store} {call : ClientCall} (hR : FloatLaws R)
    (hnow : 0 ≤ now) (h : x.Inv R now t) (hmeets : x.Meets R now call)
    (hstep : x.step call = some y) : y.Inv R now t := by
  obtain ⟨hleads, hkeeps, rfl, rfl, hfol, hheld⟩ := hmeets
  obtain ⟨commands, hsent, hcommands, hsame⟩ := h
  have hfollows := runCommand_follows hleads hkeeps hR hnow hsame hfol
  rw [← Option.some.inj hstep]
  unfold Inv
  dsimp only
  rcases runCommand_handed call.node call.env call.args x.leader with hnone | hsome
  · rw [hnone] at hfollows ⊢
    exact ⟨commands, by simp [hsent], hcommands, hfollows⟩
  · rw [hsome] at hfollows ⊢
    refine ⟨commands ++ [call.args], by simp [hsent], fun args hargs => ?_, ?_⟩
    · rcases mem_append.mp hargs with hold | hnew
      · exact hcommands args hold
      · exact mem_singleton.mp hnew ▸ hheld
    · unfold applyCommands
      rw [foldl_append]
      exact hfollows

end Wired

/-- **A follower that reads the bytes of its leader.** Whatever commands that meet their
conditions clients send, the follower's loop takes all that was written to the link, and each key
then holds what it holds on the leader. -/
theorem follower_reads_leader (hR : FloatLaws R) (hnow : 0 ≤ now) {st : State} {t : Store}
    (hstart : st.store.Same t) {x : Wired}
    (hrun : Reaches Wired.step (Wired.Meets R now) ⟨st, []⟩ x) :
    ∃ u : Store, (∀ key, u.entries key = x.leader.store.entries key) ∧
      ∃ n, ∀ fuel, streamCommands R now (n + fuel) x.sent t = some (u, .err .eof) := by
  have hinv : x.Inv R now t :=
    hrun.invariant ⟨[], rfl, by simp, hstart⟩ (fun _ _ _ h hmeets => h.step hR hnow hmeets)
  obtain ⟨commands, hsent, hheld, hsame⟩ := hinv
  rw [hsent]
  exact ⟨_, fun key => (hsame.inside key).symm, _, streamCommands_written hheld t⟩

theorem follower_reads_leader_push :
    ∃ x, runAll Wired.step ⟨pairStart.leader, []⟩ [leaderCall ["RPUSH", "l", "x", "y"]] = some x ∧
      ∃ u : Store, (∀ key, u.entries key = x.leader.store.entries key) ∧ ∃ n, ∀ fuel,
        streamCommands integralRuntime 0 (n + fuel) x.sent pairStart.follower
          = some (u, .err .eof) := by
  refine exists_of_runMeets (Wired.Meets integralRuntime 0) ⟨⟨rfl, rfl, rfl, rfl, .inr ⟨.store .rPush,
    by decide +kernel, rfl⟩, by decide, by decide⟩, trivial⟩ rfl ?_
  exact follower_reads_leader floatLaws_integral (le_refl _) (.refl fun _ => rfl)

end Vole.Server
