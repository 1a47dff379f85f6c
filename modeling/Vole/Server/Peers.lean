import Vole.Go.Strings
import Vole.Lib.Transition

/-!
# The replication loops of a multi-master node

`ConnectToPeer` starts the goroutine `peerLoop` for a peer unless the map of peers has an entry
for it. The loop dials the peer, syncs, streams and, when something fails, waits and tries
again. `syncWithPeer` removes the entry whenever a dialled connection ends, while its loop goes
on: until the loop has registered again, another call of `ConnectToPeer` starts a second loop.
-/

namespace Vole.Server

open Go

/-- Where a goroutine is in `peerLoop` and `syncWithPeer`. -/
inductive LoopPhase where
  /-- at the top of the loop, or in `DialTimeout` -/
  | dialing
  /-- connected, up to the registration of the peer; the deferred removal is in place -/
  | syncing
  /-- registered, reading commands -/
  | streaming
  /-- in the wait of five seconds -/
  | waiting
  deriving DecidableEq

/-- A goroutine running `peerLoop`. -/
structure PeerLoop where
  phase : LoopPhase
  /-- whether a connection of this loop has ended since the loop last registered its peer -/
  lost : Bool
  deriving DecidableEq

/-- What a node has for one peer. -/
structure Peer where
  /-- the entry in the map of peers: whether it is active -/
  entry : Option Bool
  loops : List PeerLoop
  deriving DecidableEq

/-- The peers of a node, by their identifiers. -/
abbrev MultiMaster := Bytes → Peer

/-- A call of `ConnectToPeer`, or a step of the `i`th loop of a peer. -/
inductive PeerStep where
  | connectToPeer
  | dialed (i : Nat)
  | dialFailed (i : Nat)
  | synced (i : Nat)
  | failed (i : Nat)
  | retried (i : Nat)

namespace Peer

def new : Peer := ⟨none, []⟩

/-- The number of loops that apply what the peer streams. -/
def streams (p : Peer) : Nat := p.loops.countP (·.phase = .streaming)

def step (p : Peer) : PeerStep → Option Peer
  | .connectToPeer =>
    if p.entry.isSome then some p
    else some ⟨some false, p.loops ++ [⟨.dialing, false⟩]⟩
  | .dialed i =>
    match p.loops[i]? with
    | some ⟨.dialing, lost⟩ => some { p with loops := p.loops.set i ⟨.syncing, lost⟩ }
    | _ => none
  | .dialFailed i =>
    -- `DialTimeout` fails before the removal is deferred, so the entry stays
    match p.loops[i]? with
    | some ⟨.dialing, lost⟩ => some { p with loops := p.loops.set i ⟨.waiting, lost⟩ }
    | _ => none
  | .synced i =>
    match p.loops[i]? with
    | some ⟨.syncing, _⟩ => some ⟨some true, p.loops.set i ⟨.streaming, false⟩⟩
    | _ => none
  | .failed i =>
    match p.loops[i]? with
    | some ⟨.syncing, _⟩ | some ⟨.streaming, _⟩ => some ⟨none, p.loops.set i ⟨.waiting, true⟩⟩
    | _ => none
  | .retried i =>
    match p.loops[i]? with
    | some ⟨.waiting, lost⟩ => some { p with loops := p.loops.set i ⟨.dialing, lost⟩ }
    | _ => none

/-- There is at most one loop, and it has an entry in the map unless it lost a connection. -/
structure Single (p : Peer) : Prop where
  one : p.loops.length ≤ 1
  entry : ∀ l ∈ p.loops, l.lost = false → p.entry.isSome = true

theorem set_of_single {loops : List PeerLoop} {i : Nat} {l : PeerLoop}
    (hone : loops.length ≤ 1) (hget : loops[i]? = some l) :
    loops = [l] ∧ ∀ l', loops.set i l' = [l'] := by
  obtain ⟨hi, -⟩ := List.getElem?_eq_some_iff.mp hget
  have hi0 : i = 0 := by omega
  subst hi0
  obtain ⟨a, rfl⟩ := List.length_eq_one_iff.mp (show loops.length = 1 by omega)
  rw [Option.some.inj hget]
  exact ⟨rfl, fun _ => rfl⟩

/-- What a step of a loop can do: it keeps the entry and whether the connection was lost, it
registers the peer, or it removes the entry. -/
theorem loop_step_cases {p q : Peer} {a : PeerStep} (hone : p.loops.length ≤ 1)
    (hne : a ≠ .connectToPeer) (h : p.step a = some q) : ∃ l l', p.loops = [l] ∧ q.loops = [l'] ∧
      ((q.entry = p.entry ∧ l'.lost = l.lost) ∨ q.entry = some true ∨ l'.lost = true) := by
  unfold step at h
  cases a with
  | connectToPeer => exact absurd rfl hne
  | dialed i | dialFailed i | retried i =>
    dsimp only at h
    split at h
    · rename_i lost hget
      cases h
      obtain ⟨hl, hset⟩ := set_of_single hone hget
      exact ⟨_, _, hl, hset _, .inl ⟨rfl, rfl⟩⟩
    · cases h
  | synced i =>
    dsimp only at h
    split at h
    · rename_i hget
      cases h
      obtain ⟨hl, hset⟩ := set_of_single hone hget
      exact ⟨_, _, hl, hset _, .inr (.inl rfl)⟩
    · cases h
  | failed i =>
    dsimp only at h
    split at h
    case h_3 => cases h
    all_goals
      rename_i hget
      cases h
      obtain ⟨hl, hset⟩ := set_of_single hone hget
      exact ⟨_, _, hl, hset _, .inr (.inr rfl)⟩

/-- `ConnectToPeer` is not called while a loop of the peer is without its entry. -/
def NotRetrying (p : Peer) : PeerStep → Prop
  | .connectToPeer => ∀ l ∈ p.loops, l.lost = false
  | _ => True

theorem Single.step {p q : Peer} {a : PeerStep} (h : Single p) (hok : p.NotRetrying a)
    (hstep : p.step a = some q) : Single q := by
  by_cases ha : a = .connectToPeer
  · subst ha
    unfold Peer.step at hstep
    dsimp only at hstep
    split at hstep
    · cases hstep
      exact h
    · rename_i hentry
      -- a loop that has lost no connection would have an entry
      have hnil : p.loops = [] := by
        cases hloops : p.loops with
        | nil => rfl
        | cons l rest =>
          have hl : l ∈ p.loops := hloops ▸ .head _
          exact absurd (h.entry l hl (hok l hl)) hentry
      rw [← Option.some.inj hstep, hnil]
      exact ⟨le_rfl, fun _ _ _ => rfl⟩
  · obtain ⟨l, l', hl, hl', hcases⟩ := loop_step_cases h.one ha hstep
    refine ⟨by rw [hl']; exact le_rfl, fun m hm hlost => ?_⟩
    rw [hl', List.mem_singleton] at hm
    subst hm
    rcases hcases with ⟨hentry, hkept⟩ | hentry | htrue
    · rw [hentry]
      exact h.entry l (hl ▸ .head _) (hkept ▸ hlost)
    · rw [hentry]
      rfl
    · exact absurd hlost (by simp [htrue])

end Peer

namespace MultiMaster

/-- A node that knows no peers. -/
def new : MultiMaster := fun _ => .new

/-- A step that concerns the peer with the given identifier. -/
def step (m : MultiMaster) (a : Bytes × PeerStep) : Option MultiMaster :=
  ((m a.1).step a.2).map (Function.update m a.1)

end MultiMaster

/-- **At most one replication loop for each peer.** In every run of `ConnectToPeer` and of the loops'
dialling, syncing, failing and retrying: if `ConnectToPeer` is never called for a peer whose
loop has lost its connection and not yet registered again, then no peer ever has two loops,
and what a peer streams is applied at most once. -/
theorem one_loop_per_peer {m : MultiMaster}
    (hrun : Transition.Reaches MultiMaster.step (fun m a => (m a.1).NotRetrying a.2)
      MultiMaster.new m) (nodeID : Bytes) :
    (m nodeID).loops.length ≤ 1 ∧ (m nodeID).streams ≤ 1 := by
  have hstart : ∀ id, (MultiMaster.new id).Single := fun _ => ⟨Nat.zero_le _, nofun⟩
  have hstep : ∀ (m m' : MultiMaster) (a : Bytes × PeerStep), (∀ id, (m id).Single) →
      (m a.1).NotRetrying a.2 → m.step a = some m' → ∀ id, (m' id).Single := by
    intro m m' a h hok hstep id
    obtain ⟨q, hq, rfl⟩ := Option.map_eq_some_iff.mp hstep
    by_cases hid : id = a.1
    · subst hid
      rw [Function.update_self]
      exact (h _).step hok hq
    · rw [Function.update_of_ne hid]
      exact h id
  have hinv := hrun.invariant hstart hstep nodeID
  exact ⟨hinv.one, List.countP_le_length.trans hinv.one⟩

/-- A dial that fails, a connection that fails, and calls of `ConnectToPeer` in between. -/
def bumpySteps : List (Bytes × PeerStep) :=
  [.connectToPeer, .dialFailed 0, .connectToPeer, .retried 0, .dialed 0, .synced 0,
    .connectToPeer, .failed 0, .retried 0, .dialed 0, .synced 0, .connectToPeer].map
      (fun a => (bytes "b", a))

theorem one_loop_after_failure :
    ∃ m, Transition.runAll MultiMaster.step MultiMaster.new bumpySteps = some m ∧
      (m (bytes "b")).loops = [⟨.streaming, false⟩] ∧ (m (bytes "b")).streams ≤ 1 := by
  refine Transition.exists_of_runMeets _ ?_ rfl
    (fun hrun => ⟨rfl, (one_loop_per_peer hrun _).2⟩)
  refine ⟨?_, trivial, ?_, trivial, trivial, trivial, ?_, trivial, trivial, trivial, trivial, ?_,
    trivial⟩
  · show ∀ l ∈ ([] : List PeerLoop), l.lost = false
    decide
  · show ∀ l ∈ [PeerLoop.mk .waiting false], l.lost = false
    decide
  · show ∀ l ∈ [PeerLoop.mk .streaming false], l.lost = false
    decide
  · show ∀ l ∈ [PeerLoop.mk .streaming false], l.lost = false
    decide

/-- A second loop: the connection fails, and the peer connects back during the wait. Both loops
then stream, so each write of the peer is applied twice. -/
theorem two_loops_for_a_peer : ∃ m, Transition.runAll MultiMaster.step MultiMaster.new
        ([.connectToPeer, .dialed 0, .failed 0, .connectToPeer, .dialed 1, .synced 1, .retried 0,
          .dialed 0, .synced 0].map (fun a => (bytes "b", a))) = some m ∧
      (m (bytes "b")).loops.length = 2 ∧ (m (bytes "b")).streams = 2 :=
  ⟨_, rfl, rfl, rfl⟩

end Vole.Server
