import Vole.Server.Updates

/-!
# Two masters

Each of two nodes takes writes and streams them to the other over a connection of its own.
A command that arrives is applied as it comes and not handed on. Nothing orders the writes of
the two nodes: the Lamport clock of `MultiMaster` is neither sent nor read. A connection that
was lost is opened again by `syncWithPeer`, which takes the snapshot of the peer only if the
store is empty; otherwise, what the peer wrote in the meantime never arrives.
-/

namespace Vole.Server

open Go Cmd Replica Transition Function List

variable {u : Update Bytes Entry}

/-! ## The nodes -/

/-- What `handleReplPeer` and `PropagateToReplicas` write to a connection. -/
inductive Message where
  | snapshot (snap : Snapshot)
  | command (args : List Bytes)

namespace Message

/-- What `syncWithPeer` does with it. -/
def receive (env : Env) (s : Store) : Message → Store
  | .snapshot snap =>
    if s.dbSize env.now = 0 then s.load env.R env.now env.hint snap else s
  | .command args => applyReplicatedCommand env.R env.now args s

def isSnapshot : Message → Bool
  | .snapshot _ => true
  | .command _ => false

end Message

/-- The connection over which a node streams its writes: `handleReplPeer` sends a snapshot, and
then registers the peer. -/
structure Link where
  phase : Phase
  inFlight : List Message

/-- Two nodes; `link x` is the connection over which `x` sends and `!x` reads. -/
structure Masters where
  node : Bool → State
  link : Bool → Link

inductive MasterStep where
  /-- a client's command at `x` -/
  | client (x : Bool) (call : ClientCall)
  /-- `x` reads what comes next -/
  | deliver (x : Bool) (env : Env)
  /-- the connection over which `x` sends is lost, with what is on it -/
  | drop (x : Bool)
  /-- `x` answers `REPLPEER` with a snapshot -/
  | dump (x : Bool) (env : Env)
  /-- `x` registers its peer -/
  | register (x : Bool)

namespace Masters

def step (w : Masters) : MasterStep → Option Masters
  | .client x call =>
    let (_, st, handed) := runCommand call.node call.env call.args (w.node x)
    let l := w.link x
    -- before the peer is registered, a write is not sent to it
    let sent := if l.phase = .up then handed.toList.map .command else []
    some ⟨Function.update w.node x st,
      Function.update w.link x { l with inFlight := l.inFlight ++ sent }⟩
  | .deliver x env =>
    match (w.link (!x)).inFlight with
    | [] => none
    | m :: rest =>
      let st := w.node x
      some ⟨Function.update w.node x { st with store := m.receive env st.store },
        Function.update w.link (!x) { w.link (!x) with inFlight := rest }⟩
  | .drop x => some { w with link := Function.update w.link x ⟨.down, []⟩ }
  | .dump x env =>
    if (w.link x).phase = .down then
      let st := w.node x
      let (snapshot, store) := st.store.dump env.R env.now env.hint
      some ⟨Function.update w.node x { st with store := store },
        Function.update w.link x ⟨.copying, [.snapshot snapshot]⟩⟩
    else none
  | .register x =>
    if (w.link x).phase = .copying then
      some { w with link := Function.update w.link x { w.link x with phase := .up } }
    else none

/-! ## The condition of a step -/

/-- A write at `x` that reaches the other node: the peer is registered, no snapshot is on its
way to `x`, and no command that is names a key of the write. If the other connection is closed,
`x` has something, so it will not take a snapshot. -/
structure Reaching (R : Runtime) (w : Masters) (x : Bool) (now : Time) (u : Update Bytes Entry) :
    Prop where
  registered : (w.link x).phase = .up
  nonempty : (w.link (!x)).phase = .down → (w.node x).store.dbSize now ≠ 0
  apart : ∀ m ∈ (w.link (!x)).inFlight, ∃ args v, m = .command args ∧ updateOf R args = some v ∧
    u.Apart v

/-- A write at `x` that reaches the other node with the snapshot: the connection is closed, and
the other node has nothing and has sent nothing. -/
structure Unlinked (w : Masters) (x : Bool) (now : Time) : Prop where
  closed : (w.link x).phase = .down
  empty : (w.node (!x)).store.dbSize now = 0
  none : (w.link (!x)).inFlight = []

/-- The condition of a step. A client's command is one that the peer does as the node does; it
is sent, or will be in the snapshot. A connection is lost only with nothing on it, and an empty
node asks for a snapshot only if no command of its own is in flight. -/
def Meets (R : Runtime) (w : Masters) : MasterStep → Prop
  | .client x call =>
    call.node.isReplica = false ∧ call.node.victims = [] ∧ call.env.R = R ∧ 0 ≤ call.env.now ∧
    Followed call.env call.args (w.node x).store ∧
    ∃ u, updateOf R call.args = some u ∧
      (w.Reaching R x call.env.now u ∨ w.Unlinked x call.env.now)
  | .deliver _ env => env.R = R
  | .drop x => (w.link x).inFlight = []
  | .dump x env => env.R = R ∧ ((w.node (!x)).store.dbSize env.now = 0 →
      ∀ m ∈ (w.link (!x)).inFlight, m.isSnapshot = true)
  | .register _ => True

end Masters

/-! ## The nodes as replicas -/

/-- What is on a connection, for the map of entries. -/
def Message.item (R : Runtime) : Message → Item Bytes Entry
  | .snapshot snap => .copy (fun k => (snap k).restore R)
  | .command args => .update ((updateOf R args).getD ⟨[], id⟩)

theorem Message.item_command {R : Runtime} {args : List Bytes}
    (hu : updateOf R args = some u) : (Message.command args).item R = .update u := by
  show Item.update ((updateOf R args).getD ⟨[], id⟩) = .update u
  rw [hu]
  rfl

namespace Masters

/-- The nodes as two replicas of a map. -/
def replicas (R : Runtime) (w : Masters) : Replicas Bytes Entry :=
  ⟨fun x => (w.node x).store.entries, fun x => (w.link x).phase,
    fun x => (w.link x).inFlight.map (Message.item R)⟩

/-- A message that leaves a steady store steady. -/
def Tame (R : Runtime) : Message → Prop
  | .snapshot snap => ∀ k, Timeless ((snap k).restore R)
  | .command args => (updateOf R args).isSome = true

/-- What holds along a run. -/
structure Sound (R : Runtime) (w : Masters) : Prop where
  coherent : (w.replicas R).Coherent
  steady : ∀ x, Steady (w.node x).store
  tame : ∀ x, ∀ m ∈ (w.link x).inFlight, Tame R m

end Masters

section
variable {R : Runtime} {s : Store} {now : Int}

theorem dbSize_ne_zero {k : Bytes} (h : (s.entries k).existsAt now = true) : s.dbSize now ≠ 0 := by
  unfold Entry.existsAt at h
  rw [Bool.and_eq_true_iff, Bool.and_eq_true_iff, Bool.not_eq_true'] at h
  obtain ⟨⟨hexp, hvisible⟩, hany⟩ := h
  have hheld : k ∈ s.held := by
    refine DFinsupp.mem_support_iff.mpr (fun hzero => ?_)
    rw [hzero] at hany
    cases hany
  intro hnone
  unfold Store.dbSize Store.allKeys at hnone
  rw [length_eq_zero_iff, flatMap_eq_nil_iff] at hnone
  have hlisted := hnone k ((Finset.mem_sort _).mpr hheld)
  dsimp only at hlisted
  rw [hexp, hvisible] at hlisted
  have hcount : DataType.all.countP (s.entries k).has = 0 := by simpa using hlisted
  obtain ⟨t, ht, hhas⟩ := any_eq_true.mp hany
  exact countP_eq_zero.mp hcount t ht hhas

theorem dbSize_eq_zero (h : Steady s) (now : Int) : s.dbSize now = 0 ↔ ⇑s.entries = 0 := by
  constructor
  · intro hnone
    funext k
    by_contra hk
    refine absurd hnone (dbSize_ne_zero (k := k) ?_)
    unfold Entry.existsAt
    rw [(h.timeless k).fresh now, (h.timeless k now).visible now, Bool.not_false, Bool.true_and]
    by_contra hany
    exact hk ((h.timeless k).eq_zero (Bool.not_eq_true _ ▸ hany))
  · intro hzero
    have hheld : s.held = ∅ := by
      unfold Store.held
      rw [DFunLike.coe_injective (hzero.trans DFinsupp.coe_zero.symm), DFinsupp.support_zero]
    unfold Store.dbSize Store.allKeys
    rw [hheld, Finset.sort_empty]
    rfl

theorem Message.receive_item {env : Env} (h : Steady s) {m : Message} (hm : Masters.Tame env.R m) :
    ⇑(m.receive env s).entries = (m.item env.R).arrive s.entries ∧ Steady (m.receive env s) := by
  cases m with
  | command args =>
    obtain ⟨u, hu⟩ := Option.isSome_iff_exists.mp hm
    have hupdated : Updated u s (applyReplicatedCommand env.R env.now args s) :=
      applyReplicated_update h hu
    rw [Message.item_command hu]
    exact ⟨hupdated.entries, hupdated.steady⟩
  | snapshot snap =>
    unfold Message.receive Message.item
    dsimp only
    have hempty := dbSize_eq_zero h env.now
    split
    · rename_i hzero
      have hentries : ⇑s.entries = 0 := hempty.mp hzero
      have hmaps : ∀ k, (s.loadMaps env.R snap).entries k = (snap k).restore env.R := by
        intro k
        rw [Store.loadMaps_entries, hentries]
        rfl
      have hload : s.load env.R env.now env.hint snap = s.loadMaps env.R snap := by
        refine purgeExpired_of_fresh (fun k => ?_)
        rw [hmaps]
        exact (hm k).fresh env.now
      rw [hload, hentries, Item.arrive_copy_zero]
      exact ⟨funext hmaps, fun k => hmaps k ▸ hm k, h.idle⟩
    · rename_i hne
      rw [Item.arrive_copy_of_ne _ (fun hzero => hne (hempty.mpr hzero))]
      exact ⟨rfl, h⟩

theorem steady_congr (h : Steady s) {t : Store} (hentries : ⇑t.entries = s.entries) (hidle : t.Idle) :
    Steady t :=
  ⟨fun k => hentries ▸ h.timeless k, hidle⟩

theorem runCommand_handed (node : Node) (env : Env) (args : List Bytes) (st : State) :
    (runCommand node env args st).2.2 = none ∨ (runCommand node env args st).2.2 = some args := by
  unfold runCommand
  split
  · split
    · exact .inl rfl
    · dsimp only
      split
      · exact .inl rfl
      · split
        · exact .inr rfl
        · exact .inl rfl
  · exact .inl rfl

theorem runCommand_update {call : ClientCall} {st : State}
    (hleads : call.node.isReplica = false) (hkeeps : call.node.victims = [])
    (hR : FloatLaws call.env.R) (hnow : 0 ≤ call.env.now) (h : Steady st.store)
    (hfol : Followed call.env call.args st.store) (hu : updateOf call.env.R call.args = some u) :
    let r := runCommand call.node call.env call.args st
    (r.2.2 = none ∧ ⇑r.2.1.store.entries = st.store.entries ∧ Steady r.2.1.store) ∨
      (r.2.2 = some call.args ∧ Updated u st.store r.2.1.store) := by
  intro r
  have hsame : r.2.1.store.Same (r.2.2.elim st.store
      (applyReplicatedCommand call.env.R call.env.now · st.store)) :=
    runCommand_follows hleads hkeeps hR hnow (.refl h.idle) hfol
  have hentries : ⇑r.2.1.store.entries = (r.2.2.elim st.store
      (applyReplicatedCommand call.env.R call.env.now · st.store)).entries :=
    funext hsame.inside
  rcases runCommand_handed call.node call.env call.args st with hnone | hsome
  · rw [hnone] at hentries
    exact .inl ⟨hnone, hentries, steady_congr h hentries hsame.idle⟩
  · rw [hsome] at hentries
    have hupdated : Updated u st.store
        (applyReplicatedCommand call.env.R call.env.now call.args st.store) :=
      applyReplicated_update h hu
    exact .inr ⟨hsome, hentries.trans hupdated.entries,
      steady_congr hupdated.steady hentries hsame.idle⟩

end

/-! ## One step -/

namespace Masters

variable {R : Runtime} {w v : Masters} {x : Bool}

theorem other (x : Bool) : (!x) ≠ x := by cases x <;> decide

section
variable {node : Bool → State} {link : Bool → Link} {st : State} {l : Link}

theorem map_self : (replicas R ⟨update node x st, link⟩).map x = st.store.entries := by
  show ⇑(update node x st x).store.entries = _
  rw [update_self]

theorem map_other : (replicas R ⟨update node x st, link⟩).map (!x) = (node (!x)).store.entries := by
  show ⇑(update node x st (!x)).store.entries = _
  rw [update_of_ne (other x)]

theorem flight_self : (replicas R ⟨node, update link x l⟩).flight x
    = l.inFlight.map (Message.item R) := by
  show (update link x l x).inFlight.map _ = _
  rw [update_self]

theorem flight_of_ne {y : Bool} (hy : y ≠ x) : (replicas R ⟨node, update link x l⟩).flight y
      = (link y).inFlight.map (Message.item R) := by
  show (update link x l y).inFlight.map _ = _
  rw [update_of_ne hy]

theorem phase_update : (replicas R ⟨node, update link x l⟩).phase
    = update (fun y => (link y).phase) x l.phase := by
  funext y
  show (update link x l y).phase = _
  by_cases hy : y = x
  · rw [hy, update_self, update_self]
  · rw [update_of_ne hy, update_of_ne hy]

theorem phase_kept (hl : l.phase = (link x).phase) :
    (replicas R ⟨node, update link x l⟩).phase = fun y => (link y).phase := by
  rw [phase_update, hl]
  exact update_eq_self x _

end

namespace Sound

variable (h : Sound R w)
include h

theorem steady_update {st : State} (hst : Steady st.store) (y : Bool) :
    Steady (update w.node x st y).store := by
  by_cases hy : y = x
  · rw [hy, update_self]
    exact hst
  · rw [update_of_ne hy]
    exact h.steady y

theorem tame_update {l : Link} (hl : ∀ m ∈ l.inFlight, Tame R m) (y : Bool) :
    ∀ m ∈ (update w.link x l y).inFlight, Tame R m := by
  by_cases hy : y = x
  · rw [hy, update_self]
    exact hl
  · rw [update_of_ne hy]
    exact h.tame y

theorem write {args : List Bytes} {st : State} {now : Time}
    (hu : updateOf R args = some u) (hupdated : Updated u (w.node x).store st.store)
    (hreach : w.Reaching R x now u ∨ w.Unlinked x now) :
    Sound R ⟨update w.node x st, update w.link x { w.link x with inFlight := (w.link x).inFlight ++
          if (w.link x).phase = .up then [.command args] else [] }⟩ := by
  have hsent : ∀ m ∈ (w.link x).inFlight ++ [.command args], Tame R m := by
    intro m hm
    rcases mem_append.mp hm with hm | hm
    · exact h.tame x m hm
    · rw [mem_singleton.mp hm]
      show (updateOf R args).isSome = true
      rw [hu]
      rfl
  rcases hreach with hreach | halone
  · rw [if_pos hreach.registered]
    refine ⟨?_, h.steady_update hupdated.steady, h.tame_update hsent⟩
    refine h.coherent.write (u := u) hreach.registered (fun hdown hzero => ?_) (fun i hi => ?_)
      (map_self.trans hupdated.entries) map_other (phase_kept rfl) ?_ (flight_of_ne (other x))
    · exact hreach.nonempty hdown ((dbSize_eq_zero (h.steady x) now).mpr hzero)
    · obtain ⟨m, hm, rfl⟩ := mem_map.mp hi
      obtain ⟨args', v, rfl, hv, hapart⟩ := hreach.apart m hm
      refine ⟨v, ?_, hapart⟩
      show Item.update ((updateOf R args').getD ⟨[], id⟩) = .update v
      rw [hv]
      rfl
    · rw [flight_self, map_append, map_singleton, Message.item_command hu]
      rfl
  · have hdown : (w.link x).phase ≠ .up := by
      rw [halone.closed]
      decide
    rw [if_neg hdown, append_nil]
    have hlink : update w.link x (w.link x) = w.link := update_eq_self x _
    refine ⟨?_, h.steady_update hupdated.steady, h.tame_update (h.tame x)⟩
    rw [hlink]
    refine h.coherent.writeAlone (x := x) halone.closed
      ((dbSize_eq_zero (h.steady (!x)) now).mp halone.empty) ?_ map_other rfl rfl
    show (w.link (!x)).inFlight.map _ = []
    rw [halone.none]
    rfl

theorem client (hR : FloatLaws R) {call : ClientCall}
    (hmeets : w.Meets R (.client x call)) (hstep : w.step (.client x call) = some v) :
    Sound R v := by
  obtain ⟨hleads, hkeeps, rfl, hnow, hfol, u, hu, hreach⟩ := hmeets
  have hcases := runCommand_update hleads hkeeps hR hnow (h.steady x) hfol hu
  unfold Masters.step at hstep
  dsimp only at hstep hcases
  generalize runCommand call.node call.env call.args (w.node x) = r at hstep hcases
  obtain ⟨out, st, handed⟩ := r
  cases hstep
  rcases hcases with ⟨rfl, hentries, hsteady⟩ | ⟨rfl, hupdated⟩
  · -- nothing was written, and nothing is sent
    have hlink : update w.link x { w.link x with
        inFlight := (w.link x).inFlight ++ if (w.link x).phase = .up then [] else [] }
          = w.link := by
      rw [ite_self, append_nil]
      exact update_eq_self x _
    rw [Option.toList_none, map_nil, hlink]
    refine ⟨h.coherent.congr (funext fun y => ?_) rfl rfl, h.steady_update hsteady, h.tame⟩
    by_cases hy : y = x
    · rw [hy, map_self]
      exact hentries
    · rw [Bool.eq_not.mpr hy]
      exact map_other
  · exact h.write hu hupdated hreach

theorem deliver {env : Env} (hmeets : w.Meets R (.deliver x env))
    (hstep : w.step (.deliver x env) = some v) : Sound R v := by
  obtain rfl : env.R = R := hmeets
  unfold Masters.step at hstep
  dsimp only at hstep
  split at hstep
  · cases hstep
  rename_i m rest hfirst
  cases hstep
  have htame : ∀ m' ∈ m :: rest, Tame env.R m' := hfirst ▸ h.tame (!x)
  obtain ⟨hentries, hsteady⟩ := Message.receive_item (h.steady x) (htame m (.head _))
  refine ⟨?_, h.steady_update hsteady,
    h.tame_update (fun m' hm' => htame m' (.tail _ hm'))⟩
  have hflight : (w.replicas env.R).flight (!x)
      = m.item env.R :: rest.map (Message.item env.R) := by
    show (w.link (!x)).inFlight.map _ = _
    rw [hfirst]
    rfl
  exact h.coherent.arrive hflight (map_self.trans hentries) map_other (phase_kept rfl) flight_self
    (flight_of_ne (other x).symm)

theorem drop (hmeets : w.Meets R (.drop x)) (hstep : w.step (.drop x) = some v) : Sound R v := by
  cases hstep
  have hnone : (w.link x).inFlight = [] := hmeets
  refine ⟨h.coherent.close (x := x) ?_ rfl phase_update (funext fun y => ?_), h.steady,
    h.tame_update (nofun)⟩
  · show (w.link x).inFlight.map _ = []
    rw [hnone]
    rfl
  · by_cases hy : y = x
    · rw [hy, flight_self]
      show [] = (w.link x).inFlight.map _
      rw [hnone]
      rfl
    · exact flight_of_ne hy

theorem dump {env : Env} (hmeets : w.Meets R (.dump x env))
    (hstep : w.step (.dump x env) = some v) : Sound R v := by
  obtain ⟨rfl, hcopies⟩ := hmeets
  have hfresh : ∀ k, ((w.node x).store.entries k).expired env.now = false :=
    fun k => ((h.steady x).timeless k).fresh env.now
  have hrestored : ∀ k, (((w.node x).store.dump env.R env.now env.hint).1 k).restore env.R
      = (w.node x).store.entries k := by
    intro k
    rw [Store.dump_entries, Entry.purged, if_neg (by rw [hfresh k]; exact Bool.false_ne_true)]
    exact ((h.steady x).timeless k env.now).kept env.R |>.restored
  have hstore : ((w.node x).store.dump env.R env.now env.hint).2 = (w.node x).store :=
    purgeExpired_of_fresh hfresh
  have hsteady : Steady ((w.node x).store.dump env.R env.now env.hint).2 := by
    rw [hstore]
    exact h.steady x
  unfold Masters.step at hstep
  dsimp only at hstep
  split at hstep
  · rename_i hdown
    cases hstep
    refine ⟨?_, h.steady_update hsteady, h.tame_update (fun m hm => ?_)⟩
    · refine h.coherent.copy (x := x) hdown (fun hzero i hi => ?_) (funext fun y => ?_) phase_update
        ?_ (flight_of_ne (other x))
      · obtain ⟨m, hm, rfl⟩ := mem_map.mp hi
        have hsnap := hcopies ((dbSize_eq_zero (h.steady (!x)) env.now).mpr hzero) m hm
        cases m with
        | snapshot snap => exact ⟨_, rfl⟩
        | command args => cases hsnap
      · by_cases hy : y = x
        · rw [hy, map_self, hstore]
          rfl
        · rw [Bool.eq_not.mpr hy]
          exact map_other
      · rw [flight_self]
        show [Item.copy _] = [Item.copy _]
        rw [funext hrestored]
        rfl
    · rw [mem_singleton.mp hm]
      intro k
      rw [hrestored]
      exact (h.steady x).timeless k
  · cases hstep

theorem register (hstep : w.step (.register x) = some v) : Sound R v := by
  unfold Masters.step at hstep
  dsimp only at hstep
  split at hstep
  · rename_i hcopying
    cases hstep
    refine ⟨h.coherent.reopen (x := x) hcopying rfl phase_update (funext fun y => ?_), h.steady,
      h.tame_update (h.tame x)⟩
    by_cases hy : y = x
    · rw [hy, flight_self]
      rfl
    · exact flight_of_ne hy
  · cases hstep

theorem step (hR : FloatLaws R) {a : MasterStep} (hmeets : w.Meets R a)
    (hstep : w.step a = some v) : Sound R v := by
  cases a with
  | client x call => exact h.client hR hmeets hstep
  | deliver x env => exact h.deliver hmeets hstep
  | drop x => exact h.drop hmeets hstep
  | dump x env => exact h.dump hmeets hstep
  | register x => exact h.register hstep

end Sound

end Masters

/-! ## Runs -/

end Vole.Server
