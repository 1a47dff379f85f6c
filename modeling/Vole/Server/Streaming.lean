import Vole.Server.Replication

/-!
# The order in which a follower receives the writes

A registered follower is handed each write after it was applied, by the client's own goroutine
and without a lock around the two steps. If another client's write is applied in between, the
two may be handed on in the other order, and the follower ends up with the wrong one.
-/

namespace Vole.Server

open Go Cmd Transition List

namespace Leader

/-- A leader with a registered follower and no write under way. -/
def registered (st : State) (snapshot : Snapshot) : Leader :=
  ⟨st, [], [], .registered snapshot 0, []⟩

/-- The writes that the follower has been handed. -/
def received (x : Leader) : List (Env × List Bytes) :=
  x.streamed.filterMap (fun i => x.applied[i]?)

/-- A write comes only while no other is waiting to be handed on, and it is one that the
follower does as the leader does. -/
def Alone (R : Runtime) (x : Leader) : LeaderStep → Prop
  | .write env args => (isWriteCommand (toUpper (args.headD [])) = true → x.pending = []) ∧
      env.R = R ∧ 0 ≤ env.now ∧ Followed env args x.st.store
  | _ => True

end Leader

/-- What a follower makes of the commands it is handed, each at the time of the leader. -/
def applyAll (commands : List (Env × List Bytes)) (t : Store) : Store :=
  commands.foldl (fun t c => applyReplicatedCommand c.1.R c.1.now c.2 t) t

theorem applyAll_concat (commands : List (Env × List Bytes)) (env : Env) (args : List Bytes)
    (t : Store) : applyAll (commands ++ [(env, args)]) t
      = applyReplicatedCommand env.R env.now args (applyAll commands t) := by
  unfold applyAll
  rw [foldl_append]
  rfl

theorem filterMap_range {α : Type} (l : List α) (k : Nat) :
    (range k).filterMap (fun i => l[i]?) = l.take k := by
  induction k with
  | zero => rfl
  | succ k ih =>
    rw [range_succ, filterMap_append, ih, take_add_one]
    cases hk : l[k]? <;> simp [hk]

namespace Leader

variable {x y : Leader} {t : Store}

/-- The writes are handed on in order, and the follower lacks only those that wait. -/
structure InOrder (t : Store) (x : Leader) : Prop where
  registered : x.phase.isRegistered = true
  order : x.streamed ++ x.pending = List.range x.applied.length
  one : x.pending.length ≤ 1
  same : x.st.store.Same (applyAll x.applied t)

theorem InOrder.write {env : Env} {args : List Bytes} (hR : FloatLaws env.R) (hnow : 0 ≤ env.now)
    (h : InOrder t x) (halone : isWriteCommand (toUpper (args.headD [])) = true → x.pending = [])
    (hfol : Followed env args x.st.store) (hstep : x.step (.write env args) = some y) :
    InOrder t y := by
  have hexec := exec_follows hR hnow h.same hfol
  unfold step at hstep
  dsimp only at hstep
  split at hstep
  · rename_i hsent
    cases hstep
    rw [if_pos hsent] at hexec
    have hnone : x.pending = [] := halone (Bool.and_eq_true_iff.mp hsent).1
    refine ⟨h.registered, ?_, ?_, ?_⟩
    · dsimp only
      rw [← append_assoc, h.order, length_append, length_singleton,
        range_succ]
    · dsimp only
      rw [hnone, nil_append, length_singleton]
    · dsimp only
      rw [applyAll_concat]
      exact hexec
  · rename_i hsent
    cases hstep
    rw [if_neg hsent] at hexec
    exact ⟨h.registered, h.order, h.one, hexec⟩

theorem InOrder.propagate {i : Nat} (h : InOrder t x) (hstep : x.step (.propagate i) = some y) :
    InOrder t y := by
  unfold step at hstep
  dsimp only at hstep
  split at hstep
  · rename_i hi
    cases hstep
    -- only one write waits, so it is the one that is handed on
    have hpending : x.pending = [i] := by
      have hone := h.one
      match hp : x.pending with
      | [] =>
        rw [hp] at hi
        cases hi
      | [j] =>
        rw [hp] at hi
        rw [mem_singleton.mp hi]
      | _ :: _ :: _ =>
        rw [hp] at hone
        exact absurd hone (by simp)
    have horder := h.order
    rw [hpending] at horder
    refine ⟨h.registered, ?_, ?_, h.same⟩
    · dsimp only
      rw [if_pos h.registered, hpending, erase_cons_head, append_nil, horder]
    · dsimp only
      rw [hpending, erase_cons_head]
      exact Nat.zero_le 1
  · cases hstep

theorem InOrder.step {R : Runtime} (hR : FloatLaws R) {a : LeaderStep} (h : InOrder t x)
    (halone : x.Alone R a) (hstep : x.step a = some y) : InOrder t y := by
  cases a with
  | write env args =>
    obtain ⟨hnone, rfl, hnow, hfol⟩ := halone
    exact h.write hR hnow hnone hfol hstep
  | propagate i => exact h.propagate hstep
  | _ =>
    have hregistered := h.registered
    unfold Leader.step at hstep
    dsimp only at hstep
    split at hstep
    · rename_i hphase
      rw [hphase] at hregistered
      cases hregistered
    · cases hstep

theorem InOrder.received_eq (h : InOrder t x) : x.received = x.applied.take x.streamed.length := by
  have hstreamed : x.streamed = range x.streamed.length := by
    have hlen := congrArg length h.order
    rw [length_append, length_range] at hlen
    have htake := congrArg (take x.streamed.length) h.order
    rw [take_left, take_range, Nat.min_eq_left (by omega)] at htake
    exact htake
  unfold received
  rw [hstreamed, filterMap_range, length_range]

end Leader

/-- **A follower receives the writes in the order in which they were applied.** In every run in
which no write is applied between the two steps of another, the follower has been handed the
first of the writes, in order; and once all are handed on, each key holds on the follower what
it holds on the leader. -/
theorem stream_in_order {R : Runtime} (hR : FloatLaws R) {st : State} {snapshot : Snapshot}
    {t : Store} (hstart : st.store.Same t) {x : Leader}
    (hrun : Reaches Leader.step (Leader.Alone R) (Leader.registered st snapshot) x) :
    x.received <+: x.applied ∧
      (x.pending = [] → ∀ key, (applyAll x.received t).entries key = x.st.store.entries key) := by
  have hfirst : Leader.InOrder t (Leader.registered st snapshot) :=
    ⟨rfl, rfl, Nat.zero_le 1, hstart⟩
  have hinv : Leader.InOrder t x :=
    hrun.invariant hfirst (fun _ _ _ h halone hstep => h.step hR halone hstep)
  have hreceived := hinv.received_eq
  refine ⟨hreceived ▸ take_prefix _ _, fun hnone key => ?_⟩
  have hall : x.streamed.length = x.applied.length := by
    have hlen := congrArg length hinv.order
    rw [hnone, append_nil, length_range] at hlen
    exact hlen
  rw [hreceived, hall, take_length]
  exact (hinv.same.inside key).symm

/-- An empty leader with a follower, and the write of a client to it. -/
def leaderAlone : Leader := Leader.registered ⟨Store.new, [], none⟩ 0

def leaderWrite (words : List String) : LeaderStep :=
  .write (Env.plain integralRuntime 0) (words.map bytes)

theorem stream_in_order_two_clients :
    ∃ x, runAll Leader.step leaderAlone [leaderWrite ["RPUSH", "l", "a"], .propagate 0,
        leaderWrite ["GET", "l"], leaderWrite ["RPUSH", "l", "b"], .propagate 1] = some x ∧
      x.received <+: x.applied ∧ (x.pending = [] →
        ∀ key, (applyAll x.received Store.new).entries key = x.st.store.entries key) := by
  have hstart : Store.new.Same Store.new := .refl (fun _ => rfl)
  exact exists_of_runMeets (Leader.Alone integralRuntime)
    ⟨⟨fun _ => rfl, rfl, le_refl _, .inr ⟨.store .rPush, by decide +kernel, rfl⟩⟩, trivial,
      ⟨fun _ => rfl, rfl, le_refl _,
        .inl (ClientSession.harmless_of_onlyReads (by decide +kernel))⟩,
      ⟨fun _ => rfl, rfl, le_refl _, .inr ⟨.store .rPush, by decide +kernel, rfl⟩⟩, trivial,
      trivial⟩ rfl (stream_in_order floatLaws_integral hstart)

/-- Two clients set a key, and the second is the first to hand its write on: the follower keeps
the value of the first for good. -/
theorem stream_reordered : ∃ x, runAll Leader.step leaderAlone [leaderWrite ["SET", "k", "a"],
        leaderWrite ["SET", "k", "b"], .propagate 1, .propagate 0] = some x ∧
      x.pending = [] ∧ x.received = x.applied.reverse ∧
      (x.st.store.entries (bytes "k")).get 0 = some (bytes "b") ∧
      ((applyAll x.received Store.new).entries (bytes "k")).get 0 = some (bytes "a") :=
  ⟨_, rfl, rfl, rfl, by decide +kernel, by decide +kernel⟩

end Vole.Server
