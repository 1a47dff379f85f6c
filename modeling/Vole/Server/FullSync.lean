import Vole.Server.Propagation

/-!
# The full sync of a follower

Between the dump and the registration of a follower, and between the two steps of a write,
nothing is locked. A write that is applied before the dump and propagated after the
registration reaches the follower twice; one that is applied after the dump and propagated
before the registration does not reach it at all.
-/

namespace Vole.Server

open Go Transition List Leader

namespace Leader

/-! ## Before the registration -/

/-- Where the writes are before the follower is registered. -/
structure Before (x : Leader) : Prop where
  below : ∀ i ∈ x.pending, i < x.applied.length
  nodup : x.pending.Nodup
  count : x.phase.count ≤ x.applied.length
  quiet : x.phase.isRegistered = false → x.streamed = []

theorem Before.step {x y : Leader} {a : LeaderStep} (h : Before x) (hstep : x.step a = some y) :
    Before y := by
  rcases step_cases hstep with ⟨happlied, hpending, hstreamed, hphase⟩ |
    ⟨env, args, -, -, happlied, hpending, hphase, hstreamed⟩ |
    ⟨i, -, hi, -, happlied, hpending, hphase, hstreamed⟩
  · refine ⟨?_, hpending ▸ h.nodup, ?_, fun hreg => ?_⟩
    · rw [happlied, hpending]
      exact h.below
    · rw [happlied]
      rcases hphase with hphase | ⟨-, hcount | hcount⟩
      · rw [hphase]
        exact h.count
      · rw [hcount]
        exact h.count
      · exact hcount.le
    · rw [hstreamed]
      rcases hphase with hphase | ⟨hfresh, -⟩
      · exact h.quiet (hphase ▸ hreg)
      · exact h.quiet hfresh
  · refine ⟨fun i hi => ?_, ?_, ?_, fun hreg => ?_⟩
    · rw [happlied, length_append]
      rw [hpending] at hi
      rcases mem_append.mp hi with hi | hi
      · exact Nat.lt_add_right _ (h.below i hi)
      · rw [mem_singleton.mp hi]
        exact Nat.lt_succ_self _
    · rw [hpending]
      refine nodup_append.mpr ⟨h.nodup, nodup_singleton _, fun i hi j hj => ?_⟩
      rw [mem_singleton.mp hj]
      exact (h.below i hi).ne
    · rw [hphase, happlied, length_append]
      exact Nat.le_add_right_of_le h.count
    · rw [hstreamed]
      exact h.quiet (hphase ▸ hreg)
  · refine ⟨fun j hj => ?_, ?_, ?_, fun hreg => ?_⟩
    · rw [happlied]
      rw [hpending] at hj
      exact h.below j (mem_of_mem_erase hj)
    · rw [hpending]
      exact h.nodup.erase i
    · rw [hphase, happlied]
      exact h.count
    · rw [hphase] at hreg
      rw [hstreamed, if_neg (by simp [hreg])]
      exact h.quiet hreg

/-! ## After the registration -/

/-- Where the writes are after the follower was registered in the state `x`: those that were
pending then and those applied since have been streamed, or are still pending. -/
structure Since (x z : Leader) : Prop where
  registered : z.phase.isRegistered = true
  count : z.phase.count = x.phase.count
  grown : x.applied.length ≤ z.applied.length
  nodup : (z.streamed ++ z.pending).Nodup
  mem : ∀ i, i ∈ z.streamed ++ z.pending ↔
    i ∈ x.pending ∨ (x.applied.length ≤ i ∧ i < z.applied.length)

theorem since_register {x y : Leader} (h : Before x) (hreg : x.step .register = some y) :
    Since x y := by
  unfold step at hreg
  dsimp only at hreg
  split at hreg
  · rename_i snapshot n hphase
    cases hreg
    have hquiet : x.streamed = [] := h.quiet (by rw [hphase]; rfl)
    refine ⟨rfl, by rw [hphase]; rfl, le_rfl, ?_, fun i => ?_⟩
    · rw [hquiet]
      exact h.nodup
    · dsimp only
      rw [hquiet, nil_append]
      constructor
      · exact .inl
      · rintro (hi | ⟨hle, hlt⟩)
        · exact hi
        · omega
  · cases hreg

theorem Since.step {x z w : Leader} {a : LeaderStep} (hx : Before x) (h : Since x z)
    (hstep : z.step a = some w) : Since x w := by
  rcases step_cases hstep with ⟨happlied, hpending, hstreamed, hphase⟩ |
    ⟨env, args, -, -, happlied, hpending, hphase, hstreamed⟩ |
    ⟨i, -, hi, -, happlied, hpending, hphase, hstreamed⟩
  · have hphase : w.phase = z.phase := by
      rcases hphase with hphase | ⟨hfresh, -⟩
      · exact hphase
      · exact absurd h.registered (by simp [hfresh])
    refine ⟨by rw [hphase]; exact h.registered, by rw [hphase]; exact h.count, ?_, ?_, ?_⟩
    · rw [happlied]
      exact h.grown
    · rw [hstreamed, hpending]
      exact h.nodup
    · rw [hstreamed, hpending, happlied]
      exact h.mem
  · have hnew : z.applied.length ∉ z.streamed ++ z.pending := by
      intro hin
      have hgrown := h.grown
      rcases (h.mem _).mp hin with hold | ⟨-, hlt⟩
      · have hlt := hx.below _ hold
        omega
      · omega
    refine ⟨by rw [hphase]; exact h.registered, by rw [hphase]; exact h.count, ?_, ?_, fun i => ?_⟩
    · rw [happlied, length_append]
      exact Nat.le_add_right_of_le h.grown
    · rw [hstreamed, hpending, ← append_assoc]
      refine nodup_append.mpr ⟨h.nodup, nodup_singleton _, fun i hi j hj heq => ?_⟩
      rw [heq, mem_singleton.mp hj] at hi
      exact hnew hi
    · rw [hstreamed, hpending, happlied, ← append_assoc, mem_append, h.mem i,
        mem_singleton, length_append, length_singleton]
      have hgrown := h.grown
      constructor
      · rintro ((hold | ⟨hle, hlt⟩) | heq)
        · exact .inl hold
        · exact .inr ⟨hle, by omega⟩
        · exact .inr ⟨by omega, by omega⟩
      · rintro (hold | ⟨hle, hlt⟩)
        · exact .inl (.inl hold)
        · by_cases heq : i = z.applied.length
          · exact .inr heq
          · exact .inl (.inr ⟨hle, by omega⟩)
  · have hperm : (w.streamed ++ w.pending).Perm (z.streamed ++ z.pending) := by
      rw [hstreamed, hpending, if_pos h.registered, append_assoc]
      exact (perm_cons_erase hi).symm.append_left _
    refine ⟨by rw [hphase]; exact h.registered, by rw [hphase]; exact h.count, ?_, ?_, fun j => ?_⟩
    · rw [happlied]
      exact h.grown
    · exact hperm.nodup_iff.mpr h.nodup
    · rw [hperm.mem_iff, happlied]
      exact h.mem j

/-! ## Each write once -/

/-- Each write is in the snapshot the follower loads or is streamed to it once, and not both. -/
def ExactlyOnce (z : Leader) : Prop :=
  ∀ i < z.applied.length, (i < z.phase.count ∧ i ∉ z.streamed) ∨
    (z.phase.count ≤ i ∧ z.streamed.count i = 1)

theorem Since.exactlyOnce_iff {x z : Leader} (hx : Before x) (h : Since x z)
    (hdone : z.pending = []) :
    z.ExactlyOnce ↔ ∀ i < x.applied.length, (i ∈ x.pending ↔ x.phase.count ≤ i) := by
  have hmem : ∀ i, i ∈ z.streamed ↔
      i ∈ x.pending ∨ (x.applied.length ≤ i ∧ i < z.applied.length) := by
    intro i
    have hi := h.mem i
    rwa [hdone, append_nil] at hi
  have honce : ∀ i ∈ z.streamed, z.streamed.count i = 1 := by
    have hnodup := h.nodup
    rw [hdone, append_nil] at hnodup
    exact fun i hi => count_eq_one_of_mem hnodup hi
  have hgrown := h.grown
  have hcount := hx.count
  unfold ExactlyOnce
  rw [h.count]
  constructor
  · intro hall i hi
    rcases hall i (by omega) with ⟨hlt, hout⟩ | ⟨hle, hone⟩
    · constructor
      · exact fun hin => absurd ((hmem i).mpr (.inl hin)) hout
      · intro hle
        omega
    · have hin : i ∈ z.streamed := count_pos_iff.mp (by omega)
      rcases (hmem i).mp hin with hpend | hnew
      · exact ⟨fun _ => hle, fun _ => hpend⟩
      · omega
  · intro hall i hi
    by_cases hold : i < x.applied.length
    · by_cases hle : x.phase.count ≤ i
      · exact .inr ⟨hle, honce i ((hmem i).mpr (.inl ((hall i hold).mpr hle)))⟩
      · refine .inl ⟨by omega, fun hin => ?_⟩
        rcases (hmem i).mp hin with hpend | hnew
        · exact hle ((hall i hold).mp hpend)
        · omega
    · exact .inr ⟨by omega, honce i ((hmem i).mpr (.inr ⟨by omega, hi⟩))⟩

end Leader

/-- **When a full sync loses no write.** For any interleaving of a follower's sync with the
writes of any number of clients: once the follower is registered and every write has been
propagated, each write is in the snapshot or was streamed once, and not both, exactly if the
writes pending at the registration were those applied since the dump. -/
theorem full_sync_iff {st : State} {x y z : Leader}
    (hbefore : Reaches Leader.step (fun _ _ => True) (Leader.start st) x)
    (hreg : x.step .register = some y) (hafter : Reaches Leader.step (fun _ _ => True) y z)
    (hdone : z.pending = []) :
    z.ExactlyOnce ↔ ∀ i < x.applied.length, (i ∈ x.pending ↔ x.phase.count ≤ i) := by
  have hx : x.Before := hbefore.invariant ⟨nofun, nodup_nil, Nat.zero_le _, fun _ => rfl⟩ (fun _ _ _ h _ hs => h.step hs)
  have hz : x.Since z := hafter.invariant (since_register hx hreg)
    (fun _ _ _ h _ hs => h.step hx hs)
  exact hz.exactlyOnce_iff hx hdone

/-- The two steps of `SET k v`, the `i`th write. -/
def setSteps (i : Nat) : List LeaderStep :=
  [.write (Env.plain default 1) [bytes "SET", bytes "k", bytes "v"], .propagate i]

/-- What can be seen of a leader without its store. -/
def Leader.seen (x : Leader) : Nat × List Nat × Nat × List Nat :=
  (x.applied.length, x.pending, x.phase.count, x.streamed)

/-- A write before the sync and a write after it. -/
theorem full_sync_orderly : ∃ x y z, runAll Leader.step (Leader.start State.new)
        (setSteps 0 ++ [.dump (Env.plain default 1), .send]) = some x ∧
      x.step .register = some y ∧ runAll Leader.step y (setSteps 1) = some z ∧
      z.seen = (2, [], 1, [1]) ∧ z.ExactlyOnce := by
  have hbefore : runAll step (start State.new)
      (setSteps 0 ++ [.dump (Env.plain default 1), .send]) = some _ := rfl
  refine ⟨_, _, _, hbefore, rfl, rfl, rfl, (full_sync_iff (reaches_of_runAll hbefore) rfl
    (reaches_of_runAll (show runAll step _ (setSteps 1) = some _ from rfl)) rfl).mpr ?_⟩
  decide

/-- A single write that is in both the snapshot and the stream, or in neither. -/
theorem Leader.not_exactlyOnce {x : Leader} {n : Nat} {streamed : List Nat}
    (hseen : x.seen = (1, [], n, streamed)) (hbad : 0 < n ↔ 0 ∈ streamed) : ¬ x.ExactlyOnce := by
  simp only [seen, Prod.mk.injEq] at hseen
  obtain ⟨hlen, -, rfl, rfl⟩ := hseen
  intro honce
  rcases honce 0 (by omega) with ⟨hlt, hout⟩ | ⟨hle, hone⟩
  · exact hout (hbad.mp hlt)
  · have hin : 0 ∈ x.streamed := count_pos_iff.mp (by omega)
    have hlt := hbad.mpr hin
    omega

/-- A write that is applied after the dump and propagated before the registration is lost; one
that is applied before the dump and propagated after the registration is doubled. -/
theorem full_sync_loses_write : (∃ y, runAll Leader.step (Leader.start State.new)
        ([.dump (Env.plain default 1), .send] ++ setSteps 0 ++ [.register]) = some y ∧
      y.seen = (1, [], 0, []) ∧ ¬ y.ExactlyOnce) ∧ ∃ y, runAll Leader.step (Leader.start State.new)
        ((setSteps 0).take 1 ++ [.dump (Env.plain default 1), .send, .register, .propagate 0])
        = some y ∧ y.seen = (1, [], 1, [0]) ∧ ¬ y.ExactlyOnce := by
  constructor
  · exact ⟨_, rfl, rfl, not_exactlyOnce rfl (by decide)⟩
  · exact ⟨_, rfl, rfl, not_exactlyOnce rfl (by decide)⟩

end Vole.Server
