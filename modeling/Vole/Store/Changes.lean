import Vole.Store.StoreOps

/-!
# Where an operation makes its changes

An operation of the store changes the keys it is given. Of other keys, and of its own when it
finds nothing to do, it removes at most what has expired. Removing an expired key is not counted
as a change.
-/

namespace Vole

open Go

/-- The entry is as it was, or the key had expired and is gone. -/
def Entry.Stays (now : Time) (e e' : Entry) : Prop := e' = e ∨ e' = e.purged now

namespace Entry.Stays

variable {now : Time} {e e' e'' : Entry}

theorem refl (e : Entry) : Stays now e e := .inl rfl

theorem purged (e : Entry) : Stays now e (e.purged now) := .inr rfl

theorem trans (h : Stays now e e') (h' : Stays now e' e'') : Stays now e e'' := by
  rcases h with rfl | rfl
  · exact h'
  · rcases h' with rfl | rfl
    · exact .purged e
    · exact .inr (Entry.purged_purged e now)

theorem purge (c : Cell) : Stays now c.toEntry (c.purge now).toEntry :=
  .inr (Cell.purge_toEntry c now)

end Entry.Stays

namespace Store

/-- No key has changed. -/
def Unchanged (now : Time) (s s' : Store) : Prop :=
  ∀ k, (s.entries k).Stays now (s'.entries k)

/-- Every change is within these keys. -/
def Within (now : Time) (keys : List Bytes) (s s' : Store) : Prop :=
  ∀ k, k ∉ keys → (s.entries k).Stays now (s'.entries k)

namespace Within

variable {now : Time} {keys : List Bytes} {s s' : Store} {key : Bytes}

theorem refl (s : Store) : Within now keys s s := fun _ _ => .refl _

theorem trans {s'' : Store} (h : Within now keys s s') (h' : Within now keys s' s'') :
    Within now keys s s'' :=
  fun k hk => (h k hk).trans (h' k hk)

theorem unchanged (h : Within now [] s s') : Unchanged now s s' :=
  fun k => h k (List.not_mem_nil)

section
variable (h : Within now keys s s')
include h

theorem mono {keys' : List Bytes} (hsub : ∀ k ∈ keys, k ∈ keys') :
    Within now keys' s s' :=
  fun k hk => h k (fun hmem => hk (hsub k hmem))

theorem of_entries {s'' : Store} (heq : s''.entries = s'.entries) :
    Within now keys s s'' := by
  intro k hk
  rw [heq]
  exact h k hk

theorem put (hkey : key ∈ keys) (c : Cell) :
    Within now keys s (s'.put key c) := by
  intro k hk
  have hne : k ≠ key := by
    rintro rfl
    exact hk hkey
  rw [put_entries_ne s' key c hne]
  exact h k hk

theorem put_stays {c : Cell}
    (hc : (s'.entries key).Stays now c.toEntry) : Within now keys s (s'.put key c) := by
  intro k hk
  rw [put_entries_apply]
  split
  · rename_i heq
    subst heq
    exact (h k hk).trans hc
  · exact h k hk

theorem modify (hkey : key ∈ keys) (f : Cell → Cell) :
    Within now keys s (s'.modify key f) :=
  h.put hkey _

theorem purgeKey (key : Bytes) :
    Within now keys s (s'.purgeKey now key) :=
  h.put_stays (.purge _)

end

theorem foldl {α : Type} {f : Store → α → Store} (xs : List α)
    (hf : ∀ t x, x ∈ xs → Within now keys s t → Within now keys s (f t x))
    (h : Within now keys s s') : Within now keys s (xs.foldl f s') := by
  induction xs generalizing s' with
  | nil => exact h
  | cons x rest ih =>
    exact ih (fun t y hy => hf t y (.tail _ hy)) (hf s' x (.head _) h)

end Within

/-- A write to one of these keys, or one that changes nothing. -/
def MayWrite (now : Time) (keys : List Bytes) (k : Bytes) (c c' : Cell) : Prop :=
  k ∈ keys ∨ c.toEntry.Stays now c'.toEntry

theorem MayWrite.purge {now : Time} {keys : List Bytes} (k : Bytes) (c : Cell) :
    MayWrite now keys k c (c.purge now) := .inr (.purge c)

theorem Edits.within {now : Time} {keys : List Bytes} {s s' : Store}
    (h : Edits (MayWrite now keys) s s') : Within now keys s s' := by
  induction h with
  | refl => exact .refl s
  | put _ hw ih => exact hw.elim (fun hkey => ih.put hkey _) ih.put_stays
  | touch _ ks ih => exact ih.of_entries rfl
  | aside _ hentries _ _ ih => exact ih.of_entries hentries

/-- The changes of an operation are within keys that its result names. -/
def Changes {α : Type} (now : Time) (keys : α → List Bytes) (s : Store) (r : α × Store) : Prop :=
  Within now (keys r.1) s r.2

/-! ## Operations on several keys -/

section
variable {now : Time} {keys : List Bytes} {s : Store} {key src dst : Bytes}

theorem changes_sMove (member : Bytes) (s : Store) :
    Changes now (fun r => if r.isOk then [src, dst] else []) s (s.sMove now src dst member) :=
  (edits_sMove (W := fun r => MayWrite now (if r.isOk then [src, dst] else [])) member
    (fun _ => .purge) (fun _ _ => .inl (.head _))
    (fun _ _ => .inl (.tail _ (.head _)))).within

theorem changes_bitOp (op : Bytes) (ks : List Bytes) (s : Store) :
    Changes now (fun n => if n.isOk then [dst] else []) s (s.bitOp now op dst ks) :=
  (edits_bitOp (W := fun n => MayWrite now (if n.isOk then [dst] else [])) op ks (fun _ => .purge)
    (fun _ _ _ => .inl (.head _))).within

theorem changes_tsDownsample (R : Runtime) (aggType : Bytes) (start stop bucketSize : Int)
    (s : Store) : Changes now (fun n => if n.isOk then [dst] else []) s
      (s.tsDownsample R now src dst aggType start stop bucketSize) :=
  (edits_tsDownsample (W := fun n => MayWrite now (if n.isOk then [dst] else [])) (fun _ => .purge)
    (fun _ _ _ => .inl (.head _))).within

/-- The keys of a move, if it takes place. -/
def movedKeys (src dst : Bytes) : Except Err (Option Bytes) → List Bytes
  | .ok (some _) => [src, dst]
  | _ => []

theorem changes_lMove (srcLeft dstLeft : Bool) (s : Store) :
    Changes now (movedKeys src dst) s (s.lMove now src dst srcLeft dstLeft) := by
  have hdst : dst ∈ [src, dst] := .tail _ (.head _)
  exact (edits_lMove (W := fun r => MayWrite now (movedKeys src dst r)) (fun _ => .purge)
    (fun _ _ _ => .inl (.head _)) (fun _ _ _ => .inl hdst) (fun _ _ _ => .inl hdst)).within

/-- Sorting changes nothing but the key that the result is stored under, and that only if it
succeeds. -/
theorem changes_sort (R : Runtime) (alpha desc : Bool) (offset count : Int)
    (storeKey : Option Bytes) (hint : List Bytes) (s : Store) :
    Changes now (fun r => if r.isOk then storeKey.toList else []) s
      (s.sort R now key alpha desc offset count storeKey hint) :=
  (edits_sort (W := fun r => MayWrite now (if r.isOk then storeKey.toList else []))
    (fun _ => .purge) (fun _ hdst _ => .inl (Option.mem_toList.mpr hdst))
    (fun _ hdst _ _ _ => .inl (Option.mem_toList.mpr hdst))).within

end

end Store

/-! ## Operations on one key that find nothing to do -/

/-- If the result says that nothing was done, the entry stays. -/
def Cell.StaysIf {α : Type} (now : Time) (idle : α → Prop) (c : Cell) (r : α × Cell) : Prop :=
  idle r.1 → c.toEntry.Stays now r.2.toEntry

/-- The operation failed. -/
def Declined {α : Type} (r : Except Err α) : Prop := r.isOk = false

/-- The operation failed, or has taken nothing. -/
def TakesNothing {α : Type} (r : Except Err (List α)) : Prop := ∀ taken, r = .ok taken → taken = []

namespace Cell

variable {now : Time} {c : Cell}

theorem StaysIf.refl {α : Type} {idle : α → Prop} (a : α) : c.StaysIf now idle (a, c) :=
  fun _ => .refl _

theorem StaysIf.purge {α : Type} {idle : α → Prop} (a : α) : c.StaysIf now idle (a, c.purge now) :=
  fun _ => .purge c

theorem StaysIf.of_checked {α : Type} {safe : Prop} {purges : Bool} {r : Except Err α × Cell}
    (h : Checked safe purges now c r) : c.StaysIf now Declined r := by
  obtain ⟨res, c'⟩ := r
  cases res with
  | ok a => exact fun hdeclined => Bool.noConfusion hdeclined
  | error err =>
    intro _
    rcases h.refused err rfl with hsame | ⟨-, hpurged⟩
    · exact .inl (congrArg Cell.toEntry hsame)
    · exact .inr ((congrArg Cell.toEntry hpurged).trans (Cell.purge_toEntry c now))

theorem stays_setNX (value : Bytes) (ttl : Duration) :
    c.StaysIf now (· = false) (c.setNX now value ttl) := by
  unfold setNX
  dsimp only
  split
  · exact .purge _
  · exact fun h => Bool.noConfusion h

theorem stays_setXX (value : Bytes) (ttl : Duration) :
    c.StaysIf now (· = false) (c.setXX now value ttl) := by
  unfold setXX
  split
  · exact .purge _
  split
  · exact .refl _
  · exact fun h => Bool.noConfusion h

theorem stays_persist : c.StaysIf now (· = false) (c.persist now) := by
  unfold persist
  split
  · exact .purge _
  split
  · exact .refl _
  split
  · exact .refl _
  · exact fun h => Bool.noConfusion h

theorem stays_getDel : c.StaysIf now (· = none) (c.getDel now) := by
  unfold getDel
  split
  · exact .purge _
  split
  · exact .refl _
  · exact nofun

theorem stays_getEx {ttl : Duration} {persist : Bool} :
    c.StaysIf now (fun v => v = none ∨ (persist = false ∧ ¬ 0 < ttl)) (c.getEx now ttl persist) := by
  unfold getEx
  split
  · exact .purge _
  split
  · exact .refl _
  · rintro (h | ⟨rfl, httl⟩)
    · cases h
    · simp only [Bool.false_eq_true, if_false, false_or, if_neg httl]
      exact Entry.Stays.refl _

theorem stays_hSetNX (field value : Bytes) :
    c.StaysIf now (fun r => r ≠ .ok true) (c.hSetNX now field value) := by
  unfold hSetNX
  dsimp only
  split
  · exact .purge _
  split
  · rename_i hfield
    obtain ⟨v, hget⟩ := Option.isSome_iff_exists.mp hfield
    rw [(hashes_of_get hget).2]
    exact .purge _
  · exact fun h => absurd rfl h

theorem stays_sPop (count : Int) (hint : List Bytes) :
    c.StaysIf now TakesNothing (c.sPop now count hint) := by
  unfold sPop
  split
  · exact .purge _
  split
  · exact .refl _
  dsimp only
  split
  · exact .refl _
  · rename_i hset
    intro hnone
    have hnone := hnone _ rfl
    rw [hnone]
    -- what is written back is the set that was there
    cases hsets : c.sets with
    | none => exact absurd (by rw [hsets]; rfl) hset
    | some set =>
      rw [hsets] at hset
      have hset : set ≠ ∅ := hset
      refine .inl ?_
      show (setSet (set \ ∅) c).toEntry = c.toEntry
      rw [Finset.sdiff_empty]
      unfold setSet
      rw [if_neg hset, ← hsets]

theorem stays_zPop {pop : SortedSet → List ZMember × SortedSet}
    (hpop : ∀ z, (pop z).1 = [] → (pop z).2 = z) : c.StaysIf now TakesNothing (c.zPop now pop) := by
  unfold zPop
  split
  · exact .purge _
  split
  · exact .refl _
  split
  · exact .refl _
  · rename_i z hz
    split
    · exact .refl _
    · rename_i hlen
      intro hnone
      have hnone : (pop z).1 = [] := hnone _ rfl
      refine .inl ?_
      show (setZSet (pop z).2 c).toEntry = c.toEntry
      rw [hpop z hnone]
      unfold setZSet
      rw [if_neg hlen, ← hz]

theorem stays_zPopMin (count : Int) : c.StaysIf now TakesNothing (c.zPopMin now count) := by
  refine stays_zPop (fun z hnone => ?_)
  have hnone : z.ordered.take (z.popCount count) = [] := hnone
  show SortedSet.mk (SortedSet.dropScores z.scores (z.ordered.take (z.popCount count)))
    (z.ordered.drop (z.popCount count)) = z
  have hall : z.ordered.drop (z.popCount count) = z.ordered := by
    have happend := List.take_append_drop (z.popCount count) z.ordered
    rwa [hnone, List.nil_append] at happend
  rw [hnone, hall]
  rfl

theorem stays_zPopMax (count : Int) : c.StaysIf now TakesNothing (c.zPopMax now count) := by
  refine stays_zPop (fun z hnone => ?_)
  have hnone : (z.ordered.drop (z.ordered.length - z.popCount count)).reverse = [] := hnone
  show SortedSet.mk (SortedSet.dropScores z.scores
    (z.ordered.drop (z.ordered.length - z.popCount count)).reverse)
    (z.ordered.take (z.ordered.length - z.popCount count)) = z
  rw [hnone]
  have hall := List.drop_eq_nil_iff.mp (List.reverse_eq_nil_iff.mp hnone)
  rw [List.take_of_length_le hall]
  rfl

end Cell

end Vole
