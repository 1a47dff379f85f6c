import Vole.Server.Restart
import Vole.Server.Replication
import Vole.Lib.Replicas

/-!
# Commands as updates of a map

On keys without an expiry, what a peer makes of `SET`, `DEL`, `INCR` and `RPUSH` is the same
at every time, and it is done to each key by itself. The store is then a map from keys to
entries, and each of these commands an update of it.
-/

namespace Vole.Server

open Go Cmd Replica Store

/-! ## Keys that never expire -/

/-- The key holds a string, a hash, a list or a set, and never expires. -/
def Timeless (e : Entry) : Prop := ∀ later, Simple later e

namespace Timeless

variable {e : Entry} {now : Int}

theorem zero : Timeless 0 := fun later => .empty later

variable (h : Timeless e)
include h

theorem fresh (now : Int) : e.expired now = false := (h now).fresh le_rfl

theorem purge (now : Int) (b : Nat) : Cell.purge ⟨e, b⟩ now = ⟨e, b⟩ :=
  Cell.purge_of_fresh (h.fresh now)

theorem eq_zero (hnone : e.hasAny DataType.all = false) : e = 0 := by
  have hexpires := (h 0).idle hnone
  have hunused := (h 0).unused
  obtain ⟨⟨⟩⟩ := e
  simp only [otherParts, Entry.empty, Data.empty, Entry.mk.injEq, Data.mk.injEq, true_and] at hunused
  obtain ⟨⟨rfl, rfl, rfl, rfl, rfl⟩, rfl, rfl, rfl, rfl, rfl, rfl⟩ := hunused
  simp only [Data.hasAny, DataType.all, Data.has, List.any_cons, List.any_nil, Bool.or_eq_false_iff,
    Option.isSome_eq_false_iff, Option.isNone_iff_eq_none] at hnone
  obtain ⟨rfl, rfl, rfl, rfl, -⟩ := hnone
  cases hexpires
  rfl

/-! ## The commands on such a key -/

theorem incrBy_time (now later delta : Int) (b : Nat) :
    Cell.incrBy now delta ⟨e, b⟩ = Cell.incrBy later delta ⟨e, b⟩ := by
  unfold Cell.incrBy
  rw [h.purge now, h.purge later]

theorem incrBy (now delta : Int) : Timeless (Cell.incrBy now delta ⟨e, 0⟩).2.toEntry := by
  intro later
  rw [h.incrBy_time now later]
  exact (h later).incrBy delta

theorem pushList_time (now later : Int) (left : Bool) (values : List Bytes) (b : Nat) :
    Cell.pushList now left values ⟨e, b⟩ = Cell.pushList later left values ⟨e, b⟩ := by
  unfold Cell.pushList
  rw [h.purge now, h.purge later]

theorem pushList (now : Int) (left : Bool) (values : List Bytes) :
    Timeless (Cell.pushList now left values ⟨e, 0⟩).2.toEntry := by
  intro later
  rw [h.pushList_time now later]
  exact (h later).pushList left values

end Timeless

/-- What `DEL` leaves of a key. -/
def delEntry (e : Entry) : Entry := if e.existsAt 0 then 0 else e

theorem delCell_timeless {e : Entry} (h : Timeless e) (now : Int) (b : Nat) :
    (delCell now ⟨e, b⟩).2.toEntry = delEntry e := by
  have hexp : ¬ (Cell.mk e b).expired now = true := by
    rw [h.fresh now]
    exact Bool.false_ne_true
  have hexists : (Cell.mk e b).existsAt now = e.existsAt 0 := by
    show e.existsAt now = e.existsAt 0
    unfold Entry.existsAt
    rw [h.fresh now, h.fresh 0, (h 0).visible now, (h 0).visible 0]
  unfold delCell delEntry
  rw [if_neg hexp, hexists]
  split <;> rfl

theorem delEntry_delEntry (e : Entry) : delEntry (delEntry e) = delEntry e := by
  by_cases h : e.existsAt 0 = true
  · rw [show delEntry e = 0 from if_pos h]
    rfl
  · rw [show delEntry e = e from if_neg h]
    exact if_neg h

theorem Timeless.delEntry {e : Entry} (h : Timeless e) : Timeless (delEntry e) := by
  unfold Server.delEntry
  split
  · exact .zero
  · exact h

/-! ## Updates -/

/-- The update that one of the commands `SET`, `DEL`, `INCR` and `RPUSH` amounts to, if it
leaves no expiry. -/
def updateOf (R : Runtime) (args : List Bytes) : Option (Update Bytes Entry) :=
  match RecordWord.ofArgs args with
  | some (.key .set) =>
    if 0 < recordTTL parseIntValue (args.drop 2) then none
    else some ⟨args.tail.take 1, fun e =>
      (KeyRecordWord.set.run parseIntValue R 0 (args.drop 2) ⟨e, 0⟩).toEntry⟩
  | some (.key .incr) =>
    some ⟨args.tail.take 1, fun e =>
      (KeyRecordWord.incr.run parseIntValue R 0 (args.drop 2) ⟨e, 0⟩).toEntry⟩
  | some (.store .del) => some ⟨args.tail, delEntry⟩
  | some (.store .rPush) =>
    some ⟨[args.getD 1 []], fun e => (Cell.pushList 0 false (args.drop 2) ⟨e, 0⟩).2.toEntry⟩
  | _ => none

/-- The store holds only keys that never expire, and nobody waits for a list. -/
structure Steady (s : Store) : Prop where
  timeless : ∀ k, Timeless (s.entries k)
  idle : s.Idle

/-- After the change from `s` to `t`, which is the update `u`. -/
structure Updated (u : Update Bytes Entry) (s t : Store) : Prop where
  entries : ⇑t.entries = u.apply s.entries
  steady : Steady t

section
variable {R : Runtime} {now : Int} {args : List Bytes} {s : Store} {u : Update Bytes Entry}

theorem updated_put (h : Steady s) (key : Bytes) {c : Cell} {value : Entry → Entry}
    (hc : c.toEntry = value (s.entries key)) (htimeless : Timeless c.toEntry) :
    Updated ⟨[key], value⟩ s (s.put key c) := by
  refine ⟨funext (fun k => ?_), fun k => ?_, h.idle⟩
  · rw [put_entries_apply]
    unfold Update.apply
    by_cases hk : k = key
    · subst hk
      simp [hc]
    · simp [hk]
  · rw [put_entries_apply]
    split
    · exact htimeless
    · exact h.timeless k

theorem updated_key {w : KeyRecordWord} (h : Steady s)
    (hrun : ∀ (rest : List Bytes) (e : Entry), rest = args.drop 2 → Timeless e →
      (w.run parseIntValue R now rest ⟨e, 0⟩).toEntry = (w.run parseIntValue R 0 rest ⟨e, 0⟩).toEntry ∧
        Timeless (w.run parseIntValue R now rest ⟨e, 0⟩).toEntry) :
    Updated ⟨args.tail.take 1, fun e => (w.run parseIntValue R 0 (args.drop 2) ⟨e, 0⟩).toEntry⟩ s
      ((RecordWord.key w).run parseIntValue R now args s) := by
  match args, hrun with
  | [], _ => exact ⟨rfl, h⟩
  | [_], _ => exact ⟨rfl, h⟩
  | _ :: key :: rest, hrun =>
    obtain ⟨htime, htimeless⟩ := hrun rest (s.entries key) rfl (h.timeless key)
    exact updated_put h key htime htimeless

theorem updated_del (h : Steady s) (keys : List Bytes) :
    Updated ⟨keys, delEntry⟩ s (del now keys s).2 := by
  induction keys generalizing s with
  | nil => exact ⟨rfl, h⟩
  | cons key rest ih =>
    have hcell := delCell_timeless (h.timeless key) now 0
    have hfirst : Updated ⟨[key], delEntry⟩ s (s.put key (delCell now (s.cell key)).2) :=
      updated_put h key hcell (hcell ▸ (h.timeless key).delEntry)
    obtain ⟨hentries, hsteady⟩ := ih hfirst.steady
    refine ⟨?_, hsteady⟩
    refine hentries.trans (funext fun k => ?_)
    rw [hfirst.entries]
    unfold Update.apply
    -- a key that is named twice is deleted once
    by_cases hk : k = key <;> by_cases hrest : k ∈ rest <;>
      simp [hk, hrest, delEntry_delEntry]

/-- **A peer makes the update**, whatever the time is. -/
theorem applyReplicated_update (h : Steady s) (hu : updateOf R args = some u) :
    Updated u s (applyReplicatedCommand R now args s) := by
  unfold updateOf at hu
  unfold applyReplicatedCommand
  split at hu
  · rename_i hword
    split at hu
    · cases hu
    rename_i hno
    cases hu
    rw [hword]
    refine updated_key h (fun rest e hrest he => ?_)
    rw [← hrest] at hno
    simp only [KeyRecordWord.run]
    split
    · rw [set_toEntry, set_toEntry, deadline, deadline, if_neg hno, if_neg hno]
      exact ⟨rfl, fun later => (he later).asString _ (fun _ hx => absurd hx (by simp))⟩
    · exact ⟨rfl, he⟩
  · rename_i hword
    cases hu
    rw [hword]
    refine updated_key h (fun rest e _ he => ?_)
    simp only [KeyRecordWord.run]
    split
    · exact ⟨by rw [he.incrBy_time now 0], he.incrBy now 1⟩
    · exact ⟨rfl, he⟩
  · rename_i hword
    cases hu
    rw [hword]
    show Updated _ s (if 1 < args.length then (del now args.tail s).2 else s)
    split
    · exact updated_del h args.tail
    · rename_i hlen
      have hnone : args.tail = [] := List.length_eq_zero_iff.mp (by rw [List.length_tail]; omega)
      rw [hnone]
      exact ⟨rfl, h⟩
  · rename_i hword
    cases hu
    rw [hword]
    show Updated _ s (if 2 < args.length then _ else s)
    split
    · rw [pushList_idle h.idle]
      refine updated_put h _ ?_ ((h.timeless _).pushList now false _)
      rw [← (h.timeless _).pushList_time now 0]
      rfl
    · rename_i hlen
      rw [List.drop_eq_nil_of_le (by omega)]
      have hsame : Updated ⟨[args.getD 1 []], id⟩ s (s.put (args.getD 1 []) (s.cell _)) :=
        updated_put h _ rfl (h.timeless _)
      rwa [put_cell] at hsame
  · cases hu

end

end Vole.Server
