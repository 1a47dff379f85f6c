import Vole.Server.Http

/-!
# The records of the HTTP interface, form by form

For each request that writes: when replaying its record, on the store the request found and at
the same time, leaves what the request left. Only `PUT` and the flush have a condition. A `PUT`
is logged before it is known whether the key is set, replay overwrites the key whatever the
options say, and with both `ex` and `px` the record states the seconds and the store gets the
milliseconds.
-/

namespace Vole.Server

open Go Cmd Entry HttpWrite

variable {expires expires' : Option Time}

section
variable {now : Time} {e : Entry} {value : Bytes}

end

/-! ## The requests -/

section
variable {R : Runtime} {now : Time} {s : Store}

theorem modify_entries_eq_iff (s : Store) (key : Bytes) (f g : Cell → Cell) :
    (s.modify key f).entries = (s.modify key g).entries
      ↔ (f ⟨s.entries key, 0⟩).toEntry = (g ⟨s.entries key, 0⟩).toEntry := by
  constructor
  · intro h
    have hkey := DFunLike.congr_fun h key
    rw [Store.modify_entries, Store.modify_entries, if_pos rfl, if_pos rfl] at hkey
    exact hkey
  · intro h
    refine DFunLike.ext _ _ (fun k => ?_)
    rw [Store.modify_entries, Store.modify_entries]
    split
    · exact h
    · rfl

theorem HttpWrite.RunsAs.entries {w : HttpWrite} (h : w.RunsAs R now) (s : Store) :
    (replayRecord R now s (w.record R)).entries = (w.effect now s).entries := by
  obtain ⟨word, key, rest, f, hrecord, heffect, hrun⟩ := h
  rw [hrecord, heffect, replayRecord_keyText, modify_entries_eq_iff]
  exact (hrun _).symm

end

end Vole.Server
