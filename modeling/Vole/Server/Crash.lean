import Vole.Server.Recovery

/-!
# Crashes while a snapshot is saved

`saveSnapshot` changes two files in three steps: the snapshot is written to a temporary file,
the temporary file is renamed over the snapshot, and the append-only file is truncated. A
server that starts again loads the snapshot and replays the append-only file. Between the
second and the third step the new snapshot stands next to the old records, which are then
applied a second time.
-/

namespace Vole.Server

open Go

/-! ## Files -/

/-- The files of a server. -/
structure Disk where
  /-- the temporary file beside the snapshot, which nobody reads -/
  tmp : Option Snapshot
  snapshot : Option Snapshot
  aof : List Record

/-- The files behind a running server. -/
def State.disk (st : State) : Disk := ⟨none, st.snapshot, st.aof⟩

/-- `LoadSnapshot`: a missing file changes nothing. -/
def loadSnapshot (R : Runtime) (now : Time) (hint : List Bytes) (file : Option Snapshot)
    (s : Store) : Store :=
  match file with
  | none => s
  | some snapshot => s.load R now hint snapshot

/-- The store of a server that starts with these files: `LoadSnapshot`, then `ReplayAOF`. -/
def Disk.startup (R : Runtime) (now : Time) (hint : List Bytes) (d : Disk) : Store :=
  replay R now d.aof (loadSnapshot R now hint d.snapshot Store.new)

/-- A key that a snapshot brings back as it is: it has not expired, it has no rate limiter,
its document can be written and read, and its sorted set is the one its members give. -/
structure Kept (R : Runtime) (now : Time) (e : Entry) : Prop where
  fresh : e.expired now = false
  restored : (e.snap R).restore R = e

/-- The contents of a store, with all counters at their start. -/
def contents (s : Store) : Store := { Store.new with entries := s.entries }

section
variable {R : Runtime} {now later : Int} {hint hint' : List Bytes} {s : Store}

theorem load_dump_same (hle : now ≤ later) (hkept : ∀ k, Kept R later (s.entries k)) :
    (contents s).Same (Store.new.load R later hint (s.dump R now hint').1) := by
  have hdumped : ∀ k, (s.dump R now hint').1 k = (s.entries k).snap R := by
    intro k
    rw [Store.dump_entries, Entry.purged, if_neg]
    rw [Entry.expired_mono hle (hkept k).fresh]
    exact Bool.false_ne_true
  have hloaded : ∀ k, (Store.new.loadMaps R (s.dump R now hint').1).entries k = s.entries k := by
    intro k
    rw [Store.loadMaps_entries, hdumped]
    have hnone : (s.entries k).rateLimiters = none := by
      rw [← (hkept k).restored]
      rfl
    show { ((s.entries k).snap R).restore R with rateLimiters := none } = s.entries k
    rw [(hkept k).restored, ← hnone]
  have hload : Store.new.load R later hint (s.dump R now hint').1
      = Store.new.loadMaps R (s.dump R now hint').1 := by
    refine purgeExpired_of_fresh (fun k => ?_)
    rw [hloaded]
    exact (hkept k).fresh
  rw [hload]
  exact .of_entries (fun k => (hloaded k).symm) (fun _ => rfl) (fun _ => rfl) rfl

theorem startup_saveSnapshot {env : Env} {st : State} (hle : env.now ≤ later)
    (hidle : st.store.Idle) (hseq : st.store.queueSeq = 0)
    (hkept : ∀ k, Kept env.R later (st.store.entries k)) :
    st.store.Same ((st.saveSnapshot env).disk.startup env.R later hint) := by
  have hcontents : st.store.Same (contents st.store) :=
    .of_entries (fun _ => rfl) hidle (fun _ => rfl) hseq
  exact Store.Same.trans hcontents (load_dump_same hle hkept)

end

/-! ## Crashes -/

section
variable {R : Runtime} {now later : Int} {hint hint' : List Bytes} {d : Disk} {s : Store}

end

/-- The server after one command of one client. -/
def served (args : List Bytes) : State :=
  serveAll (Env.plain integralRuntime 1) [args] State.new

theorem kept_of_oneString {s : Store} {key value : Bytes}
    (h : s.entries = (0 : Π₀ _ : Bytes, Entry).update key { Entry.empty with kv := some value })
    (R : Runtime) (now : Time) (k : Bytes) : Kept R now (s.entries k) := by
  rw [h, DFinsupp.coe_update, Function.update_apply]
  split
  · exact ⟨rfl, rfl⟩
  · exact ⟨rfl, rfl⟩

end Vole.Server
