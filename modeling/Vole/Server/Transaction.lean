import Vole.Lib.Transition
import Vole.Store.Watch

/-!
# Transactions

`MULTI`, `EXEC` and `WATCH` as `handleConn` runs them, for one client among any number of
others. Every operation of the store is one step, whoever calls it. `EXEC` first compares
the versions of the watched keys; the queued commands then run one operation at a time, and
the lock of the store is free in between.
-/

namespace Vole.Server

open Go Transition

/-- A queued command, as the operations of the store it performs. -/
abbrev Command := List Op

/-- The connection of the client, and what the others did to it. -/
structure Session where
  store : Store
  /-- `tx.active`, `tx.queue` and `tx.watched` of `handleConn` -/
  active : Bool
  queue : List Command
  watched : Option (List (Bytes × Nat))
  /-- what `execTransaction` has still to run; `none` outside of it -/
  running : Option (List Command)
  /-- the first queued command has begun -/
  begun : Prop
  /-- somebody else changed what the key holds after the client last watched it, and not
  after the last queued command -/
  changed : Bytes → Prop
  /-- somebody else changed something between the first and the last queued command -/
  interleaved : Prop

/-- A step: an operation of another client's command, or a command of the client. -/
inductive Event where
  | other (op : Op)
  | own (op : Op)
  | watch (keys : List Bytes)
  | unwatch
  | multi
  | discard
  | enqueue (command : Command)
  /-- `EXEC` up to the comparison of the versions -/
  | exec
  /-- the next operation of the transaction -/
  | advance
  /-- the reply of `EXEC` with the responses of all queued commands -/
  | reply

namespace Session

/-- A connection to a store that is in use. -/
def start (s : Store) : Session :=
  ⟨s, false, [], none, none, False, fun _ => False, False⟩

/-- `tx.watched[k] = v` -/
def record (watched : List (Bytes × Nat)) (key : Bytes) (version : Nat) : List (Bytes × Nat) :=
  (key, version) :: watched.filter (fun p => p.1 ≠ key)

/-- The versions a `WATCH` of these keys adds. -/
def recordAll (s : Store) (keys : List Bytes) (watched : List (Bytes × Nat)) : List (Bytes × Nat) :=
  keys.foldl (fun w k => record w k (s.keyVersionOf k)) watched

/-- The watched keys with their versions. -/
def watching (x : Session) : List (Bytes × Nat) := x.watched.getD []

/-- The transaction is over or given up. -/
def cleared (x : Session) : Session :=
  { x with active := false, queue := [], watched := none, running := none }

/-- What is left to run once the first operation is done. -/
def afterFirst (ops : List Op) (rest : List Command) : List Command :=
  if ops = [] then rest else ops :: rest

/-- An operation of somebody else. -/
def disturb (R : Runtime) (now : Time) (op : Op) (x : Session) : Session :=
  { x with
    store := op.apply R now x.store
    changed := fun k => x.changed k ∨ (x.running ≠ some [] ∧
      ((op.apply R now x.store).entries k).toData ≠ (x.store.entries k).toData)
    interleaved := x.interleaved ∨ (x.begun ∧ x.running ≠ some [] ∧
      (op.apply R now x.store).entries ≠ x.store.entries) }

/-- A command of the client, outside of `execTransaction`. -/
def serve (R : Runtime) (now : Time) (x : Session) : Event → Option Session
  | .own op =>
    if x.active || op.isLoad then none else some { x with store := op.apply R now x.store }
  | .watch keys =>
    if x.active ∨ keys = [] then some x
    else some
      { x with
        watched := some (recordAll x.store keys x.watching)
        changed := fun k => k ∉ keys ∧ x.changed k }
  | .unwatch => some { x with watched := none }
  | .multi => some (if x.active then x else { x with active := true, queue := [] })
  | .discard => some (if x.active then x.cleared else x)
  | .enqueue command =>
    if x.active then some { x with queue := x.queue ++ [command] } else none
  | .exec =>
    if !x.active then some x
    else if x.store.keysModifiedSince x.watching then some x.cleared
    else some { x with running := some x.queue, begun := False, interleaved := False }
  | _ => none

/-- The next operation of `execTransaction`, or its end. -/
def proceed (R : Runtime) (now : Time) (x : Session) : List Command → Event → Option Session
  | (op :: ops) :: rest, .advance =>
    if op.isLoad then none
    else some
      { x with
        store := op.apply R now x.store
        running := some (afterFirst ops rest)
        begun := True }
  | [] :: rest, .advance => some { x with running := some rest, begun := True }
  | [], .reply => some x.cleared
  | _, _ => none

/-- One step. While the queued commands run, the connection serves no other command of the
client. -/
def step (R : Runtime) (x : Session) : Time × Event → Option Session
  | (now, .other op) => if op.isLoad then none else some (x.disturb R now op)
  | (now, e) =>
    match x.running with
    | none => x.serve R now e
    | some commands => x.proceed R now commands e

/-- The others spare the watched keys: before the check the changes they make to them are noticed
and nothing hides these again, and from then to the last queued command they make none. -/
def SparesWatched (R : Runtime) (x : Session) : Time × Event → Prop
  | (now, .other op) => ∀ p ∈ x.watching,
      (x.running = none → op.Noticed R now x.store p.1 ∧ op.KeepsTrace x.store p.1 p.2) ∧
      (x.running ≠ none → x.running ≠ some [] →
        ((op.apply R now x.store).entries p.1).toData = (x.store.entries p.1).toData)
  | (_, .own op) => ∀ p ∈ x.watching, op.KeepsTrace x.store p.1 p.2
  | _ => True

/-- The others change nothing between the first and the last queued command. -/
def SparesQueue (R : Runtime) (x : Session) : Time × Event → Prop
  | (now, .other op) => x.running ≠ none → x.running ≠ some [] → x.begun →
      (op.apply R now x.store).entries = x.store.entries
  | _ => True

def Undisturbed (R : Runtime) (x : Session) (a : Time × Event) : Prop :=
  x.SparesWatched R a ∧ x.SparesQueue R a

/-- No other client got in the way of the transaction that is being carried out. -/
def Isolated (x : Session) : Prop := (∀ p ∈ x.watching, ¬ x.changed p.1) ∧ ¬ x.interleaved

/-- What holds between any two such steps. -/
structure Inv (x : Session) : Prop where
  wf : x.store.Wf
  /-- before the check, a change to a watched key shows in its version -/
  traced : x.running = none → ∀ p ∈ x.watching,
    p.2 ≤ x.store.version ∧ (x.changed p.1 → x.store.keyVersion p.1 ≠ p.2)
  isolated : x.running ≠ none → x.Isolated

section
variable {R : Runtime} {now : Time} {x y : Session}

theorem mem_recordAll {s : Store} {keys : List Bytes} {watched : List (Bytes × Nat)}
    {p : Bytes × Nat} (h : p ∈ recordAll s keys watched) :
    (p.2 = s.keyVersionOf p.1 ∧ p.1 ∈ keys) ∨ (p ∈ watched ∧ p.1 ∉ keys) := by
  induction keys generalizing watched with
  | nil => exact .inr ⟨h, List.not_mem_nil⟩
  | cons key rest ih =>
    rcases ih h with ⟨hversion, hmem⟩ | ⟨hmem, hnot⟩
    · exact .inl ⟨hversion, .tail _ hmem⟩
    · rcases List.mem_cons.mp hmem with heq | hold
      · rw [heq]
        exact .inl ⟨rfl, (.head _)⟩
      · obtain ⟨hold, hne⟩ := List.mem_filter.mp hold
        refine .inr ⟨hold, ?_⟩
        intro hin
        rcases List.mem_cons.mp hin with heq | hin
        · exact absurd heq (by simpa using hne)
        · exact hnot hin

theorem cleared_inv (hwf : x.store.Wf) : Inv x.cleared where
  wf := hwf
  traced := nofun
  isolated := fun h => absurd rfl h

theorem disturb_inv (hinv : Inv x) (op : Op) (hload : op.isLoad = false)
    (hok : x.Undisturbed R (now, .other op)) : Inv (x.disturb R now op) := by
  obtain ⟨hwatched, hqueue⟩ := hok
  refine ⟨Op.apply_wf hinv.wf op hload, ?_, ?_⟩
  · intro hnone p hp
    obtain ⟨hseen, hchanged⟩ := hinv.traced hnone p hp
    obtain ⟨hnoticed, hkeep⟩ := (hwatched p hp).1 hnone
    obtain ⟨hseen', htrace⟩ := Op.apply_trace R now hinv.wf op hload hkeep hseen
    refine ⟨hseen', ?_⟩
    rintro (hbefore | ⟨-, hnow⟩)
    · exact htrace (hchanged hbefore)
    · -- the key changes now: it gets another version, and not the one that was seen
      by_cases hsame : x.store.keyVersion p.1 = p.2
      · have hdiff := (hinv.wf.noticed_iff op p.1).mpr hnoticed hnow
        unfold Store.keyVersionOf at hdiff
        rw [hsame] at hdiff
        exact hdiff
      · exact htrace hsame
  · intro hrunning
    obtain ⟨hkeys, hbetween⟩ := hinv.isolated hrunning
    refine ⟨fun p hp => ?_, ?_⟩
    · rintro (hbefore | ⟨hmore, hnow⟩)
      · exact hkeys p hp hbefore
      · exact hnow ((hwatched p hp).2 hrunning hmore)
    · rintro (hbefore | ⟨hbegun, hmore, hnow⟩)
      · exact hbetween hbefore
      · exact hnow (hqueue hrunning hmore hbegun)

theorem check_isolated (hinv : Inv x) (hnone : x.running = none)
    (hcheck : ¬ x.store.keysModifiedSince x.watching = true) :
    ∀ p ∈ x.watching, ¬ x.changed p.1 := by
  intro p hp hchanged
  have hne := (hinv.traced hnone p hp).2 hchanged
  refine hcheck ?_
  exact List.any_eq_true.mpr ⟨p, hp, by simpa using hne⟩

theorem serve_inv (hinv : Inv x) (hnone : x.running = none) (e : Event)
    (hok : x.Undisturbed R (now, e)) (hstep : x.serve R now e = some y) : Inv y := by
  have hquiet : ∀ {y : Session}, y.running = x.running → y.running ≠ none → y.Isolated :=
    fun heq h => absurd (heq.trans hnone) h
  cases e with
  | own op =>
    simp only [serve] at hstep
    split at hstep
    · cases hstep
    · rename_i hcond
      have hload : op.isLoad = false := by
        simp only [Bool.or_eq_true, not_or, Bool.not_eq_true] at hcond
        exact hcond.2
      cases hstep
      refine ⟨Op.apply_wf hinv.wf op hload, ?_, hquiet rfl⟩
      -- a write of the client's own does not bring back the version that was seen
      intro _ p hp
      obtain ⟨hseen, hchanged⟩ := hinv.traced hnone p hp
      obtain ⟨hseen', htrace⟩ :=
        Op.apply_trace R now hinv.wf op hload (hok.1 p hp) hseen
      exact ⟨hseen', fun h => htrace (hchanged h)⟩
  | watch keys =>
    simp only [serve] at hstep
    split at hstep
    · cases hstep
      exact hinv
    · cases hstep
      refine ⟨hinv.wf, ?_, hquiet rfl⟩
      intro _ p hp
      -- a key that is watched again is watched from now on
      rcases mem_recordAll hp with ⟨hversion, hin⟩ | ⟨hold, hout⟩
      · refine ⟨?_, fun h => absurd hin h.1⟩
        rw [hversion]
        exact hinv.wf.bounded p.1
      · obtain ⟨hseen, hchanged⟩ := hinv.traced hnone p hold
        exact ⟨hseen, fun h => hchanged h.2⟩
  | unwatch =>
    cases hstep
    exact ⟨hinv.wf, nofun, hquiet rfl⟩
  | multi =>
    cases hstep
    split
    · exact hinv
    · exact ⟨hinv.wf, fun _ => hinv.traced hnone, hquiet rfl⟩
  | discard =>
    cases hstep
    split
    · exact cleared_inv hinv.wf
    · exact hinv
  | enqueue command =>
    simp only [serve] at hstep
    split at hstep
    · cases hstep
      exact ⟨hinv.wf, fun _ => hinv.traced hnone, hquiet rfl⟩
    · cases hstep
  | exec =>
    simp only [serve] at hstep
    split at hstep
    · cases hstep
      exact hinv
    split at hstep
    · cases hstep
      exact cleared_inv hinv.wf
    · rename_i hcheck
      cases hstep
      refine ⟨hinv.wf, nofun, fun _ => ?_⟩
      have hkeys := check_isolated hinv hnone hcheck
      exact ⟨hkeys, id⟩
  | other op => cases hstep
  | advance => cases hstep
  | reply => cases hstep

theorem proceed_inv (hinv : Inv x) {commands : List Command} (hrunning : x.running = some commands)
    (e : Event) (hstep : x.proceed R now commands e = some y) : Inv y := by
  have hiso : x.Isolated := hinv.isolated (by simp [hrunning])
  unfold proceed at hstep
  split at hstep
  · split at hstep
    · cases hstep
    · rename_i hload
      cases hstep
      exact ⟨Op.apply_wf hinv.wf _ (eq_false_of_ne_true hload),
        nofun, fun _ => hiso⟩
  · cases hstep
    exact ⟨hinv.wf, nofun, fun _ => hiso⟩
  · cases hstep
    exact cleared_inv hinv.wf
  · cases hstep

theorem step_inv (hinv : Inv x) (a : Time × Event) (hok : x.Undisturbed R a)
    (hstep : step R x a = some y) : Inv y := by
  unfold step at hstep
  split at hstep
  · split at hstep
    · cases hstep
    · rename_i hload
      cases hstep
      exact disturb_inv hinv _ (eq_false_of_ne_true hload) hok
  · split at hstep
    · rename_i hnone
      exact serve_inv hinv hnone _ hok hstep
    · rename_i commands hrunning
      exact proceed_inv hinv hrunning _ hstep

end

/-- **Isolation of transactions.** From any reachable store, in a run of undisturbed steps,
while `EXEC` carries out a transaction no other client has changed a watched key since it
was watched, and none has taken effect since the first queued command. -/
theorem exec_isolated (R : Runtime) (s : Store) (hs : Reachable R s) (x : Session)
    (hrun : Reaches (step R) (Undisturbed R) (start s) x) : x.running ≠ none → x.Isolated := by
  have hstart : Inv (start s) :=
    ⟨hs.wf, nofun, fun h => absurd rfl h⟩
  have hinv : Inv x := hrun.invariant hstart (fun _ _ a hinv hok hstep =>
    step_inv hinv a hok hstep)
  exact hinv.isolated

/-- A transaction on a watched key, with another client's writes to some other key before and
after the check. -/
theorem exec_isolated_alone :
    ∃ x, Reaches (step default) (Undisturbed default) (start Store.new) x ∧
      x.running = some [] ∧ x.watching = [(bytes "k", 0)] ∧ x.Isolated := by
  have hwatch : Reaches (step default) (Undisturbed default) (start Store.new) _ :=
    .tail (1, Event.watch [bytes "k"]) .refl ⟨trivial, trivial⟩ rfl
  have hother := hwatch.tail (1, Event.other (.cell (bytes "j") (.set (bytes "v") 0)))
    ⟨fun _ _ => ⟨fun _ => ⟨trivial, trivial⟩, fun h => absurd rfl h⟩, fun h => absurd rfl h⟩ rfl
  have hmulti := hother.tail (1, Event.multi) ⟨trivial, trivial⟩ rfl
  have hqueue := hmulti.tail (1, Event.enqueue [.cell (bytes "k") (.incrBy 1)])
    ⟨trivial, trivial⟩ rfl
  have hexec := hqueue.tail (1, Event.exec) ⟨trivial, trivial⟩ rfl
  have hlate := hexec.tail (1, Event.other (.cell (bytes "j") (.set (bytes "w") 0)))
    ⟨fun p hp => ⟨nofun, fun _ _ => List.mem_singleton.mp hp ▸ rfl⟩, fun _ _ h => h.elim⟩ rfl
  have hrun := hlate.tail (1, Event.advance) ⟨trivial, trivial⟩ rfl
  exact ⟨_, hrun, rfl, rfl, exec_isolated default Store.new .new _ hrun (by decide)⟩

/-- Another client writes the watched key after the check, between two queued commands; the
transaction is carried out all the same. -/
theorem exec_disturbed : ∃ x, Reaches (step default) (fun _ _ => True) (start Store.new) x ∧
      x.running = some [] ∧ (bytes "k", 0) ∈ x.watching ∧ x.changed (bytes "k") ∧
      x.interleaved := by
  have hrun : runAll (step default) (start Store.new)
      [(1, .watch [bytes "k"]), (1, .multi), (1, .enqueue [.cell (bytes "a") (.incrBy 1)]),
        (1, .enqueue [.cell (bytes "b") (.incrBy 1)]), (1, .exec), (1, .advance),
        (1, .other (.cell (bytes "k") (.set (bytes "v") 0))), (1, .advance)] = some _ := rfl
  refine ⟨_, reaches_of_runAll hrun, rfl, by decide, .inr ⟨by simp [afterFirst], ?_⟩,
    .inr ⟨trivial, by simp [afterFirst], ?_⟩⟩
  · intro hsame
    exact absurd (congrArg (fun d => d.has .string) hsame) (by decide)
  · intro hsame
    exact absurd (congrArg (fun e => (e (bytes "k")).has .string) hsame) (by decide)

end Session

end Vole.Server
