import Vole.Server.Exec

/-!
# Commands whose records may fail to be written

`AOF.Append` returns the error of the write; then there is no record. It also returns the error
of the `Sync` after it; then the record stands in the file. The cases of `exec` call it in three
ways: they return its error and run their operation only after it, they return its error when the
operation has already run, or they discard it.
-/

namespace Vole.Server

open Go Cmd

variable {fates : Nat → Fate}

/-- What comes of one call of `AOF.Append`. -/
inductive Fate where
  | written
  /-- the write failed: there is no record -/
  | lost (e : Bytes)
  /-- the record is in the file, but `Sync` failed -/
  | unsynced (e : Bytes)

/-- Whether there is a record. -/
def Fate.inFile : Fate → Bool
  | .lost _ => false
  | _ => true

/-- How a case calls `AOF.Append`. -/
inductive AppendOrder where
  /-- `if err := Append(...); err != nil { return err }`, then the operation -/
  | first
  /-- the operation, then the same -/
  | last
  /-- the operation, then `_ = Append(...)` -/
  | unchecked
  deriving DecidableEq

/-! ## The order of each case -/

def KeyWord.order (R : Runtime) (rest : List Bytes) : KeyWord → AppendOrder
  | .set =>
    match setOptions R rest with
    | .error _ => .first
    | .ok o => if ¬ 0 < o.delay ∧ (o.useNX ∨ o.useXX) then .last else .first
  | .hSetNX | .pfAdd | .persist | .append | .getDel | .setBit | .getSet | .setRange => .last
  | .setNX | .sPop | .zPopMin | .zPopMax | .zIncrBy | .getEx => .unchecked
  | _ => .first

def StoreWord.order : StoreWord → AppendOrder
  | .bitOp | .copy | .mSetNX | .enqueue => .last
  | .sort | .sInterStore | .sUnionStore | .sDiffStore | .rPopLPush | .lMove | .bLPop
  | .bRPop => .unchecked
  | _ => .first

/-! ## Calls that may fail -/

namespace Result

/-- The one call of a case that returns its error. `held` is the store at that moment. -/
def checked (fate : Fate) (held : Store) (r : Result) : Result :=
  match r.log, fate with
  | [], _ => r
  | _, .written => r
  | _, .lost e => ⟨.error e, held, []⟩
  | log, .unsynced e => ⟨.error e, held, log⟩

/-- The records that are in the file, if nobody looks at the errors. -/
def kept (fates : Nat → Fate) : Nat → List Record → List Record
  | _, [] => []
  | i, record :: rest =>
    if (fates i).inFile then record :: kept fates (i + 1) rest else kept fates (i + 1) rest

def unchecked (fates : Nat → Fate) (r : Result) : Result :=
  { r with log := kept fates 0 r.log }

/-- What a case comes to, given its result if every call succeeds. -/
def given (order : AppendOrder) (fates : Nat → Fate) (held : Store) (r : Result) : Result :=
  match order with
  | .unchecked => r.unchecked fates
  | _ => r.checked (fates 0) held

end Result

/-- The store when the case calls `Append`. `xadd` has then taken its identifier from the
counter of the stream. -/
def KeyWord.atAppend (env : Env) (args : List Bytes) (s : Store) : KeyWord → Store
  | .xAdd => s.modify (args.getD 1 []) (fun c => (c.nextStreamID env.now (args.getD 2 [])).2)
  | w =>
    match w.order env.R (args.drop 2) with
    | .first => s
    | _ => (w.cmd.exec env args s).store

def KeyWord.appending (fates : Nat → Fate) (env : Env) (args : List Bytes) (s : Store)
    (w : KeyWord) : Result :=
  (w.cmd.exec env args s).given (w.order env.R (args.drop 2)) fates (w.atAppend env args s)

/-- The loop of `xreadgroup` over its streams: a record, then the delivery. -/
def deliverAppending (fates : Nat → Fate) (R : Runtime) (now : Time) (group consumer : Bytes)
    (results : Store.StreamResults) :
    Nat → List Bytes → Store → Except Bytes Unit × Store × List Record
  | _, [], s => (.ok (), s, [])
  | i, stream :: rest, s =>
    let ids := ((results.get stream).getD []).map (·.id)
    let record := deliverRecord now stream group consumer ids
    match fates i with
    | .lost e => (.error e, s, [])
    | .unsynced e => (.error e, s, [record])
    | .written =>
      match s.onKey stream (Cell.xGroupDeliver now group consumer ids now) with
      | (.error e, s) => (.error (e.text R), s, [record])
      | (.ok (), s) =>
        let r := deliverAppending fates R now group consumer results (i + 1) rest s
        (r.1, r.2.1, record :: r.2.2)

/-- `xreadgroup` behind its options. -/
def readGroupAppending (fates : Nat → Fate) (env : Env) (group consumer : Bytes) (count : Int)
    (streams : List (Bytes × Bytes)) (s : Store) : Result :=
  match s.xReadGroupPlan env.now group consumer count ∅ streams with
  | .error e => .fail s (e.text env.R)
  | .ok results =>
    if results.isEmpty then .answer s (.ok [.nullArray])
    else
      let r := deliverAppending fates env.R env.now group consumer results 0 results.sortedKeys s
      ⟨r.1.map (fun _ => writeStreamReadResults results), r.2.1, r.2.2⟩

/-- `xreadgroup` -/
def xReadGroupAppending (fates : Nat → Fate) : StoreCmd := fun env args s =>
  if args.length < 7 ∨ !equalFold (args.getD 1 []) "GROUP" then
    .fail s (wrongArgs (bytes "XREADGROUP"))
  else
    .attempt s (parseReadGroup env.R 10 (args.drop 4)) (fun o =>
      .attempt s (parseStreams "XREADGROUP" o.2) (fun streams =>
        .owned env (streams.map (·.1)) s
          (readGroupAppending fates env (args.getD 2 []) (args.getD 3 []) o.1 streams s)))

def StoreWord.atAppend (env : Env) (args : List Bytes) (s : Store) (w : StoreWord) : Store :=
  match w.order with
  | .first => s
  | _ => (w.cmd env args s).store

def StoreWord.appending (fates : Nat → Fate) (env : Env) (args : List Bytes) (s : Store)
    (w : StoreWord) : Result :=
  if w = .xReadGroup then xReadGroupAppending fates env args s
  else (w.cmd env args s).given w.order fates (w.atAppend env args s)

/-! ## Commands on data -/

/-- The words of the commands that change keys and append records. Those that flush or save
reset the file, and a script is the commands it calls. -/
inductive DataWord where
  | key (w : KeyWord)
  | store (w : StoreWord)

namespace DataWord

def toWord : DataWord → Word
  | .key w => .key w
  | .store w => .store w

/-- The command if every `Append` succeeds. -/
def plain (env : Env) (args : List Bytes) (s : Store) : DataWord → Result
  | .key w => w.cmd.exec env args s
  | .store w => w.cmd env args s

/-- The command, given what comes of each `Append`. -/
def appending (fates : Nat → Fate) (env : Env) (args : List Bytes) (s : Store) :
    DataWord → Result
  | .key w => w.appending fates env args s
  | .store w => w.appending fates env args s

theorem execWord_eq (w : DataWord) (env : Env) (args : List Bytes) (st : State) :
    execWord env args st w.toWord = st.take (w.plain env args st.store) := by
  cases w with
  | key w => rfl
  | store w => rfl

end DataWord

/-! ## If every call succeeds -/

section
variable {env : Env} {args : List Bytes} {s : Store}

theorem Result.checked_written (held : Store) (r : Result) : r.checked .written held = r := by
  unfold Result.checked
  split
  · rfl
  · rfl
  · cases ‹Fate.written = _›
  · cases ‹Fate.written = _›

theorem Result.kept_of_inFile {i : Nat} {log : List Record}
    (h : ∀ j, i ≤ j → (fates j).inFile = true) : Result.kept fates i log = log := by
  induction log generalizing i with
  | nil => rfl
  | cons record rest ih =>
    unfold Result.kept
    rw [if_pos (h i (Nat.le_refl i)), ih (fun j hj => h j (Nat.le_of_succ_le hj))]

theorem Result.given_written (order : AppendOrder) (held : Store) (r : Result) :
    r.given order (fun _ => .written) held = r := by
  cases order with
  | first => exact checked_written held r
  | last => exact checked_written held r
  | unchecked =>
    show { r with log := kept (fun _ => .written) 0 r.log } = r
    rw [kept_of_inFile (fun _ _ => rfl)]

theorem deliverAppending_eq {group consumer : Bytes}
    {results : Store.StreamResults} {R : Runtime} {now : Time} {streams : List Bytes} {i : Nat}
    (hwritten : ∀ j, j < (deliverAll now group consumer results streams s).2.2.length →
      fates (i + j) = .written) : deliverAppending fates R now group consumer results i streams s
      = ((deliverAll now group consumer results streams s).1.mapError (·.text R),
        (deliverAll now group consumer results streams s).2) := by
  induction streams generalizing s i with
  | nil => rfl
  | cons stream rest ih =>
    unfold deliverAll at hwritten ⊢
    unfold deliverAppending
    dsimp only at hwritten ⊢
    generalize s.onKey stream _ = r at hwritten ⊢
    obtain ⟨res, t⟩ := r
    cases res with
    | error e =>
      have hi : fates i = .written := hwritten 0 Nat.one_pos
      rw [hi]
      rfl
    | ok u =>
      have hi : fates i = .written := hwritten 0 (Nat.succ_pos _)
      have hrest := @ih t (i + 1) (fun j hj => by
        have hj := hwritten (j + 1) (Nat.succ_lt_succ hj)
        rwa [show i + (j + 1) = i + 1 + j by omega] at hj)
      rw [hi]
      dsimp only
      rw [hrest]

theorem readGroupAppending_eq {group consumer : Bytes} {count : Int}
    {streams : List (Bytes × Bytes)}
    (hwritten : ∀ j, j < (readGroupRun env group consumer count streams s).log.length →
      fates j = .written) : readGroupAppending fates env group consumer count streams s
      = readGroupRun env group consumer count streams s := by
  unfold readGroupRun at hwritten ⊢
  unfold readGroupAppending
  cases hplan : s.xReadGroupPlan env.now group consumer count ∅ streams with
  | error e => rfl
  | ok results =>
    rw [hplan] at hwritten
    dsimp only at hwritten ⊢
    by_cases hnone : results.isEmpty = true
    · rw [if_pos hnone, if_pos hnone]
    · rw [if_neg hnone] at hwritten
      rw [if_neg hnone, if_neg hnone,
        deliverAppending_eq (fun j hj => by rw [Nat.zero_add]; exact hwritten j hj)]
      cases (deliverAll env.now group consumer results results.sortedKeys s).1 with
      | error e => rfl
      | ok u => rfl

theorem xReadGroupAppending_written :
    xReadGroupAppending (fun _ => .written) env args s = xReadGroup env args s := by
  unfold xReadGroupAppending xReadGroup
  simp only [readGroupAppending_eq (fun _ _ => rfl)]

/-- **The commands as before.** -/
theorem DataWord.appending_written (w : DataWord) :
    w.appending (fun _ => .written) env args s = w.plain env args s := by
  cases w with
  | key w => exact Result.given_written _ _ _
  | store w =>
    show w.appending _ env args s = w.cmd env args s
    unfold StoreWord.appending
    split
    · rename_i hw
      subst hw
      exact xReadGroupAppending_written
    · exact Result.given_written _ _ _

end

end Vole.Server
