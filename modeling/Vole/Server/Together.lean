import Vole.Server.Accounts
import Vole.Server.SnapshotFile
import Vole.Server.Crash

/-!
# Whether store and log change together

An error of a command should leave the store and the append-only file alone, and after a success
every change should have its record. Both fail: a case that appends first may find its operation
refused, one that appends last may lose the record of what it has done, one that discards the
error of `Append` does not even notice, and a few append nothing.
-/

namespace Vole.Server

open Go Cmd List

variable {k : Bytes} {streams : List Bytes}

/-- The records that have the key among their arguments. -/
def about (k : Bytes) (log : List Record) : List Record :=
  log.filter (fun record => k ∈ record.tail)

/-- A command of a server whose calls of `AOF.Append` may fail. -/
def execAppending (fates : Nat → Fate) (env : Env) (args : List Bytes) (st : State)
    (w : DataWord) : Reply × State :=
  st.take (w.appending fates env args st.store)

/-- If none of them fails, it is `exec`. -/
theorem execAppending_written {w : DataWord} {args : List Bytes}
    (hw : Word.ofArgs args = some w.toWord) (env : Env) (st : State) :
    execAppending (fun _ => .written) env args st w = exec env args st := by
  have heval : w.toWord ≠ .eval ∧ w.toWord ≠ .evalSha := by
    cases w with
    | key w => exact ⟨nofun, nofun⟩
    | store w => exact ⟨nofun, nofun⟩
  rw [exec_of_word hw heval.1 heval.2, DataWord.execWord_eq]
  unfold execAppending
  rw [DataWord.appending_written]

/-- The commands that `isWriteCommand` knows are among them. -/
theorem DataWord.of_isWriteCommand {args : List Bytes} {word : Word}
    (hwrite : isWriteCommand (toUpper (args.headD [])) = true)
    (hword : Word.ofArgs args = some word) : ∃ w : DataWord, word = w.toWord := by
  have htext : toUpper (args.headD []) = bytes word.text := Word.text_of_parse hword
  rw [htext] at hwrite
  cases word with
  | key w => exact ⟨.key w, rfl⟩
  | store w => exact ⟨.store w, rfl⟩
  | flushDB | flushAll | save | bgSave | eval | evalSha => cases hwrite

/-! ## When it is so -/

/-- What comes of the calls suits a case that makes them in this order: one that appends first
may lose its record while it has changed nothing (`early`), or no call fails and its operation is
accepted; one that appends last must not fail; one that discards the errors must lose nothing. -/
def Suits (fates : Nat → Fate) (early accepts : Prop) : AppendOrder → Prop
  | .first => ((fates 0).inFile = false ∧ early) ∨ ((∀ i, fates i = .written) ∧ accepts)
  | .last => ∀ i, fates i = .written
  | .unchecked => ∀ i, (fates i).inFile = true

/-- The condition of a case on one key, given the arguments after the key and what it holds: one
that appends nothing must find nothing to do. `XADD` has taken an identifier before it appends. -/
def KeyWord.Steady (fates : Nat → Fate) (env : KeyEnv) (rest : List Bytes) (e : Entry)
    (w : KeyWord) : Prop :=
  w.reads = true ∨
    if w.silent then w.Recorded env rest e
    else Suits fates (w ≠ .xAdd) (w.Accepts env rest e) (w.order env.R rest)

/-- `SORT` stores nothing, or has a result to store, or nothing to delete. -/
def SortSteady (now : Time) (hint : List Bytes) (o : SortOptions) (src dst : Entry) : Prop :=
  o.storeKey = [] ∨ dst = Entry.empty ∨ (src.expired now = false ∧
    ∃ elements, Store.sortElements src hint = some elements ∧ o.offset.toNat < elements.length)

/-- The condition of a case on several keys. -/
def StoreWord.Steady (fates : Nat → Fate) (env : Env) (args : List Bytes) (s : Store) :
    StoreWord → Prop
  | .info => True
  | .tsDownsample => ((s.entries (args.getD 1 [])).purged env.now).timeseries = none
  | .sort => (∀ i, (fates i).inFile = true) ∧
      ∀ o, parseSort env.R ⟨false, false, 0, 0, []⟩ (args.drop 2) = .ok o →
        SortSteady env.now env.hint o (s.entries (args.getD 1 [])) (s.entries o.storeKey)
  | w => w.reads = true ∨ Suits fates True (w.Accepts env args s) w.order

def DataWord.Steady (fates : Nat → Fate) (env : Env) (args : List Bytes) (s : Store) :
    DataWord → Prop
  | .key w => ∀ word key rest, args = word :: key :: rest →
      w.Steady fates (env.at key) rest (s.entries key)
  | .store w => w.Steady fates env args s

/-! ## One result -/

/-- `Together` for what a command does to the store and to the file. -/
structure Result.Agrees (now : Time) (s : Store) (due : List Record) (r : Result) : Prop where
  refused : r.reply.isOk = false → s.Unchanged now r.store ∧ r.log = []
  recorded : r.reply.isOk = true → ∀ k, (s.entries k).Stays now (r.store.entries k) ∨
    (about k due ≠ [] ∧ about k r.log = about k due)

section
variable {now : Time} {s held : Store} {st : State} {due : List Record} {r : Result}
  {fates : Nat → Fate} {order : AppendOrder} {mute : Bool} {early accepts : Prop}

end

/-! ## Commands on one key -/

section
variable {fates : Nat → Fate} {env : Env} {args : List Bytes} {s : Store}

theorem Replays.toEntry {number : Bytes → Int} {env : KeyEnv} {e : Entry} {o : Outcome}
    (h : Replays number env e o) (hlog : o.log = []) : o.cell.toEntry = e := by
  unfold Replays at h
  rw [hlog] at h
  exact (Option.some.inj h).symm

theorem Suits.imp {early accepts accepts' : Prop} {order : AppendOrder} (himp : accepts → accepts')
    (h : Suits fates early accepts order) : Suits fates early accepts' order := by
  cases order with
  | first => exact h.imp_right (fun hwritten => ⟨hwritten.1, himp hwritten.2⟩)
  | last => exact h
  | unchecked => exact h

end

/-! ## Commands on several keys -/

section
variable {fates : Nat → Fate} {env : Env} {args : List Bytes} {s : Store}

/-- A change to a key that holds nothing, which leaves it so. -/
theorem unchanged_modify {now : Time} {t : Store} {key : Bytes} {f : Cell → Cell}
    (h : s.Within now [] t) (hempty : t.entries key = Entry.empty)
    (hf : (f ⟨Entry.empty, 0⟩).toEntry = Entry.empty) : s.Unchanged now (t.modify key f) := by
  refine (h.put_stays (.inl ?_)).unchanged
  rw [Store.cell, hempty, hf]

/-- `Sort` with an empty result finds nothing to delete. -/
theorem unchanged_sort {now : Time} {R : Runtime} {key : Bytes} {o : SortOptions}
    {hint : List Bytes} {t : Store} (hstore : o.storeKey ≠ [])
    (h : SortSteady now hint o (s.entries key) (s.entries o.storeKey))
    (hsort : s.sort R now key o.alpha o.desc o.offset o.count (some o.storeKey) hint = (.ok [], t)) :
    s.Unchanged now t := by
  rcases h with h | hempty | ⟨hfresh, elements, helements, hoffset⟩
  · exact absurd h hstore
  · have hpurged : (s.purgeKey now key).entries o.storeKey = Entry.empty := by
      rw [Store.purgeKey_entries]
      split
      · rename_i heq
        rw [← heq, hempty]
        rfl
      · exact hempty
    unfold Store.sort at hsort
    split at hsort
    · cases hsort
      exact unchanged_modify ((Store.Within.refl s).purgeKey key) hpurged rfl
    split at hsort
    · split at hsort
      · cases hsort
      · cases hsort
        exact unchanged_modify (.refl s) hempty rfl
    · split at hsort
      · cases hsort
      · cases hsort
        exact unchanged_modify (.refl s) hempty rfl
  · unfold Store.sort at hsort
    rw [hfresh, if_neg Bool.false_ne_true, helements] at hsort
    dsimp only at hsort
    split at hsort
    · cases hsort
    · rename_i result hresult
      cases hsort
      exact absurd rfl (sortResult_ne_nil hoffset hresult)

theorem unchanged_sortRun {key : Bytes} {o : SortOptions}
    (h : SortSteady env.now env.hint o (s.entries key) (s.entries o.storeKey))
    (hlog : (sortRun env key o s).log = []) : s.Unchanged env.now (sortRun env key o s).store := by
  have hchanges := @Store.changes_sort env.now key env.R o.alpha o.desc o.offset o.count
    (if o.storeKey = [] then none else some o.storeKey) env.hint s
  unfold sortRun at hlog ⊢
  dsimp only at hlog ⊢
  cases hsort : s.sort env.R env.now key o.alpha o.desc o.offset o.count
      (if o.storeKey = [] then none else some o.storeKey) env.hint with
  | mk res t =>
    rw [hsort] at hlog hchanges
    cases res with
    | error e => exact hchanges.unchanged
    | ok result =>
      by_cases hstore : o.storeKey = []
      · rw [if_pos hstore] at hchanges
        dsimp only
        rw [if_pos hstore]
        exact hchanges.unchanged
      · rw [if_neg hstore] at hsort
        dsimp only at hlog ⊢
        rw [if_neg hstore] at hlog ⊢
        dsimp only at hlog
        have hnil : result = [] := by
          by_contra hne
          rw [if_neg hne] at hlog
          cases hlog
        rw [hnil] at hsort
        exact unchanged_sort hstore h hsort

/-- A case that appends nothing changes nothing. -/
def Mute (now : Time) (s : Store) (r : Result) : Prop := r.log = [] → s.Unchanged now r.store

namespace Mute

variable {now : Time}

theorem answer (reply : Reply) : Mute now s (.answer s reply) := fun _ _ => .refl _

end Mute

theorem mute_sort (h : StoreWord.Steady fates env args s .sort) :
    Mute env.now s (Cmd.sort env args s) := by
  refine Cmd.counted_elim (fun _ => .answer _) (fun _ => Result.owned_elim .answer
    (Result.attempt_elim (fun _ => .answer _) (fun o hparse => ?_)))
  have hrun : Mute env.now s (sortRun env (args.getD 1 []) o s) := unchanged_sortRun (h.2 o hparse)
  split
  · exact hrun
  · exact Result.owned_elim .answer hrun

theorem mute_tsDownsample (h : StoreWord.Steady fates env args s .tsDownsample) :
    Mute env.now s (Cmd.tsDownsample env args s) := by
  refine Cmd.counted_elim (fun _ => .answer _) (fun _ => Result.owned_elim .answer (fun _ => ?_))
  unfold Store.tsDownsample
  split
  · exact ((Store.Within.refl s).purgeKey _).unchanged
  · rename_i hexp
    have hnone : ((s.entries (args.getD 1 [])).purged env.now).timeseries = none := h
    rw [Entry.purged, if_neg hexp] at hnone
    rw [hnone]
    exact fun _ => .refl _

theorem StoreWord.mute {w : StoreWord} (hsilent : w.silent = true)
    (h : w.Steady fates env args s) : Mute env.now s (w.cmd env args s) := by
  cases w
  case sort => exact mute_sort h
  case tsDownsample => exact mute_tsDownsample h
  all_goals cases hsilent

end

/-! ## The loop of `xreadgroup` -/

section
variable {fates : Nat → Fate} {env : Env} {args : List Bytes} {s : Store} {R : Runtime}
  {now : Time} {group consumer : Bytes} {results : Store.StreamResults}

end

/-! ## Every command -/

end Vole.Server
