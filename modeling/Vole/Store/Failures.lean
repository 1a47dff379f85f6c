import Vole.Store.Reads

/-!
# Calls that fail

Every method of the store that can return an error, as one type. A method either looks at the
store only, or makes all its checks before its first change: when it returns an error, no key has
changed. Keys that had expired may be gone, since most methods purge the keys they are given
before they check anything.
-/

namespace Vole

open Go Cell

variable {err : Err}

section
variable (R : Runtime) (now : Time)

/-- The error an operation returns. `Copy` and `PFMerge` have one that is never set. -/
def Op.failure (s : Store) : Op → Option Err
  | .cell key op => op.failure R now (s.cell key)
  | .geoAdd key members => errorOf ((s.cell key).zAdd now (geoMembers R members)).1
  | .rename key newkey => errorOf (s.rename now key newkey).1
  | .sMove src dst member => errorOf (s.sMove now src dst member).1
  | .bitOp op dest keys => errorOf (s.bitOp now op dest keys).1
  | .tsDownsample src dst aggType start stop bucketSize =>
    errorOf (s.tsDownsample R now src dst aggType start stop bucketSize).1
  | .sort key alpha desc offset count storeKey hint =>
    errorOf (s.sort R now key alpha desc offset count storeKey hint).1
  | .pushList key left values => errorOf (s.pushList now key left values).1
  | .lMove src dst srcLeft dstLeft => errorOf (s.lMove now src dst srcLeft dstLeft).1
  | _ => none

end

/-- The error among the answers of a reading operation. -/
def KeyRead.failure : (r : KeyRead) → r.Answer → Option Err
  | strlen, answer | getRange _ _, answer | getBit _, answer | bitCount _ _ _, answer
  | bitPos _ _ _ _, answer | hGet _, answer | hGetAll, answer | hVals, answer | hKeys, answer
  | hLen, answer | hExists _, answer | hRandField _ _ _, answer | lRange _ _, answer
  | lLen, answer | lIndex _, answer | lPos _, answer | sMembers, answer | sIsMember _, answer
  | sCard, answer | sRandMember _ _ _, answer | zRange _ _, answer | zRevRange _ _, answer
  | zRangeByScore _ _ _ _, answer | zRangeByLex _ _ _ _, answer | zScore _, answer
  | zRank _, answer | zRevRank _, answer | zCount _ _, answer | zCard, answer | xLen, answer
  | xReadGroupPlan _ _ _ _, answer | jsonGet _, answer | jsonArrLen _, answer
  | jsonKeys _, answer | tsInfo, answer | geoSearchByMember _ _ _ _, answer => errorOf answer
  | _, _ => none

def Query.failure : (q : Query) → q.Answer → Option Err
  | key _ r, answer => r.failure answer
  | sInter _, answer | sUnion _, answer | sDiff _, answer => errorOf answer
  | _, _ => none

/-- A call of a method of the store. -/
inductive Method where
  | change (op : Op)
  | look (q : Query)
  | plan (group consumer : Bytes) (count : Int) (streams : List (Bytes × Bytes))

namespace Method

variable (R : Runtime) (now : Time) (s : Store)

/-- The error the call returns. -/
def failure : Method → Option Err
  | change op => op.failure R now s
  | look q => q.failure (q.answer R s now)
  | plan group consumer count streams =>
    errorOf (s.xReadGroupPlan now group consumer count ∅ streams)

/-- The store after the call. -/
def after : Method → Store
  | change op => op.apply R now s
  | look _ | plan _ _ _ _ => s

end Method

variable {R : Runtime} {now : Time}

/-! ## The store -/

section

open Store

variable {s : Store} {err : Err}

theorem unchanged_put {key : Bytes} {c : Cell} (h : (s.entries key).Stays now c.toEntry) :
    Unchanged now s (s.put key c) :=
  ((Within.refl s).put_stays h).unchanged

theorem unchanged_rename {key newkey : Bytes} (h : errorOf (s.rename now key newkey).1 = some err) :
    Unchanged now s (s.rename now key newkey).2 := by
  rcases rename_cases now key newkey s with ⟨-, heq⟩ | ⟨-, hok, -⟩
  · rw [heq]
    exact ((Within.refl s).purgeKey key).unchanged
  · rw [hok] at h
    cases h

theorem unchanged_of_changes {α : Type} {keys : Except Err α → List Bytes}
    {r : Except Err α × Store} (hchanges : Changes now keys s r) (h : errorOf r.1 = some err)
    (hkeys : ∀ e, keys (.error e) = []) : Unchanged now s r.2 := by
  obtain ⟨res, t⟩ := r
  cases res with
  | ok a => cases h
  | error e =>
    unfold Changes at hchanges
    rw [hkeys] at hchanges
    exact hchanges.unchanged

theorem unchanged_pushList {key : Bytes} {left : Bool} {values : List Bytes}
    (h : errorOf (s.pushList now key left values).1 = some err) :
    Unchanged now s (s.pushList now key left values).2 := by
  cases hresult : (s.pushList now key left values).1 with
  | ok n =>
    rw [hresult] at h
    cases h
  | error e =>
    rw [Store.pushList_error _ hresult]
    exact (Within.refl s).unchanged

theorem Op.unchanged_of_failure (op : Op) (h : op.failure R now s = some err) :
    Unchanged now s (op.apply R now s) := by
  cases op with
  | cell key op => exact unchanged_put ((op.run_keeps R now _).stays err h)
  | geoAdd key members =>
    exact unchanged_put (((CellOp.zAdd (geoMembers R members)).run_keeps R now _).stays err h)
  | rename key newkey => exact unchanged_rename h
  | sMove src dst member =>
    exact unchanged_of_changes (changes_sMove member s) h (fun _ => rfl)
  | bitOp op dest keys =>
    exact unchanged_of_changes (changes_bitOp op keys s) h (fun _ => rfl)
  | tsDownsample src dst aggType start stop bucketSize =>
    exact unchanged_of_changes (changes_tsDownsample R aggType start stop bucketSize s) h
      (fun _ => rfl)
  | sort key alpha desc offset count storeKey hint =>
    exact unchanged_of_changes (changes_sort R alpha desc offset count storeKey hint s) h
      (fun _ => rfl)
  | pushList key left values => exact unchanged_pushList h
  | lMove src dst srcLeft dstLeft =>
    exact unchanged_of_changes (changes_lMove srcLeft dstLeft s) h (fun _ => rfl)
  | _ => cases h

end

/-- A call that returns an error has changed no key: what the store holds for it is what it held
before, or the key had expired and nothing is left of it. -/
theorem failed_call_changes_nothing (R : Runtime) (s : Store) (now : Time) (m : Method) (err : Err)
    (h : m.failure R now s = some err) (k : Bytes) : (m.after R now s).entries k = s.entries k
      ∨ (s.entries k).expired now = true ∧ (m.after R now s).entries k = Entry.empty := by
  have hunchanged : s.Unchanged now (m.after R now s) := by
    cases m with
    | change op => exact op.unchanged_of_failure h
    | look q => exact (Store.Within.refl s).unchanged
    | plan group consumer count streams => exact (Store.Within.refl s).unchanged
  rcases hunchanged k with hsame | hpurged
  · exact .inl hsame
  · unfold Entry.purged at hpurged
    split at hpurged
    case isTrue hexp => exact .inr ⟨hexp, hpurged⟩
    case isFalse => exact .inl hpurged

/-- A list and a hash. -/
def listAndHash : Store :=
  Store.after default [(1, .pushList (bytes "a") true [bytes "v"]),
    (1, .cell (bytes "h") (.hSet [(bytes "f", bytes "v")]))]

/-- The list is not moved onto the hash: neither key has changed. -/
theorem failed_move_changes_nothing :
    let m := Method.change (.lMove (bytes "a") (bytes "h") true true)
    m.failure default 1 listAndHash = some .wrongType ∧
      ∀ k, (m.after default 1 listAndHash).entries k = listAndHash.entries k
        ∨ (listAndHash.entries k).expired 1 = true
          ∧ (m.after default 1 listAndHash).entries k = Entry.empty := by
  suffices hfail : _ from ⟨hfail, failed_call_changes_nothing default listAndHash 1 _ _ hfail⟩
  decide

end Vole
