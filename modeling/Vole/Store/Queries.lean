import Vole.Store.Store

/-!
# Queries over several keys

The reading operations of `store.go` that look at more than one key: glob patterns and the
listings built on them, searches through hashes and tags, set algebra, and reading several
streams at once. None of them changes the store.
-/

namespace Vole

open Go

/-! ## Glob patterns -/

/-- The loop of `matchBracket`: whether a member of the class matched, and the pattern after
the closing bracket. A bracket in first position is a member. -/
def bracketLoop (ch : UInt8) : Bool → Bool → Bytes → Option (Bool × Bytes)
  | _, _, [] => none
  | first, matched, c :: rest =>
    if c = 93 ∧ !first then some (matched, rest)
    else
      match c, rest with
      | 92, d :: rest => bracketLoop ch false (matched || d = ch) rest
      | lo, 45 :: hi :: rest =>
        bracketLoop ch false (matched || (decide (lo ≤ ch) && decide (ch ≤ hi))) rest
      | c, rest => bracketLoop ch false (matched || c = ch) rest

/-- `matchBracket`: the pattern after the class, if the class matches. -/
def matchBracket (pattern : Bytes) (ch : UInt8) : Option Bytes :=
  let negate : Bool := pattern.head? = some 94 ∨ pattern.head? = some 33
  let pattern := if negate then pattern.tail else pattern
  match bracketLoop ch true false pattern with
  | none => none
  | some (matched, rest) => if matched ≠ negate then some rest else none

/-- The rounds of `MatchGlob`; each consumes a part of the pattern, so that its length is
enough fuel. -/
def matchGlobLoop : Nat → Bytes → Bytes → Bool
  | 0, _, _ => false
  | _ + 1, [], str => str = []
  | fuel + 1, 42 :: pattern, str =>
    match pattern.dropWhile (· = 42) with
    | [] => true
    | pattern => str.tails.any (matchGlobLoop fuel pattern)
  | _ + 1, _ :: _, [] => false
  | fuel + 1, 63 :: pattern, _ :: str => matchGlobLoop fuel pattern str
  | fuel + 1, 91 :: pattern, c :: str =>
    match matchBracket pattern c with
    | none => false
    | some pattern => matchGlobLoop fuel pattern str
  | fuel + 1, 92 :: pattern, c :: str =>
    match pattern with
    | [] => false
    | d :: pattern => if d ≠ c then false else matchGlobLoop fuel pattern str
  | fuel + 1, d :: pattern, c :: str =>
    if d ≠ c then false else matchGlobLoop fuel pattern str

/-- `MatchGlob` -/
def matchGlob (pattern str : Bytes) : Bool := matchGlobLoop (pattern.length + 1) pattern str

/-! ## Search conditions -/

/-- `SearchCondition`, one clause of `HSEARCH`. -/
structure SearchCondition where
  field : Bytes
  op : Bytes
  value : Bytes

/-- The ordered comparisons of `evalCondition`, on numbers or on texts. -/
def compareBy (op : Bytes) (lt eq gt : Bool) : Bool :=
  if op = bytes ">" then gt
  else if op = bytes "<" then lt
  else if op = bytes ">=" then gt || eq
  else lt || eq

/-- `evalCondition` -/
def evalCondition (R : Runtime) (fieldValue op condValue : Bytes) : Bool :=
  let word := toUpper op
  if word = bytes "=" ∨ word = bytes "==" then fieldValue = condValue
  else if word = bytes "!=" then fieldValue ≠ condValue
  else if word = bytes "CONTAINS" then
    (R.lower fieldValue).tails.any (R.lower condValue).isPrefixOf
  else if word = bytes "STARTSWITH" then (R.lower condValue).isPrefixOf (R.lower fieldValue)
  else if op = bytes ">" ∨ op = bytes "<" ∨ op = bytes ">=" ∨ op = bytes "<=" then
    match R.parseFloat fieldValue, R.parseFloat condValue with
    | some x, some y => compareBy op (x.lt y) (x.eq y) (y.lt x)
    | _, _ => compareBy op (decide (fieldValue < condValue)) (decide (fieldValue = condValue))
        (decide (condValue < fieldValue))
  else false

/-- `matchesConditions` -/
def matchesConditions (R : Runtime) (hash : GoMap Bytes) (conditions : List SearchCondition) :
    Bool :=
  conditions.all (fun cond =>
    match hash.get cond.field with
    | none => false
    | some value => evalCondition R value cond.op cond.value)

namespace Store

/-! ## Keys -/

variable (s : Store) (now : Time)

/-- `allKeysRLocked` in the order of the keys: a key is listed once for each type map that
holds it. -/
def allKeys : List Bytes :=
  (s.held.sort (· ≤ ·)).flatMap (fun key =>
    let e := s.entries key
    if e.expired now || !e.visible now then []
    else List.replicate (DataType.all.countP e.has) key)

/-- `Keys` -/
def keys (pattern : Bytes) : List Bytes :=
  if pattern = [] ∨ pattern = bytes "*" then s.allKeys now
  else (s.allKeys now).filter (matchGlob pattern)

/-- `Scan`: the next cursor and the keys of this page. A count that overflows the sum makes
the slice expression panic. -/
def scan (cursor count : Int) (pattern : Bytes) :
    Except Err (Int × List Bytes) :=
  let count := if count ≤ 0 then 10 else count
  let keys := s.keys now pattern
  if cursor < 0 ∨ (keys.length : Int) ≤ cursor then .ok (0, [])
  else
    let stop := wrap64 (cursor + count)
    if (keys.length : Int) ≤ stop then .ok (0, keys.drop cursor.toNat)
    else if stop < cursor then .error .panic
    else .ok (stop, (keys.drop cursor.toNat).take count.toNat)

/-- `DBSize` -/
def dbSize : Nat := (s.allKeys now).length

/-- `RandomKey`: the first key of the first map that has an unexpired one. Documents and
time series are not looked at. -/
def randomKey (hint : List Bytes) : Option Bytes :=
  [DataType.string, .hash, .list, .set, .zset, .stream, .hll].findSome? (fun t =>
    (enumerate hint s.held).find? (fun key =>
      (s.entries key).has t && !(s.entries key).expired now))

/-- `Exists`: keys are counted as often as they are named. -/
def existCount (keys : List Bytes) : Nat :=
  keys.countP (fun key => (s.entries key).existsAt now)

/-- `MGet` -/
def mGet (keys : List Bytes) : List (Option Bytes) :=
  keys.map (fun key => (s.entries key).get now)

/-- `HSearch` -/
def hSearch (R : Runtime) (s : Store) (now : Time) (pattern : Bytes)
    (conditions : List SearchCondition) (offset count : Int) : List (Bytes × GoMap Bytes) :=
  let hits := (s.held.sort (· ≤ ·)).filterMap (fun key =>
    match (s.entries key).hashes with
    | none => none
    | some hash =>
      if !(s.entries key).expired now && matchGlob pattern key
          && matchesConditions R hash conditions then some (key, hash) else none)
  let hits := if 0 < offset then hits.drop offset.toNat else hits
  if 0 < count then hits.take count.toNat else hits

/-- `TagQuery`: the first keys found, sorted. -/
def tagQuery (hint : List Bytes) (criteria : List (Bytes × Bytes))
    (limit : Int) : List Bytes :=
  let limit := if limit ≤ 0 then 100 else limit.toNat
  let hits := (enumerate hint s.held).filter (fun key =>
    match (s.entries key).tags with
    | none => false
    | some tags => !(s.entries key).expired now
        && criteria.all (fun c => decide ((tags.get c.1).getD [] = c.2)))
  (hits.take limit).insertionSort (· ≤ ·)

/-! ## Set algebra -/

/-- The set under one key, as the set operations read it: `none` when the key has
expired. -/
def setAt (key : Bytes) : Except Err (Option (Finset Bytes)) :=
  let e := s.entries key
  if e.expired now then .ok none
  else if e.readConflict now .set then .error .wrongType
  else .ok (some (e.sets.getD ∅))

/-- The loop of `SInter`: it stops at the first set that is empty or absent. -/
def interLoop (s : Store) (now : Time) : Finset Bytes → List Bytes → Except Err (Finset Bytes)
  | acc, [] => .ok acc
  | acc, key :: rest =>
    match s.setAt now key with
    | .error e => .error e
    | .ok none => .ok ∅
    | .ok (some set) => if set = ∅ then .ok ∅ else interLoop s now (acc ∩ set) rest

/-- `SInter` -/
def sInter (keys : List Bytes) : Except Err (List Bytes) :=
  match keys with
  | [] => .ok []
  | key :: rest =>
    match s.setAt now key with
    | .error e => .error e
    | .ok none => .ok []
    | .ok (some set) =>
      if set = ∅ then .ok [] else (s.interLoop now set rest).map (·.sort (· ≤ ·))

/-- The sets of all keys; an expired key counts as an empty set. -/
def setsAt (s : Store) (now : Time) : List Bytes → Except Err (List (Finset Bytes))
  | [] => .ok []
  | key :: rest =>
    match s.setAt now key with
    | .error e => .error e
    | .ok set => (setsAt s now rest).map (set.getD ∅ :: ·)

/-- `SUnion` -/
def sUnion (keys : List Bytes) : Except Err (List Bytes) :=
  (s.setsAt now keys).map (fun sets => (sets.foldl (· ∪ ·) ∅).sort (· ≤ ·))

/-- `SDiff` -/
def sDiff (keys : List Bytes) : Except Err (List Bytes) :=
  (s.setsAt now keys).map (fun sets =>
    ((sets.headD ∅) \ (sets.tail.foldl (· ∪ ·) ∅)).sort (· ≤ ·))

/-- `PFCount` -/
def pfCount (R : Runtime) (s : Store) (now : Time) (keys : List Bytes) : Int :=
  let hllAt := fun key => if (s.entries key).expired now then none else (s.entries key).hlls
  match keys with
  | [key] => ((hllAt key).map (·.count R)).getD 0
  | keys =>
    (keys.foldl (fun h key => ((hllAt key).map h.merge).getD h) HyperLogLog.empty).count R

/-! ## Reading several streams -/

/-- What a reading command found: the entries by stream. -/
abbrev StreamResults := GoMap (List StreamEntry)

/-- Adding entries of a stream; a stream without entries is not listed. -/
def addResults (out : StreamResults) (stream : Bytes) (entries : List StreamEntry) :
    StreamResults :=
  if entries = [] then out
  else out.insert stream ((out.get stream).getD [] ++ entries)

theorem addResults_get (out : StreamResults) (stream : Bytes)
    (entries : List StreamEntry) (k : Bytes) :
    ((addResults out stream entries).get k).getD []
      = (out.get k).getD [] ++ if k = stream then entries else [] := by
  unfold addResults
  by_cases hnil : entries = []
  · simp [hnil]
  rw [if_neg hnil, GoMap.get_insert]
  by_cases hk : k = stream <;> simp [hk]

/-- `XRead` -/
def xRead (s : Store) (now : Time) (streams : List (Bytes × Bytes)) : StreamResults :=
  streams.foldl (fun out p => addResults out p.1 ((s.entries p.1).xRead now p.2)) ∅

/-- `XReadGroupPlan`. A stream that is named again gets what is left of the count, but at
least one entry. -/
def xReadGroupPlan (s : Store) (now : Time) (group consumer : Bytes) (count : Int) :
    StreamResults → List (Bytes × Bytes) → Except Err StreamResults
  | out, [] => .ok out
  | out, (stream, id) :: rest =>
    let count' := if count ≤ 0 then 10 else count
    let left := max 1 (count' - ((out.get stream).getD []).length)
    match (s.entries stream).xReadGroupPlan now group consumer id left with
    | .error e => .error e
    | .ok entries => xReadGroupPlan s now group consumer count (addResults out stream entries) rest

/-- A stream is in the plan if it has entries for the group. -/
theorem mem_xReadGroupPlan {s : Store} {now : Time} {group consumer k : Bytes} {count : Int}
    {streams : List (Bytes × Bytes)} {out results : Store.StreamResults}
    (h : s.xReadGroupPlan now group consumer count out streams = .ok results) (hk : k ∈ results) :
    k ∈ out ∨ (k ∈ streams.map (·.1) ∧ ∃ id left entries, entries ≠ [] ∧
      (s.entries k).xReadGroupPlan now group consumer id left = .ok entries) := by
  induction streams generalizing out with
  | nil =>
    cases h
    exact .inl hk
  | cons p rest ih =>
    obtain ⟨stream, id⟩ := p
    unfold Store.xReadGroupPlan at h
    dsimp only at h
    split at h
    · cases h
    rename_i entries hentries
    rcases ih h with hin | ⟨hin, hplan⟩
    · unfold Store.addResults at hin
      split at hin
      · exact .inl hin
      · rename_i hne
        rcases Finmap.mem_insert.mp hin with rfl | hin
        · exact .inr ⟨.head _, id, _, entries, hne, hentries⟩
        · exact .inl hin
    · exact .inr ⟨.tail _ hin, hplan⟩

end Store

end Vole
