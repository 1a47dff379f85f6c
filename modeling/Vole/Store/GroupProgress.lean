import Vole.Store.ConsumerGroups
import Vole.Lib.Transition

/-!
# Whether a consumer group gets every entry

`XADD` takes an identifier that is after the last entry of the stream, and a consumer group
returns the entries after the last identifier it has delivered. As long as the group is not ahead
of the stream, an entry that is added is still to come for the group. `XTRIM` with length `0`
takes the last entry away, and the stream forgets what the group remembers: the next entry may
then be behind the group, which never returns it.
-/

namespace Vole

open Go Transition Cell List

variable {g : ConsumerGroup} {entries : List StreamEntry} {e : StreamEntry} {group : Bytes}

/-! ## Runs on one stream -/

/-- `XADD`: the identifier of the entry, if it is added. -/
def addTo (id : Bytes) (fields : List Bytes) (prepared added : Time) (c : Cell) :
    Option Bytes × Cell :=
  match c.nextStreamID prepared id with
  | (.error _, c) => (none, c)
  | (.ok id, c) =>
    match c.xAddPrepared added id fields with
    | (.error _, c) => (none, c)
    | (.ok (), c) => (some id, c)

/-- `XREADGROUP` by `>`: the entries it returns. -/
def readFrom (group consumer : Bytes) (count : Int) (planned delivered : Time) (c : Cell) :
    List StreamEntry × Cell :=
  match c.toEntry.xReadGroupPlan planned group consumer (bytes ">") count with
  | .error _ => ([], c)
  | .ok entries =>
    if entries = [] then ([], c)
    else (entries, (c.xGroupDeliver delivered group consumer (entries.map (·.id)) delivered).2)

/-- The key of a stream, and for one of its groups: the entries added since the group was
created, those it has returned, and those that were trimmed away. -/
structure GroupLife where
  cell : Cell
  since : List Bytes
  returned : List Bytes
  trimmed : List Bytes

open GroupLife

/-- `XGROUP CREATE` with `$` or `0-0`, `XADD`, `XTRIM MAXLEN` and `XREADGROUP` by `>`. -/
inductive GroupAction where
  | create (group : Bytes) (atEnd mkstream : Bool) (now : Time)
  | add (id : Bytes) (fields : List Bytes) (prepared added : Time)
  | trim (maxLen : Nat)
  | read (group consumer : Bytes) (count : Int) (planned delivered : Time)

namespace GroupLife

variable (name : Bytes)

def create (group : Bytes) (atEnd mkstream : Bool) (now : Time) (x : GroupLife) : GroupLife :=
  let id := if atEnd then bytes "$" else bytes "0-0"
  { x with cell := (x.cell.xGroupCreate now group id mkstream).2 }

def add (id : Bytes) (fields : List Bytes) (prepared added : Time) (x : GroupLife) : GroupLife :=
  let r := addTo id fields prepared added x.cell
  { x with cell := r.2
           since := x.since ++ if (x.cell.group name).isSome then r.1.toList else [] }

def trim (maxLen : Nat) (x : GroupLife) : GroupLife :=
  let entries := x.cell.streams.getD []
  { x with cell := (x.cell.xTrim maxLen).2
           trimmed := x.trimmed ++ (entries.take (entries.length - maxLen)).map (·.id) }

def read (group consumer : Bytes) (count : Int) (planned delivered : Time) (x : GroupLife) :
    GroupLife :=
  let r := readFrom group consumer count planned delivered x.cell
  { x with cell := r.2
           returned := x.returned ++ if group = name then r.1.map (·.id) else [] }

def step (x : GroupLife) : GroupAction → Option GroupLife
  | .create group atEnd mkstream now => some (x.create group atEnd mkstream now)
  | .add id fields prepared added => some (x.add name id fields prepared added)
  | .trim maxLen => some (x.trim maxLen)
  | .read group consumer count planned delivered =>
    some (x.read name group consumer count planned delivered)

/-- A key that does not expire, with a stream that is in order and no groups. -/
structure Starts (c : Cell) : Prop where
  order : StreamInOrder c.toEntry
  low : IdUpTo (bytes "0-0") c.lastID
  lasting : c.expires = none
  groups : ∀ group, c.group group = none

def start (c : Cell) : GroupLife := ⟨c, [], [], []⟩

end GroupLife

/-- `XADD` does not call an entry `$`, and `XTRIM` does not empty a stream of which a group has
returned an entry. -/
def GroupAction.Careful (x : GroupLife) : GroupAction → Prop
  | .add id _ _ _ => id ≠ bytes "$"
  | .trim maxLen => maxLen = 0 → x.cell.streams.getD [] = [] ∨
      ∀ group g, x.cell.group group = some g → IdUpTo g.lastID (bytes "0-0")
  | _ => True

/-! ## The last entry -/

theorem lastIDOf_append (entries : List StreamEntry) (x : StreamEntry) :
    lastIDOf (entries ++ [x]) = x.id := by
  unfold lastIDOf
  rw [getLast?_concat]
  rfl

theorem lastIDOf_drop {n : Nat} (hn : n < entries.length) :
    lastIDOf (entries.drop n) = lastIDOf entries := by
  unfold lastIDOf
  rw [getLast?_drop, if_neg (by omega)]

theorem Ascending.upTo_last (h : Ascending entries) {x : StreamEntry}
    (hx : x ∈ entries) : IdUpTo x.id (lastIDOf entries) := by
  rcases eq_nil_or_concat entries with rfl | ⟨front, last, rfl⟩
  · cases hx
  rw [concat_eq_append] at *
  rw [lastIDOf_append]
  rcases mem_append.mp hx with hx | hx
  · have hlt := (pairwise_append.mp h.sorted).2.2 x hx last (by simp)
    exact (compareID_eq_lt.mp hlt).2.upTo
  · rw [mem_singleton.mp hx]
    exact .refl _

theorem foldl_deliver_last (consumer : Bytes) (t : Time) (ids : List Bytes) (g : ConsumerGroup) :
    (ids.foldl (deliver consumer t) g).lastID = g.lastID ∨
      (ids.foldl (deliver consumer t) g).lastID ∈ ids := by
  induction ids generalizing g with
  | nil => exact .inl rfl
  | cons id rest ih =>
    rw [foldl_cons]
    rcases ih (deliver consumer t g id) with hsame | hmem
    · rw [hsame]
      unfold deliver
      split
      · exact .inr (.head _)
      · exact .inl rfl
    · exact .inr (.tail _ hmem)

/-! ## What the commands do to a key that does not expire -/

section
variable {c : Cell}

theorem purge_of_lasting (h : c.expires = none) (now : Time) : c.purge now = c := by
  unfold purge Entry.expired
  rw [h]
  rfl

theorem expired_of_lasting (h : c.expires = none) (now : Time) : c.expired now = false := by
  unfold Entry.expired
  rw [h]

theorem lastID_congr {c' : Cell} (h : c'.streams = c.streams) : c'.lastID = c.lastID := by
  unfold lastID
  rw [h]

/-- What a command leaves as it is. -/
structure Cell.SameRest (c c' : Cell) : Prop where
  expires : c'.expires = c.expires
  groups : ∀ group, c'.group group = c.group group

theorem addTo_cases (hc : c.expires = none) {id : Bytes} (hid : id ≠ bytes "$")
    {fields : List Bytes} {prepared added : Time} {r : Option Bytes × Cell}
    (hadd : addTo id fields prepared added c = r) : c.SameRest r.2 ∧
      ((r.1 = none ∧ r.2.streams = c.streams) ∨ ∃ id', r.1 = some id' ∧ id' ≠ bytes "$" ∧
        compareID id' c.lastID = .gt ∧
        r.2.streams = some (c.streams.getD [] ++ [⟨id', fields⟩])) := by
  subst hadd
  have hnext : (c.nextStreamID prepared id).2.streams = c.streams ∧
      c.SameRest (c.nextStreamID prepared id).2 := by
    unfold nextStreamID
    dsimp only
    rw [purge_of_lasting hc]
    split
    · exact ⟨rfl, rfl, fun _ => rfl⟩
    · unfold prepareStreamID
      split
      · exact ⟨rfl, rfl, fun _ => rfl⟩
      split
      · exact ⟨rfl, rfl, fun _ => rfl⟩
      · exact ⟨rfl, rfl, fun _ => rfl⟩
  unfold addTo
  cases hprepared : c.nextStreamID prepared id with
  | mk r c₁ =>
    rw [hprepared] at hnext
    obtain ⟨hstreams, hrest⟩ := hnext
    cases r with
    | error e => exact ⟨hrest, .inl ⟨rfl, hstreams⟩⟩
    | ok id' =>
      have hnamed : id' ≠ bytes "$" := nextStreamID_named hid (congrArg Prod.fst hprepared)
      dsimp only
      unfold xAddPrepared
      by_cases hfields : badFields fields = true
      · rw [if_pos hfields]
        exact ⟨hrest, .inl ⟨rfl, hstreams⟩⟩
      rw [if_neg hfields, expired_of_lasting (hrest.expires.trans hc),
        if_neg Bool.false_ne_true, lastID_congr hstreams]
      by_cases hgt : compareID id' c.lastID = .gt
      · rw [if_neg (not_not.mpr hgt)]
        refine ⟨⟨hrest.expires, hrest.groups⟩, .inr ⟨id', rfl, hnamed, hgt, ?_⟩⟩
        show some (c₁.streams.getD [] ++ [_]) = _
        rw [hstreams]
      · rw [if_pos hgt]
        exact ⟨hrest, .inl ⟨rfl, hstreams⟩⟩

theorem xGroupCreate_cases (hc : c.expires = none) (now : Time) (name id : Bytes)
    (mkstream : Bool) {c' : Cell} (hc' : (c.xGroupCreate now name id mkstream).2 = c') :
    c'.streams = c.streams ∧ c'.expires = c.expires ∧
      ((∀ group, c'.group group = c.group group) ∨
        (c.group name = none ∧ ∀ group, c'.group group
          = if group = name then some ⟨if id = bytes "$" then c.lastID else id, ∅⟩
            else c.group group)) := by
  subst hc'
  have hgroups : ∀ group, (Cell.group group { c with groups := some (c.groups.getD ∅) })
      = c.group group := by
    intro group
    unfold Cell.group
    cases c.groups <;> rfl
  unfold xGroupCreate
  dsimp only
  rw [purge_of_lasting hc]
  split
  · exact ⟨rfl, rfl, .inl (fun _ => rfl)⟩
  split
  · exact ⟨rfl, rfl, .inl (fun _ => rfl)⟩
  split
  · exact ⟨rfl, rfl, .inl hgroups⟩
  · rename_i hnew
    rw [hgroups] at hnew
    refine ⟨rfl, rfl, .inr ⟨Option.not_isSome_iff_eq_none.mp hnew, fun group => ?_⟩⟩
    show (setGroup name _ _).group group = _
    rw [group_setGroup, hgroups]

theorem xTrim_cases (c : Cell) (maxLen : Nat) :
    c.SameRest (c.xTrim maxLen).2 ∧ (c.xTrim maxLen).2.streams.getD []
      = (c.streams.getD []).drop ((c.streams.getD []).length - maxLen) := by
  unfold xTrim
  dsimp only
  split
  · have hzero : (c.streams.getD []).length - maxLen = 0 := by omega
    rw [hzero]
    exact ⟨⟨rfl, fun _ => rfl⟩, rfl⟩
  · exact ⟨⟨rfl, fun _ => rfl⟩, rfl⟩

/-- `XREADGROUP` by `>` returns the first of the entries after the last identifier of the group,
and delivers them. -/
theorem readFrom_spec (hc : c.expires = none) (horder : StreamInOrder c.toEntry)
    (hg : c.group group = some g) {consumer : Bytes} {count : Int} {planned delivered : Time}
    {entries : List StreamEntry} {c' : Cell}
    (hread : readFrom group consumer count planned delivered c = (entries, c')) :
    ∃ n t, 0 < n ∧ entries = ((c.streams.getD []).filter (after g.lastID)).take n ∧
      c'.streams = c.streams ∧ c'.expires = c.expires ∧ ∀ other, c'.group other
        = if other = group then some ((entries.map (·.id)).foldl (deliver consumer t) g)
          else c.group other := by
  have hplan : c.toEntry.xReadGroupPlan planned group consumer (bytes ">") count
      = .ok (((c.streams.getD []).filter (after g.lastID)).take
          (if count ≤ 0 then 10 else count.toNat)) := by
    unfold Entry.xReadGroupPlan
    rw [expired_of_lasting hc, if_neg Bool.false_ne_true,
      show c.groups.bind (·.get group) = some g from hg]
    dsimp only
    rw [if_pos rfl, entriesAfter_eq horder.getD.sorted]
  refine ⟨if count ≤ 0 then 10 else count.toNat, if isZero delivered then delivered else delivered,
    by split <;> omega, ?_⟩
  unfold readFrom at hread
  rw [hplan] at hread
  dsimp only at hread
  generalize ((c.streams.getD []).filter (after g.lastID)).take
    (if count ≤ 0 then 10 else count.toNat) = found at hread ⊢
  split at hread
  · rename_i hnil
    cases hread
    refine ⟨hnil.symm, rfl, rfl, fun other => ?_⟩
    split
    · rename_i heq
      rw [heq]
      exact hg
    · rfl
  · cases hread
    refine ⟨rfl, xGroupDeliver_streams, ?_, fun other => ?_⟩
    · unfold xGroupDeliver
      rw [hg]
      rfl
    · unfold xGroupDeliver
      rw [hg]
      show (setGroup group _ c).group other = _
      rw [group_setGroup]

theorem readFrom_none (hg : c.group group = none) (hc : c.expires = none)
    (consumer : Bytes) (count : Int) (planned delivered : Time) :
    readFrom group consumer count planned delivered c = ([], c) := by
  unfold readFrom Entry.xReadGroupPlan
  rw [expired_of_lasting hc, if_neg Bool.false_ne_true,
    show c.groups.bind (·.get group) = none from hg]

end

/-! ## The invariant -/

namespace GroupLife

/-- No group is ahead of the stream. What was added since the group was created has been returned
or trimmed, or is still to come: it is in the stream, after the last identifier of the group. -/
structure NotAhead (name : Bytes) (x : GroupLife) : Prop where
  order : StreamInOrder x.cell.toEntry
  lasting : x.cell.expires = none
  low : IdUpTo (bytes "0-0") x.cell.lastID
  behind : ∀ group g, x.cell.group group = some g →
    g.lastID ≠ bytes "$" ∧ IdUpTo g.lastID x.cell.lastID
  toCome : ∀ g, x.cell.group name = some g → ∀ id ∈ x.since,
    id ∈ x.returned ∨ id ∈ x.trimmed ∨
      ∃ e ∈ x.cell.streams.getD [], e.id = id ∧ IdBefore g.lastID id
  unborn : x.cell.group name = none → x.since = []

namespace NotAhead

variable {name : Bytes} {x : GroupLife}

theorem start {c : Cell} (hc : Starts c) : NotAhead name (start c) where
  order := hc.order
  lasting := hc.lasting
  low := hc.low
  behind group g hg := nomatch (hc.groups group).symm.trans hg
  toCome _ _ id hid := absurd hid (by simp [GroupLife.start])
  unborn _ := rfl

variable (h : x.NotAhead name)
include h

theorem added_after {id : Bytes} (hid : id ≠ bytes "$")
    {fields : List Bytes} {prepared added : Time} {id' : Bytes}
    (hadd : (addTo id fields prepared added x.cell).1 = some id')
    (hg : x.cell.group group = some g) : IdBefore g.lastID id' := by
  obtain ⟨-, ⟨hnone, -⟩ | ⟨id'', hsome, -, hgt, -⟩⟩ := addTo_cases h.lasting hid rfl
  · rw [hnone] at hadd
    cases hadd
  · cases hsome.symm.trans hadd
    have hlast : IdBefore x.cell.lastID id' := (compareID_eq_gt h.order.getD.lastIDOf_ne).mp hgt
    exact (h.behind group g hg).2.trans_before hlast

/-- A step that leaves the stream as it is. -/
theorem of_streams {y : GroupLife} (hstreams : y.cell.streams = x.cell.streams)
    (hexpires : y.cell.expires = x.cell.expires)
    (hbehind : ∀ group g, y.cell.group group = some g →
      g.lastID ≠ bytes "$" ∧ IdUpTo g.lastID x.cell.lastID)
    (htoCome : ∀ g, y.cell.group name = some g → ∀ id ∈ y.since, id ∈ y.returned ∨ id ∈ y.trimmed ∨
      ∃ e ∈ x.cell.streams.getD [], e.id = id ∧ IdBefore g.lastID id)
    (hunborn : y.cell.group name = none → y.since = []) : y.NotAhead name := by
  have hlastID := lastID_congr hstreams
  rw [← hstreams] at htoCome
  rw [← hlastID] at hbehind
  exact ⟨h.order.of_eq hstreams, hexpires.trans h.lasting, hlastID ▸ h.low, hbehind, htoCome,
    hunborn⟩

theorem create (group : Bytes) (atEnd mkstream : Bool) (now : Time) :
    (x.create group atEnd mkstream now).NotAhead name := by
  obtain ⟨hstreams, hexpires, hgroups⟩ := xGroupCreate_cases h.lasting now group
    (if atEnd then bytes "$" else bytes "0-0") mkstream rfl
  refine h.of_streams hstreams hexpires ?_ ?_ ?_ <;> rcases hgroups with hsame | ⟨hnew, hset⟩
  · exact fun other g hg => h.behind other g (hsame other ▸ hg)
  · -- the new group stands at the last entry, or before the first
    intro other g hg
    replace hg := (hset other).symm.trans hg
    split at hg
    · cases hg
      cases atEnd with
      | true => exact ⟨h.order.getD.lastIDOf_ne, .refl _⟩
      | false => exact ⟨show bytes "0-0" ≠ bytes "$" by decide, h.low⟩
    · exact h.behind other g hg
  · exact fun g hg => h.toCome g (hsame name ▸ hg)
  · intro g hg id hid
    replace hg := (hset name).symm.trans hg
    split at hg
    · rename_i heq
      have hid : id ∈ x.since := hid
      rw [h.unborn (heq ▸ hnew)] at hid
      cases hid
    · exact h.toCome g hg id hid
  · exact fun hnone => h.unborn (hsame name ▸ hnone)
  · intro hnone
    replace hnone := (hset name).symm.trans hnone
    split at hnone
    · cases hnone
    · exact h.unborn hnone

theorem add {id : Bytes} (hid : id ≠ bytes "$") (fields : List Bytes)
    (prepared added : Time) : (x.add name id fields prepared added).NotAhead name := by
  have hafter : ∀ id', (addTo id fields prepared added x.cell).1 = some id' →
      ∀ group g, x.cell.group group = some g → IdBefore g.lastID id' :=
    fun id' hadd group g hg => h.added_after hid hadd hg
  unfold GroupLife.add
  generalize hadd : addTo id fields prepared added x.cell = r at hafter
  obtain ⟨hrest, hcases⟩ := addTo_cases h.lasting hid hadd
  obtain ⟨accepted, c'⟩ := r
  have hgroups : ∀ other, c'.group other = x.cell.group other := hrest.groups
  rcases hcases with ⟨hnone, hstreams⟩ | ⟨id', hsome, hnamed, hgt, hstreams⟩
  · have hsince : x.since ++ (if (x.cell.group name).isSome then accepted.toList else [])
        = x.since := by simp [show accepted = none from hnone]
    dsimp only
    rw [hsince]
    exact h.of_streams hstreams hrest.expires (fun group g hg => h.behind group g (hgroups group ▸ hg))
      (fun g hg => h.toCome g (hgroups name ▸ hg)) (fun hg => h.unborn (hgroups name ▸ hg))
  · have hsome : accepted = some id' := hsome
    have hlastID : c'.lastID = id' := by
      unfold lastID
      rw [hstreams, Option.getD_some, lastIDOf_append]
    have hbefore : IdBefore x.cell.lastID id' :=
      (compareID_eq_gt h.order.getD.lastIDOf_ne).mp hgt
    refine ⟨?_, hrest.expires.trans h.lasting, ?_, fun group g hg => ?_, fun g hg y hy => ?_,
      fun hg => ?_⟩
    · intro entries hentries
      cases hstreams.symm.trans hentries
      exact h.order.getD.append hnamed hgt
    · rw [show (c'.lastID) = id' from hlastID]
      exact h.low.trans hbefore.upTo
    · rw [show (c'.lastID) = id' from hlastID]
      obtain ⟨hne, hup⟩ := h.behind group g (hgroups group ▸ hg)
      exact ⟨hne, hup.trans hbefore.upTo⟩
    · have hg : x.cell.group name = some g := hgroups name ▸ hg
      rw [hg, hsome] at hy
      rw [hstreams, Option.getD_some]
      rcases mem_append.mp hy with hy | hy
      · rcases h.toCome g hg y hy with hr | ht | ⟨e, he, heq, hlt⟩
        · exact .inl hr
        · exact .inr (.inl ht)
        · exact .inr (.inr ⟨e, mem_append_left _ he, heq, hlt⟩)
      · have hy : y = id' := mem_singleton.mp hy
        rw [hy]
        exact .inr (.inr ⟨⟨id', fields⟩, mem_append_right _ (mem_singleton.mpr rfl), rfl,
          hafter id' hsome name g hg⟩)
    · have hg : x.cell.group name = none := hgroups name ▸ hg
      rw [hg, h.unborn hg]
      rfl

theorem trim {maxLen : Nat}
    (hcareful : GroupAction.Careful x (.trim maxLen)) : (x.trim maxLen).NotAhead name := by
  obtain ⟨hrest, hstreams⟩ := xTrim_cases x.cell maxLen
  unfold GroupLife.trim
  generalize (x.cell.xTrim maxLen).2 = c' at hrest hstreams
  have hgroups : ∀ other, c'.group other = x.cell.group other := hrest.groups
  -- the last entry stays, or the stream is empty and no group has got anything
  have hlast : c'.lastID = x.cell.lastID ∨ c'.lastID = bytes "0-0" ∧
      ∀ group g, x.cell.group group = some g → IdUpTo g.lastID (bytes "0-0") := by
    unfold lastID
    rw [hstreams]
    by_cases hleft : (x.cell.streams.getD []).length - maxLen < (x.cell.streams.getD []).length
    · exact .inl (lastIDOf_drop hleft)
    · have hempty : x.cell.streams.getD [] = [] ∨ maxLen = 0 := by
        rw [← length_eq_zero_iff]
        omega
      rcases hempty with hnil | hzero
      · rw [hnil, drop_nil]
        exact .inl rfl
      · rcases hcareful hzero with hnil | hgroups
        · rw [hnil, drop_nil]
          exact .inl rfl
        · rw [drop_eq_nil_of_le (by omega)]
          exact .inr ⟨rfl, hgroups⟩
  refine ⟨?_, hrest.expires.trans h.lasting, ?_, fun group g hg => ?_, fun g hg y hy => ?_,
    fun hg => h.unborn (hgroups name ▸ hg)⟩
  · intro entries hentries
    rw [hentries, Option.getD_some] at hstreams
    rw [hstreams]
    exact h.order.getD.drop _
  · rcases hlast with hsame | ⟨hzero, -⟩
    · rw [show (c'.lastID) = _ from hsame]
      exact h.low
    · rw [show (c'.lastID) = _ from hzero]
      exact .refl _
  · obtain ⟨hne, hup⟩ := h.behind group g (hgroups group ▸ hg)
    rcases hlast with hsame | ⟨hzero, hgot⟩
    · rw [show (c'.lastID) = _ from hsame]
      exact ⟨hne, hup⟩
    · rw [show (c'.lastID) = _ from hzero]
      exact ⟨hne, hgot group g (hgroups group ▸ hg)⟩
  · rcases h.toCome g (hgroups name ▸ hg) y hy with hr | ht | ⟨e, he, rfl, hlt⟩
    · exact .inl hr
    · exact .inr (.inl (mem_append_left _ ht))
    · rw [← take_append_drop ((x.cell.streams.getD []).length - maxLen)
        (x.cell.streams.getD [])] at he
      rcases mem_append.mp he with he | he
      · exact .inr (.inl (mem_append_right _ (mem_map_of_mem he)))
      · exact .inr (.inr ⟨e, hstreams ▸ he, rfl, hlt⟩)

omit h in
theorem before_of_delivered (consumer : Bytes) (t : Time) (n : Nat) (hentries : Ascending entries)
    (he : e ∈ entries) (hlt : IdBefore g.lastID e.id) (hlast : g.lastID ≠ bytes "$") :
    e ∈ (entries.filter (after g.lastID)).take n ∨
      IdBefore ((((entries.filter (after g.lastID)).take n).map (·.id)).foldl
        (deliver consumer t) g).lastID e.id := by
  have hmem : e ∈ entries.filter (after g.lastID) :=
    mem_filter.mpr ⟨he, (after_iff hlast).mpr hlt⟩
  have hsorted := hentries.sorted.sublist (filter_sublist (p := after g.lastID))
  rw [← take_append_drop n (entries.filter (after g.lastID))] at hmem hsorted
  rcases mem_append.mp hmem with htaken | hleft
  · exact .inl htaken
  · right
    rcases foldl_deliver_last consumer t
      (((entries.filter (after g.lastID)).take n).map (·.id)) g with hsame | htaken
    · rw [hsame]
      exact hlt
    · obtain ⟨y, hy, hid⟩ := mem_map.mp htaken
      rw [← hid]
      exact (compareID_eq_lt.mp ((pairwise_append.mp hsorted).2.2 y hy e hleft)).2

theorem read (group consumer : Bytes) (count : Int) (planned delivered : Time) :
    (x.read name group consumer count planned delivered).NotAhead name := by
  cases hg : x.cell.group group with
  | none =>
    have hsame : x.read name group consumer count planned delivered = x := by
      unfold GroupLife.read
      rw [readFrom_none hg h.lasting]
      simp
    rw [hsame]
    exact h
  | some g =>
    obtain ⟨hne, hup⟩ := h.behind group g hg
    unfold GroupLife.read
    rcases hread : readFrom group consumer count planned delivered x.cell with ⟨entries, c'⟩
    obtain ⟨n, t, -, hentries, hstreams, hexpires, hgroups⟩ :=
      readFrom_spec h.lasting h.order hg hread
    have hfound : ∀ e ∈ entries, e ∈ x.cell.streams.getD [] := by
      intro e he
      rw [hentries] at he
      exact (mem_filter.mp (mem_of_mem_take he)).1
    refine h.of_streams hstreams hexpires (fun other g' hg' => ?_) (fun g' hg' y hy => ?_)
      (fun hnone => ?_)
    · rw [hgroups] at hg'
      split at hg'
      · cases hg'
        have hnamed : ∀ id ∈ entries.map (·.id), id ≠ bytes "$" := by
          intro id hid
          obtain ⟨e, he, rfl⟩ := mem_map.mp hid
          exact h.order.getD.named e (hfound e he)
        refine ⟨(foldl_deliver consumer t hne hnamed).1, ?_⟩
        rcases foldl_deliver_last consumer t (entries.map (·.id)) g with hsame | hmem
        · rw [hsame]
          exact hup
        · obtain ⟨e, he, hid⟩ := mem_map.mp hmem
          rw [← hid]
          exact h.order.getD.upTo_last (hfound e he)
      · exact h.behind other g' hg'
    · dsimp only
      have hnew : c'.group name = some g' := hg'
      rw [hgroups] at hnew
      split at hnew
      · rename_i heq
        subst heq
        cases hnew
        rw [if_pos rfl]
        rcases h.toCome g hg y hy with hr | ht | ⟨e, he, rfl, hlt⟩
        · exact .inl (mem_append_left _ hr)
        · exact .inr (.inl ht)
        · rcases before_of_delivered consumer t n h.order.getD he hlt hne
            with htaken | hafter
          · exact .inl (mem_append_right _ (mem_map_of_mem (hentries ▸ htaken)))
          · exact .inr (.inr ⟨e, he, rfl, hentries ▸ hafter⟩)
      · rename_i hother
        rw [if_neg (fun heq => hother heq.symm), append_nil]
        exact h.toCome g' hnew y hy
    · rw [hgroups] at hnone
      split at hnone
      · cases hnone
      · exact h.unborn hnone

theorem step {a : GroupAction} {y : GroupLife} (hcareful : a.Careful x)
    (hstep : x.step name a = some y) : y.NotAhead name := by
  cases a with
  | create group atEnd mkstream now =>
    cases hstep
    exact h.create group atEnd mkstream now
  | add id fields prepared added =>
    cases hstep
    exact h.add hcareful fields prepared added
  | trim maxLen =>
    cases hstep
    exact h.trim hcareful
  | read group consumer count planned delivered =>
    cases hstep
    exact h.read group consumer count planned delivered

/-! ## What is still to come -/

/-- The number of entries that are still to come for a group. -/
def toGo (c : Cell) (g : ConsumerGroup) : Nat :=
  ((c.streams.getD []).filter (after g.lastID)).length

theorem read_progress (hg : x.cell.group name = some g)
    (he : e ∈ x.cell.streams.getD []) (hlt : IdBefore g.lastID e.id)
    {consumer : Bytes} {count : Int} {planned delivered : Time} {y : GroupLife}
    (hy : x.read name name consumer count planned delivered = y) : e.id ∈ y.returned ∨
      ∃ g', y.cell.group name = some g' ∧ e ∈ y.cell.streams.getD [] ∧
        IdBefore g'.lastID e.id ∧ toGo y.cell g' < toGo x.cell g := by
  subst hy
  obtain ⟨hne, -⟩ := h.behind name g hg
  unfold GroupLife.read
  rcases hread : readFrom name consumer count planned delivered x.cell with ⟨entries, c'⟩
  obtain ⟨n, t, hn, hentries, hstreams, -, hgroups⟩ := readFrom_spec h.lasting h.order hg hread
  have hgroup : c'.group name
      = some ((entries.map (·.id)).foldl (deliver consumer t) g) := by
    have := hgroups name
    rwa [if_pos rfl] at this
  rcases before_of_delivered consumer t n h.order.getD he hlt hne with htaken | hafter
  · left
    dsimp only
    rw [if_pos rfl]
    exact mem_append_right _ (mem_map_of_mem (hentries ▸ htaken))
  · right
    rw [← hentries] at hafter
    refine ⟨_, hgroup, ?_, hafter, ?_⟩
    · rw [hstreams]
      exact he
    -- the first entry to come has been delivered
    have hmem : e ∈ (x.cell.streams.getD []).filter (after g.lastID) :=
      mem_filter.mpr ⟨he, (after_iff hne).mpr hlt⟩
    obtain ⟨first, rest, hfirst⟩ := exists_cons_of_ne_nil (ne_nil_of_mem hmem)
    have hdelivered : first ∈ entries := by
      rw [hentries, hfirst]
      obtain ⟨m, rfl⟩ : ∃ m, n = m + 1 := ⟨n - 1, by omega⟩
      exact (.head _)
    have hnamed : ∀ id ∈ entries.map (·.id), id ≠ bytes "$" := by
      intro id hid
      obtain ⟨y, hy, rfl⟩ := mem_map.mp hid
      rw [hentries] at hy
      exact h.order.getD.named y (mem_filter.mp (mem_of_mem_take hy)).1
    obtain ⟨hne', hup, hall, -⟩ := foldl_deliver consumer t hne hnamed
    have hsub : (x.cell.streams.getD []).filter
          (after ((entries.map (·.id)).foldl (deliver consumer t) g).lastID)
        = ((x.cell.streams.getD []).filter (after g.lastID)).filter
          (after ((entries.map (·.id)).foldl (deliver consumer t) g).lastID) := by
      rw [filter_filter]
      refine filter_congr (fun y _ => ?_)
      rw [Bool.eq_iff_iff, Bool.and_eq_true]
      constructor
      · intro hy
        exact ⟨hy, (after_iff hne).mpr (hup.trans_before ((after_iff hne').mp hy))⟩
      · exact And.left
    unfold toGo
    rw [hstreams, hsub, length_filter_lt_length_iff_exists]
    refine ⟨first, hfirst ▸ (.head _), fun hy => ?_⟩
    exact hall first.id (mem_map_of_mem hdelivered) ((after_iff hne').mp hy)

end NotAhead

/-- Reads by `>` one after the other: who reads, how much, and when. -/
def readAll (name : Bytes) (reads : List (Bytes × Int × Time × Time)) (x : GroupLife) : GroupLife :=
  reads.foldl (fun x r => x.read name name r.1 r.2.1 r.2.2.1 r.2.2.2) x

theorem mem_returned_readAll {name id : Bytes} (reads : List (Bytes × Int × Time × Time))
    {x : GroupLife} (hid : id ∈ x.returned) : id ∈ (x.readAll name reads).returned := by
  induction reads generalizing x with
  | nil => exact hid
  | cons r rest ih => exact ih (mem_append_left _ hid)

theorem NotAhead.readAll {name : Bytes} {x : GroupLife} (h : x.NotAhead name)
    (hg : x.cell.group name = some g) (he : e ∈ x.cell.streams.getD [])
    (hlt : IdBefore g.lastID e.id) {reads : List (Bytes × Int × Time × Time)}
    (hreads : NotAhead.toGo x.cell g ≤ reads.length) : e.id ∈ (x.readAll name reads).returned := by
  -- with each read there is less to go, and as long as the entry is to come there is something
  induction reads generalizing x g with
  | nil =>
    have hmem : e ∈ (x.cell.streams.getD []).filter (after g.lastID) :=
      mem_filter.mpr ⟨he, (after_iff (h.behind name g hg).1).mpr hlt⟩
    have := length_pos_of_mem hmem
    unfold NotAhead.toGo at hreads
    simp only [length_nil] at hreads
    omega
  | cons r rest ih =>
    rcases h.read_progress hg he hlt rfl with hr | ⟨g', hg', he', hlt', hless⟩
    · exact mem_returned_readAll rest hr
    · refine ih (h.read name r.1 r.2.1 r.2.2.1 r.2.2.2) hg' he' hlt' ?_
      exact Nat.le_of_lt_succ (Nat.lt_of_lt_of_le hless hreads)

end GroupLife

/-- **A group gets every entry.** In every run of `XGROUP CREATE` with `$` or `0-0`, `XADD`, `XTRIM`
and `XREADGROUP` by `>` on a stream, in which no `XTRIM` empties a stream of which a group has
returned an entry: an entry that `XADD` takes is after the last identifier of every group; and an
entry added since the group was created is returned by a later read, unless it was trimmed. -/
theorem group_gets_every_entry (name : Bytes) (c : Cell) (hc : GroupLife.Starts c) (x : GroupLife)
    (hrun : Reaches (GroupLife.step name) (fun x a => GroupAction.Careful x a) (GroupLife.start c) x) :
    (∀ id fields prepared added id', id ≠ bytes "$" →
      (addTo id fields prepared added x.cell).1 = some id' →
      ∀ group g, x.cell.group group = some g → compareID id' g.lastID = .gt) ∧
    ∀ id ∈ x.since, id ∈ x.trimmed ∨
      ∃ n, ∀ reads, n ≤ reads.length → id ∈ (x.readAll name reads).returned := by
  have hx : x.NotAhead name :=
    hrun.invariant (.start hc) (fun _ _ _ h hcareful hstep => h.step hcareful hstep)
  refine ⟨fun id fields prepared added id' hid hadd group g hg => ?_, fun id hid => ?_⟩
  · exact (compareID_eq_gt (hx.behind group g hg).1).mpr (hx.added_after hid hadd hg)
  · cases hg : x.cell.group name with
    | none =>
      rw [hx.unborn hg] at hid
      cases hid
    | some g =>
      rcases hx.toCome g hg id hid with hr | ht | ⟨e, he, rfl, hlt⟩
      · exact .inr ⟨0, fun reads _ => mem_returned_readAll reads hr⟩
      · exact .inl ht
      · exact .inr ⟨GroupLife.NotAhead.toGo x.cell g,
          fun reads hreads => hx.readAll hg he hlt hreads⟩

/-- A key that was never written. -/
def unwritten : Cell := ⟨Entry.empty, 0⟩

/-- The stream is created by its group, and an entry is added. -/
def firstEntry : List GroupAction :=
  [.create (bytes "g") false true 1, .add (bytes "5-1") [bytes "f", bytes "v"] 1 1]

/-- Of an entry that is added and trimmed to a length of one, the reads that come return it. -/
theorem group_gets_every_entry_first :
    ∃ x, runAll (GroupLife.step (bytes "g")) (GroupLife.start unwritten) (firstEntry ++ [.trim 1])
        = some x ∧
      ∃ n, ∀ reads, n ≤ reads.length → bytes "5-1" ∈ (x.readAll (bytes "g") reads).returned := by
  have hc : GroupLife.Starts unwritten :=
    ⟨.empty, .refl _, rfl, fun _ => rfl⟩
  refine exists_of_runMeets (fun x a => GroupAction.Careful x a) ⟨trivial, ?_, ?_, trivial⟩ rfl ?_
  · show bytes "5-1" ≠ bytes "$"
    decide
  · exact fun hzero => nomatch hzero
  · intro hrun
    have hgets := (group_gets_every_entry (bytes "g") unwritten hc _ hrun).2 (bytes "5-1") (.head _)
    exact hgets.resolve_left (by decide +kernel)

/-- The group returns `5-1`, the stream is emptied, and `1-1` is added behind the group, which does
not return it. -/
theorem group_misses_entry :
    ∃ x, Reaches (GroupLife.step (bytes "g")) (fun _ _ => True) (GroupLife.start unwritten) x ∧
      (addTo (bytes "1-1") [bytes "f", bytes "v"] 1 1 x.cell).1 = some (bytes "1-1") ∧
      (x.cell.group (bytes "g")).map (·.lastID) = some (bytes "5-1") ∧
      compareID (bytes "1-1") (bytes "5-1") = .lt ∧ (readFrom (bytes "g") (bytes "c") 10 1 1
        (addTo (bytes "1-1") [bytes "f", bytes "v"] 1 1 x.cell).2).1.map (·.id) = [] := by
  have hrun := reaches_of_runAll (show runAll (step (bytes "g")) (start unwritten)
    (firstEntry ++ [.read (bytes "g") (bytes "c") 10 1 1, .trim 0]) = some _ from rfl)
  exact ⟨_, hrun, by decide +kernel, by decide +kernel, by decide, by decide +kernel⟩

end Vole
