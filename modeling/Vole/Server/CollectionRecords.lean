import Vole.Server.StringRecords
import Vole.Store.SortedOrder

/-!
# The records of commands on collections

For each case of `exec` that changes a hash, a list, a set, a sorted set or a cardinality
estimate: when its records, replayed on the entry as it was, do what the command did. Most
of these commands log the arguments they were given. `SPOP`, `ZPOPMIN` and `ZPOPMAX` log
what they took out, `ZINCRBY` and `GEOADD` the scores they computed.
-/

namespace Vole.Server

open Go Cmd Cell KeyRecordWord List

variable {now : Time} {R : Runtime}

section
variable {number : Bytes → Int} {env : KeyEnv} {e : Entry} {word : Bytes} {rest : List Bytes}

/-! ## Hashes -/

theorem pairUp_flatMap (pairs : List (Bytes × Bytes)) :
    pairUp (pairs.flatMap (fun p => [p.1, p.2])) = pairs := by
  induction pairs with
  | nil => rfl
  | cons p rest ih =>
    rw [flatMap_cons]
    show (p.1, p.2) :: pairUp (rest.flatMap _) = p :: rest
    rw [ih]

theorem length_flatMap_pairs (pairs : List (Bytes × Bytes)) :
    (pairs.flatMap (fun p => [p.1, p.2])).length = 2 * pairs.length := by
  induction pairs with
  | nil => rfl
  | cons p rest ih =>
    rw [flatMap_cons, length_append, ih, length_cons]
    show 2 + 2 * rest.length = 2 * (rest.length + 1)
    omega

theorem pairUp_length {args : List Bytes} (h : 2 ≤ args.length) : pairUp args ≠ [] := by
  match args, h with
  | a :: b :: rest, _ => exact cons_ne_nil _ _

theorem replayKey_hSet {pairs : List (Bytes × Bytes)} (hpairs : pairs ≠ []) :
    replayKey number R now e (bytes "HSET", pairs.flatMap (fun p => [p.1, p.2]))
      = some (hSet now pairs ⟨e, 0⟩).2.toEntry := by
  refine (replayKey_text .hSet _).trans ?_
  have hlen := length_flatMap_pairs pairs
  have hpos : 0 < pairs.length := length_pos_iff.mpr hpairs
  simp only [run, pairUp_flatMap]
  rw [if_pos ⟨by omega, by omega⟩]

theorem replays_hSet (hn : 4 ≤ rest.length + 2) :
    Replays number env e (Cmd.hSet.run env word rest ⟨e, 0⟩) := by
  dsimp only [Cmd.hSet, KeyCmd.of]
  split
  · exact .fail _
  · exact Cmd.addGuard_elim .fail (.logged (replayKey_hSet (pairUp_length (by omega))))

theorem echoes_hDel (hn : 3 ≤ rest.length + 2) :
    Cmd.hDel.Echoing True (e.type env.now = bytes "none") .hDel number env e word rest := by
  refine .takeGuard (.echo (fun _ => .hDel _) ?_)
  simp only [run]
  rw [if_pos (by omega)]

theorem echoes_hIncrBy (hn : rest.length + 2 = 4) (hrec : SameNumber (arg rest 3)) :
    Cmd.hIncrBy.Echoing True False .hIncrBy number env e word rest := by
  refine .attempt (fun n hparse => ?_)
  split
  · exact .fail _
  · refine .echo (fun _ => (hIncrBy_checked _ n).untouched) ?_
    simp only [run, if_pos hn, hrec n (parseInt64_eq_ok hparse)]

theorem hSetNX_ok {field value : Bytes} {ok : Bool}
    (h : (hSetNX now field value ⟨e, 0⟩).1 = .ok ok) : (hSetNX now field value ⟨e, 0⟩).2.toEntry
      = if ok then (hSet now [(field, value)] ⟨e, 0⟩).2.toEntry else e := by
  unfold Cell.hSetNX at h ⊢
  unfold Cell.hSet
  dsimp only at h ⊢
  split at h
  · cases h
  rename_i hconf
  rw [if_neg hconf, if_neg (cons_ne_nil _ _), if_neg hconf]
  by_cases hhas : ((((purge ⟨e, 0⟩ now).hashes).getD ∅).get field).isSome
  · rw [if_pos hhas] at h ⊢
    cases h
    -- the field is there, so the key was not purged and holds a hash
    have hhash : ∃ hash, (purge ⟨e, 0⟩ now).hashes = some hash := by
      cases hh : (purge ⟨e, 0⟩ now).hashes with
      | none =>
        rw [hh] at hhas
        cases hhas
      | some hash => exact ⟨hash, rfl⟩
    obtain ⟨hash, hhash⟩ := hhash
    have hany : (purge ⟨e, 0⟩ now).hasAny [.hash] = true := by
      simp [Data.hasAny, Data.has, hhash]
    have hpurge : purge ⟨e, 0⟩ now = ⟨e, 0⟩ := Cell.purge_of_hasAny hany
    rw [hpurge] at hhash ⊢
    simp only [Bool.false_eq_true, if_false]
    rw [hhash, Option.getD_some]
    rw [← hhash]
  · rw [if_neg hhas] at h ⊢
    cases h
    rfl

theorem replays_hSetNX : Replays number env e (Cmd.hSetNX.run env word rest ⟨e, 0⟩) := by
  dsimp only [Cmd.hSetNX, KeyCmd.of]
  split
  · exact .fail _
  · refine .logging (hSetNX_checked _ _).untouched (fun ok hok => ?_)
    rw [hSetNX_ok hok]
    cases ok with
    | false => rfl
    | true => exact foldlM_one (replayKey_hSet (cons_ne_nil (arg rest 2, arg rest 3) []))

/-! ## Lists -/

theorem echoes_lPop (hn : rest.length + 2 = 2) :
    Cmd.lPop.Echoing True (e.type env.now = bytes "none") .lPop number env e word rest := by
  refine .takeGuard (.echo (fun _ => (popList_checked _).untouched) ?_)
  simp only [run, if_pos hn]

theorem echoes_rPop (hn : rest.length + 2 = 2) :
    Cmd.rPop.Echoing True (e.type env.now = bytes "none") .rPop number env e word rest := by
  refine .takeGuard (.echo (fun _ => (popList_checked _).untouched) ?_)
  simp only [run, if_pos hn]

theorem echoes_lSet (hn : rest.length + 2 = 4) :
    Cmd.lSet.Echoing (e.expired env.now = false) False .lSet number env e word rest := by
  refine .attempt (fun index hparse => .echo (lSet_checked index _).untouched_fresh ?_)
  simp only [run, if_pos hn, parseIntValue_of_parseInt (atoi_eq_ok hparse)]

theorem echoes_lInsert (hn : rest.length + 2 = 5) :
    Cmd.lInsert.Echoing True False .lInsert number env e word rest := by
  show Echoes True False .lInsert number env e word rest
    (if !equalFold (arg rest 2) "BEFORE" && !equalFold (arg rest 2) "AFTER"
    then .fail ⟨e, 0⟩ (wrongArgs (bytes "LINSERT"))
    else .logged env.R (word, rest) (lInsert env.now (equalFold (arg rest 2) "BEFORE")
      (arg rest 3) (arg rest 4) ⟨e, 0⟩) (fun n => [.int n]))
  split
  · exact .fail _
  · refine .echo (fun _ => (lInsert_checked _ _ _).untouched) ?_
    simp only [run, if_pos hn]

theorem echoes_lRem (hn : rest.length + 2 = 4) :
    Cmd.lRem.Echoing True False .lRem number env e word rest := by
  refine .attempt (fun count hparse => .echo (fun _ => (lRem_checked _ _).untouched) ?_)
  simp only [run, if_pos hn, parseIntValue_of_parseInt (atoi_eq_ok hparse)]

/-! ## Sets -/

theorem echoes_sAdd (hn : 3 ≤ rest.length + 2) :
    Cmd.sAdd.Echoing True False .sAdd number env e word rest := by
  refine .addGuard (.echo (fun _ => (sAdd_checked _).untouched) ?_)
  simp only [run]
  rw [if_pos (by omega)]

theorem echoes_sRem (hn : 3 ≤ rest.length + 2) :
    Cmd.sRem.Echoing True (e.type env.now = bytes "none") .sRem number env e word rest := by
  refine .takeGuard (.echo (fun _ => .sRem _) ?_)
  simp only [run]
  rw [if_pos (by omega)]

theorem setSet_self {set : Finset Bytes} (hset : e.sets.getD ∅ = set) (hne : set ≠ ∅) :
    (setSet set ⟨e, 0⟩).toEntry = e := by
  have hsome : e.sets = some set := by
    cases h : e.sets with
    | none => exact absurd (by rw [← hset, h]; rfl) hne
    | some t => rw [← hset, h]; rfl
  unfold setSet
  rw [if_neg hne, ← hsome]

theorem sPop_replays {hint : List Bytes} {count : Int} {members : List Bytes}
    (hfresh : e.expired now = false) (h : (sPop now count hint ⟨e, 0⟩).1 = .ok members) :
    (sPop now count hint ⟨e, 0⟩).2.toEntry
      = if members = [] then e else (sRem now members ⟨e, 0⟩).2.toEntry := by
  have hexp : ¬ (mk e 0).expired now = true := by simp [hfresh]
  unfold Cell.sPop at h ⊢
  unfold Cell.sRem
  rw [if_neg hexp] at h ⊢
  rw [if_neg hexp]
  split at h
  · cases h
  rename_i hconf
  rw [if_neg hconf, if_neg hconf]
  dsimp only at h ⊢
  split at h
  · rename_i hempty
    cases h
    rw [if_pos hempty]
    rfl
  · rename_i hne
    rw [if_neg hne, if_neg hne]
    cases h
    rw [touch_toEntry]
    generalize (enumerate hint (e.sets.getD ∅)).take (if count ≤ 0 then 1 else count.toNat)
      = popped
    split
    · rename_i hnil
      rw [hnil, toFinset_nil, Finset.sdiff_empty]
      exact setSet_self rfl hne
    · rfl

theorem replays_sPop (hfresh : e.expired env.now = false) :
    Replays number env e (Cmd.sPop.run env word rest ⟨e, 0⟩) := by
  refine .attempt (fun count _ => .logging (sPop_checked _ _).untouched
    (fun members hok => ?_))
  rw [sPop_replays hfresh hok]
  split
  · rfl
  · rename_i hne
    refine foldlM_one ((replayKey_text .sRem _).trans ?_)
    have hpos := length_pos_iff.mpr hne
    simp only [run]
    rw [if_pos (by omega)]

/-! ## Sorted sets -/

theorem scannedMembers_eq (hR : FloatLaws R) {pairs : List (Bytes × Bytes)}
    {members : List ZMember} (h : parseMembers R pairs = .ok members) :
    scannedMembers R pairs = members := by
  induction pairs generalizing members with
  | nil =>
    cases h
    rfl
  | cons p rest ih =>
    obtain ⟨score, member⟩ := p
    unfold parseMembers at h
    cases hscore : parseFloat64 R score with
    | error err =>
      rw [hscore] at h
      cases h
    | ok x =>
      rw [hscore] at h
      cases hrest : parseMembers R rest with
      | error err =>
        rw [hrest] at h
        cases h
      | ok more =>
        rw [hrest] at h
        cases h
        show (⟨member, R.sscanFloat score⟩ : ZMember) :: scannedMembers R rest = _
        rw [ih hrest, hR.sscan_parse _ _ (parseFloat64_eq_ok hscore)]

theorem echoes_zAdd (hR : FloatLaws env.R) (hn : 4 ≤ rest.length + 2 ∧ (rest.length + 2) % 2 = 0) :
    Cmd.zAdd.Echoing True False .zAdd number env e word rest := by
  refine .attempt (fun members hparse =>
    .addGuard (.echo (fun _ => (zAdd_checked _).untouched) ?_))
  simp only [run, scannedMembers_eq hR hparse]
  rw [if_pos hn]

theorem echoes_zRem (hn : 3 ≤ rest.length + 2) :
    Cmd.zRem.Echoing True (e.type env.now = bytes "none") .zRem number env e word rest := by
  refine .takeGuard (.echo (fun _ => (zRem_checked _).untouched) ?_)
  simp only [run]
  rw [if_pos (by omega)]

/-- When the `ZREM` record of `ZPOPMIN` or `ZPOPMAX` removes what was popped. -/
def ZPopRecorded (now : Time) (e : Entry) : Prop :=
  e.expired now = false ∧ ∀ z, e.zsets = some z → z.Ordered

/-- What a popping operation and removing what it popped have in common. -/
def PopsLikeRemove (pop : SortedSet → List ZMember × SortedSet) (z : SortedSet) : Prop :=
  ((pop z).1.map (·.member)).foldl Cell.zsetRemove (0, z) = ((pop z).1.length, (pop z).2)

theorem setZSet_self {z : SortedSet} (hz : e.zsets = some z) (hne : z.len ≠ 0) :
    (setZSet z ⟨e, 0⟩).toEntry = e := by
  unfold setZSet
  rw [if_neg hne, ← hz]

theorem zPop_replays {pop : SortedSet → List ZMember × SortedSet}
    {items : List ZMember} (hfresh : e.expired now = false)
    (hpop : ∀ z, e.zsets = some z → PopsLikeRemove pop z)
    (h : (zPop now pop ⟨e, 0⟩).1 = .ok items) : (zPop now pop ⟨e, 0⟩).2.toEntry
      = if items = [] then e else (zRem now (items.map (·.member)) ⟨e, 0⟩).2.toEntry := by
  have hexp : ¬ (mk e 0).expired now = true := by simp [hfresh]
  unfold Cell.zPop at h ⊢
  unfold Cell.zRem
  rw [if_neg hexp] at h ⊢
  rw [if_neg hexp]
  split at h
  · cases h
  rename_i hconf
  rw [if_neg hconf, if_neg hconf]
  cases hz : e.zsets with
  | none =>
    simp only [hz] at h ⊢
    cases h
    rfl
  | some z =>
    simp only [hz] at h ⊢
    split at h
    · rename_i hlen
      cases h
      rw [if_pos hlen]
      rfl
    · rename_i hlen
      rw [if_neg hlen, if_neg hlen]
      have hremove := hpop z hz
      unfold PopsLikeRemove at hremove
      cases h
      rw [hremove]
      dsimp only
      split
      · rename_i hnil
        -- nothing was popped, so the set is as it was
        rw [hnil] at hremove
        rw [← (Prod.mk.inj hremove).2, touch_toEntry]
        exact setZSet_self hz hlen
      · split <;> rfl

theorem replays_zPop {name : String} {pop : Int → SortedSet → List ZMember × SortedSet}
    (hfresh : e.expired env.now = false)
    (hpop : ∀ count z, e.zsets = some z → PopsLikeRemove (pop count) z) :
    Replays number env e ((Cmd.zPop name (fun now count c => c.zPop now (pop count))).run env word
      rest ⟨e, 0⟩) := by
  refine .attempt (fun count _ => .logging (zPop_checked _).untouched
    (fun items hok => ?_))
  rw [zPop_replays hfresh (hpop count) hok]
  split
  · rfl
  · rename_i hne
    refine foldlM_one ((replayKey_text .zRem _).trans ?_)
    have hpos := length_pos_iff.mpr hne
    simp only [run, length_map]
    rw [if_pos (by omega)]

/-- When the `ZADD` record of `ZINCRBY` sets the score: it is a number, and one that
compares as different from the score before, since `Add` skips a score that is equal. -/
def ZIncrRecorded (R : Runtime) (z : SortedSet) (incr : F64) (member : Bytes) : Prop :=
  match z.score member with
  | none => (R.addFloat F64.zero incr).isNaN = false
  | some old => (R.addFloat old incr).isNaN = false ∧ old.eq (R.addFloat old incr) = false

theorem add_after_remove {z : SortedSet} {member : Bytes} {old score : F64}
    (hold : z.scores.get member = some old) (hne : Score.eq old score = false) :
    ((z.remove member).2.add member score).2 = (z.add member score).2 := by
  have hnone : GoMap.get (z.scores.erase member) member = none := Finmap.lookup_erase _ _
  have hremove : z.remove member
      = (true, SortedSet.removeOrdered ⟨z.scores.erase member, z.ordered⟩ member old) := by
    unfold SortedSet.remove
    rw [hold]
  have hkeep : (SortedSet.removeOrdered ⟨z.scores.erase member, z.ordered⟩ member old)
      = ⟨z.scores.erase member, (z.removeOrdered member old).ordered⟩ := by
    unfold SortedSet.removeOrdered
    dsimp only
    show (if z.ordered[z.findPos old member]?.map (·.member) = some member then _ else _) = _
    split <;> rfl
  rw [hremove, hkeep]
  unfold SortedSet.add
  rw [hold]
  dsimp only
  rw [hnone, hne]
  simp only [Bool.false_eq_true, if_false, SortedSet.removeOrdered_scores, GoMap.insert_erase]

theorem zIncrBy_replays {incr score : F64} {member : Bytes}
    (hrec : ZIncrRecorded R ((e.purged now).zsets.getD .empty) incr member)
    (h : (zIncrBy R now incr member ⟨e, 0⟩).1 = .ok score) :
    score.isNaN = false ∧ (zIncrBy R now incr member ⟨e, 0⟩).2.toEntry
        = (zAdd now [⟨member, score⟩] ⟨e, 0⟩).2.toEntry := by
  rw [← purge_toEntry ⟨e, 0⟩ now] at hrec
  unfold Cell.zIncrBy at h ⊢
  unfold Cell.zAdd
  rw [if_neg (cons_ne_nil _ _)]
  dsimp only at h ⊢
  generalize purge ⟨e, 0⟩ now = c at hrec h ⊢
  split at h
  · cases h
  rename_i hconf
  rw [if_neg hconf, if_neg hconf]
  generalize c.zsets.getD .empty = z at hrec h ⊢
  unfold ZIncrRecorded at hrec
  cases hold : z.score member with
  | none =>
    rw [hold] at hrec h
    simp only at hrec h ⊢
    cases h
    exact ⟨hrec, rfl⟩
  | some old =>
    rw [hold] at hrec h
    simp only at hrec h ⊢
    cases h
    refine ⟨hrec.1, ?_⟩
    rw [add_after_remove hold hrec.2]
    rfl

theorem replayKey_zAdd (hR : FloatLaws R) {members : List ZMember}
    (hne : members ≠ []) (hnum : ∀ m ∈ members, m.score.isNaN = false) : replayKey number R now e
        (bytes "ZADD", members.flatMap (fun m => [R.formatFloat m.score, m.member]))
      = some (zAdd now members ⟨e, 0⟩).2.toEntry := by
  have hpairs : members.flatMap (fun m => [R.formatFloat m.score, m.member])
      = (members.map (fun m => (R.formatFloat m.score, m.member))).flatMap
          (fun p => [p.1, p.2]) := by
    rw [flatMap_map]
  have hscan : scannedMembers R (members.map (fun m => (R.formatFloat m.score, m.member)))
      = members := by
    unfold scannedMembers
    rw [map_map]
    refine (map_congr_left (fun m hm => ?_)).trans (map_id members)
    show (⟨m.member, R.sscanFloat (R.formatFloat m.score)⟩ : ZMember) = m
    rw [hR.sscan_format _ (hnum m hm)]
  refine (replayKey_text .zAdd _).trans ?_
  have hlen := length_flatMap_pairs (members.map (fun m => (R.formatFloat m.score, m.member)))
  rw [length_map] at hlen
  have hpos : 0 < members.length := length_pos_iff.mpr hne
  simp only [run, hpairs, pairUp_flatMap, hscan]
  rw [if_pos ⟨by omega, by omega⟩]

theorem replays_zIncrBy (hR : FloatLaws env.R)
    (hrec : ∀ incr, env.R.parseFloat (arg rest 2) = some incr →
      ZIncrRecorded env.R ((e.purged env.now).zsets.getD .empty) incr (arg rest 3)) :
    Replays number env e (Cmd.zIncrBy.run env word rest ⟨e, 0⟩) := by
  refine .attempt (fun incr hparse => .logging (zIncrBy_checked _ _).untouched
    (fun score hok => ?_))
  obtain ⟨hnum, hcell⟩ := zIncrBy_replays (hrec incr (parseFloat64_eq_ok hparse)) hok
  rw [hcell]
  refine foldlM_one ?_
  exact replayKey_zAdd hR (cons_ne_nil (⟨arg rest 3, score⟩ : ZMember) []) (by simpa using hnum)

/-! ## Positions and cardinality estimates -/

/-- When the `ZADD` record of `GEOADD` holds the scores: they are numbers. -/
def GeoRecorded (R : Runtime) (args : List Bytes) : Prop :=
  ∀ members, parseGeoMembers R args = .ok members →
    ∀ m ∈ geoMembers R members, m.score.isNaN = false

theorem parseGeoMembers_ne_nil {args : List Bytes}
    {members : List (Bytes × F64 × F64)} (hn : 3 ≤ args.length)
    (h : parseGeoMembers R args = .ok members) : members ≠ [] := by
  match args, hn with
  | lon :: lat :: name :: rest, _ =>
    unfold parseGeoMembers at h
    split at h
    · cases h
    · cases h
    · cases hrest : parseGeoMembers R rest with
      | error err =>
        rw [hrest] at h
        cases h
      | ok more =>
        rw [hrest] at h
        cases h
        exact cons_ne_nil _ _

theorem replays_geoAdd (hR : FloatLaws env.R) (hn : 5 ≤ rest.length + 2)
    (hrec : GeoRecorded env.R rest) :
    Replays number env e (Cmd.geoAdd.run env word rest ⟨e, 0⟩) := by
  show Replays number env e (if rest.length % 3 ≠ 0 then
      .fail ⟨e, 0⟩ (wrongArgs (bytes "GEOADD"))
    else .attempt ⟨e, 0⟩ (parseGeoMembers env.R rest) (fun members =>
      .logged env.R (bytes "ZADD", (geoMembers env.R members).flatMap
          (fun m => [env.R.formatFloat m.score, m.member]))
        (zAdd env.now (geoMembers env.R members) ⟨e, 0⟩) (fun n => [.int n])))
  split
  · exact .fail _
  · refine .attempt (fun members hparse => .logged (replayKey_zAdd hR ?_ (hrec members hparse)))
    have hne := parseGeoMembers_ne_nil (by omega) hparse
    exact fun hnil => hne (map_eq_nil_iff.mp hnil)

end

end Vole.Server
