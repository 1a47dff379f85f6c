import Vole.Store.SortedRuns
import Vole.Server.Http

/-!
# Scores that are not numbers

`strconv.ParseFloat` reads `nan`, and `ZINCRBY` adds infinities of opposite sign. Either puts a
score into a sorted set that compares with nothing; `removeOrdered` then misses the member, and the
ordered slice and the score map go apart. Where no command gives `nan`, and none adds an infinity
to the opposite one, they hold the same members.
-/

namespace Vole.Server

open Go Cmd

/-! ## Texts and sums -/

/-- Infinities whose sum is NaN. -/
def Opposite (x y : F64) : Prop :=
  x = F64.posInf ∧ y = F64.negInf ∨ x = F64.negInf ∧ y = F64.posInf

/-- The arithmetic of `float64`. -/
structure ScoreLaws (R : Runtime) : Prop where
  sum : ∀ x y : F64, x.isNaN = false → y.isNaN = false → ¬ Opposite x y →
    (R.addFloat x y).isNaN = false
  ofInt : ∀ n, (R.floatOfInt n).isNaN = false

/-- The commands that write scores. -/
def KeyWord.scores : KeyWord → Bool
  | .zAdd | .zIncrBy | .geoAdd => true
  | _ => false

/-- No text of a score reads as NaN, and an increment is not the infinity opposite to the score
that the member has. -/
def KeyWord.Comparable (R : Runtime) (now : Time) (args : List Bytes) (s : Store) : KeyWord → Prop
  | .zAdd => ∀ p ∈ pairUp (args.drop 2), ∀ x, R.parseFloat p.1 = some x → x.isNaN = false
  | .zIncrBy => ∀ incr, R.parseFloat (args.getD 2 []) = some incr → incr.isNaN = false ∧
      ∀ z score, ((s.entries (args.getD 1 [])).purged now).zsets = some z →
        z.score (args.getD 3 []) = some score → ¬ Opposite score incr
  | _ => True

/-- The stores reached by commands that write scores, by `PUT` of a sorted set over HTTP and by
any other operation, where the texts and increments of the commands are comparable. -/
inductive ScoreReach (R : Runtime) : Store → Prop where
  | new : ScoreReach R Store.new
  | command {st : State} (env : Env) (args : List Bytes) (w : KeyWord)
      (reached : ScoreReach R st.store) (runtime : env.R = R)
      (word : Word.ofArgs args = some (.key w)) (writes : w.scores = true)
      (comparable : w.Comparable R env.now args st.store) :
      ScoreReach R (exec env args st).2.store
  | http {s : Store} (now : Time) (key : Bytes) (members : List ZMember)
      (reached : ScoreReach R s) (decoded : (HttpWrite.zsetAdd key members).Decoded) :
      ScoreReach R ((HttpWrite.zsetAdd key members).effect now s)
  | other {s : Store} (now : Time) (op : Op) (reached : ScoreReach R s)
      (noLoad : op.isLoad = false) (noScores : op.scores = false) :
      ScoreReach R (op.apply R now s)
  | load {s t : Store} (now then_ : Time) (hint hint' : List Bytes) (reached : ScoreReach R s)
      (dumped : ScoreReach R t) : ScoreReach R (s.load R now hint (t.dump R then_ hint').1)

/-! ## One command -/

section
variable {R : Runtime} {env : KeyEnv} {word : Bytes} {rest : List Bytes} {c : Cell}

theorem parseMembers_mem {pairs : List (Bytes × Bytes)} {members : List ZMember}
    (h : parseMembers R pairs = .ok members) {m : ZMember} (hm : m ∈ members) :
    ∃ p ∈ pairs, R.parseFloat p.1 = some m.score := by
  induction pairs generalizing members with
  | nil =>
    cases h
    cases hm
  | cons p pairs ih =>
    rw [parseMembers] at h
    cases hscore : parseFloat64 R p.1 with
    | error e =>
      rw [hscore] at h
      cases h
    | ok x =>
      rw [hscore] at h
      cases hrest : parseMembers R pairs with
      | error e =>
        rw [hrest] at h
        cases h
      | ok tail =>
        rw [hrest] at h
        cases h
        rcases List.mem_cons.mp hm with rfl | hm
        · exact ⟨p, (.head _), parseFloat64_eq_ok hscore⟩
        · obtain ⟨q, hq, hparse⟩ := ih hrest hm
          exact ⟨q, .tail _ hq, hparse⟩

theorem zSound_zAdd (h : ZSound c.toEntry)
    (hrest : ∀ p ∈ pairUp rest, ∀ x, env.R.parseFloat p.1 = some x → x.isNaN = false) :
    ZSound (Cmd.zAdd.run env word rest c).cell.toEntry := by
  dsimp only [Cmd.zAdd, KeyCmd.of]
  cases hparse : parseMembers env.R (pairUp rest) with
  | error e => exact h
  | ok members =>
    dsimp only [Outcome.attempt, addGuard]
    split
    · exact h
    · refine h.zAdd fun m hm => ?_
      obtain ⟨p, hp, hscore⟩ := parseMembers_mem hparse hm
      exact hrest p hp _ hscore

theorem zSound_zIncrBy (hR : ScoreLaws env.R) (h : ZSound c.toEntry)
    (hincr : ∀ incr, env.R.parseFloat (arg rest 2) = some incr → incr.isNaN = false ∧
      ∀ z score, (c.toEntry.purged env.now).zsets = some z →
        z.score (arg rest 3) = some score → ¬ Opposite score incr) :
    ZSound (Cmd.zIncrBy.run env word rest c).cell.toEntry := by
  dsimp only [Cmd.zIncrBy, KeyCmd.of]
  cases hparse : parseFloat64 env.R (arg rest 2) with
  | error e => exact h
  | ok incr =>
    obtain ⟨hnumber, hopposite⟩ := hincr incr (parseFloat64_eq_ok hparse)
    have hzero : (env.R.addFloat F64.zero incr).isNaN = false := by
      refine hR.sum _ _ (by decide) hnumber ?_
      rintro (⟨hinf, -⟩ | ⟨hinf, -⟩) <;> cases hinf
    have hsum : ((c.purge env.now).toEntry.incremented env.R incr (arg rest 3)).isNaN = false := by
      rw [Cell.purge_toEntry]
      unfold Entry.incremented
      cases hz : (c.toEntry.purged env.now).zsets with
      | none => exact hzero
      | some z =>
        show (env.R.addFloat ((z.score (arg rest 3)).getD F64.zero) incr).isNaN = false
        cases hscore : z.score (arg rest 3) with
        | none => exact hzero
        | some score =>
          refine hR.sum _ _ ?_ hnumber (hopposite z score hz hscore)
          have hsound := h.purged env.now z hz
          exact hsound.number _ (hsound.covered _ _ hscore)
    have hcell : ZSound (c.zIncrBy env.R env.now incr (arg rest 3)).2.toEntry := h.zIncrBy hsum
    dsimp only [Outcome.attempt, Outcome.logging]
    split
    · exact hcell
    · exact hcell

theorem zSound_geoAdd (hR : ScoreLaws env.R) (h : ZSound c.toEntry) :
    ZSound (Cmd.geoAdd.run env word rest c).cell.toEntry := by
  dsimp only [Cmd.geoAdd, KeyCmd.of]
  split
  · exact h
  cases parseGeoMembers env.R rest with
  | error e => exact h
  | ok members =>
    refine h.zAdd fun m hm => ?_
    obtain ⟨p, -, rfl⟩ := List.mem_map.mp hm
    exact hR.ofInt _

end

/-! ## Runs -/

theorem zSound_exec {env : Env} (hR : ScoreLaws env.R) {args : List Bytes} {w : KeyWord}
    {s : Store} (hw : w.scores = true) (hcmp : w.Comparable env.R env.now args s)
    (h : ∀ k, ZSound (s.entries k)) : ∀ k, ZSound ((w.cmd.exec env args s).store.entries k) := by
  rcases w.cmd.exec_cases env args s with ⟨word, key, rest, rfl, -, -, -, hexec⟩ | ⟨_, hexec, -⟩
  · rw [hexec]
    refine put_zSound h ?_
    cases w
    case zAdd => exact zSound_zAdd (h key) hcmp
    case zIncrBy => exact zSound_zIncrBy hR (h key) hcmp
    case geoAdd => exact zSound_geoAdd hR (h key)
    all_goals cases hw
  · rw [hexec]
    exact h

theorem ScoreReach.zSound {R : Runtime} (hR : ScoreLaws R) {s : Store} (h : ScoreReach R s) :
    ∀ k, ZSound (s.entries k) := by
  induction h with
  | new => exact fun _ => .empty
  | command env args w _ runtime word writes comparable ih =>
    subst runtime
    rw [exec_of_word word (fun h => nomatch h) (fun h => nomatch h)]
    exact zSound_exec hR writes comparable ih
  | http now key members _ decoded ih => exact put_zSound ih ((ih key).zAdd decoded.2)
  | other now op _ noLoad noScores ih =>
    exact Op.apply_zSound noLoad (Op.numeric_of_scores noScores) ih
  | load now then_ hint hint' _ _ _ ih => exact load_dump_zSound ih _ then_ hint hint'

/-- **Scores are comparable.** In every store so reached no score of a sorted set is NaN, and its
ordered slice and its score map hold the same members. -/
theorem scores_comparable {R : Runtime} (hR : ScoreLaws R) {s : Store} (h : ScoreReach R s)
    {key : Bytes} {z : SortedSet} (hz : (s.entries key).zsets = some z) :
    (∀ member score, z.score member = some score → score.isNaN = false) ∧
    (∀ m ∈ z.ordered, m.score.isNaN = false) ∧
    ∀ member, (z.score member).isSome = true ↔ ∃ m ∈ z.ordered, m.member = member := by
  have hsound := h.zSound hR key z hz
  refine ⟨fun member score hscore => hsound.number _ (hsound.covered _ _ hscore),
    hsound.number, fun member => ⟨fun hsome => ?_, ?_⟩⟩
  · obtain ⟨score, hscore⟩ := Option.isSome_iff_exists.mp hsome
    exact ⟨_, hsound.covered _ _ hscore, rfl⟩
  · rintro ⟨m, hm, rfl⟩
    exact Option.isSome_iff_exists.mpr ⟨_, hsound.scores m hm⟩

/-- The special values of `float64`, with what `ParseFloat` and `+` make of them. -/
def specialFloats : Runtime :=
  { (default : Runtime) with
    parseFloat := fun text =>
      if text = bytes "nan" then some ⟨0x7FF8000000000001⟩
      else if text = bytes "inf" then some F64.posInf
      else if text = bytes "-inf" then some F64.negInf
      else if text = bytes "1" then some ⟨0x3FF0000000000000⟩
      else none
    addFloat := fun x y =>
      if x = F64.posInf ∧ y = F64.negInf ∨ x = F64.negInf ∧ y = F64.posInf then
        ⟨0x7FF8000000000001⟩
      else if y = F64.posInf ∨ y = F64.negInf then y
      else x
    floatOfInt := fun _ => F64.zero }

theorem specialFloats_laws : ScoreLaws specialFloats where
  sum x y hx hy hxy := by
    have hsum : specialFloats.addFloat x y = if y = F64.posInf ∨ y = F64.negInf then y else x :=
      if_neg hxy
    rw [hsum]
    split
    · exact hy
    · exact hx
  ofInt _ := by
    show F64.zero.isNaN = false
    decide

/-- The server after these commands. -/
def afterWords (commands : List (List String)) : State :=
  commands.foldl (fun st args => (exec (Env.plain specialFloats 1) (args.map bytes) st).2) .new

/-- The sorted set `z` of a server. -/
def sortedZ (st : State) : SortedSet := (st.store.entries (bytes "z")).zsets.getD .empty

/-- `ZADD z inf a 1 b` -/
theorem scores_comparable_infinite :
    ∃ z, ((afterWords [["ZADD", "z", "inf", "a", "1", "b"]]).store.entries (bytes "z")).zsets
        = some z ∧ z.score (bytes "a") = some F64.posInf ∧
      ∀ member, (z.score member).isSome = true ↔ ∃ m ∈ z.ordered, m.member = member := by
  have hcmp : KeyWord.zAdd.Comparable specialFloats 1
      (["ZADD", "z", "inf", "a", "1", "b"].map bytes) State.new.store := by
    show ∀ p ∈ pairUp (["inf", "a", "1", "b"].map bytes), _
    decide
  have hreach : ScoreReach specialFloats (afterWords [["ZADD", "z", "inf", "a", "1", "b"]]).store :=
    @ScoreReach.command specialFloats .new (Env.plain specialFloats 1) _ .zAdd .new rfl rfl rfl hcmp
  have hscore : ((afterWords [["ZADD", "z", "inf", "a", "1", "b"]]).store.entries
      (bytes "z")).zsets.bind (·.score (bytes "a")) = some F64.posInf := by decide +kernel
  obtain ⟨z, hz, hscore⟩ := Option.bind_eq_some_iff.mp hscore
  exact ⟨z, hz, hscore, (scores_comparable specialFloats_laws hreach hz).2.2⟩

/-- `ZADD z nan a 1 b` stores NaN, and after `ZREM z a` the slice still has the member. Adding the
infinities one after the other with `ZINCRBY` stores NaN as well. -/
theorem nan_scores :
    ((sortedZ (afterWords [["ZADD", "z", "nan", "a", "1", "b"]])).score (bytes "a")).any F64.isNaN
        = true ∧
    (sortedZ (afterWords [["ZADD", "z", "nan", "a", "1", "b"], ["ZREM", "z", "a"]])).score
        (bytes "a") = none ∧
    (∃ m ∈ (sortedZ (afterWords [["ZADD", "z", "nan", "a", "1", "b"], ["ZREM", "z", "a"]])).ordered,
      m.member = bytes "a") ∧
    ((sortedZ (afterWords [["ZINCRBY", "z", "inf", "a"], ["ZINCRBY", "z", "-inf", "a"]])).score
        (bytes "a")).any F64.isNaN = true := by
  decide +kernel

end Vole.Server
