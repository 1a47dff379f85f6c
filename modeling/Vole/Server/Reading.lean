import Vole.Server.Exec

/-!
# Commands that only read

Which cases of `exec` cannot change the store, whatever they find, and that they log nothing.
-/

namespace Vole.Server

open Go

/-! ## On one key -/

/-- The command left its key alone and logged nothing. -/
structure Still (c : Cell) (o : Outcome) : Prop where
  cell : o.cell = c
  log : o.log = []

namespace Still

variable {c : Cell}

theorem answer (reply : Reply) : Still c (.answer c reply) := ⟨rfl, rfl⟩

theorem fail (err : Bytes) : Still c (.fail c err) := ⟨rfl, rfl⟩

theorem query {α : Type} (R : Runtime) (r : Except Err α) (out : α → List Out) :
    Still c (.query R c r out) := ⟨rfl, rfl⟩

theorem attempt {α : Type} {p : Except Bytes α} {k : α → Outcome} (h : ∀ a, Still c (k a)) :
    Still c (.attempt c p k) :=
  Outcome.attempt_elim fail (fun a _ => h a)

theorem ite {p : Prop} [Decidable p] {o o' : Outcome} (h : Still c o) (h' : Still c o') :
    Still c (if p then o else o') := by
  split
  · exact h
  · exact h'

end Still

/-- The words whose case only reads its key. -/
def KeyWord.reads : KeyWord → Bool
  | .get | .type | .ttl | .pttl | .hGet | .hGetAll | .lRange | .lIndex | .lPos | .sMembers
  | .sIsMember | .sCard | .sRandMember | .zRange | .zScore | .zCard | .xRange | .dump | .strlen
  | .getBit | .bitCount | .bitPos | .lLen | .hLen | .hExists | .zRangeByScore | .zRevRange
  | .zRank | .zRevRank | .zCount | .zRangeByLex | .geoPos | .geoDist | .geoSearch | .xLen
  | .getRange | .substr | .expireTime | .pExpireTime | .hVals | .hKeys | .hRandField
  | .rateLimitPeek | .qPeek | .qLen | .qInfo | .qDead | .jsonGet | .jsonType | .jsonArrLen
  | .jsonKeys | .tagGet | .tsRange | .tsGet | .tsInfo | .xPending => true
  | _ => false

/-- **A reading command leaves its key as it is and logs nothing.** -/
theorem KeyWord.still {w : KeyWord} (h : w.reads = true) (env : KeyEnv) (word : Bytes)
    (rest : List Bytes) (c : Cell) : Still c (w.cmd.run env word rest c) := by
  cases w
  -- the words whose case answers at once
  case get | type | ttl | pttl | dump | expireTime | pExpireTime | rateLimitPeek | geoPos |
      geoDist | qPeek | qLen | qInfo | qDead | tsRange | tsGet => exact .answer _
  case hGet | hGetAll | lPos | sMembers | sIsMember | sCard | zScore | zCard | strlen | lLen |
      hLen | hExists | zRank | zRevRank | xLen | hVals | hKeys | jsonGet | jsonType |
      jsonArrLen | jsonKeys | tsInfo => exact .query _ _ _
  -- those that read numbers first
  case lIndex | sRandMember | getBit | zCount | zRangeByLex | hRandField | geoSearch =>
    exact .attempt (fun _ => .query _ _ _)
  case lRange | zRangeByScore | getRange | substr =>
    exact .attempt (fun _ => .attempt (fun _ => .query _ _ _))
  case bitPos => exact .attempt (fun _ => .attempt (fun _ => .attempt (fun _ => .query _ _ _)))
  case zRange | zRevRange =>
    exact .attempt (fun _ => .attempt (fun _ => .ite (.fail _) (.query _ _ _)))
  case xRange =>
    exact .ite (.ite (.fail _) (.attempt (fun _ => .answer _))) (.answer _)
  case bitCount =>
    exact .ite (.attempt (fun _ => .attempt (fun _ => .query _ _ _))) (.query _ _ _)
  case tagGet =>
    show Still c (Cmd.tagGet.run env word rest c)
    dsimp only [Cmd.tagGet, KeyCmd.of]
    split <;> exact .answer _
  case xPending => exact .ite (.answer _) (.answer _)
  all_goals cases h

/-! ## On several keys -/

/-- The command left the store alone and logged nothing. -/
structure StillStore (s : Store) (r : Result) : Prop where
  store : r.store = s
  log : r.log = []

namespace StillStore

variable {s : Store}

theorem answer (reply : Reply) : StillStore s (.answer s reply) := ⟨rfl, rfl⟩

theorem fail (err : Bytes) : StillStore s (.fail s err) := ⟨rfl, rfl⟩

theorem reading {α : Type} (R : Runtime) (r : Except Err α) (out : α → List Out) :
    StillStore s (Cmd.reading R s r out) := ⟨rfl, rfl⟩

theorem attempt {α : Type} {p : Except Bytes α} {k : α → Result} (h : ∀ a, StillStore s (k a)) :
    StillStore s (.attempt s p k) :=
  Result.attempt_elim fail (fun a _ => h a)

theorem ite {p : Prop} [Decidable p] {r r' : Result} (h : StillStore s r)
    (h' : StillStore s r') : StillStore s (if p then r else r') := by
  split
  · exact h
  · exact h'

theorem owned {env : Env} {keys : List Bytes} {r : Result} (h : StillStore s r) :
    StillStore s (.owned env keys s r) :=
  Result.owned_elim answer h

end StillStore

/-- The words whose case only reads the store. -/
def StoreWord.reads : StoreWord → Bool
  | .mGet | .exists_ | .touch | .keys | .scan | .dbSize | .randomKey | .object | .memory
  | .hSearch | .tagQuery | .sInter | .sUnion | .sDiff | .sInterCard | .pfCount | .xRead
  | .xInfo => true
  | _ => false

/-- **A reading command leaves the store as it is and logs nothing.** -/
theorem StoreWord.still {w : StoreWord} (h : w.reads = true) (env : Env) (args : List Bytes)
    (s : Store) : StillStore s (w.cmd env args s) := by
  cases w
  -- the first branch is that of the wrong number of arguments
  case mGet | exists_ | touch | pfCount =>
    refine .ite (.fail _) ?_
    exact .owned (.answer _)
  case keys | dbSize | randomKey | tagQuery =>
    refine .ite (.fail _) ?_
    exact .answer _
  case sInter | sUnion | sDiff =>
    refine .ite (.fail _) ?_
    exact .owned (.reading _ _ _)
  case scan =>
    refine .ite (.fail _) ?_
    exact .attempt (fun _ => .attempt (fun _ => .reading _ _ _))
  case object =>
    refine .ite (.fail _) ?_
    exact .ite (.ite (.fail _) (.ite (.answer _) (.ite (.answer _) (.answer _))))
      (.ite (.answer _) (.fail _))
  case memory =>
    refine .ite (.fail _) ?_
    exact .ite (.ite (.fail _) (.ite (.answer _) (.answer _)))
      (.ite (.answer _) (.ite (.answer _) (.fail _)))
  case hSearch =>
    refine .ite (.fail _) ?_
    exact .ite (.fail _) (.attempt (fun _ => .answer _))
  case sInterCard =>
    refine .ite (.fail _) ?_
    exact .attempt (fun _ => .ite (.fail _) (.ite (.fail _) (.owned (.reading _ _ _))))
  case xRead => exact .attempt (fun _ => .owned (.ite (.answer _) (.answer _)))
  case xInfo =>
    refine .ite (.fail _) ?_
    exact .owned (.ite (.ite (.fail _) (.answer _)) (.ite (.answer _) (.fail _)))
  all_goals cases h

end Vole.Server
