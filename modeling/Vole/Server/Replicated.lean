import Vole.Server.Recovery
import Vole.Server.Propagation
import Vole.Store.KeySpace

/-!
# What a follower makes of a propagated command

The leader hands its followers the words of the client, whether or not they are the words of
the record it logged. `applyReplicatedCommand` then runs an operation of its own table with
them. For each word that its table has: when that operation, on the entry as it was, does what
the command did, and that a command that fails, which is not handed on, left its key alone.
-/

namespace Vole.Server

open Go Cmd KeyRecordWord

/-! ## Commands on one key -/

/-- If a command succeeds, the operation that a follower runs with its words does to the entry
what the command did. If it fails, it left the entry as it was. -/
structure Follows (env : KeyEnv) (e : Entry) (w : KeyRecordWord) (rest : List Bytes)
    (o : Outcome) : Prop where
  sent : o.reply.isOk = true →
    (w.run parseIntValue env.R env.now rest ⟨e, 0⟩).toEntry = o.cell.toEntry
  kept : o.reply.isOk = false → o.cell.toEntry = e

section
variable {env : KeyEnv} {e : Entry} {w : KeyRecordWord} {word : Bytes} {rest : List Bytes}

namespace Follows

theorem fail (err : Bytes) : Follows env e w rest (.fail ⟨e, 0⟩ err) :=
  ⟨nofun, fun _ => rfl⟩

theorem attempt {α : Type} {p : Except Bytes α} {k : α → Outcome}
    (h : ∀ a, p = .ok a → Follows env e w rest (k a)) :
    Follows env e w rest (.attempt ⟨e, 0⟩ p k) :=
  Outcome.attempt_elim fail h

theorem always {o : Outcome} (hok : o.reply.isOk = true)
    (h : (w.run parseIntValue env.R env.now rest ⟨e, 0⟩).toEntry = o.cell.toEntry) :
    Follows env e w rest o :=
  ⟨fun _ => h, fun herr => absurd (hok.symm.trans herr) (by decide)⟩

theorem answer {reply : Reply} (h : (w.run parseIntValue env.R env.now rest ⟨e, 0⟩).toEntry = e) :
    Follows env e w rest (.answer ⟨e, 0⟩ reply) :=
  ⟨fun _ => h, fun _ => rfl⟩

theorem logged {α : Type} {r : Except Err α × Cell} {record : KeyRecord} {out : α → List Out}
    (hkept : Untouched e r)
    (h : (w.run parseIntValue env.R env.now rest ⟨e, 0⟩).toEntry = r.2.toEntry) :
    Follows env e w rest (.logged env.R record r out) := by
  refine ⟨fun _ => h, fun herr => ?_⟩
  obtain ⟨a, c⟩ := r
  cases a with
  | error err => exact hkept err rfl
  | ok a => exact absurd herr.symm Bool.false_ne_true

theorem logging {α : Type} {r : Except Err α × Cell} {out : α → List Out}
    {records : α → List KeyRecord} (hkept : Untouched e r)
    (h : (w.run parseIntValue env.R env.now rest ⟨e, 0⟩).toEntry = r.2.toEntry) :
    Follows env e w rest (.logging env.R r out records) := by
  obtain ⟨a, c⟩ := r
  cases a with
  | error err => exact ⟨nofun, fun _ => hkept err rfl⟩
  | ok a => exact ⟨fun _ => h, fun herr => absurd herr.symm Bool.false_ne_true⟩

theorem of_echoes {safe gone : Prop} {o : Outcome}
    (h : Echoes safe gone w parseIntValue env e word rest o) (hsafe : safe)
    (hgone : gone → (w.run parseIntValue env.R env.now rest ⟨e, 0⟩).toEntry = e) :
    Follows env e w rest o := by
  cases h with
  | fail err => exact fail err
  | absent h reply => exact answer (hgone h)
  | logged _ hrun hkept => exact ⟨fun _ => hrun, hkept hsafe⟩

end Follows

/-! ## Keys that are plainly there or not -/

/-- The key has neither run out nor is it waiting for its delay. -/
structure Shown (now : Time) (e : Entry) : Prop where
  fresh : e.expired now = false
  visible : e.visible now = true

theorem Shown.toData_of_type_none {now : Time} (h : Shown now e)
    (htype : e.type now = bytes "none") : e.toData = Data.empty := by
  obtain ⟨⟨⟩⟩ := e
  unfold Entry.type at htype
  rw [h.fresh, h.visible, if_neg (by decide)] at htype
  -- each type map that held the key would have given its name
  iterate 9
    split at htype
    · cases htype
  simp only [Bool.not_eq_true, Option.isSome_eq_false_iff, Option.isNone_iff_eq_none] at *
  subst_vars
  rfl

/-- The records that take something out of a key. -/
def KeyRecordWord.takes (w : KeyRecordWord) : Bool := w ∈ [.hDel, .lPop, .rPop, .sRem, .zRem]

theorem Shown.run_takes (h : Shown env.now e) (hw : w.takes = true)
    (htype : e.type env.now = bytes "none") :
    (w.run parseIntValue env.R env.now rest ⟨e, 0⟩).toEntry = e := by
  have hexp : ¬ (Cell.mk e 0).expired env.now = true := by simp [h.fresh]
  have hdata := h.toData_of_type_none htype
  have hconf : ∀ t, ¬ (Cell.mk e 0).conflicts t = true := by
    intro t
    rw [show (Cell.mk e 0).toData = Data.empty from hdata]
    cases t <;> decide
  have hpop : ∀ left, (Cell.popList env.now left ⟨e, 0⟩).2 = ⟨e, 0⟩ := by
    intro left
    have hnone : e.lists = none := by rw [hdata]; rfl
    unfold Cell.popList
    rw [if_neg hexp, if_neg (hconf _), hnone]
    cases left <;> rfl
  cases w
  case hDel =>
    have hnone : e.hashes = none := by rw [hdata]; rfl
    simp only [run, Cell.hDel]
    rw [if_neg hexp, if_neg (hconf _), hnone, ite_self]
  case lPop => simp only [run, hpop, ite_self]
  case rPop => simp only [run, hpop, ite_self]
  case sRem =>
    have hnone : e.sets = none := by rw [hdata]; rfl
    simp only [run, Cell.sRem]
    rw [if_neg hexp, if_neg (hconf _), hnone]
    exact congrArg Cell.toEntry (ite_self _)
  case zRem =>
    have hnone : e.zsets = none := by rw [hdata]; rfl
    simp only [run, Cell.zRem]
    rw [if_neg hexp, if_neg (hconf _), hnone, ite_self]
  all_goals cases hw

/-! ## Strings and expiry -/

/-- When a follower reads `SET` as the leader does: it finds the same time to live where it
looks for one, there is no delay, and the key is such that a conditional `SET` sets it. -/
structure SetFollowed (now : Time) (rest : List Bytes) (o : SetOptions) (e : Entry) : Prop where
  ttl : recordTTL parseIntValue rest = o.ttl
  delay : ¬ 0 < o.delay
  useNX : o.useNX = true →
    Unset now e ∧ (0 < o.ttl ∨ e.expires = none) ∧ e.existsAt now = false
  useXX : o.useXX = true → e.existsAt now = true

theorem set_toEntry {now : Time} (value : Bytes) (ttl : Duration) :
    (Cell.set now value ttl ⟨e, 0⟩).toEntry = e.asString value (deadline now ttl) := by
  unfold Cell.set deadline
  split <;> rfl

theorem follows_set (hnow : 0 ≤ env.now) (hn : 3 ≤ rest.length + 2)
    (hfol : ∀ o, setOptions env.R rest = .ok o → SetFollowed env.now rest o e) :
    Follows env e .set rest (Cmd.set.run env word rest ⟨e, 0⟩) := by
  refine .attempt (fun o ho => ?_)
  obtain ⟨httl, hdelay, hnx, hxx⟩ := hfol o ho
  have hrun : (set.run parseIntValue env.R env.now rest ⟨e, 0⟩).toEntry
      = e.asString (arg rest 2) (deadline env.now o.ttl) := by
    simp only [run, if_pos hn, httl, set_toEntry]
  unfold setRun
  rw [if_neg hdelay]
  by_cases hNX : o.useNX = true
  · obtain ⟨hset, hexp, hnot⟩ := hnx hNX
    have hwrote := setNX_unset (arg rest 2) hset hexp hnot
    rw [if_pos hNX, hwrote.eq]
    exact .always rfl (hrun.trans hwrote.2.symm)
  rw [if_neg hNX]
  by_cases hXX : o.useXX = true
  · have hwrote := setXX_exists (arg rest 2) o.ttl (hxx hXX)
    rw [if_pos hXX, hwrote.eq]
    exact .always rfl (hrun.trans hwrote.2.symm)
  · rw [if_neg hXX]
    exact .always rfl (hrun.trans (setAbsolute_expiryAfter hnow _).symm)

theorem isZero_later {now d : Int} (hnow : 0 ≤ now) (hd : Int64Range d) :
    isZero (now + d) = false :=
  decide_eq_false (fun heq : now + d = -62135596800 * 1000000000 => by
    obtain ⟨hlo, -⟩ := hd
    omega)

theorem expire_toEntry {now d : Int} (hnow : 0 ≤ now) (hd : Int64Range d)
    (hfresh : e.expired now = false) :
    (Cell.expire now d ⟨e, 0⟩).2.toEntry = (Cell.expireAt now (now + d) ⟨e, 0⟩).2.toEntry := by
  have hexp : ¬ (Cell.mk e 0).expired now = true := by simp [hfresh]
  unfold Cell.expire Cell.expireAt
  split
  · rfl
  · rw [isZero_later hnow hd]
    rfl

theorem follows_expire (hnow : 0 ≤ env.now) (hn : rest.length + 2 = 3)
    (hfresh : e.expired env.now = false) (hsame : SameNumber (arg rest 2)) :
    Follows env e .expire rest (Cmd.expire.run env word rest ⟨e, 0⟩) := by
  refine .attempt (fun n hparse => ?_)
  have hrun : (expire.run parseIntValue env.R env.now rest ⟨e, 0⟩).toEntry
      = (Cell.expireAt env.now (env.now + duration n second) ⟨e, 0⟩).2.toEntry := by
    simp only [run, if_pos hn, hsame n (parseInt64_eq_ok hparse)]
    exact expire_toEntry hnow (wrap64_range _) hfresh
  split
  · -- the key does not exist, so neither side finds it
    rename_i httl
    refine .answer (hrun.trans ?_)
    have hnot : e.existsAt env.now = false := by
      cases hex : e.existsAt env.now with
      | false => rfl
      | true => exact absurd httl (Entry.ttl_ne_iff.mpr hex)
    unfold Cell.expireAt
    rw [if_neg (by simp [hfresh]), if_pos (by simp [hnot])]
  · exact .always rfl hrun

/-! ## Collections -/

theorem follows_hSet (hn : 4 ≤ rest.length + 2 ∧ (rest.length + 2) % 2 = 0) :
    Follows env e .hSet rest (Cmd.hSet.run env word rest ⟨e, 0⟩) := by
  dsimp only [Cmd.hSet, KeyCmd.of]
  split
  · exact .fail _
  · exact Cmd.addGuard_elim .fail
      (.logged (Cell.hSet_checked _).untouched (by simp only [run, if_pos hn]))

/-! ## Streams, documents, series, tags and queues -/

theorem follows_xAdd (hn : 5 ≤ rest.length + 2) (hrec : XAddRecorded env.now rest e) :
    Follows env e .xAdd rest (Cmd.xAdd.run env word rest ⟨e, 0⟩) := by
  have hpurge : Cell.purge ⟨e, 0⟩ env.now = ⟨e, 0⟩ := Cell.purge_of_fresh hrec.fresh
  dsimp only [Cmd.xAdd, KeyCmd.of]
  have hrun : (xAdd.run parseIntValue env.R env.now rest ⟨e, 0⟩).toEntry
      = (Cell.xAdd env.now (arg rest 2) (rest.drop 1) ⟨e, 0⟩).2.toEntry := by
    simp only [run, if_pos hn]
  unfold Cell.nextStreamID
  rw [hpurge]
  by_cases hconf : (Cell.mk e 0).streamConflicts = true
  · rw [if_pos hconf]
    exact .fail _
  rw [if_neg hconf]
  rcases prepareStreamID_cases (fun hstar _ => hrec.room hstar) with ⟨err, h⟩ | ⟨id, h, hgt, -⟩
  · rw [h]
    exact .fail _
  · rw [h]
    dsimp only
    have hfollower : Cell.xAdd env.now (arg rest 2) (rest.drop 1) ⟨e, 0⟩ = (.ok id,
        Cell.addStreamEntry id (rest.drop 1) ⟨{ e with lastSeq := some (parseID id).2 }, 0⟩) := by
      unfold Cell.xAdd
      rw [if_neg (hrec.fields hn), hpurge]
      rw [if_neg hconf, h]
    rw [hrec.prepared hn hgt]
    exact .logged (.ok _ _) (by rw [hrun, hfollower])

end

/-- When the operation of a follower does what the command did, given the arguments after the
key and what the key holds. The words that change their key and are not listed never qualify:
either they are not handed on, or the follower does not know them. -/
def KeyWord.Followed (env : KeyEnv) (rest : List Bytes) (e : Entry) : KeyWord → Prop
  | .set => ∀ o, setOptions env.R rest = .ok o → SetFollowed env.now rest o e
  | .incrBy | .decrBy | .tsAdd => SameNumber (arg rest 2)
  | .hIncrBy => SameNumber (arg rest 3)
  | .setDelayed => SameNumber (arg rest 3) ∧ (6 ≤ rest.length + 2 → SameNumber (arg rest 5))
  | .expire => e.expired env.now = false ∧ SameNumber (arg rest 2)
  | .hDel | .lPop | .rPop | .sRem | .zRem => Shown env.now e
  | .lSet | .jsonSet | .jsonNumIncrBy | .jsonArrAppend | .tag => e.expired env.now = false
  | .xAdd => XAddRecorded env.now rest e
  | .incr | .decr | .incrByFloat | .append | .hSet | .lInsert | .sAdd | .zAdd | .xAck | .pfAdd
  | .jsonDel | .tagDel | .qAck | .qNack => True
  | _ => False

/-- **A follower that runs the words of a command on one key does what the command did.** -/
theorem KeyWord.follows {w : KeyWord} {env : KeyEnv} {rest : List Bytes} {e : Entry} (word : Bytes)
    (hR : FloatLaws env.R) (hnow : 0 ≤ env.now) (harity : w.cmd.arity (rest.length + 2) = true)
    (hfol : w.Followed env rest e) :
    ∃ rw : KeyRecordWord, rw ≠ .lRem ∧ RecordWord.text (.key rw) = w.text ∧
      Follows env e rw rest (w.cmd.run env word rest ⟨e, 0⟩) := by
  cases w
  all_goals try replace harity := of_decide_eq_true harity
  case set => exact ⟨.set, by decide, rfl, follows_set hnow harity hfol⟩
  case incr => exact ⟨.incr, by decide, rfl, .of_echoes (echoes_incr harity) trivial nofun⟩
  case incrBy =>
    exact ⟨.incrBy, by decide, rfl, .of_echoes (echoes_incrBy harity hfol) trivial nofun⟩
  case decrBy =>
    exact ⟨.decrBy, by decide, rfl, .of_echoes (echoes_decrBy harity hfol) trivial nofun⟩
  case decr => exact ⟨.decr, by decide, rfl, .of_echoes (echoes_decr harity) trivial nofun⟩
  case incrByFloat =>
    exact ⟨.incrByFloat, by decide, rfl, .of_echoes (echoes_incrByFloat hR harity) trivial nofun⟩
  case expire => exact ⟨.expire, by decide, rfl, follows_expire hnow harity hfol.1 hfol.2⟩
  case hSet => exact ⟨.hSet, by decide, rfl, follows_hSet harity⟩
  case hDel =>
    exact ⟨.hDel, by decide, rfl, .of_echoes (echoes_hDel harity) trivial (hfol.run_takes rfl)⟩
  case hIncrBy =>
    exact ⟨.hIncrBy, by decide, rfl, .of_echoes (echoes_hIncrBy harity hfol) trivial nofun⟩
  case lPop =>
    exact ⟨.lPop, by decide, rfl, .of_echoes (echoes_lPop harity) trivial (hfol.run_takes rfl)⟩
  case rPop =>
    exact ⟨.rPop, by decide, rfl, .of_echoes (echoes_rPop harity) trivial (hfol.run_takes rfl)⟩
  case lSet => exact ⟨.lSet, by decide, rfl, .of_echoes (echoes_lSet harity) hfol nofun⟩
  case lInsert => exact ⟨.lInsert, by decide, rfl, .of_echoes (echoes_lInsert harity) trivial nofun⟩
  case sAdd => exact ⟨.sAdd, by decide, rfl, .of_echoes (echoes_sAdd harity) trivial nofun⟩
  case sRem =>
    exact ⟨.sRem, by decide, rfl, .of_echoes (echoes_sRem harity) trivial (hfol.run_takes rfl)⟩
  case zAdd => exact ⟨.zAdd, by decide, rfl, .of_echoes (echoes_zAdd hR harity) trivial nofun⟩
  case zRem =>
    exact ⟨.zRem, by decide, rfl, .of_echoes (echoes_zRem harity) trivial (hfol.run_takes rfl)⟩
  case xAdd => exact ⟨.xAdd, by decide, rfl, follows_xAdd harity hfol⟩
  case xAck => exact ⟨.xAck, by decide, rfl, .of_echoes (echoes_xAck harity) trivial nofun⟩
  case pfAdd => exact ⟨.pfAdd, by decide, rfl, .logging (Cell.pfAdd_checked _).untouched rfl⟩
  case append =>
    exact ⟨.append, by decide, rfl, .logging (Cell.append_checked _).untouched
      (by simp only [run, if_pos harity])⟩
  case setDelayed =>
    exact ⟨.setDelayed, by decide, rfl,
      .of_echoes (echoes_setDelayed harity hfol.1 hfol.2) trivial nofun⟩
  case qAck => exact ⟨.qAck, by decide, rfl, .of_echoes (echoes_qAck harity) trivial nofun⟩
  case qNack => exact ⟨.qNack, by decide, rfl, .of_echoes (echoes_qNack harity) trivial nofun⟩
  case jsonSet => exact ⟨.jsonSet, by decide, rfl, .of_echoes (echoes_jsonSet harity) hfol nofun⟩
  case jsonDel => exact ⟨.jsonDel, by decide, rfl, .of_echoes echoes_jsonDel trivial nofun⟩
  case jsonNumIncrBy =>
    exact ⟨.jsonNumIncrBy, by decide, rfl, .of_echoes (echoes_jsonNumIncrBy harity) hfol nofun⟩
  case jsonArrAppend =>
    exact ⟨.jsonArrAppend, by decide, rfl, .of_echoes (echoes_jsonArrAppend harity) hfol nofun⟩
  case tag => exact ⟨.tag, by decide, rfl, .of_echoes (echoes_tag harity) hfol nofun⟩
  case tagDel => exact ⟨.tagDel, by decide, rfl, .of_echoes (echoes_tagDel harity) trivial nofun⟩
  case tsAdd =>
    exact ⟨.tsAdd, by decide, rfl, .of_echoes (echoes_tsAdd hR harity hfol) trivial nofun⟩
  all_goals exact absurd hfol id

/-! ## Commands on several keys -/

/-- The same for a command on several keys, on the store. -/
structure FollowsStore (now : Time) (s : Store) (w : StoreRecordWord) (args : List Bytes)
    (r : Result) : Prop where
  sent : r.reply.isOk = true → r.store = w.run now args s
  kept : r.reply.isOk = false → r.store = s

namespace FollowsStore

variable {now : Time} {s : Store} {w : StoreRecordWord} {args : List Bytes} {env : Env}

theorem fail (err : Bytes) : FollowsStore now s w args (.fail s err) :=
  ⟨nofun, fun _ => rfl⟩

theorem counted {name : String} {ok : Nat → Bool} {run : Cmd.StoreCmd}
    (h : ok args.length = true → FollowsStore now s w args (run env args s)) :
    FollowsStore now s w args (Cmd.counted name ok run env args s) :=
  Cmd.counted_elim fail h

theorem owned {keys : List Bytes} {r : Result} (hserved : env.refuse keys = none)
    (h : FollowsStore now s w args r) : FollowsStore now s w args (.owned env keys s r) := by
  unfold Result.owned
  rw [hserved]
  exact h

theorem always {r : Result} (hok : r.reply.isOk = true) (h : r.store = w.run now args s) :
    FollowsStore now s w args r :=
  ⟨fun _ => h, fun herr => absurd (hok.symm.trans herr) (by decide)⟩

theorem logThen {α : Type} {R : Runtime} {record : Record} {r : Except Err α × Store}
    {out : α → List Out} (hkept : ∀ err, r.1 = .error err → r.2 = s) (h : r.2 = w.run now args s) :
    FollowsStore now s w args (Cmd.logThen R record r out) := by
  refine ⟨fun _ => h, fun herr => ?_⟩
  obtain ⟨a, s'⟩ := r
  cases a with
  | error err => exact hkept err rfl
  | ok a => exact absurd herr.symm Bool.false_ne_true

end FollowsStore

section
variable {env : Env} {args : List Bytes} {s : Store}

theorem follows_del (hserved : env.refuse args.tail = none) :
    FollowsStore env.now s .del args (Cmd.del env args s) := by
  refine .counted (fun hn => .owned hserved (.always rfl ?_))
  have hlen : 2 ≤ args.length := of_decide_eq_true hn
  simp only [StoreRecordWord.run]
  rw [if_pos (by omega)]

section
variable (hserved : env.refuse [args.getD 1 []] = none)
include hserved

theorem follows_listPush {left : Bool} {w : StoreRecordWord} (hrun : 3 ≤ args.length →
      (s.pushList env.now (args.getD 1 []) left (args.drop 2)).2 = w.run env.now args s) :
    FollowsStore env.now s w args (Cmd.listPush left env args s) := by
  unfold Cmd.listPush
  split
  · exact .fail _
  · rename_i hn
    refine .owned hserved ?_
    split
    · exact .fail _
    · exact .logThen (fun err => Store.pushList_error _) (hrun (by simpa using hn))

theorem follows_lPush :
    FollowsStore env.now s .lPush args (Cmd.lPush env args s) := by
  refine follows_listPush hserved (fun hn => ?_)
  simp only [StoreRecordWord.run]
  rw [if_pos (by omega)]

theorem follows_rPush :
    FollowsStore env.now s .rPush args (Cmd.rPush env args s) := by
  refine follows_listPush hserved (fun hn => ?_)
  simp only [StoreRecordWord.run]
  rw [if_pos (by omega)]

end

theorem follows_rename (hserved : env.refuse args.tail = none)
    (hfresh : (s.entries (args.getD 1 [])).expired env.now = false) :
    FollowsStore env.now s .rename args (Cmd.rename env args s) := by
  refine .counted (fun hn => .owned hserved (.logThen (fun err herr => ?_) ?_))
  · rcases Store.rename_cases env.now (args.getD 1 []) (args.getD 2 []) s with
      ⟨-, heq⟩ | ⟨-, hok, -⟩
    · rw [heq, Store.purgeKey_of_fresh hfresh]
    · exact absurd (herr.symm.trans hok) (by simp)
  · have hlen : args.length = 3 := of_decide_eq_true hn
    simp only [StoreRecordWord.run, if_pos hlen]

theorem follows_copy (hserved : env.refuse [args.getD 1 [], args.getD 2 []] = none) :
    FollowsStore env.now s .copy args (Cmd.copy env args s) := by
  refine .counted (fun hn => .owned hserved ?_)
  have hrun := run_copy env.now s (of_decide_eq_true hn).1
  dsimp only
  generalize s.copy env.now (args.getD 1 []) (args.getD 2 [])
    ((args.drop 3).any (fun a => equalFold a "REPLACE")) = r at hrun ⊢
  obtain ⟨ok, s'⟩ := r
  cases ok with
  | false => exact .always rfl hrun.symm
  | true => exact .always rfl hrun.symm

theorem follows_xGroup (hserved : env.refuse [args.getD 2 []] = none)
    (hfresh : (s.entries (args.getD 2 [])).expired env.now = false) :
    FollowsStore env.now s .xGroup args (Cmd.xGroup env args s) := by
  refine .counted (fun hn => ?_)
  have hlen : args.length = 5 ∨ args.length = 6 := of_decide_eq_true hn
  split
  · exact .fail _
  rename_i hcreate
  split
  · exact .fail _
  rename_i hmk
  have hput : s.put (args.getD 2 []) (s.cell (args.getD 2 [])) = s := Store.put_cell s _
  refine .owned hserved ?_
  unfold xGroupRun
  dsimp only
  split
  · exact hput.symm ▸ .fail _
  split
  · exact hput.symm ▸ .fail _
  split
  · exact hput.symm ▸ .fail _
  · refine ⟨fun _ => (run_xGroup hlen hcreate hmk).symm, fun herr => ?_⟩
    cases hres : ((s.cell (args.getD 2 [])).xGroupCreate env.now (args.getD 3 [])
        (args.getD 4 []) (decide (args.length = 6))).1 with
    | error err =>
      show s.put (args.getD 2 []) ((s.cell (args.getD 2 [])).xGroupCreate env.now
        (args.getD 3 []) (args.getD 4 []) (decide (args.length = 6))).2 = s
      rw [(Cell.xGroupCreate_checked _ _ _).refused_fresh hfresh hres, hput]
    | ok u =>
      have hok : Except.isOk (replyOf env.R ((s.cell (args.getD 2 [])).xGroupCreate env.now
          (args.getD 3 []) (args.getD 4 []) (decide (args.length = 6))).1
          (fun _ => [.simple (bytes "OK")])) = true := by rw [hres]; rfl
      exact absurd (hok.symm.trans herr) (by decide)

theorem follows_pfMerge (hserved : env.refuse args.tail = none) :
    FollowsStore env.now s .pfMerge args (Cmd.pfMerge env args s) := by
  refine .counted (fun hn => .owned hserved (.always rfl ?_))
  have hlen : 2 ≤ args.length := of_decide_eq_true hn
  simp only [StoreRecordWord.run, if_pos hlen]

theorem follows_enqueue (hserved : env.refuse [args.getD 1 []] = none)
    (hsame : 5 ≤ args.length → SameNumber (args.getD 4 [])) :
    FollowsStore env.now s .enqueue args (Cmd.enqueue env args s) := by
  refine .counted (fun hn => .owned hserved
    (Result.attempt_elim .fail (fun delay hdel => .always rfl ?_)))
  exact (run_enqueue (of_decide_eq_true hn) hsame hdel).symm

end

/-- When the operation of a follower does what the command did, given all the arguments. -/
def StoreWord.Followed (env : Env) (args : List Bytes) (s : Store) : StoreWord → Prop
  | .del | .pfMerge => env.refuse args.tail = none
  | .lPush | .rPush => env.refuse [args.getD 1 []] = none
  | .copy => env.refuse [args.getD 1 [], args.getD 2 []] = none
  | .rename => env.refuse args.tail = none ∧
      (s.entries (args.getD 1 [])).expired env.now = false
  | .xGroup => env.refuse [args.getD 2 []] = none ∧
      (s.entries (args.getD 2 [])).expired env.now = false
  | .enqueue => env.refuse [args.getD 1 []] = none ∧
      (5 ≤ args.length → SameNumber (args.getD 4 []))
  | _ => False

/-- **A follower that runs the words of a command on several keys does what the command did.** -/
theorem StoreWord.follows {w : StoreWord} {env : Env} {args : List Bytes} {s : Store}
    (hfol : w.Followed env args s) :
    ∃ rw : StoreRecordWord, rw ≠ .sMove ∧ RecordWord.text (.store rw) = w.text ∧
      FollowsStore env.now s rw args (w.cmd env args s) := by
  cases w
  case del => exact ⟨.del, by decide, rfl, follows_del hfol⟩
  case lPush => exact ⟨.lPush, by decide, rfl, follows_lPush hfol⟩
  case rPush => exact ⟨.rPush, by decide, rfl, follows_rPush hfol⟩
  case rename => exact ⟨.rename, by decide, rfl, follows_rename hfol.1 hfol.2⟩
  case copy => exact ⟨.copy, by decide, rfl, follows_copy hfol⟩
  case xGroup => exact ⟨.xGroup, by decide, rfl, follows_xGroup hfol.1 hfol.2⟩
  case pfMerge => exact ⟨.pfMerge, by decide, rfl, follows_pfMerge hfol⟩
  case enqueue => exact ⟨.enqueue, by decide, rfl, follows_enqueue hfol.1 hfol.2⟩
  all_goals exact absurd hfol id

end Vole.Server
