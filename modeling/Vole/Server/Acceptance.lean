import Vole.Server.Appends
import Vole.Server.Atomicity

/-!
# Operations behind their records

Most cases that write append their record first and run the operation afterwards. The operation
makes its own checks, and its error then comes when the record is already in the file. Here is,
for each case on one key, what has to hold for the operation to succeed.
-/

namespace Vole.Server

open Go Cmd Vole.Cell List

/-! ## What the operation needs -/

/-- Any value can be written at the path. -/
def Writable (doc : JVal) (path : Bytes) : Prop := ∀ v, (JsonDoc.set doc path v).isOk = true

/-- When the operation that follows the record of a case on one key succeeds, given the arguments
after the key and what the key holds. The guards of some cases do not see a key that is delayed.
Cases that are not listed succeed, or append afterwards. -/
def KeyWord.Accepts (env : KeyEnv) (rest : List Bytes) (e : Entry) (w : KeyWord) : Prop :=
  let d := e.purged env.now
  match w with
  | .incr | .incrBy | .decrBy | .decr => d.conflicts .string = false ∧
      ∀ v, d.kv = some v → (parseInt v).isSome = true
  | .incrByFloat => d.conflicts .string = false ∧
      ∀ v, d.kv = some v → (env.R.parseFloat v).isSome = true
  | .hSet | .hDel => d.conflicts .hash = false
  | .hIncrBy => d.conflicts .hash = false ∧
      ∀ v, (d.hashes.getD ∅).get (arg rest 2) = some v → (parseInt v).isSome = true
  | .lPop | .rPop | .lInsert | .lRem => d.conflicts .list = false
  | .lSet => d.conflicts .list = false ∧ ∀ n, parseInt (arg rest 2) = some n →
      (listIndex n (d.lists.getD []).length).isSome = true
  | .sAdd | .sRem => d.conflicts .set = false
  | .zAdd | .zRem | .geoAdd => d.conflicts .zset = false
  | .tsAdd => d.conflicts .timeseries = false
  | .xAdd => XAddRecorded env.now rest e
  | .jsonSet => d.hasAny [.string, .hash, .list, .set, .zset, .stream, .hll] = false ∧
      (unmarshal env.R (arg rest 3)).isOk = true ∧
      (d.jsons = none → JsonDoc.isRoot (arg rest 2) = true) ∧
      ∀ doc, d.jsons = some doc → Writable doc (arg rest 2)
  | .jsonDel => ∀ doc, d.jsons = some doc → (JsonDoc.del doc (jsonPath rest)).isOk = true
  | .jsonNumIncrBy => ∃ doc x, d.jsons = some doc ∧ JsonDoc.get doc (arg rest 2) = .ok (.num x) ∧
      Writable doc (arg rest 2)
  | .jsonArrAppend => ∃ doc items values, d.jsons = some doc ∧
      JsonDoc.get doc (arg rest 2) = .ok (.arr items) ∧ Writable doc (arg rest 2) ∧
      (rest.drop 1).mapM (unmarshal env.R) = .ok values
  | .tag => d.existsAt env.now = true
  | _ => True

/-- The same for the cases on several keys, given all the arguments. -/
def StoreWord.Accepts (env : Env) (args : List Bytes) (s : Store) : StoreWord → Prop
  | .lPush | .rPush => ((s.entries (args.getD 1 [])).purged env.now).conflicts .list = false
  | .sMove => ((s.entries (args.getD 1 [])).purged env.now).conflicts .set = false ∧
      ((s.entries (args.getD 2 [])).purged env.now).conflicts .set = false
  | .rename => ((s.entries (args.getD 1 [])).purged env.now).existsAt env.now = true
  | .xGroup =>
      let d := (s.entries (args.getD 2 [])).purged env.now
      d.hasAny [.string, .hash, .list, .set, .zset, .hll] = false ∧
        (d.streams.isSome = true ∨ args.length = 6) ∧ d.groups.bind (·.get (args.getD 3 [])) = none
  | _ => True

section
variable {now : Time} {c : Cell} {t : DataType}

theorem purge_conflicts (h : (c.purged now).conflicts t = false) :
    ¬ (c.purge now).conflicts t = true := by
  rw [purge_toEntry, h]
  exact Bool.false_ne_true

theorem purged_of_unexpired (hexp : ¬ c.expired now = true) : c.purged now = c.toEntry := if_neg hexp

theorem unexpired_of_ne (h : c.purged now ≠ .empty) : ¬ c.expired now = true :=
  fun hexp => h (if_pos hexp)

theorem exists_ok {ε α : Type} {r : Except ε α} (h : r.isOk = true) : ∃ a, r = .ok a := by
  cases r with
  | error e => cases h
  | ok a => exact ⟨a, rfl⟩

theorem fresh_conflicts (h : (c.purged now).conflicts t = false) (hexp : ¬ c.expired now = true) :
    ¬ c.conflicts t = true := by
  rw [purged_of_unexpired hexp] at h
  rw [h]
  exact Bool.false_ne_true

/-- The operations that take from a key: on an expired one there is nothing to take. -/
theorem isOk_taking {α : Type} {a : α} {c' : Cell} {r : Except Err α × Cell}
    (hfree : (c.purged now).conflicts t = false) (hr : r.1.isOk = true) :
    (if c.expired now then (.ok a, c') else if c.conflicts t then (.error .wrongType, c)
      else r).1.isOk = true := by
  split
  · rfl
  · rename_i hexp
    rw [if_neg (fresh_conflicts hfree hexp)]
    exact hr

/-- The operations that add to a key. -/
theorem isOk_adding {α : Type} {p : Prop} [Decidable p] {err : Err} {r : Except Err α × Cell}
    (hsome : ¬ p) (hfree : (c.purged now).conflicts t = false) (hr : r.1.isOk = true) :
    (if p then (.error err, c) else if (c.purge now).conflicts t then (.error .wrongType, c.purge now)
      else r).1.isOk = true := by
  rw [if_neg hsome, if_neg (purge_conflicts hfree)]
  exact hr

theorem incrBy_isOk (delta : Int) (hfree : (c.purged now).conflicts .string = false)
    (hint : ∀ v, (c.purged now).kv = some v → (parseInt v).isSome = true) :
    (c.incrBy now delta).1.isOk = true := by
  rw [← purge_toEntry] at hint
  unfold Cell.incrBy
  dsimp only
  rw [if_neg (purge_conflicts hfree)]
  cases hv : (c.purge now).kv with
  | none => rfl
  | some v =>
    obtain ⟨n, hn⟩ := Option.isSome_iff_exists.mp (hint v hv)
    dsimp only
    rw [hn]
    rfl

theorem incrByFloat_isOk (R : Runtime) (delta : F64)
    (hfree : (c.purged now).conflicts .string = false)
    (hfloat : ∀ v, (c.purged now).kv = some v → (R.parseFloat v).isSome = true) :
    (c.incrByFloat R now delta).1.isOk = true := by
  rw [← purge_toEntry] at hfloat
  unfold Cell.incrByFloat
  dsimp only
  rw [if_neg (purge_conflicts hfree)]
  cases hv : (c.purge now).kv with
  | none => rfl
  | some v =>
    obtain ⟨n, hn⟩ := Option.isSome_iff_exists.mp (hfloat v hv)
    dsimp only
    rw [hn]
    rfl

theorem hIncrBy_isOk (field : Bytes) (delta : Int) (hfree : (c.purged now).conflicts .hash = false)
    (hint : ∀ v, ((c.purged now).hashes.getD ∅).get field = some v → (parseInt v).isSome = true) :
    (c.hIncrBy now field delta).1.isOk = true := by
  rw [← purge_toEntry] at hint
  unfold Cell.hIncrBy
  dsimp only
  rw [if_neg (purge_conflicts hfree)]
  cases hv : ((c.purge now).hashes.getD ∅).get field with
  | none => rfl
  | some v =>
    obtain ⟨n, hn⟩ := Option.isSome_iff_exists.mp (hint v hv)
    dsimp only
    rw [hn]
    rfl

theorem listIndex_zero (index : Int) : listIndex index 0 = none := by
  unfold listIndex
  dsimp only
  rw [if_pos]
  split <;> omega

theorem lSet_isOk {index : Int} (value : Bytes) (hfree : (c.purged now).conflicts .list = false)
    (hindex : (listIndex index ((c.purged now).lists.getD []).length).isSome = true) :
    (c.lSet now index value).1.isOk = true := by
  have hempty : ∀ l : List Bytes, (listIndex index l.length).isSome = true → l ≠ [] := by
    rintro l h rfl
    rw [length_nil, listIndex_zero] at h
    cases h
  have hexp : ¬ c.expired now = true :=
    unexpired_of_ne (fun h => hempty _ hindex (congrArg (fun e => e.lists.getD []) h))
  rw [purged_of_unexpired hexp] at hindex
  obtain ⟨i, hi⟩ := Option.isSome_iff_exists.mp hindex
  unfold Cell.lSet
  dsimp only
  rw [if_neg hexp, if_neg (fresh_conflicts hfree hexp), if_neg (hempty _ hindex), hi]
  rfl

theorem xAddPrepared_isOk {id : Bytes} {rest : List Bytes} {e : Entry}
    (hn : 5 ≤ rest.length + 2) (h : XAddRecorded now rest e)
    (hid : (Cell.nextStreamID now (arg rest 2) ⟨e, 0⟩).1 = .ok id) :
    (Cell.xAddPrepared now id (rest.drop 1)
      (Cell.nextStreamID now (arg rest 2) ⟨e, 0⟩).2).1.isOk = true := by
  have hpurge : Cell.purge ⟨e, 0⟩ now = ⟨e, 0⟩ := purge_of_fresh h.fresh
  unfold Cell.nextStreamID at hid ⊢
  rw [hpurge] at hid ⊢
  dsimp only at hid ⊢
  split at hid
  · cases hid
  rename_i hconf
  rw [if_neg hconf]
  rcases prepareStreamID_cases (fun hstar _ => h.room hstar) with ⟨err, heq⟩ | ⟨id', heq, hgt, -⟩
  · rw [heq] at hid
    cases hid
  · rw [heq] at hid ⊢
    cases hid
    dsimp only
    rw [h.prepared hn hgt]
    rfl

theorem tsAdd_isOk (timestamp : Int) (value : F64) (labels : List (Bytes × Bytes))
    (h : (c.purged now).conflicts .timeseries = false) :
    (c.tsAdd now timestamp value labels).1.isOk = true := by
  unfold Cell.tsAdd
  dsimp only
  rw [if_neg (purge_conflicts h)]
  rfl

theorem jsonSet_isOk {R : Runtime} {path raw : Bytes} (hfree : (c.purged now).hasAny
      [.string, .hash, .list, .set, .zset, .stream, .hll] = false)
    (hraw : (unmarshal R raw).isOk = true)
    (hnew : (c.purged now).jsons = none → JsonDoc.isRoot path = true)
    (hset : ∀ doc, (c.purged now).jsons = some doc → Writable doc path) :
    (c.jsonSet R now path raw).1.isOk = true := by
  rw [← purge_toEntry] at hfree hnew hset
  unfold Cell.jsonSet
  dsimp only
  rw [if_neg (by rw [hfree]; exact Bool.false_ne_true)]
  obtain ⟨value, hvalue⟩ := exists_ok hraw
  rw [hvalue]
  dsimp only
  cases hdoc : (c.purge now).jsons with
  | none =>
    dsimp only
    rw [if_pos (hnew hdoc)]
    rfl
  | some doc =>
    obtain ⟨doc', hdoc'⟩ := exists_ok (hset doc hdoc value)
    dsimp only
    rw [hdoc']
    rfl

theorem jsonDel_isOk {path : Bytes}
    (h : ∀ doc, (c.purged now).jsons = some doc → (JsonDoc.del doc path).isOk = true) :
    (c.jsonDel now path).1.isOk = true := by
  unfold Cell.jsonDel
  split
  · rfl
  rename_i hexp
  rw [purged_of_unexpired hexp] at h
  cases hdoc : c.jsons with
  | none => rfl
  | some doc =>
    obtain ⟨doc', hdoc'⟩ := exists_ok (h doc hdoc)
    dsimp only
    rw [hdoc']
    split <;> rfl

theorem xAck_isOk {name : Bytes} (ids : List Bytes) (h : c.xGroupExists now name = true) :
    (c.xAck now name ids).1.isOk = true := by
  unfold Entry.xGroupExists at h
  simp only [Bool.and_eq_true, Bool.not_eq_true'] at h
  obtain ⟨g, hg⟩ := Option.isSome_iff_exists.mp h.2
  have hgroup : c.group name = some g := hg
  unfold Cell.xAck
  split
  · rfl
  · rw [hgroup]
    rfl

theorem tagSet_isOk (tags : List (Bytes × Bytes)) (h : (c.purged now).existsAt now = true) :
    (c.tagSet now tags).1.isOk = true := by
  have hexp := unexpired_of_ne (fun hnone => nomatch hnone ▸ h)
  rw [purged_of_unexpired hexp] at h
  unfold Cell.tagSet
  rw [if_neg hexp, h]
  rfl

theorem parseMembers_ne_nil {R : Runtime} {pairs : List (Bytes × Bytes)} {members : List ZMember}
    (hne : pairs ≠ []) (h : parseMembers R pairs = .ok members) : members ≠ [] := by
  cases pairs with
  | nil => exact absurd rfl hne
  | cons p rest =>
    unfold parseMembers at h
    split at h
    · cases h
    · cases hrest : parseMembers R rest with
      | error e => exact nomatch hrest ▸ h
      | ok more =>
        rw [hrest] at h
        cases h
        exact cons_ne_nil _ _

theorem jsonNumIncrBy_isOk {R : Runtime} {path : Bytes} {doc : JVal} {x : F64} (delta : F64)
    (hdoc : (c.purged now).jsons = some doc) (hget : JsonDoc.get doc path = .ok (.num x))
    (hset : Writable doc path) : (c.jsonNumIncrBy R now path delta).1.isOk = true := by
  have hexp := unexpired_of_ne (fun hnone => nomatch hnone ▸ hdoc)
  rw [purged_of_unexpired hexp] at hdoc
  obtain ⟨doc', hdoc'⟩ := exists_ok (hset (.num (R.addFloat x delta)))
  unfold Cell.jsonNumIncrBy JsonDoc.numIncrBy
  rw [if_neg hexp, hdoc]
  dsimp only
  rw [hget]
  dsimp only
  rw [hdoc']
  rfl

theorem jsonArrAppend_isOk {R : Runtime} {path : Bytes} {doc : JVal} {items values : List JVal}
    {raw : List Bytes} (hdoc : (c.purged now).jsons = some doc)
    (hget : JsonDoc.get doc path = .ok (.arr items)) (hset : Writable doc path)
    (hraw : raw.mapM (unmarshal R) = .ok values) :
    (c.jsonArrAppend R now path raw).1.isOk = true := by
  have hexp := unexpired_of_ne (fun hnone => nomatch hnone ▸ hdoc)
  rw [purged_of_unexpired hexp] at hdoc
  obtain ⟨doc', hdoc'⟩ := exists_ok (hset (.arr (items ++ values)))
  unfold Cell.jsonArrAppend JsonDoc.arrAppend
  rw [if_neg hexp, hdoc]
  dsimp only
  rw [hraw]
  dsimp only
  rw [hget]
  dsimp only
  rw [hdoc']
  rfl

end

theorem replyOf_isOk {α : Type} {R : Runtime} {r : Except Err α} {out : α → List Out}
    (h : r.isOk = true) : (replyOf R r out).isOk = true := by
  cases r with
  | error e => cases h
  | ok a => rfl

/-- A command that appends something succeeds. -/
def Granted (o : Outcome) : Prop := o.log ≠ [] → o.reply.isOk = true

namespace Granted

theorem answer (c : Cell) (reply : Reply) : Granted (.answer c reply) := fun h => absurd rfl h

theorem fail (c : Cell) (e : Bytes) : Granted (.fail c e) := fun h => absurd rfl h

theorem ok (c : Cell) (out : List Out) (log : List KeyRecord) : Granted ⟨.ok out, c, log⟩ :=
  fun _ => rfl

theorem attempt {c : Cell} {α : Type} {p : Except Bytes α} {k : α → Outcome}
    (h : ∀ a, p = .ok a → Granted (k a)) : Granted (.attempt c p k) :=
  Outcome.attempt_elim (fail c) h

theorem ite {p : Prop} [Decidable p] {o o' : Outcome} (h : Granted o) (h' : Granted o') :
    Granted (if p then o else o') := by
  split
  · exact h
  · exact h'

theorem logging {α : Type} {R : Runtime} {r : Except Err α × Cell} {out : α → List Out}
    {records : α → List KeyRecord} : Granted (.logging R r out records) := by
  unfold Outcome.logging
  split
  · exact fun h => absurd rfl h
  · exact ok _ _ _

theorem logged {α : Type} {R : Runtime} {record : KeyRecord} {r : Except Err α × Cell}
    {out : α → List Out} (h : r.1.isOk = true) : Granted (.logged R record r out) :=
  fun _ => replyOf_isOk h

theorem addGuard {now : Time} {own : String} {c : Cell} {o : Outcome} (h : Granted o) :
    Granted (addGuard now own c o) :=
  ite (fail _ _) h

theorem takeGuard {now : Time} {own : String} {absent : Reply} {c : Cell} {o : Outcome}
    (h : Granted o) : Granted (takeGuard now own absent c o) :=
  ite (answer _ _) (ite (fail _ _) h)

end Granted

/-! ## Commands -/

section
variable {env : KeyEnv} {word : Bytes} {rest : List Bytes} {e : Entry}

theorem granted_setRun (now : Time) (value : Bytes) (o : SetOptions) (c : Cell) :
    Granted (setRun now value o c) := by
  unfold setRun
  dsimp only
  repeat' split
  all_goals exact .ok _ _ _

theorem granted_setNX : Granted (Cmd.setNX.run env word rest ⟨e, 0⟩) := by
  dsimp only [Cmd.setNX, KeyCmd.of]
  split <;> exact .ok _ _ _

theorem granted_incr (h : KeyWord.Accepts env rest e .incr) :
    Granted (Cmd.incr.run env word rest ⟨e, 0⟩) := by
  dsimp only [Cmd.incr, KeyCmd.of]
  split
  · exact .ite (.fail _ _) (.logged (incrBy_isOk 1 h.1 h.2))
  · exact .logged (incrBy_isOk 1 h.1 h.2)

theorem granted_hSet (hn : 4 ≤ rest.length + 2) (h : KeyWord.Accepts env rest e .hSet) :
    Granted (Cmd.hSet.run env word rest ⟨e, 0⟩) := by
  dsimp only [Cmd.hSet, KeyCmd.of]
  split
  · exact .fail _ _
  · exact .addGuard (.logged (isOk_adding (pairUp_length (by omega)) h rfl))

theorem granted_hIncrBy (h : KeyWord.Accepts env rest e .hIncrBy) :
    Granted (Cmd.hIncrBy.run env word rest ⟨e, 0⟩) := by
  refine .attempt (fun delta _ => ?_)
  split
  · exact .fail _ _
  · exact .logged (hIncrBy_isOk _ delta h.1 h.2)

theorem granted_hSetNX : Granted (Cmd.hSetNX.run env word rest ⟨e, 0⟩) := by
  dsimp only [Cmd.hSetNX, KeyCmd.of]
  split
  · exact .fail _ _
  · exact .logging

theorem granted_geoAdd (hn : 5 ≤ rest.length + 2) (h : KeyWord.Accepts env rest e .geoAdd) :
    Granted (Cmd.geoAdd.run env word rest ⟨e, 0⟩) := by
  refine .ite (.fail _ _) (.attempt (fun members hmembers => ?_))
  have hne : geoMembers env.R members ≠ [] := by
    rw [geoMembers, Ne, map_eq_nil_iff]
    exact parseGeoMembers_ne_nil (by omega) hmembers
  exact .logged (isOk_adding hne h rfl)

theorem granted_xAdd (hn : 5 ≤ rest.length + 2) (h : KeyWord.Accepts env rest e .xAdd) :
    Granted (Cmd.xAdd.run env word rest ⟨e, 0⟩) := by
  dsimp only [Cmd.xAdd, KeyCmd.of]
  split
  · exact .fail _ _
  · rename_i id c heq
    have hok := @xAddPrepared_isOk env.now id rest e hn h (by rw [heq])
    rw [heq] at hok
    exact .logged hok

theorem granted_xAck : Granted (Cmd.xAck.run env word rest ⟨e, 0⟩) := by
  dsimp only [Cmd.xAck, KeyCmd.of]
  split
  · exact .fail _ _
  · rename_i hexists
    exact .logged (xAck_isOk _ (by simpa using hexists))

/-- **A case on one key that appends a record succeeds** if its operation is accepted. -/
theorem KeyWord.granted {w : KeyWord} (harity : w.cmd.arity (rest.length + 2) = true)
    (h : w.Accepts env rest e) : Granted (w.cmd.run env word rest ⟨e, 0⟩) := by
  by_cases hreads : w.reads = true
  · exact fun hlog => absurd (KeyWord.still hreads env word rest ⟨e, 0⟩).log hlog
  by_cases hsilent : w.silent = true
  · exact fun hlog => absurd (KeyWord.log_of_silent hsilent env word rest ⟨e, 0⟩) hlog
  cases w
  all_goals try replace harity := of_decide_eq_true harity
  case set => exact .attempt (fun o _ => granted_setRun _ _ o _)
  case setNX => exact granted_setNX
  case setEX | pSetEX => exact .attempt (fun _ _ => .ite (.fail _ _) (.ok _ _ _))
  case incr => exact granted_incr h
  case incrBy => exact .attempt (fun delta _ => .logged (incrBy_isOk delta h.1 h.2))
  case decrBy => exact .attempt (fun delta _ => .logged (incrBy_isOk _ h.1 h.2))
  case decr => exact .logged (incrBy_isOk _ h.1 h.2)
  case incrByFloat => exact .attempt (fun delta _ => .logged (incrByFloat_isOk _ delta h.1 h.2))
  case expire | pExpire => exact .attempt (fun _ _ => .ite (.answer _ _) (.ok _ _ _))
  case pExpireAt => exact .attempt (fun _ _ => .ok _ _ _)
  case hSet => exact granted_hSet harity.1 h
  case hDel => exact .takeGuard (.logged (isOk_taking h (by split <;> rfl)))
  case hIncrBy => exact granted_hIncrBy h
  case hSetNX => exact granted_hSetNX
  case lPop | rPop => exact .takeGuard (.logged (isOk_taking h (by split <;> rfl)))
  case lSet =>
    exact .attempt (fun index hindex => .logged (lSet_isOk _ h.1 (h.2 index (atoi_eq_ok hindex))))
  case lInsert =>
    refine .ite (.fail _ _) (.logged (isOk_taking h ?_))
    dsimp only
    repeat' split
    all_goals rfl
  case lRem =>
    exact .attempt (fun count _ => .logged (isOk_taking h (by dsimp only; split <;> rfl)))
  case sAdd => exact .addGuard (.logged (isOk_adding (ne_nil_of_length_pos (by omega)) h rfl))
  case sRem => exact .takeGuard (.logged (isOk_taking h (by dsimp only; split <;> rfl)))
  case sPop | zPopMin | zPopMax | zIncrBy => exact .attempt (fun _ _ => .logging)
  case zAdd =>
    refine .attempt (fun members hmembers => .addGuard (.logged (isOk_adding ?_ h rfl)))
    exact parseMembers_ne_nil (pairUp_length (by omega)) hmembers
  case zRem =>
    refine .takeGuard (.logged (isOk_taking h ?_))
    repeat' split
    all_goals rfl
  case geoAdd => exact granted_geoAdd harity h
  case xAdd => exact granted_xAdd harity h
  case xAck => exact granted_xAck
  case pfAdd | append | getSet => exact .logging
  case persist | getDel =>
    dsimp only [KeyWord.cmd, KeyWord.switch, Cmd.persist, Cmd.getDel, KeyCmd.of]
    split <;> exact .ok _ _ _
  case setBit => exact .attempt (fun _ _ => .attempt (fun _ _ => .logging))
  case setRange => exact .attempt (fun _ _ => .logging)
  case getEx =>
    exact .attempt (fun o _ => by unfold getExRun; split <;> exact .ok _ _ _)
  case setDelayed => exact .attempt (fun _ _ => .attempt (fun _ _ => .ok _ _ _))
  case qAck | qNack | tagDel => exact .ok _ _ _
  case jsonSet => exact .logged (jsonSet_isOk h.1 h.2.1 h.2.2.1 h.2.2.2)
  case jsonDel => exact .logged (jsonDel_isOk h)
  case jsonNumIncrBy =>
    obtain ⟨doc, x, hdoc, hget, hset⟩ := h
    exact .attempt (fun delta _ => .logged (jsonNumIncrBy_isOk delta hdoc hget hset))
  case jsonArrAppend =>
    obtain ⟨doc, items, values, hdoc, hget, hset, hraw⟩ := h
    exact .logged (jsonArrAppend_isOk hdoc hget hset hraw)
  case tag => exact .attempt (fun tags _ => .logged (tagSet_isOk tags h))
  case tsAdd => exact .attempt (fun _ _ => .attempt (fun _ _ => .logged (tsAdd_isOk _ _ _ h)))
  all_goals first
    | exact absurd rfl hreads
    | exact absurd rfl hsilent

end

end Vole.Server
