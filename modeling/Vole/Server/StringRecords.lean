import Vole.Server.KeyRecords
import Vole.Store.StoreOps

/-!
# The records of commands on strings and expiry

For each case of `exec` that changes a string or an expiry: when its records, replayed on
the entry as it was, do what the command did. A record with an absolute expiry clears less
of the key than some of the commands that write it, does not look at the expiry the key had,
and holds nanoseconds in 64 bits.
-/

namespace Vole

open Go

variable {R : Runtime} {now : Time}

/-! ## Keys that have not expired -/

section
variable {c : Cell} {e : Entry} {now : Time}

/-- A key that was made a string by `Set` or `SetAbsolute`. -/
def Entry.asString (e : Entry) (value : Bytes) (expires : Option Time) : Entry :=
  { e with kv := some value, hashes := none, lists := none, sets := none, zsets := none,
           streams := none, hlls := none, lastSeq := none, expires := expires }

theorem Cell.setAbsolute_toEntry (value : Bytes) (t : Time) (c : Cell) :
    (c.setAbsolute value t).toEntry
      = c.toEntry.asString value (if isZero t then none else some t) := by
  unfold Cell.setAbsolute
  split <;> rfl

theorem Cell.setDelayed_forever {ttl : Duration} (h : ¬ 0 < ttl) (value : Bytes)
    (delay : Duration) : c.setDelayed now value delay ttl = c.setDelayed now value delay 0 := by
  unfold Cell.setDelayed
  dsimp only
  rw [if_neg h, if_neg (lt_irrefl 0)]

theorem Data.has_of_not_conflicts {d : Data} {own t : DataType} (h : d.conflicts own = false)
    (ht : t ≠ own) : d.has t = false := by
  have := List.any_eq_false.mp h t (DataType.mem_others.mpr ht)
  simpa using this

end

end Vole

namespace Vole.Server

open Go Cmd

/-! ## Numbers in records -/

/-- The clock shows an instant that `UnixNano` can express. -/
def InEpoch (now : Int) : Prop := 0 ≤ now ∧ now < 2 ^ 63

theorem isZero_of_range {t : Int} (h : Int64Range t) : isZero t = false := by
  obtain ⟨hlo, -⟩ := h
  refine decide_eq_false (fun heq : t = -62135596800 * 1000000000 => ?_)
  omega

theorem isZero_of_nonneg {t : Int} (h : 0 ≤ t) : isZero t = false :=
  decide_eq_false (fun heq : t = -62135596800 * 1000000000 => by omega)

theorem sscanInt_nanoText {t : Int} (h : Int64Range t) : sscanInt (nanoText t) = t := by
  unfold nanoText unixNano
  rw [wrap64_of_range h, sscanInt_formatInt h]

theorem absTime_nanoText {t : Int} (hpos : 0 < t) (hlt : t < 2 ^ 63) :
    absTime (sscanInt (nanoText t)) = t := by
  rw [sscanInt_nanoText ⟨by omega, hlt⟩, absTime, if_pos hpos]

theorem absTime_none : absTime (sscanInt (bytes "0")) = zeroTime := by decide

theorem absTime_setAbs {now ttl : Int} (hnow : 0 ≤ now) (h : 0 < ttl → now + ttl < 2 ^ 63) :
    absTime (sscanInt (if isZero (expiryAfter now ttl) then bytes "0"
      else nanoText (expiryAfter now ttl))) = expiryAfter now ttl := by
  unfold expiryAfter
  split
  · rename_i httl
    have hpos : (0 : Int) < now + ttl := Int.add_pos_of_nonneg_of_pos hnow httl
    rw [isZero_of_range ⟨by omega, h httl⟩]
    exact absTime_nanoText hpos (h httl)
  · exact absTime_none

theorem duration_tdiv {d : Int} (hrange : Int64Range d) (hpos : 0 < d)
    (hwhole : d % second = 0) : duration (sscanInt (formatInt (d.tdiv second))) second = d := by
  obtain ⟨-, hhi⟩ := hrange
  have hwhole : d % 1000000000 = 0 := hwhole
  have hq : d.tdiv 1000000000 = d / 1000000000 := Int.tdiv_eq_ediv_of_nonneg (by omega)
  show wrap64 (sscanInt (formatInt (d.tdiv 1000000000)) * 1000000000) = d
  rw [hq, sscanInt_formatInt ⟨by omega, by omega⟩, Int.ediv_mul_cancel_of_emod_eq_zero hwhole,
    wrap64_of_range ⟨by omega, hhi⟩]

/-! ## Writing a string -/

section
variable {number : Bytes → Int} {env : KeyEnv} {e : Entry} {word : Bytes} {rest : List Bytes}

theorem replayKey_setAbs (value text : Bytes) :
    replayKey number R now e (bytes "SETABS", [value, text])
      = some (Cell.setAbsolute value (absTime (sscanInt text)) ⟨e, 0⟩).toEntry :=
  replayKey_text .setAbs _

/-- The expiry that a time to live gives. -/
def deadline (now : Time) (ttl : Duration) : Option Time := if 0 < ttl then some (now + ttl) else none

/-- A conditional `SET` that has set the key. -/
def Wrote (now : Time) (value : Bytes) (ttl : Duration) (e : Entry) (r : Bool × Cell) : Prop :=
  r.1 = true ∧ r.2.toEntry = e.asString value (deadline now ttl)

theorem Wrote.eq {value : Bytes} {ttl : Duration} {r : Bool × Cell} (h : Wrote now value ttl e r) :
    r = (true, r.2) :=
  Prod.ext h.1 rfl

/-- The key has no value, and nothing that `SETABS` would clear or leave out. -/
structure Unset (now : Time) (e : Entry) : Prop where
  fresh : e.expired now = false
  visible : e.visible now = true
  lastSeq : e.lastSeq = none

/-- When the `SETABS` record does to the key what `SetNX` did. -/
def SetNXRecorded (now : Time) (ttl : Duration) (e : Entry) : Prop :=
  e.existsAt now = true ∨ (Unset now e ∧ (0 < ttl ∨ e.expires = none))

theorem setNX_exists {value : Bytes} {ttl : Duration} (h : e.existsAt now = true) :
    Cell.setNX now value ttl ⟨e, 0⟩ = (false, ⟨e, 0⟩) := by
  unfold Cell.setNX
  rw [Cell.purge_of_fresh (c := ⟨e, 0⟩) (Entry.expired_of_existsAt h)]
  exact if_pos h

theorem setNX_unset (value : Bytes) {ttl : Duration} (hset : Unset now e)
    (hexp : 0 < ttl ∨ e.expires = none) (hnot : e.existsAt now = false) :
    Wrote now value ttl e (Cell.setNX now value ttl ⟨e, 0⟩) := by
  have hdata := Entry.toData_of_not_exists hset.fresh hset.visible hnot
  have hseq := hset.lastSeq
  unfold Cell.setNX
  rw [Cell.purge_of_fresh (c := ⟨e, 0⟩) hset.fresh]
  rw [if_neg (by simp [hnot])]
  refine ⟨rfl, ?_⟩
  obtain ⟨d, groups, expires, lastSeq, rl, queues, tags, nb⟩ := e
  subst hdata hseq
  unfold deadline
  by_cases httl : 0 < ttl
  · rw [if_pos httl, if_pos httl]
    rfl
  · rw [if_neg httl, if_neg httl]
    obtain rfl : expires = none := hexp.resolve_left httl
    rfl

theorem setXX_exists (value : Bytes) (ttl : Duration) (h : e.existsAt now = true) :
    Wrote now value ttl e (Cell.setXX now value ttl ⟨e, 0⟩) := by
  have hfresh : e.expired now = false := Entry.expired_of_existsAt h
  unfold Cell.setXX Wrote deadline
  rw [if_neg (by simp [hfresh]), if_neg (by simp [h])]
  refine ⟨rfl, ?_⟩
  split <;> rfl

theorem setAbsolute_expiryAfter {now ttl : Int} (hnow : 0 ≤ now) (value : Bytes) :
    (Cell.setAbsolute value (expiryAfter now ttl) ⟨e, 0⟩).toEntry
      = e.asString value (deadline now ttl) := by
  rw [Cell.setAbsolute_toEntry, expiryAfter, deadline]
  by_cases h : 0 < ttl
  · rw [if_pos h, if_pos h, isZero_of_nonneg (Int.le_of_lt (Int.add_pos_of_nonneg_of_pos hnow h))]
    rfl
  · rw [if_neg h, if_neg h]
    rfl

theorem setNX_replays {now ttl : Int} (value : Bytes) (hrec : SetNXRecorded now ttl e) :
    Cell.setNX now value ttl ⟨e, 0⟩ = (false, ⟨e, 0⟩) ∨
      Wrote now value ttl e (Cell.setNX now value ttl ⟨e, 0⟩) := by
  cases hex : e.existsAt now with
  | true => exact .inl (setNX_exists hex)
  | false =>
    rcases hrec with h | ⟨hset, hexp⟩
    · exact absurd h (by simp [hex])
    · exact .inr (setNX_unset value hset hexp hex)

theorem setXX_replays (value : Bytes) (ttl : Duration) (hfresh : e.expired now = false) :
    Cell.setXX now value ttl ⟨e, 0⟩ = (false, ⟨e, 0⟩) ∨
      Wrote now value ttl e (Cell.setXX now value ttl ⟨e, 0⟩) := by
  cases hex : e.existsAt now with
  | true => exact .inr (setXX_exists value ttl hex)
  | false =>
    unfold Cell.setXX
    rw [if_neg (by simp [hfresh]), if_pos (by simp [hex])]
    exact .inl rfl

/-- When the record of `SET` does what `SET` did. -/
def SetRecorded (now : Time) (o : SetOptions) (e : Entry) : Prop :=
  if 0 < o.delay then o.delay % second = 0 ∧ (0 < o.ttl → o.ttl % second = 0)
  else (0 < o.ttl → now + o.ttl < 2 ^ 63) ∧
    (o.useNX = true → SetNXRecorded now o.ttl e) ∧
    (o.useXX = true → e.expired now = false)

theorem replayKey_setDelayed {now delay ttl : Int} (hdelay : Int64Range delay)
    (httl : Int64Range ttl) (hpos : 0 < delay) (hwhole : delay % second = 0)
    (hwhole' : 0 < ttl → ttl % second = 0) (value : Bytes) :
    replayKey number R now e (setDelayedRecord value delay ttl)
      = some (Cell.setDelayed now value delay ttl ⟨e, 0⟩).toEntry := by
  refine (replayKey_text .setDelayed _).trans ?_
  by_cases h : 0 < ttl
  · rw [if_pos h]
    show some (Cell.setDelayed now value _ (duration (sscanInt (formatInt (ttl.tdiv second))) second)
      ⟨e, 0⟩).toEntry = _
    rw [duration_tdiv httl h (hwhole' h)]
    exact congrArg (fun d => some (Cell.setDelayed now value d ttl ⟨e, 0⟩).toEntry)
      (duration_tdiv hdelay hpos hwhole)
  · rw [if_neg h]
    show some (Cell.setDelayed now value (duration (sscanInt (formatInt (delay.tdiv second))) second)
      0 ⟨e, 0⟩).toEntry = _
    rw [duration_tdiv hdelay hpos hwhole]
    rw [Cell.setDelayed_forever h]

theorem replays_setRun (hnow : 0 ≤ env.now) {o : SetOptions} (hrec : SetRecorded env.now o e)
    (httl : Int64Range o.ttl) (hdelay : Int64Range o.delay) (value : Bytes) :
    Replays number env e (setRun env.now value o ⟨e, 0⟩) := by
  unfold SetRecorded at hrec
  unfold setRun
  by_cases hd : 0 < o.delay
  · rw [if_pos hd] at hrec ⊢
    exact .one rfl (replayKey_setDelayed hdelay httl hd hrec.1 hrec.2 value)
  rw [if_neg hd] at hrec ⊢
  obtain ⟨hrange, hnx, hxx⟩ := hrec
  have hrecord : replayKey number env.R env.now e (setAbs value (expiryAfter env.now o.ttl))
      = some (e.asString value (deadline env.now o.ttl)) := by
    unfold setAbs
    rw [replayKey_setAbs, absTime_setAbs hnow hrange, setAbsolute_expiryAfter hnow]
  by_cases hNX : o.useNX = true
  · rw [if_pos hNX]
    rcases setNX_replays value (hnx hNX) with heq | hwrote
    · rw [heq]
      exact .unlogged rfl rfl
    · rw [hwrote.eq]
      exact .one rfl (by rw [hrecord, ← hwrote.2])
  rw [if_neg hNX]
  by_cases hXX : o.useXX = true
  · rw [if_pos hXX]
    rcases setXX_replays value o.ttl (hxx hXX) with heq | hwrote
    · rw [heq]
      exact .unlogged rfl rfl
    · rw [hwrote.eq]
      exact .one rfl (by rw [hrecord, ← hwrote.2])
  rw [if_neg hXX]
  refine .one rfl ?_
  rw [hrecord, setAbsolute_expiryAfter hnow]

theorem parseInt64_eq_ok {s : Bytes} {n : Int} (h : parseInt64 R s = .ok n) :
    parseInt s = some n := by
  unfold parseInt64 at h
  split at h
  · cases h
  · rename_i heq
    cases h
    exact heq

theorem atoi_eq_ok {s : Bytes} {n : Int} (h : atoi R s = .ok n) : parseInt s = some n := by
  unfold atoi at h
  split at h
  · cases h
  · rename_i heq
    cases h
    exact heq

theorem parseSetOptions_range {o o' : SetOptions} {args : List Bytes}
    (h : parseSetOptions R o args = .ok o') (httl : Int64Range o.ttl)
    (hdelay : Int64Range o.delay) : Int64Range o'.ttl ∧ Int64Range o'.delay := by
  fun_induction parseSetOptions R o args with
  | case1 => cases h
  | case2 o =>
    cases h
    exact ⟨httl, hdelay⟩
  | case3 o opt rest _ _ ih => exact ih h httl hdelay
  | case4 o opt rest _ _ _ ih => exact ih h httl hdelay
  | case5 => cases h
  | case6 => cases h
  | case7 o opt _ _ _ number rest n _ _ _ ih => exact ih h (wrap64_range _) hdelay
  | case8 o opt _ _ _ number rest n _ _ _ _ ih => exact ih h (wrap64_range _) hdelay
  | case9 o opt _ _ _ number rest n _ _ _ _ ih => exact ih h httl (wrap64_range _)
  | case10 => cases h

theorem replays_set (hnow : 0 ≤ env.now)
    (hrec : ∀ o, setOptions env.R rest = .ok o → SetRecorded env.now o e) :
    Replays number env e (Cmd.set.run env word rest ⟨e, 0⟩) := by
  refine .attempt (fun o ho => ?_)
  have hzero : Int64Range 0 := by unfold Int64Range; omega
  obtain ⟨httl, hdelay⟩ := parseSetOptions_range ho hzero hzero
  exact replays_setRun hnow (hrec o ho) httl hdelay _

theorem replays_setNX (hrec : SetNXRecorded env.now 0 e) :
    Replays number env e (Cmd.setNX.run env word rest ⟨e, 0⟩) := by
  dsimp only [Cmd.setNX, KeyCmd.of]
  rcases setNX_replays (arg rest 2) hrec with heq | hwrote
  · rw [heq]
    exact .unlogged rfl rfl
  · rw [hwrote.eq]
    exact .one rfl (congrArg some hwrote.2.symm)

/-- When the record of `SETEX` or `PSETEX` holds the expiry. -/
def ExpiringRecorded (now unit : Int) (text : Bytes) : Prop :=
  ∀ n, parseInt text = some n → 0 < n →
    0 < now + duration n unit ∧ now + duration n unit < 2 ^ 63

theorem replays_setExpiring {name : String} {unit : Int}
    (hrec : ExpiringRecorded env.now unit (arg rest 2)) :
    Replays number env e ((setExpiring name unit).run env word rest ⟨e, 0⟩) := by
  refine .attempt (fun n hn => ?_)
  split
  · exact .fail _
  · rename_i hpos
    obtain ⟨hlo, hhi⟩ := hrec n (parseInt64_eq_ok hn) (Int.not_le.mp hpos)
    refine .one rfl ?_
    rw [replayKey_setAbs, absTime_nanoText hlo hhi]

/-! ## Changing a string -/

/-- `Sscan` reads the number that `ParseInt` reads, if it reads one. -/
def SameNumber (text : Bytes) : Prop := ∀ n, parseInt text = some n → sscanInt text = n

theorem SameNumber.of_noLeadingZero {text : Bytes} (h : NoLeadingZero text) : SameNumber text :=
  fun _ hn => sscanInt_of_parseInt hn h

/-- `Sscan` reads the floating-point numbers that `ParseFloat` reads and those that
`FormatFloat` writes. -/
structure FloatLaws (R : Runtime) : Prop where
  sscan_parse : ∀ s x, R.parseFloat s = some x → R.sscanFloat s = x
  sscan_format : ∀ x : F64, x.isNaN = false → R.sscanFloat (R.formatFloat x) = x

theorem parseFloat64_eq_ok {s : Bytes} {x : F64} (h : parseFloat64 R s = .ok x) :
    R.parseFloat s = some x := by
  unfold parseFloat64 at h
  split at h
  · cases h
  · rename_i heq
    cases h
    exact heq

theorem echoes_incr (hn : rest.length + 2 = 2) :
    Cmd.incr.Echoing True False .incr number env e word rest := by
  obtain rfl : rest = [] := List.length_eq_zero_iff.mp (by omega)
  have hecho : Echoes True False .incr number env e word [] (.logged env.R (word, [])
      (Cell.incrBy env.now 1 ⟨e, 0⟩) (fun n => [.int n])) :=
    .echo (fun _ => (Cell.incrBy_checked 1).untouched) rfl
  dsimp only [KeyCmd.Echoing, Cmd.incr, KeyCmd.of]
  split
  · split
    · exact .fail _
    · exact hecho
  · exact hecho

theorem echoes_decr (hn : rest.length + 2 = 2) :
    Cmd.decr.Echoing True False .decr number env e word rest := by
  obtain rfl : rest = [] := List.length_eq_zero_iff.mp (by omega)
  exact .echo (fun _ => (Cell.incrBy_checked _).untouched) rfl

theorem echoes_incrBy (hn : rest.length + 2 = 3) (hrec : SameNumber (arg rest 2)) :
    Cmd.incrBy.Echoing True False .incrBy number env e word rest := by
  refine .attempt (fun n hparse => .echo (fun _ => (Cell.incrBy_checked n).untouched) ?_)
  simp only [KeyRecordWord.run, if_pos hn, hrec n (parseInt64_eq_ok hparse)]

theorem echoes_decrBy (hn : rest.length + 2 = 3) (hrec : SameNumber (arg rest 2)) :
    Cmd.decrBy.Echoing True False .decrBy number env e word rest := by
  refine .attempt (fun n hparse => .echo (fun _ => (Cell.incrBy_checked _).untouched) ?_)
  simp only [KeyRecordWord.run, if_pos hn, hrec n (parseInt64_eq_ok hparse)]

theorem echoes_incrByFloat (hR : FloatLaws env.R) (hn : rest.length + 2 = 3) :
    Cmd.incrByFloat.Echoing True False .incrByFloat number env e word rest := by
  refine .attempt (fun x hparse => .echo (fun _ => (Cell.incrByFloat_checked x).untouched) ?_)
  simp only [KeyRecordWord.run, if_pos hn, hR.sscan_parse _ _ (parseFloat64_eq_ok hparse)]

/-- When the record of `GETDEL`, which skips a key that is not visible, deletes the key. -/
def GetDelRecorded (now : Time) (e : Entry) : Prop :=
  e.expired now = false ∧ (e.kv.isSome = true → e.visible now = true)

theorem existsAt_of_kv (hfresh : e.expired now = false)
    (hvis : e.visible now = true) (hkv : e.kv.isSome = true) : e.existsAt now = true := by
  have hany : e.hasAny DataType.all = true :=
    List.any_eq_true.mpr ⟨.string, DataType.mem_all _, hkv⟩
  simp [Entry.existsAt, hfresh, hvis, hany]

theorem replays_getDel (hrec : GetDelRecorded env.now e) :
    Replays number env e (Cmd.getDel.run env word rest ⟨e, 0⟩) := by
  obtain ⟨hfresh, hvis⟩ := hrec
  dsimp only [Cmd.getDel, KeyCmd.of]
  unfold Cell.getDel
  rw [if_neg (by simp [hfresh])]
  cases hkv : e.kv with
  | none => exact .answer _
  | some data =>
    have hex := existsAt_of_kv hfresh (hvis (by simp [hkv])) (by simp [hkv])
    refine .one rfl ?_
    rw [replayKey_del, Store.delCell, if_neg (by simp [hfresh]), if_pos hex]

theorem asString_of_string (hconf : e.conflicts .string = false) (hseq : e.lastSeq = none)
    (value : Bytes) (expires : Option Time) :
    e.asString value expires = { e with kv := some value, expires := expires } := by
  have h (t : DataType) (ht : t ≠ .string) := Data.has_of_not_conflicts hconf ht
  obtain ⟨⟨⟩⟩ := e
  have h2 := h .hash (by decide)
  have h3 := h .list (by decide)
  have h4 := h .set (by decide)
  have h5 := h .zset (by decide)
  have h6 := h .stream (by decide)
  have h7 := h .hll (by decide)
  simp only [Data.has, Option.isSome_eq_false_iff, Option.isNone_iff_eq_none] at *
  subst h2 h3 h4 h5 h6 h7 hseq
  rfl

theorem replays_getSet (hfresh : e.expired env.now = false) :
    Replays number env e (Cmd.getSet.run env word rest ⟨e, 0⟩) := by
  have hpurge : Cell.purge ⟨e, 0⟩ env.now = ⟨e, 0⟩ := Cell.purge_of_fresh hfresh
  have hrun : Cell.getSet env.now (arg rest 2) ⟨e, 0⟩ =
      if e.conflicts .string then (.error .wrongType, ⟨e, 0⟩)
      else (.ok e.kv, Cell.touch ⟨{ e with
        kv := some (arg rest 2), expires := none, hashes := none, lists := none, sets := none,
        zsets := none, streams := none, lastSeq := none }, 0⟩) := by
    unfold Cell.getSet
    rw [hpurge]
  show Replays number env e (.logging env.R (Cell.getSet env.now (arg rest 2) ⟨e, 0⟩) bulkOrNull
    (fun _ => [(bytes "SETABS", [arg rest 2, bytes "0"])]))
  rw [hrun]
  cases hconf : e.conflicts .string with
  | true => exact .unlogged rfl rfl
  | false =>
    refine .logging (fun err herr => absurd herr (by simp)) (fun old _ => foldlM_one ?_)
    rw [replayKey_setAbs, absTime_none, Cell.setAbsolute_toEntry]
    have hlls : e.hlls = none := by
      simpa [Data.has] using Data.has_of_not_conflicts hconf (t := .hll) (by decide)
    simp [Entry.asString, hlls, Cell.touch, isZero]

/-- When the record of `GETEX` finds the key and holds its expiry. -/
def GetExRecorded (now ttl : Int) (persist : Bool) (e : Entry) : Prop :=
  e.expired now = false ∧ (e.kv.isSome = true → persist = true ∨ 0 < ttl →
    e.visible now = true ∧ (persist = false → now + ttl < 2 ^ 63))

theorem replayKey_expireAtAbs (text : Bytes) : replayKey number R now e (expireAtAbs text)
      = some (Cell.expireAt now (if sscanInt text = 0 then zeroTime else sscanInt text)
          ⟨e, 0⟩).2.toEntry :=
  replayKey_text .expireAtAbs _

theorem expireAt_nanoText {at_ : Int} (hrange : Int64Range at_) (hne : at_ ≠ 0) :
    (if sscanInt (nanoText at_) = 0 then zeroTime else sscanInt (nanoText at_)) = at_ := by
  rw [sscanInt_nanoText hrange, if_neg hne]

theorem expireAt_of_exists {now at_ : Time} (h : e.existsAt now = true) :
    (Cell.expireAt now at_ ⟨e, 0⟩).2.toEntry
      = { e with expires := if isZero at_ then none else some at_ } := by
  have hfresh : e.expired now = false := Entry.expired_of_existsAt h
  unfold Cell.expireAt
  rw [if_neg (by simp [hfresh]), if_neg (by simp [h])]
  dsimp only
  split <;> rfl

theorem replays_getExRun (hnow : 0 ≤ env.now) {ttl : Int} {persist : Bool}
    (hrec : GetExRecorded env.now ttl persist e) :
    Replays number env e (getExRun env.now ttl persist ⟨e, 0⟩) := by
  obtain ⟨hfresh, hvis⟩ := hrec
  unfold getExRun Cell.getEx
  rw [if_neg (by simp [hfresh])]
  cases hkv : e.kv with
  | none => exact .answer _
  | some data =>
    have hsome : e.kv.isSome = true := by simp [hkv]
    cases persist with
    | true =>
      have hex := existsAt_of_kv hfresh (hvis hsome (.inl rfl)).1 hsome
      refine .one rfl ?_
      rw [replayKey_expireAtAbs, expireAt_of_exists hex]
      rfl
    | false =>
      by_cases httl : 0 < ttl
      · obtain ⟨hvisible, hrange⟩ := hvis hsome (.inr httl)
        have hpos : (0 : Int) < env.now + ttl := Int.add_pos_of_nonneg_of_pos hnow httl
        have hat := expireAt_nanoText ⟨by omega, hrange rfl⟩ (Int.ne_of_gt hpos)
        simp only [Bool.false_eq_true, if_false, if_pos httl, false_or]
        refine .one rfl ?_
        rw [replayKey_expireAtAbs, hat, expireAt_of_exists (existsAt_of_kv hfresh hvisible hsome),
          isZero_of_nonneg (Int.le_of_lt hpos)]
        rfl
      · simp only [Bool.false_eq_true, if_false, if_neg httl, false_or]
        exact .unlogged rfl rfl

/-! ## Expiry -/

/-- When the record of `EXPIRE` or `PEXPIRE` holds the expiry. -/
def ExpiryRecorded (at_ : Int) : Prop := Int64Range at_ ∧ at_ ≠ 0

theorem replays_expireIn {name : String} {unit : Int}
    (hrec : ∀ n, parseInt (arg rest 2) = some n → ExpiryRecorded (env.now + duration n unit)) :
    Replays number env e ((expireIn name unit).run env word rest ⟨e, 0⟩) := by
  refine .attempt (fun n hn => ?_)
  split
  · exact .answer _
  · obtain ⟨hrange, hne⟩ := hrec n (parseInt64_eq_ok hn)
    refine .one rfl ?_
    rw [replayKey_expireAtAbs, expireAt_nanoText hrange hne]

theorem replays_pExpireAt
    (hrec : ∀ n, parseInt (arg rest 2) = some n → duration n millisecond ≠ 0) :
    Replays number env e (Cmd.pExpireAt.run env word rest ⟨e, 0⟩) := by
  refine .attempt (fun n hn => .one rfl ?_)
  have hrange : Int64Range (duration n millisecond) := wrap64_range _
  rw [replayKey_expireAtAbs, expireAt_nanoText hrange (hrec n (parseInt64_eq_ok hn))]

theorem replays_persist (hfresh : e.expired env.now = false) :
    Replays number env e (Cmd.persist.run env word rest ⟨e, 0⟩) := by
  dsimp only [Cmd.persist, KeyCmd.of]
  unfold Cell.persist
  rw [if_neg (by simp [hfresh])]
  cases hex : e.existsAt env.now with
  | false => exact .answer _
  | true =>
    cases hexp : e.expires with
    | none => exact .unlogged rfl rfl
    | some t =>
      refine .one rfl ?_
      rw [replayKey_expireAtAbs, expireAt_of_exists hex]
      rfl

/-! ## Strings changed in place -/

/-- When the record of `SETRANGE` or `SETBIT` holds the whole string: it is visible, and its
expiry is a whole number of milliseconds away. -/
structure LeftRecorded (now : Int) (e : Entry) : Prop where
  fresh : e.expired now = false
  visible : e.visible now = true
  lastSeq : e.lastSeq = none
  expires : e.expires = none ∨ ∃ m : Int, 0 < m ∧ e.expires = some (now + m * millisecond)
    ∧ now + m * millisecond < 2 ^ 63

theorem timeSub_tdiv {now m : Int} (hm : 0 < m) (hnow : 0 ≤ now)
    (hlt : now + m * 1000000 < 2 ^ 63) : (timeSub (now + m * 1000000) now).tdiv 1000000 = m := by
  have hsub : timeSub (now + m * 1000000) now = m * 1000000 := by
    show max (-(2 ^ 63) : Int) (min (2 ^ 63 - 1) (now + m * 1000000 - now)) = m * 1000000
    omega
  rw [hsub, Int.mul_tdiv_cancel m (by decide)]

theorem pttl_none (hex : e.existsAt now = true) (h : e.expires = none) : e.pttl now = -1 := by
  unfold Entry.pttl Entry.expiryQuery
  rw [if_neg (by simp [hex]), h]

theorem pttl_some {now t : Time} (hex : e.existsAt now = true) (h : e.expires = some t)
    (ht : isZero t = false) : e.pttl now = (timeSub t now).tdiv millisecond := by
  unfold Entry.pttl Entry.expiryQuery
  rw [if_neg (by simp [hex]), h]
  simp [ht]

theorem absTime_left {now : Int} (hnow : 0 ≤ now) (hrec : LeftRecorded now e)
    (hex : e.existsAt now = true) :
    absTime (sscanInt (if 0 < e.pttl now then nanoText (now + duration (e.pttl now) millisecond)
      else bytes "0")) = e.expires.getD zeroTime := by
  rcases hrec.expires with hnone | ⟨m, hm, hsome, hlt⟩
  · rw [pttl_none hex hnone, if_neg (by decide), absTime_none, hnone]
    rfl
  · have hlt' : now + m * 1000000 < 2 ^ 63 := hlt
    have hpos : 0 < now + m * millisecond := show 0 < now + m * 1000000 by omega
    have hpttl : e.pttl now = m :=
      (pttl_some hex hsome (isZero_of_nonneg (Int.le_of_lt hpos))).trans (timeSub_tdiv hm hnow hlt')
    have hdur : duration m millisecond = m * millisecond :=
      wrap64_of_range (show Int64Range (m * 1000000) from ⟨by omega, by omega⟩)
    rw [hpttl, if_pos hm, hdur, absTime_nanoText hpos hlt, hsome]
    rfl

theorem LeftRecorded.expires_eq {now : Int} (hnow : 0 ≤ now) (hrec : LeftRecorded now e) :
    (if isZero (e.expires.getD zeroTime) then none else some (e.expires.getD zeroTime))
      = e.expires := by
  rcases hrec.expires with hnone | ⟨m, hm, hsome, -⟩
  · rw [hnone]
    rfl
  · have hpos : 0 ≤ now + m * millisecond := show 0 ≤ now + m * 1000000 by omega
    rw [hsome, Option.getD_some, isZero_of_nonneg hpos]
    rfl

theorem replayKey_setAbsLeft {now : Int} (hnow : 0 ≤ now)
    (hrec : LeftRecorded now e) (hconf : e.conflicts .string = false) (data : Bytes) {c : Cell}
    (hc : c.toEntry = { e with kv := some data }) :
    replayKey number R now e (setAbsLeft now c) = some c.toEntry := by
  have hrec' : LeftRecorded now { e with kv := some data } :=
    ⟨hrec.fresh, hrec.visible, hrec.lastSeq, hrec.expires⟩
  have hget : Entry.get { e with kv := some data } now = some data := by
    unfold Entry.get
    rw [if_neg (by rw [hrec'.fresh, hrec'.visible]; decide)]
  have hex : Entry.existsAt { e with kv := some data } now = true :=
    existsAt_of_kv hrec'.fresh hrec'.visible rfl
  unfold setAbsLeft
  rw [hc, hget]
  rw [replayKey_setAbs, absTime_left hnow hrec' hex, Cell.setAbsolute_toEntry]
  show some (e.asString data (if isZero (e.expires.getD zeroTime) then none
    else some (e.expires.getD zeroTime))) = _
  rw [hrec.expires_eq hnow, asString_of_string hconf hrec.lastSeq]

theorem replays_setRange (hnow : 0 ≤ env.now) (hrec : LeftRecorded env.now e) :
    Replays number env e (Cmd.setRange.run env word rest ⟨e, 0⟩) := by
  refine .attempt (fun offset _ => ?_)
  unfold Cell.setRange
  rw [Cell.purge_of_fresh (c := ⟨e, 0⟩) hrec.fresh]
  dsimp only
  split
  · exact .unlogged rfl rfl
  · rename_i hconf
    split
    · exact .unlogged rfl rfl
    · refine .one rfl ?_
      exact replayKey_setAbsLeft hnow hrec (by simpa using hconf) _ rfl

theorem replays_setBit (hnow : 0 ≤ env.now) (hrec : LeftRecorded env.now e) :
    Replays number env e (Cmd.setBit.run env word rest ⟨e, 0⟩) := by
  refine .attempt (fun offset _ => .attempt (fun val _ => ?_))
  unfold Cell.setBit
  rw [Cell.purge_of_fresh (c := ⟨e, 0⟩) hrec.fresh]
  dsimp only
  split
  · exact .unlogged rfl rfl
  split
  · exact .unlogged rfl rfl
  split
  · exact .unlogged rfl rfl
  · rename_i hconf
    refine .one rfl ?_
    exact replayKey_setAbsLeft hnow hrec (by simpa using hconf) _ rfl

/-! ## Delays and rate limits -/

theorem run_setDelayed {n : Int} {ttl : Duration} (hn : 4 ≤ rest.length + 2)
    (hdelay : SameNumber (arg rest 3)) (httl : 6 ≤ rest.length + 2 → SameNumber (arg rest 5))
    (hparse : parseInt64 env.R (arg rest 3) = .ok n) (hparse' : delayedTTL env.R rest = .ok ttl)
    (c : Cell) : KeyRecordWord.setDelayed.run number env.R env.now rest c
      = c.setDelayed env.now (arg rest 2) (duration n second) ttl := by
  simp only [KeyRecordWord.run, if_pos hn, hdelay n (parseInt64_eq_ok hparse)]
  unfold delayedTTL at hparse'
  split at hparse'
  · rename_i hex
    rw [if_pos hex]
    cases hnum : parseInt64 env.R (arg rest 5) with
    | error err =>
      rw [hnum] at hparse'
      cases hparse'
    | ok m =>
      rw [hnum] at hparse'
      cases hparse'
      rw [httl hex.1 m (parseInt64_eq_ok hnum)]
  · rename_i hex
    rw [if_neg hex]
    cases hparse'
    rfl

theorem echoes_setDelayed (hn : 4 ≤ rest.length + 2) (hdelay : SameNumber (arg rest 3))
    (httl : 6 ≤ rest.length + 2 → SameNumber (arg rest 5)) :
    Cmd.setDelayed.Echoing True False .setDelayed number env e word rest := by
  refine .attempt (fun n hparse => .attempt (fun ttl hparse' => .always rfl rfl ?_))
  rw [run_setDelayed hn hdelay httl hparse hparse']

/-- `RATELIMIT` logs nothing, so its arguments must not be numbers. -/
theorem replays_rateLimit (hrec : parseInt (arg rest 2) = none ∨ parseInt (arg rest 3) = none) :
    Replays number env e (Cmd.rateLimit.run env word rest ⟨e, 0⟩) := by
  refine .attempt (fun _ hmax => .attempt (fun _ hwindow => ?_))
  have hmax := parseInt64_eq_ok hmax
  have hwindow := parseInt64_eq_ok hwindow
  rcases hrec with h | h
  · rw [h] at hmax
    cases hmax
  · rw [h] at hwindow
    cases hwindow

theorem replays_rateLimitReset (hrec : e.rateLimiters = none) :
    Replays number env e (Cmd.rateLimitReset.run env word rest ⟨e, 0⟩) := by
  refine .unlogged rfl ?_
  show (Cell.rateLimitReset ⟨e, 0⟩).2.toEntry = e
  unfold Cell.rateLimitReset
  rw [hrec]

end

end Vole.Server
