import Vole.Store.StoreOps
import Vole.Go.Decimal

/-!
# The order of stream entries

Stream entries are found by binary search, which relies on their identifiers growing along
the list. An identifier is any text a client sends; it is compared through `parseID`, except
that everything counts as greater than the text `$`. A stream whose last entry is called `$`
therefore takes any identifier, also a smaller one. Without such a name the order is kept.
-/

namespace Vole

open Go Cell List Store

variable {id : Bytes} {now : Time}

/-! ## Identifiers -/

theorem splitDash_of_dash {ms rest : Bytes} (h : ∀ c ∈ ms, c ≠ 45) :
    splitDash (ms ++ 45 :: rest) = (ms, some rest) := by
  have hall : ∀ c ∈ ms, (decide (c ≠ 45)) = true := fun c hc => decide_eq_true (h c hc)
  unfold splitDash
  rw [dropWhile_append_of_pos hall, takeWhile_append_of_pos hall]
  simp

theorem formatInt_nonneg_ne_dash {n : Int} (hn : 0 ≤ n) : ∀ c ∈ formatInt n, c ≠ 45 := by
  intro c hc
  rw [formatInt_eq, if_neg (by omega)] at hc
  have hdec := (decimal_spec n.natAbs).2.1 c hc
  rintro rfl
  exact absurd hdec.1 (by decide)

theorem formatID_head {ms : Int} (hms : 0 ≤ ms) (seq : Int) :
    ∃ c rest, formatID ms seq = c :: rest ∧ 48 ≤ c ∧ c ≤ 57 := by
  obtain ⟨hne, hdec, -, -⟩ := decimal_spec ms.natAbs
  obtain ⟨c, rest, hcons⟩ := exists_cons_of_ne_nil hne
  refine ⟨c, rest ++ 45 :: formatInt seq, ?_, hdec c (by simp [hcons])⟩
  unfold formatID
  rw [formatInt_eq ms, if_neg (by omega), hcons]
  rfl

theorem formatID_ne {ms seq : Int} (hms : 0 ≤ ms) {c : UInt8} (hc : ¬ 48 ≤ c) :
    formatID ms seq ≠ [c] := by
  obtain ⟨d, rest, heq, hd⟩ := formatID_head hms seq
  rw [heq]
  intro h
  exact hc ((cons.inj h).1 ▸ hd.1)

theorem parseID_formatID {ms seq : Int} (hms : 0 ≤ ms) (hms' : ms < 2 ^ 63)
    (hseq : Int64Range seq) : parseID (formatID ms seq) = (ms, seq) := by
  have hminus : formatID ms seq ≠ bytes "-" := formatID_ne hms (by decide)
  have hplus : formatID ms seq ≠ bytes "+" := formatID_ne hms (by decide)
  have hdollar : formatID ms seq ≠ bytes "$" := formatID_ne hms (by decide)
  unfold parseID
  rw [if_neg hminus, if_neg (by simp [hplus, hdollar])]
  unfold formatID
  rw [splitDash_of_dash (formatInt_nonneg_ne_dash hms)]
  dsimp only
  rw [parseIntValue_formatInt ⟨by omega, hms'⟩, Option.map_some, Option.getD_some,
    parseIntValue_formatInt hseq]

theorem parseIntValue_nonneg {s : Bytes} (h : s.head? ≠ some 45) : 0 ≤ parseIntValue s := by
  have hsign : (splitSign s).1 = false := by
    unfold splitSign
    split
    · rfl
    · exact absurd rfl h
    · rfl
  unfold parseIntValue
  dsimp only
  rw [hsign]
  split <;> simp

theorem parseID_range (id : Bytes) :
    0 ≤ (parseID id).1 ∧ (parseID id).1 < 2 ^ 63 ∧ Int64Range (parseID id).2 := by
  unfold parseID
  split
  · exact ⟨by decide, by decide, by unfold Int64Range; omega⟩
  split
  · exact ⟨by decide, by decide, by unfold Int64Range; omega⟩
  dsimp only
  refine ⟨parseIntValue_nonneg ?_, (parseIntValue_range _).2, ?_⟩
  · -- the text before the first dash does not begin with one
    unfold splitDash
    split
    · rename_i heq
      intro hhead
      obtain ⟨rest, rfl⟩ := head?_eq_some_iff.mp hhead
      cases heq
    · intro hhead
      have hmem := mem_takeWhile_imp (mem_of_mem_head? hhead)
      cases hmem
  · cases (splitDash id).2 with
    | none =>
      exact ⟨by decide, by decide⟩
    | some text => exact parseIntValue_range text

/-- The identifier that `prepareStreamIDLocked` makes up is above the last one, unless the
sequence number overflows. -/
theorem compareID_next {last : Bytes} {now ms seq : Int}
    (hms : ms = max (unixMilli now) (parseID last).1) (hseq : Int64Range seq)
    (hstep : ms = (parseID last).1 → seq = (parseID last).2 + 1) :
    compareID (formatID ms seq) last = .gt ∧ parseID (formatID ms seq) = (ms, seq)
      ∧ formatID ms seq ≠ bytes "*" := by
  obtain ⟨hlo, hhi, -⟩ := parseID_range last
  have hmilli : unixMilli now < 2 ^ 63 := (wrap64_range _).2
  have hms0 : 0 ≤ ms := by omega
  have hparse := parseID_formatID hms0 (by omega) hseq
  refine ⟨?_, hparse, formatID_ne hms0 (by decide)⟩
  unfold compareID
  split
  · rfl
  · rw [hparse]
    by_cases heq : ms = (parseID last).1
    · rw [if_neg (by simpa using heq), if_neg (by simp only; omega), if_pos (by simp only; omega)]
    · rw [if_pos heq, if_neg (by simp only; omega)]

theorem prepareStreamID_star {e : Entry} {b : Nat}
    (hroom : unixMilli now ≤ (parseID (lastIDOf (e.streams.getD []))).1 →
      (parseID (lastIDOf (e.streams.getD []))).2 ≠ 2 ^ 63 - 1) :
    ∃ id', prepareStreamID now (bytes "*") ⟨e, b⟩
        = (.ok id', ⟨{ e with lastSeq := some (parseID id').2 }, b⟩) ∧
      compareID id' (lastIDOf (e.streams.getD [])) = .gt ∧ id' ≠ bytes "*" := by
  unfold prepareStreamID
  rw [if_pos rfl]
  have hlast : lastID ⟨e, b⟩ = lastIDOf (e.streams.getD []) := rfl
  rw [hlast]
  generalize lastIDOf (e.streams.getD []) = last at hroom
  obtain ⟨-, -, hrange⟩ := parseID_range last
  by_cases hle : unixMilli now ≤ (parseID last).1
  · have hnext : Int64Range ((parseID last).2 + 1) := ⟨by have := hrange.1; omega,
      by have := hrange.2; omega⟩
    have hseq : wrap64 ((parseID last).2 + 1) = (parseID last).2 + 1 := wrap64_of_range hnext
    have hms : (parseID last).1 = max (unixMilli now) (parseID last).1 := by omega
    obtain ⟨hgt, hparse, hne⟩ := compareID_next hms hnext (fun _ => rfl)
    refine ⟨formatID (parseID last).1 ((parseID last).2 + 1), ?_, hgt, hne⟩
    simp only [if_pos hle, hseq, hparse]
  · have hseq := wrap64_range (e.lastSeq.getD 0 + 1)
    have hms : unixMilli now = max (unixMilli now) (parseID last).1 := by omega
    obtain ⟨hgt, hparse, hne⟩ := compareID_next hms hseq
      (fun heq => absurd (Int.le_of_eq heq) hle)
    refine ⟨formatID (unixMilli now) (wrap64 (e.lastSeq.getD 0 + 1)), ?_, hgt, hne⟩
    simp only [if_neg hle, hparse]

theorem prepareStreamID_cases {e : Entry} {b : Nat}
    (hroom : id = bytes "*" → unixMilli now ≤ (parseID (lastIDOf (e.streams.getD []))).1 →
      (parseID (lastIDOf (e.streams.getD []))).2 ≠ 2 ^ 63 - 1) :
    (∃ err, prepareStreamID now id ⟨e, b⟩ = (.error err, ⟨e, b⟩)) ∨
      ∃ id', prepareStreamID now id ⟨e, b⟩
          = (.ok id', ⟨{ e with lastSeq := some (parseID id').2 }, b⟩) ∧
        compareID id' (lastIDOf (e.streams.getD [])) = .gt ∧ id' ≠ bytes "*" := by
  by_cases hid : id = bytes "*"
  · rw [hid]
    exact .inr (prepareStreamID_star (hroom hid))
  · unfold prepareStreamID
    rw [if_neg hid]
    by_cases hgt : compareID id (lastIDOf (e.streams.getD [])) = .gt
    · right
      refine ⟨id, ?_, hgt, hid⟩
      rw [if_neg (by simpa [lastID] using hgt)]
    · left
      refine ⟨.streamId, ?_⟩
      rw [if_pos (by simpa [lastID] using hgt)]

/-! ## The order of identifiers -/

/-- The parsed identifier `a` comes before `b`. -/
def IdBefore (a b : Bytes) : Prop :=
  (parseID a).1 < (parseID b).1 ∨ ((parseID a).1 = (parseID b).1 ∧ (parseID a).2 < (parseID b).2)

theorem IdBefore.trans {a b c : Bytes} (hab : IdBefore a b) (hbc : IdBefore b c) :
    IdBefore a c := by
  unfold IdBefore at *
  omega

theorem compareID_eq_lt {a b : Bytes} : compareID a b = .lt ↔ b ≠ bytes "$" ∧ IdBefore a b := by
  unfold compareID IdBefore
  by_cases hb : b = bytes "$"
  · simp [hb]
  · rw [if_neg hb]
    by_cases hms : (parseID a).1 = (parseID b).1
    · rw [if_neg (not_not.mpr hms)]
      split
      · simp [*]
      · split <;> simp [*]
    · rw [if_pos hms]
      split
      · simp [*]
      · simp [*]

theorem compareID_eq_gt {a b : Bytes} (hb : b ≠ bytes "$") :
    compareID a b = .gt ↔ IdBefore b a := by
  unfold compareID IdBefore
  rw [if_neg hb]
  by_cases hms : (parseID a).1 = (parseID b).1
  · rw [if_neg (not_not.mpr hms)]
    split
    · simp only [reduceCtorEq, false_iff]
      omega
    · split
      · simp only [true_iff]
        omega
      · simp only [reduceCtorEq, false_iff]
        omega
  · rw [if_pos hms]
    split
    · simp only [reduceCtorEq, false_iff]
      omega
    · simp only [true_iff]
      omega

/-- The entries of a stream are in order, and none is called `$`. -/
structure Ascending (entries : List StreamEntry) : Prop where
  named : ∀ x ∈ entries, x.id ≠ bytes "$"
  sorted : entries.Pairwise (fun a b => compareID a.id b.id = .lt)

namespace Ascending

variable {entries : List StreamEntry}

theorem nil : Ascending [] := ⟨nofun, .nil⟩

variable (h : Ascending entries)
include h

theorem drop (n : Nat) : Ascending (entries.drop n) :=
  ⟨fun x hx => h.named x (mem_of_mem_drop hx), h.sorted.sublist (drop_sublist n entries)⟩

theorem lastIDOf_ne : lastIDOf entries ≠ bytes "$" := by
  unfold lastIDOf
  cases hlast : entries.getLast? with
  | none => decide
  | some x => exact h.named x (mem_of_getLast? hlast)

theorem before_of_last
    (hlast : IdBefore (lastIDOf entries) id) : ∀ x ∈ entries, IdBefore x.id id := by
  intro x hx
  rcases eq_nil_or_concat entries with rfl | ⟨front, last, rfl⟩
  · cases hx
  · rw [concat_eq_append] at *
    have hlast : IdBefore last.id id := by simpa [lastIDOf] using hlast
    rcases mem_append.mp hx with hx | hx
    · have hbefore := (pairwise_append.mp h.sorted).2.2 x hx last (by simp)
      exact (compareID_eq_lt.mp hbefore).2.trans hlast
    · rw [mem_singleton.mp hx]
      exact hlast

theorem append {fields : List Bytes} (hid : id ≠ bytes "$")
    (hgt : compareID id (lastIDOf entries) = .gt) : Ascending (entries ++ [⟨id, fields⟩]) := by
  have hlast : IdBefore (lastIDOf entries) id := (compareID_eq_gt h.lastIDOf_ne).mp hgt
  refine ⟨fun x hx => ?_, pairwise_append.mpr ⟨h.sorted, pairwise_singleton _ _, ?_⟩⟩
  · rcases mem_append.mp hx with hx | hx
    · exact h.named x hx
    · rw [mem_singleton.mp hx]
      exact hid
  · intro x hx y hy
    rw [mem_singleton.mp hy]
    exact compareID_eq_lt.mpr ⟨hid, h.before_of_last hlast x hx⟩

end Ascending

/-! ## The operations -/

/-- The stream of a key, if it has one, is in order. -/
def StreamInOrder (e : Entry) : Prop := ∀ entries, e.streams = some entries → Ascending entries

namespace StreamInOrder

variable {e e' : Entry} {now : Time} {b : Nat}

theorem empty : StreamInOrder Entry.empty := nofun

variable (h : StreamInOrder e)
include h

theorem getD : Ascending (e.streams.getD []) := by
  cases hs : e.streams with
  | none => exact .nil
  | some entries => exact h entries hs

theorem of_eq (heq : e'.streams = e.streams) : StreamInOrder e' :=
  fun entries hs => h entries (heq ▸ hs)

/-- Whatever one of two keys is overlaid with. -/
theorem or (h' : StreamInOrder e') {e'' : Entry}
    (heq : e''.streams = e.streams.or e'.streams) : StreamInOrder e'' := by
  intro entries hs
  rw [heq] at hs
  rcases Option.or_eq_some_iff.mp hs with hs | ⟨-, hs⟩
  · exact h entries hs
  · exact h' entries hs

theorem purged (now : Time) : StreamInOrder (e.purged now) := by
  unfold Entry.purged
  split
  · exact empty
  · exact h

theorem prepareStreamID (id : Bytes) : StreamInOrder (prepareStreamID now id ⟨e, b⟩).2.toEntry := by
  unfold Cell.prepareStreamID
  split
  · exact h.of_eq rfl
  split
  · exact h
  · exact h.of_eq rfl

theorem nextStreamID (id : Bytes) : StreamInOrder (nextStreamID now id ⟨e, b⟩).2.toEntry := by
  have hpurged : StreamInOrder (purge ⟨e, b⟩ now).toEntry := by
    rw [purge_toEntry]
    exact h.purged now
  unfold Cell.nextStreamID
  dsimp only
  split
  · exact hpurged
  · exact hpurged.prepareStreamID id

theorem xAddPrepared (hid : id ≠ bytes "$") (fields : List Bytes) :
    StreamInOrder (xAddPrepared now id fields ⟨e, b⟩).2.toEntry := by
  unfold Cell.xAddPrepared
  split
  · exact h
  split
  · rw [purge_toEntry]
    exact h.purged now
  split
  · exact h
  · rename_i hgt
    have hgt : compareID id (lastIDOf (e.streams.getD [])) = .gt := not_not.mp hgt
    intro entries hs
    cases hs
    exact h.getD.append hid hgt

theorem xTrim (maxLen : Int) : StreamInOrder (xTrim maxLen ⟨e, b⟩).2.toEntry := by
  unfold Cell.xTrim
  dsimp only
  split
  · exact h
  split
  · exact h
  · intro entries hs
    cases hs
    exact h.getD.drop _

end StreamInOrder

section
variable {R : Runtime} {now : Time} {s : Store}

variable (h : ∀ k, StreamInOrder (s.entries k))
include h

theorem put_inOrder {key : Bytes} {c : Cell}
    (hc : StreamInOrder c.toEntry) (k : Bytes) : StreamInOrder ((s.put key c).entries k) := by
  rw [put_entries_apply]
  split
  · exact hc
  · exact h k

theorem del_inOrder (keys : List Bytes) (k : Bytes) :
    StreamInOrder ((del now keys s).2.entries k) := by
  induction keys generalizing s with
  | nil => exact h k
  | cons key rest ih =>
    refine ih (put_inOrder h ?_)
    unfold delCell
    split
    · rw [purge_toEntry]
      exact (h key).purged now
    split
    · exact .empty
    · exact h key

theorem purgeKey_inOrder (key k : Bytes) : StreamInOrder ((s.purgeKey now key).entries k) := by
  refine put_inOrder h ?_ k
  rw [purge_toEntry]
  exact (h key).purged now

theorem rename_inOrder (key newkey k : Bytes) :
    StreamInOrder ((s.rename now key newkey).2.entries k) := by
  rcases rename_cases now key newkey s with ⟨-, heq⟩ | ⟨-, -, hentries⟩
  · rw [heq]
    exact purgeKey_inOrder h key k
  · rw [hentries]
    unfold renamed
    split
    · split
      · exact .empty
      · exact (h key).or .empty rfl
    split
    · exact fun entries hs => absurd hs (by simp [renameLeft])
    · exact h k

theorem copy_inOrder (src dst : Bytes) (replace : Bool)
    (k : Bytes) : StreamInOrder ((s.copy now src dst replace).2.entries k) := by
  rcases copy_cases now src dst replace s with ⟨-, heq⟩ | ⟨-, -, hentries⟩
  · rw [heq]
    exact purgeKey_inOrder h src k
  · rw [hentries]
    unfold copied copyRoom
    split
    · refine StreamInOrder.or ?_ ?_ rfl
      · split
        · exact .empty
        · exact h src
      · split
        · exact .empty
        · exact (h dst).purged now
    · exact h k

omit h

end

/-! ## Runs -/

/-- `XADD` in its two parts, `XTRIM`, `COPY`, `RENAME`, `DEL` and `Dump`. -/
def Op.onStreams : Op → Bool
  | .cell _ (.nextStreamID _) | .cell _ (.xAddPrepared _ _) | .cell _ (.xTrim _)
  | .copy _ _ _ | .rename _ _ | .del _ | .dump _ => true
  | _ => false

/-- The operation adds no entry called `$`. -/
def Op.NoDollar : Op → Prop
  | .cell _ (.xAddPrepared id _) => id ≠ bytes "$"
  | _ => True

theorem Op.apply_inOrder {R : Runtime} {s : Store} {op : Op}
    (hop : op.onStreams = true) (hid : op.NoDollar) (h : ∀ k, StreamInOrder (s.entries k)) :
    ∀ k, StreamInOrder ((op.apply R now s).entries k) := by
  match op, hop, hid with
  | .cell key (.nextStreamID id), _, _ => exact put_inOrder h ((h key).nextStreamID id)
  | .cell key (.xAddPrepared id fields), _, hid =>
    exact put_inOrder h ((h key).xAddPrepared hid fields)
  | .cell key (.xTrim maxLen), _, _ => exact put_inOrder h ((h key).xTrim maxLen)
  | .copy src dst replace, _, _ => exact copy_inOrder h src dst replace
  | .rename key newkey, _, _ => exact rename_inOrder h key newkey
  | .del names, _, _ => exact del_inOrder h names
  | .dump hint, _, _ =>
    intro k
    exact purgeExpired_entries now hint s k ▸ (h k).purged now

theorem Reach.inOrder {R : Runtime} {s : Store}
    (h : Reach R (fun _ _ op => op.onStreams = true ∧ op.NoDollar) s) :
    ∀ k, StreamInOrder (s.entries k) := by
  induction h with
  | new => exact fun _ => .empty
  | step now op _ _ hop ih => exact Op.apply_inOrder hop.1 hop.2 ih
  | load now then_ hint hint' _ _ _ ih =>
    intro k
    rw [load_entries, dump_entries]
    refine StreamInOrder.purged ?_ now
    exact ((ih k).purged then_).of_eq rfl

/-- The sequence number after the last one does not overflow: `XADD` with `*` goes on from the
last entry only if the clock is not ahead of it. -/
def RoomAfter (now : Time) (last : Bytes) : Prop :=
  unixMilli now ≤ (parseID last).1 → (parseID last).2 ≠ 2 ^ 63 - 1

theorem nextStreamID_star {c : Cell} (hconf : (c.purge now).streamConflicts = false)
    (hroom : RoomAfter now (c.purge now).lastID) : ∃ id, nextStreamID now (bytes "*") c
        = (.ok id, { c.purge now with lastSeq := some (parseID id).2 }) ∧
      compareID id (c.purge now).lastID = .gt := by
  unfold nextStreamID
  rw [if_neg (by simp [hconf])]
  obtain ⟨id, hid, hgt, -⟩ := prepareStreamID_star (e := (c.purge now).toEntry)
    (b := (c.purge now).bumps) hroom
  exact ⟨id, hid, hgt⟩

theorem xAddPrepared_ok {later : Time} {fields : List Bytes} {c : Cell}
    (hfields : badFields fields = false) (hfresh : c.expired later = false)
    (hgt : compareID id c.lastID = .gt) : (xAddPrepared later id fields c).1 = .ok () := by
  unfold xAddPrepared
  rw [if_neg (by simp [hfields]), if_neg (by simp [hfresh]), if_neg (not_not.mpr hgt)]

/-- **The entries of a stream stay in order.** In every run of `XADD`, `XTRIM`, `COPY`, `RENAME`,
`DEL` and of loading a dump, at whatever times, in which no entry is called `$`, each entry of
a stream compares as less than all later ones. With `*`, `XADD` then finds an identifier
after the last entry and adds it, unless the sequence number overflows. -/
theorem reach_streams_ascend (R : Runtime) (s : Store)
    (h : Reach R (fun _ _ op => op.onStreams = true ∧ op.NoDollar) s) (key : Bytes) :
    (∀ entries, (s.entries key).streams = some entries →
      entries.Pairwise (fun a b => compareID a.id b.id = .lt)) ∧
    ∀ now, ((s.cell key).purge now).streamConflicts = false →
      RoomAfter now ((s.cell key).purge now).lastID →
      ∃ id, (Cell.nextStreamID now (bytes "*") (s.cell key)).1 = .ok id ∧
        compareID id ((s.cell key).purge now).lastID = .gt ∧
        ∀ later fields, Cell.badFields fields = false →
          ((s.cell key).purge now).expired later = false → (Cell.xAddPrepared later id fields
            (Cell.nextStreamID now (bytes "*") (s.cell key)).2).1 = .ok () := by
  refine ⟨fun entries hs => (h.inOrder key entries hs).sorted, fun now hconf hroom => ?_⟩
  obtain ⟨id, hnext, hgt⟩ := nextStreamID_star hconf hroom
  refine ⟨id, by rw [hnext], hgt, fun later fields hfields hfresh => ?_⟩
  rw [hnext]
  exact xAddPrepared_ok hfields hfresh hgt

/-- The store after `XADD` of an entry with the given identifier. -/
def xAdded (id : String) (s : Store) : Store :=
  (Op.cell (bytes "s") (.xAddPrepared (bytes id) [bytes "f", bytes "v"])).apply default 1
    ((Op.cell (bytes "s") (.nextStreamID (bytes id))).apply default 1 s)

/-- `XADD s 5-1 f v`, then `XADD s * f v` by a clock that stands at the epoch. -/
theorem reach_streams_ascend_one : (((xAdded "5-1" Store.new).entries (bytes "s")).streams
        = some [⟨bytes "5-1", [bytes "f", bytes "v"]⟩]) ∧
      ∃ id, (Cell.nextStreamID 1 (bytes "*") ((xAdded "5-1" Store.new).cell (bytes "s"))).1
        = .ok id ∧ compareID id (bytes "5-1") = .gt := by
  have hreach : Reach default (fun _ _ op => op.onStreams = true ∧ op.NoDollar)
      (xAdded "5-1" new) :=
    .step 1 _ (.step 1 _ .new rfl ⟨rfl, trivial⟩) rfl ⟨rfl, by show bytes "5-1" ≠ _; decide⟩
  obtain ⟨-, hstar⟩ := reach_streams_ascend default _ hreach (bytes "s")
  obtain ⟨id, hid, hgt, -⟩ := hstar 1 rfl (fun _ => by decide)
  exact ⟨rfl, id, hid, hgt⟩

/-- `XADD s $ f v` and then `XADD s 1-1 f v`: the second entry comes before the first. -/
theorem streams_out_of_order :
    Reach default (fun _ _ op => op.onStreams = true) (xAdded "1-1" (xAdded "$" Store.new)) ∧
      ((xAdded "1-1" (xAdded "$" Store.new)).entries (bytes "s")).streams
        = some [⟨bytes "$", [bytes "f", bytes "v"]⟩, ⟨bytes "1-1", [bytes "f", bytes "v"]⟩] ∧
      compareID (bytes "$") (bytes "1-1") = .gt := by
  refine ⟨?_, by decide +kernel, by decide⟩
  exact .step 1 _ (.step 1 _ (.step 1 _ (.step 1 _ .new rfl rfl) rfl rfl) rfl rfl) rfl rfl

end Vole
