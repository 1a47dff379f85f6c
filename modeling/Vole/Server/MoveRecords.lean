import Vole.Server.StoreRecords

/-!
# The records of lists, sets, streams and queues

The cases of `exec` that move elements from one key to another, or that work on a key that
is not their first argument: when replaying their records does what the command did.
-/

namespace Vole.Server

open Go Cmd Cell StoreRecordWord Entry

variable {now : Time} {R : Runtime} {e : Entry} (left : Bool)

/-! ## Lists -/

section
variable {env : Env} {args : List Bytes} {s : Store}

theorem replays_listPush (hs : s.Idle) {left : Bool} (w : StoreRecordWord)
    (hword : toUpper (args.headD []) = bytes (RecordWord.text (.store w)))
    (hrun : 2 < args.length → w.run env.now args s
      = (s.pushList env.now (args.getD 1 []) left (args.drop 2)).2) :
    ReplaysStore env.R env.now s (Cmd.listPush left env args s) := by
  unfold Cmd.listPush
  split
  · exact .fail hs _
  · rename_i hn
    have hlen : 3 ≤ args.length := by simpa using hn
    refine .owned hs ?_
    split
    · exact .fail hs _
    · exact .echo hs w hword rfl (hrun (by omega)).symm

theorem replays_rPush (hs : s.Idle) (hword : toUpper (args.headD []) = bytes "RPUSH") :
    ReplaysStore env.R env.now s (Cmd.rPush env args s) :=
  replays_listPush hs .rPush hword (fun hn => by simp only [run, if_pos hn])

/-- The key has not expired, and if it is a list it is nothing else. -/
def PlainList (now : Time) (e : Entry) : Prop :=
  e.expired now = false ∧ (e.lists.isSome = true → e.conflicts .list = false)

theorem lists_of_popValue {left : Bool} {value : Bytes} {rest : List Bytes}
    (h : popValue left (e.lists.getD []) = some (value, rest)) : e.lists.isSome = true := by
  cases hl : e.lists with
  | some => rfl
  | none =>
    rw [hl] at h
    cases left <;> cases h

theorem bPopCell_eq (h : PlainList now e) :
    (Store.bPopCell now left ⟨e, 0⟩ = (none, ⟨e, 0⟩)) ∨
      ∃ value, (Store.bPopCell now left ⟨e, 0⟩).1 = some value ∧
        (Store.bPopCell now left ⟨e, 0⟩).2 = (popList now left ⟨e, 0⟩).2 := by
  have hexp : ¬ (mk e 0).expired now = true := by simp [h.1]
  unfold Store.bPopCell popList
  rw [if_neg hexp, if_neg hexp]
  cases hpop : popValue left (e.lists.getD []) with
  | none => exact .inl rfl
  | some popped =>
    have hconf := h.2 (lists_of_popValue hpop)
    rw [if_neg (by simp [hconf])]
    exact .inr ⟨popped.1, rfl, rfl⟩

theorem replayRecord_pop (key : Bytes) :
    replayRecord R now s [bytes (if left then "LPOP" else "RPOP"), key]
      = s.modify key (fun c => (c.popList now left).2) := by
  cases left with
  | true => exact replayRecord_keyText .lPop key []
  | false => exact replayRecord_keyText .rPop key []

theorem bPopTry_cases {keys : List Bytes}
    (h : ∀ k ∈ keys, PlainList now (s.entries k)) : Store.bPopTry now left keys s = (none, s) ∨
      ∃ key value, Store.bPopTry now left keys s
        = (some (key, value), s.modify key (fun c => (c.popList now left).2)) := by
  induction keys with
  | nil => exact .inl rfl
  | cons k rest ih =>
    unfold Store.bPopTry
    rcases bPopCell_eq left (h k (by simp)) with hnone | ⟨value, hsome, hcell⟩
    · have hkey : s.onKey k (Store.bPopCell now left) = (none, s) := by
        unfold Store.onKey Store.cell
        rw [hnone]
        exact congrArg (Prod.mk none) (Store.put_cell s k)
      rw [hkey]
      exact ih (fun j hj => h j (by simp [hj]))
    · right
      have hkey : s.onKey k (Store.bPopCell now left)
          = (some value, s.modify k (fun c => (c.popList now left).2)) := by
        unfold Store.onKey Store.modify Store.cell
        dsimp only
        rw [hsome, hcell]
      rw [hkey]
      exact ⟨k, value, rfl⟩

theorem replays_blpop (hs : s.Idle) {left : Bool}
    (hrec : ∀ k ∈ args.tail.dropLast, PlainList env.now (s.entries k)) :
    ReplaysStore env.R env.now s (Cmd.blpop left env args s) := by
  unfold Cmd.blpop
  split
  · exact .fail hs _
  refine .attempt hs (fun _ _ => .owned hs ?_)
  rcases bPopTry_cases left hrec with hnone | ⟨key, value, hsome⟩
  · rw [hnone]
    exact .answer hs _
  · rw [hsome]
    exact .exactly hs (replayRecord_pop left key).symm

/-- When the two records of `LMOVE` do what `LMove` did: neither key has expired, or is a
document or a series besides. -/
def MoveRecorded (now : Time) (e : Entry) : Prop :=
  e.expired now = false ∧ e.jsons = none ∧ e.timeseries = none

theorem conflicts_list (h : Store.lMoveConflicts e = false) (hjson : e.jsons = none)
    (hts : e.timeseries = none) : e.conflicts .list = false := by
  have hothers : e.conflicts .list
      = (Store.lMoveConflicts e || (e.jsons.isSome || e.timeseries.isSome)) := by
    simp [Data.conflicts, Store.lMoveConflicts, Data.hasAny, DataType.others, DataType.all,
      Data.has, Bool.or_assoc]
  rw [hothers, h, hjson, hts]
  rfl

theorem setList_fresh {b : Nat} (h : e.expired now = false)
    (items : List Bytes) : (setList items ⟨e, b⟩).expired now = false := by
  unfold setList
  split
  · rfl
  · exact h

theorem setList_conflicts {b : Nat} (items : List Bytes) :
    (setList items ⟨e, b⟩).conflicts .list = e.conflicts .list := by
  unfold setList
  split <;> rfl

theorem pushList_plain (hs : s.Idle) {key : Bytes} (left : Bool) (value : Bytes)
    (hfresh : (s.entries key).expired now = false)
    (hconf : (s.entries key).conflicts .list = false) :
    (s.pushList now key left [value]).2 = s.modify key (fun c => touch { c with
      lists := some (pushValues left [value] (c.lists.getD [])) }) := by
  have hcell : pushList now left [value] (s.cell key) = (.ok (), touch { s.cell key with
      lists := some (pushValues left [value] ((s.cell key).lists.getD [])) }) := by
    unfold pushList
    rw [if_neg (List.cons_ne_nil _ _), purge_of_fresh (c := s.cell key) hfresh]
    exact if_neg (by simp [hconf])
  unfold Store.pushList Store.onKey
  rw [hcell]
  show Store.wakeLoop key (s.listWaits key) _ = _
  rw [hs key]
  rfl

theorem lMoveWrite_same (hs : s.Idle) {src dst : Bytes} {srcLeft dstLeft : Bool}
    {value : Bytes} {rest : List Bytes}
    (hpop : popValue srcLeft ((s.entries src).lists.getD []) = some (value, rest))
    (hsrc : (s.entries src).expired now = false ∧ (s.entries src).conflicts .list = false)
    (hdst : (s.entries dst).expired now = false ∧ (s.entries dst).conflicts .list = false) :
    (s.lMoveWrite src dst dstLeft value rest).Same
      ((s.modify src (fun c => (c.popList now srcLeft).2)).pushList now dst dstLeft [value]).2 := by
  have hcell : (popList now srcLeft (s.cell src)).2
      = (setList rest (s.cell src)).touch := by
    unfold popList
    rw [if_neg (by simp [hsrc.1]), if_neg (by simp [hsrc.2])]
    dsimp only [Store.cell]
    rw [hpop]
  have hfirst : (s.modify src (setList rest)).Same
      (s.modify src (fun c => (c.popList now srcLeft).2)) :=
    Store.Same.modify_congr (.refl hs) src (by rw [hcell, touch_toEntry])
  -- the destination is still a plain list after the pop, also when it is the source
  have hdst' : ((s.modify src (fun c => (c.popList now srcLeft).2)).entries dst).expired now = false
      ∧ ((s.modify src (fun c => (c.popList now srcLeft).2)).entries dst).conflicts .list
        = false := by
    rw [Store.modify_entries]
    split
    · rw [hcell]
      exact ⟨setList_fresh hsrc.1 rest, (setList_conflicts rest).trans hsrc.2⟩
    · exact hdst
  rw [pushList_plain hfirst.idle' dstLeft value hdst'.1 hdst'.2]
  have hsecond : (((s.modify src (setList rest)).modify dst (fun c =>
      { c with lists := some (pushValues dstLeft [value] (c.lists.getD [])) })).touchKeys
      [src, dst]).Same
      ((s.modify src (fun c => (c.popList now srcLeft).2)).modify dst (fun c => touch { c with
        lists := some (pushValues dstLeft [value] (c.lists.getD [])) })) := by
    refine Store.Same.touchKeys_left (Store.Same.modify_congr hfirst dst ?_) [src, dst]
    rfl
  have hwake := (Store.Mirrors.wake hsecond dst).1
  unfold Store.lMoveWrite
  dsimp only
  rw [id] at hwake
  rw [hwake]
  exact hsecond

theorem replayRecord_push (key value : Bytes) :
    replayRecord R now s [bytes (if left then "LPUSH" else "RPUSH"), key, value]
      = (s.pushList now key left [value]).2 := by
  cases left with
  | true => exact replayRecord_word .lPush rfl
  | false => exact replayRecord_word .rPush rfl

theorem replays_moveElement (hs : s.Idle) {srcLeft dstLeft : Bool} {src dst : Bytes}
    (hsrc : MoveRecorded env.now (s.entries src)) (hdst : MoveRecorded env.now (s.entries dst)) :
    ReplaysStore env.R env.now s (Cmd.moveElement srcLeft dstLeft env src dst s) := by
  have hkeep : (s.purgeKey env.now src).purgeKey env.now dst = s := by
    rw [Store.purgeKey_of_fresh hsrc.1, Store.purgeKey_of_fresh hdst.1]
  have hsame : ∀ {e : Entry}, MoveRecorded env.now e → e.purged env.now = e :=
    fun h => if_neg (by simp [h.1])
  unfold Cmd.moveElement
  rcases Store.lMove_cases env.now src dst srcLeft dstLeft s with
    ⟨r, hr, heq⟩ | ⟨value, rest, hpop, hconf, hconf', heq⟩
  · rw [Store.purgeKey_of_fresh hsrc.1, Store.purgeKey_of_fresh hdst.1, or_self] at heq
    rw [heq]
    cases r with
    | error err => exact .unlogged hs rfl rfl
    | ok v =>
      cases v with
      | none => exact .unlogged hs rfl rfl
      | some v => exact absurd rfl (hr v)
  · rw [hkeep] at heq
    rw [hsame hsrc] at hpop hconf
    rw [hsame hdst] at hconf'
    have hplain := conflicts_list hconf hsrc.2.1 hsrc.2.2
    have hplain' : (s.entries dst).conflicts .list = false := by
      by_cases hkey : src = dst
      · rw [← hkey]
        exact hplain
      · exact conflicts_list (hconf' hkey) hdst.2.1 hdst.2.2
    rw [heq]
    show (s.lMoveWrite src dst dstLeft value rest).Same (replayRecord env.R env.now
      (replayRecord env.R env.now s [bytes (if srcLeft then "LPOP" else "RPOP"), src])
      [bytes (if dstLeft then "LPUSH" else "RPUSH"), dst, value])
    rw [replayRecord_pop, replayRecord_push]
    exact lMoveWrite_same hs hpop ⟨hsrc.1, hplain⟩ ⟨hdst.1, hplain'⟩

theorem replays_lMove (hs : s.Idle) (hsrc : MoveRecorded env.now (s.entries (args.getD 1 [])))
    (hdst : MoveRecorded env.now (s.entries (args.getD 2 []))) :
    ReplaysStore env.R env.now s (Cmd.lMove env args s) := by
  refine .counted hs (fun _ => .owned hs ?_)
  dsimp only
  split
  · exact .fail hs _
  · exact replays_moveElement hs hsrc hdst

/-! ## Sorting -/

theorem sortResult_ne_nil {alpha desc : Bool} {offset count : Int} {elements result : List Bytes}
    (h : offset.toNat < elements.length)
    (hresult : Store.sortResult R alpha desc offset count elements = .ok result) :
    result ≠ [] := by
  have hlen : (Store.sortedElements R alpha desc elements).length = elements.length := by
    unfold Store.sortedElements
    cases desc <;> cases alpha <;> simp [(sliceStable_perm elements).length_eq]
  unfold Store.sortResult at hresult
  dsimp only at hresult
  generalize Store.sortedElements R alpha desc elements = sorted at hlen hresult
  rintro rfl
  have hdrop : sorted.drop offset.toNat ≠ [] := by
    rw [Ne, List.drop_eq_nil_iff]
    omega
  split_ifs at hresult with hcut hneg hcount
  · exact (List.take_eq_nil_iff.mp (Except.ok.inj hresult)).elim (by omega) hdrop
  · exact hdrop (Except.ok.inj hresult)
  · rw [Except.ok.inj hresult, List.length_nil] at hlen
    omega

/-- When the records of `SORT ... STORE` leave what `Sort` left: an empty result is not
logged, and `DEL` passes over a destination that is not visible. -/
def SortRecorded (now : Time) (hint : List Bytes) (o : SortOptions) (src dst : Entry) : Prop :=
  src.expired now = false ∧ (o.storeKey ≠ [] → dst = Entry.empty ∨
    ((dst.existsAt now = true ∨ dst.expired now = true) ∧
      ∃ elements, Store.sortElements src hint = some elements ∧
        o.offset.toNat < elements.length))

/-- After `DEL` and `RPUSH` the destination holds the sorted list and nothing else. -/
theorem replay_sortStore (hs : s.Idle) {dst : Bytes} {result : List Bytes} (hne : result ≠ [])
    (hdst : s.entries dst = empty ∨ (s.entries dst).existsAt now = true
      ∨ (s.entries dst).expired now = true) : (s.modify dst (Store.sortStore result)).Same
      (replay R now [[bytes "DEL", dst], bytes "RPUSH" :: dst :: result] s) := by
  have hdel : (Store.delCell now (s.cell dst)).2.toEntry = empty := by
    unfold Store.delCell
    split
    · rename_i hexp
      rw [purge_toEntry, purged, if_pos hexp]
    split
    · rfl
    · rename_i hexp hex
      rcases hdst with h | h | h
      · exact h
      · exact absurd h hex
      · exact absurd h hexp
  have hfirst : replayRecord R now s [bytes "DEL", dst]
      = s.modify dst (fun c => (Store.delCell now c).2) := replayRecord_word .del rfl
  show (s.modify dst (Store.sortStore result)).Same (replayRecord R now
    (replayRecord R now s [bytes "DEL", dst]) (bytes "RPUSH" :: dst :: result))
  rw [hfirst, replayRecord_word .rPush rfl]
  generalize hs₁ : s.modify dst (fun c => (Store.delCell now c).2) = s₁
  have hsame : (s.put dst ⟨empty, 0⟩).Same s₁ := by
    rw [← hs₁]
    exact (Store.Same.refl hs).put Function.injective_id dst hdel.symm
  have hempty : s₁.cell dst = ⟨empty, 0⟩ := by
    have hkey := hsame.inside dst
    rw [id, Store.put_entries_self] at hkey
    rw [Store.cell, ← hkey]
  have hpush : run now .rPush (bytes "RPUSH" :: dst :: result) s₁
      = (s₁.pushList now dst false result).2 := by
    have hpos := List.length_pos_iff.mpr hne
    simp only [run, List.length_cons]
    rw [if_pos (by omega)]
    rfl
  have hcell : pushList now false result (s₁.cell dst)
      = (.ok (), touch ⟨{ empty with lists := some result }, 0⟩) := by
    rw [hempty]
    unfold pushList
    rw [if_neg hne]
    rfl
  have hwrite : (s₁.pushList now dst false result).2
      = s₁.put dst (touch ⟨{ empty with lists := some result }, 0⟩) := by
    unfold Store.pushList Store.onKey
    rw [hcell]
    dsimp only
    unfold Store.wakeListWaiters
    show Store.wakeLoop dst (s₁.listWaits dst) _ = _
    rw [hsame.idle' dst]
    rfl
  rw [hpush, hwrite]
  refine hsame.put_put ?_
  unfold Store.sortStore
  dsimp only
  rw [if_neg hne]
  rfl

theorem replays_sortRun (hs : s.Idle) {key : Bytes} {o : SortOptions}
    (hrec : SortRecorded env.now env.hint o (s.entries key) (s.entries o.storeKey)) :
    ReplaysStore env.R env.now s (Cmd.sortRun env key o s) := by
  obtain ⟨hfresh, hdst⟩ := hrec
  have hexp : ¬ (s.entries key).expired env.now = true := by
    rw [hfresh]
    exact Bool.false_ne_true
  unfold Cmd.sortRun Store.sort
  dsimp only
  rw [if_neg hexp]
  by_cases hstore : o.storeKey = []
  · simp only [if_pos hstore]
    cases Store.sortElements (s.entries key) env.hint with
    | none =>
      dsimp only
      by_cases hkv : (s.entries key).kv.isSome = true
      · rw [if_pos hkv]
        exact .unlogged hs rfl rfl
      · rw [if_neg hkv]
        exact .unlogged hs rfl rfl
    | some elements =>
      dsimp only
      cases Store.sortResult env.R o.alpha o.desc o.offset o.count elements with
      | error e => exact .unlogged hs rfl rfl
      | ok result => exact .unlogged hs rfl rfl
  simp only [if_neg hstore]
  have hdst := hdst hstore
  generalize o.storeKey = dst at hstore hdst
  cases helems : Store.sortElements (s.entries key) env.hint with
  | none =>
    have hempty : s.entries dst = empty := by
      rcases hdst with h | ⟨-, elements, h, -⟩
      · exact h
      · rw [helems] at h
        cases h
    dsimp only
    by_cases hkv : (s.entries key).kv.isSome = true
    · rw [if_pos hkv]
      exact .unlogged hs rfl rfl
    · rw [if_neg hkv]
      -- the empty result deletes a destination that holds nothing
      have hdelete : (s.modify dst (fun c => c.delete.touch)).Same (s.modify dst id) :=
        Store.Same.modify_congr (.refl hs) dst hempty.symm
      rwa [show s.modify dst id = s from Store.put_cell s dst] at hdelete
  | some elements =>
    dsimp only
    cases hresult : Store.sortResult env.R o.alpha o.desc o.offset o.count elements with
    | error e => exact .unlogged hs rfl rfl
    | ok result =>
    dsimp only
    split
    · rename_i hnil
      have hempty : s.entries dst = empty := by
        rcases hdst with h | ⟨-, elements', h, hlt⟩
        · exact h
        · rw [helems] at h
          cases h
          exact absurd hnil (sortResult_ne_nil hlt hresult)
      rw [hnil]
      show (s.modify dst (Store.sortStore [])).Same s
      have hdelete : (s.modify dst (Store.sortStore [])).Same (s.modify dst id) :=
        Store.Same.modify_congr (.refl hs) dst hempty.symm
      rwa [show s.modify dst id = s from Store.put_cell s dst] at hdelete
    · rename_i hne
      refine replay_sortStore hs hne ?_
      rcases hdst with h | ⟨h, -⟩
      · exact .inl h
      · exact .inr h

theorem replays_sort (hs : s.Idle)
    (hrec : ∀ o, parseSort env.R ⟨false, false, 0, 0, []⟩ (args.drop 2) = .ok o →
      SortRecorded env.now env.hint o (s.entries (args.getD 1 [])) (s.entries o.storeKey)) :
    ReplaysStore env.R env.now s (Cmd.sort env args s) := by
  refine .counted hs (fun _ => .owned hs (.attempt hs (fun o ho => ?_)))
  have hrun := replays_sortRun hs (hrec o ho)
  split
  · exact hrun
  · exact .owned hs hrun

/-! ## Sets and estimates -/

theorem replays_setStore (hs : s.Idle) (name : String) (read : SetReader) :
    ReplaysStore env.R env.now s (Cmd.setStore name read env args s) := by
  refine .counted hs (fun _ => .owned hs ?_)
  cases read s env.now (args.drop 2) with
  | error err => exact .fail hs _
  | ok members =>
    refine .exactly hs ?_
    dsimp only
    unfold replaceSet replay
    rw [List.foldl_cons, replayRecord_word .del rfl]
    split
    · rfl
    · rename_i hne
      have hpos := List.length_pos_iff.mpr hne
      rw [List.foldl_cons, List.foldl_nil]
      rw [show bytes "SADD" = bytes (RecordWord.text (.key .sAdd)) from rfl,
        replayRecord_keyText]
      refine congrArg (Store.modify _ (args.getD 1 [])) (funext (fun c => ?_))
      simp only [KeyRecordWord.run]
      rw [if_pos (by omega)]

theorem replays_sMove (hs : s.Idle) (hword : toUpper (args.headD []) = bytes "SMOVE") :
    ReplaysStore env.R env.now s (Cmd.sMove env args s) := by
  refine .counted hs (fun hn => .owned hs (.owned hs (.echo hs .sMove hword rfl ?_)))
  have hlen : args.length = 4 := of_decide_eq_true hn
  simp only [run]
  rw [if_pos hlen]
  rfl

theorem replays_pfMerge (hs : s.Idle) (hword : toUpper (args.headD []) = bytes "PFMERGE") :
    ReplaysStore env.R env.now s (Cmd.pfMerge env args s) := by
  refine .counted hs (fun hn => .owned hs (.echo hs .pfMerge hword rfl ?_))
  have hlen : 2 ≤ args.length := of_decide_eq_true hn
  simp only [run]
  rw [if_pos hlen]

/-! ## Streams -/

/-- The record takes the sixth word for `MKSTREAM` where the command has checked that it is. -/
theorem run_xGroup {now : Int} (hlen : args.length = 5 ∨ args.length = 6)
    (hcreate : ¬(!equalFold (args.getD 1 []) "CREATE") = true)
    (hmk : ¬(args.length = 6 ∧ (!equalFold (args.getD 5 []) "MKSTREAM") = true)) :
    StoreRecordWord.run now .xGroup args s
      = s.put (args.getD 2 []) ((s.cell (args.getD 2 [])).xGroupCreate now (args.getD 3 [])
          (args.getD 4 []) (decide (args.length = 6))).2 := by
  have hcond : 5 ≤ args.length ∧ equalFold (args.getD 1 []) "CREATE" = true :=
    ⟨by omega, by simpa using hcreate⟩
  have hflag : (decide (args.length = 6) && equalFold (args.getD 5 []) "MKSTREAM")
      = decide (args.length = 6) := by
    by_cases h6 : args.length = 6
    · have hfold : equalFold (args.getD 5 []) "MKSTREAM" = true := by
        simpa [h6] using hmk
      rw [hfold, Bool.and_true]
    · rw [decide_eq_false h6, Bool.false_and]
  simp only [run]
  rw [if_pos hcond, hflag]
  rfl

theorem replays_xGroup (hs : s.Idle) (hword : toUpper (args.headD []) = bytes "XGROUP") :
    ReplaysStore env.R env.now s (Cmd.xGroup env args s) := by
  refine .counted hs (fun hn => ?_)
  have hlen : args.length = 5 ∨ args.length = 6 := of_decide_eq_true hn
  split
  · exact .fail hs _
  split
  · exact .fail hs _
  rename_i hcreate hmk
  refine .owned hs ?_
  have hput : s.put (args.getD 2 []) (s.cell (args.getD 2 [])) = s := Store.put_cell s _
  unfold xGroupRun
  dsimp only
  split
  · exact .unlogged hs rfl hput
  split
  · exact .unlogged hs rfl hput
  split
  · exact .unlogged hs rfl hput
  · exact .echo hs .xGroup hword rfl (run_xGroup hlen hcreate hmk).symm

theorem Cell.setGroup_self {c : Cell} {name : Bytes} {g : ConsumerGroup}
    (h : c.group name = some g) : c.setGroup name g = c := by
  obtain ⟨groups, hgroups, hget⟩ := Option.bind_eq_some_iff.mp h
  unfold setGroup
  rw [hgroups, Option.getD_some, GoMap.insert_of_get hget, ← hgroups]

theorem deliverRecord_same {now : Int} (hnow : InEpoch now) (hs : s.Idle)
    (stream group consumer : Bytes) (ids : List Bytes) :
    (s.modify stream (fun c => (c.xGroupDeliver now group consumer ids now).2)).Same
      (replayRecord R now s (deliverRecord now stream group consumer ids)) := by
  have hrange : Int64Range now := ⟨by have := hnow.1; omega, hnow.2⟩
  have hrecord : deliverRecord now stream group consumer ids
      = bytes (RecordWord.text (.key .xGroupDeliver)) :: stream
        :: group :: consumer :: nanoText now :: ids := rfl
  rw [hrecord, replayRecord_keyText]
  refine .modify_congr (.refl hs) stream ?_
  simp only [KeyRecordWord.run, List.length_cons]
  by_cases hids : ids = []
  · rw [if_neg (by simp [hids])]
    unfold xGroupDeliver
    cases hgroup : (s.cell stream).group group with
    | none => rfl
    | some g =>
      subst hids
      show ((s.cell stream).setGroup group g).toEntry = _
      rw [Cell.setGroup_self hgroup]
  · have hpos := List.length_pos_iff.mpr hids
    rw [if_pos (by omega)]
    show _ = (xGroupDeliver now group consumer ids (sscanInt (nanoText now)) _).2.toEntry
    rw [sscanInt_nanoText hrange]

theorem replays_deliverAll {now : Int} (hnow : InEpoch now) (group consumer : Bytes)
    (results : Store.StreamResults) (streams : List Bytes) {s t : Store} (hst : s.Same t) :
    (deliverAll now group consumer results streams s).2.1.Same
      (replay R now (deliverAll now group consumer results streams s).2.2 t) := by
  induction streams generalizing s t with
  | nil => exact hst
  | cons stream rest ih =>
    unfold deliverAll
    dsimp only
    generalize ((results.get stream).getD []).map (·.id) = ids
    have hone : (s.put stream (xGroupDeliver now group consumer ids now (s.cell stream)).2).Same
        (replayRecord R now t (deliverRecord now stream group consumer ids)) :=
      Store.Same.trans (deliverRecord_same hnow hst.idle stream group consumer ids)
        (replayRecord_same hst _)
    unfold Store.onKey
    generalize xGroupDeliver now group consumer ids now (s.cell stream) = r at hone ⊢
    obtain ⟨result, c⟩ := r
    cases result with
    | error err => exact hone
    | ok u => exact ih hone

theorem replays_xReadGroup (hs : s.Idle) (hnow : InEpoch env.now) :
    ReplaysStore env.R env.now s (Cmd.xReadGroup env args s) := by
  unfold Cmd.xReadGroup
  split
  · exact .fail hs _
  refine .attempt hs (fun o _ => .attempt hs (fun streams _ => .owned hs ?_))
  unfold readGroupRun
  split
  · exact .fail hs _
  split
  · exact .answer hs _
  · exact replays_deliverAll hnow _ _ _ _ (.refl hs)

/-! ## Queues, time series and the whole store -/

theorem run_enqueue {delay : Duration} (hlen : 3 ≤ args.length)
    (hsame : 5 ≤ args.length → SameNumber (args.getD 4 []))
    (hdel : enqueueDelay env.R args = .ok delay) : enqueue.run env.now args s
      = (s.enqueue env.now (args.getD 1 []) (args.getD 2 []) delay).2 := by
  simp only [run]
  rw [if_pos hlen]
  unfold enqueueDelay at hdel
  by_cases hopt : 5 ≤ args.length ∧ equalFold (args.getD 3 []) "DELAY" = true
  · rw [if_pos hopt] at hdel
    rw [if_pos hopt]
    cases hparse : parseInt64 env.R (args.getD 4 []) with
    | error err =>
      rw [hparse] at hdel
      cases hdel
    | ok n =>
      rw [hparse] at hdel
      cases hdel
      rw [hsame hopt.1 n (parseInt64_eq_ok hparse)]
  · rw [if_neg hopt] at hdel
    rw [if_neg hopt]
    cases hdel
    rfl

/-- `TS.DOWNSAMPLE` logs nothing, so it has to find nothing. -/
theorem replays_tsDownsample (hs : s.Idle)
    (hrec : (s.entries (args.getD 1 [])).expired env.now = false ∧
      (s.entries (args.getD 1 [])).timeseries = none) :
    ReplaysStore env.R env.now s (Cmd.tsDownsample env args s) := by
  refine .counted hs (fun _ => .owned hs (.unlogged hs rfl ?_))
  have hexp : ¬ (s.entries (args.getD 1 [])).expired env.now = true := by
    rw [hrec.1]
    exact Bool.false_ne_true
  unfold Store.tsDownsample
  rw [if_neg hexp, hrec.2]

theorem purgeExpired_of_fresh {hint : List Bytes}
    (h : ∀ k, (s.entries k).expired now = false) : s.purgeExpired now hint = s := by
  unfold Store.purgeExpired
  generalize enumerate hint s.held = keys
  induction keys with
  | nil => rfl
  | cons k rest ih => rw [List.foldl_cons, Store.purgeKey_of_fresh (h k), ih]

end

end Vole.Server
