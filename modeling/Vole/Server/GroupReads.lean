import Vole.Lib.CriticalSection
import Vole.Server.StoreCommands
import Vole.Store.GroupProgress

/-!
# Reading through a consumer group

`XREADGROUP` first plans what to return and then delivers it, in two calls of the store. Both are
made under `persistMu`, as are those of `XADD`, `XACK`, `XCLAIM`, `XAUTOCLAIM` and `XTRIM`; only
the wait of a blocked reader is not, and after it the plan is made anew. Between a plan and its
delivery the group therefore stays as it is, in whatever order the calls of the clients come.
-/

namespace Vole.Server

open Go Schedule Transition Vole.Cell Store List

variable {entries : List StreamEntry} {g : ConsumerGroup} (events : List GroupEvent)

/-! ## What happens to a group -/

/-- One `XREADGROUP`: the streams it names, the entries of the group's stream that it got by
`>`, and all entries of that stream that it delivered. -/
structure GroupRead where
  streams : List (Bytes × Bytes)
  fresh : List Bytes
  delivered : List Bytes

inductive GroupEvent where
  | read (r : GroupRead)
  | ack (ids : List Bytes)

def GroupEvent.asRead : GroupEvent → Option GroupRead
  | .read r => some r
  | .ack _ => none

def groupReads (events : List GroupEvent) : List GroupRead := events.filterMap GroupEvent.asRead

/-- The entries that have been delivered and not acknowledged since. -/
def unacknowledged (events : List GroupEvent) : Finset Bytes :=
  events.foldl (fun ids event =>
    match event with
    | .read r => ids ∪ r.delivered.toFinset
    | .ack acked => ids \ acked.toFinset) ∅

theorem groupReads_append (event : GroupEvent) :
    groupReads (events ++ [event]) = groupReads events ++ event.asRead.toList := by
  unfold groupReads
  rw [filterMap_append]
  cases event <;> rfl

theorem unacknowledged_read (r : GroupRead) :
    unacknowledged (events ++ [.read r]) = unacknowledged events ∪ r.delivered.toFinset := by
  unfold unacknowledged
  rw [foldl_append]
  rfl

theorem unacknowledged_ack (ids : List Bytes) :
    unacknowledged (events ++ [.ack ids]) = unacknowledged events \ ids.toFinset := by
  unfold unacknowledged
  rw [foldl_append]
  rfl

/-- The store, and what has happened so far to the group that is watched. -/
structure Watched where
  store : Store
  events : List GroupEvent

/-! ## Plans -/

/-- The identifiers that `XReadGroupPlan` finds in the stream `key` by `>`, apart from those it
finds by another identifier. -/
def freshIDs (key : Bytes) (s : Store) (now : Time) (group consumer : Bytes) (count : Int) :
    Store.StreamResults → List (Bytes × Bytes) → List Bytes
  | _, [] => []
  | out, (stream, id) :: rest =>
    let count' := if count ≤ 0 then 10 else count
    let left := max 1 (count' - ((out.get stream).getD []).length)
    match (s.entries stream).xReadGroupPlan now group consumer id left with
    | .error _ => []
    | .ok entries =>
      (if (stream, id) = (key, bytes ">") then entries.map (·.id) else [])
        ++ freshIDs key s now group consumer count (Store.addResults out stream entries) rest

section
variable {key group consumer : Bytes} {s : Store} {now : Time} {count : Int}
  {out results : Store.StreamResults} {streams : List (Bytes × Bytes)} {g : ConsumerGroup}

theorem mem_of_plan {e : Entry} {id : Bytes}
    (h : e.xReadGroupPlan now group consumer id count = .ok entries) :
    entries ⊆ e.streams.getD [] := by
  unfold Entry.xReadGroupPlan at h
  split at h
  · cases h
    exact nil_subset _
  split at h
  · cases h
  dsimp only at h
  split at h
  · cases h
    exact List.Subset.trans (take_subset _ _) (drop_subset _ _)
  · cases h
    exact List.Subset.trans (take_subset _ _) (filter_subset_self _)

theorem new_of_plan {e : Entry} (horder : StreamInOrder e)
    (hlast : ∀ g, e.groups.bind (·.get group) = some g → g.lastID ≠ bytes "$")
    (h : e.xReadGroupPlan now group consumer (bytes ">") count = .ok entries) :
    (∀ x ∈ entries, ∀ g, e.groups.bind (·.get group) = some g → IdBefore g.lastID x.id) ∧
      (entries.map (·.id)).Nodup := by
  unfold Entry.xReadGroupPlan at h
  split at h
  · cases h
    exact ⟨fun x hx => absurd hx (by simp), nodup_nil⟩
  split at h
  · cases h
  rename_i g hg
  rw [if_pos rfl, entriesAfter_eq horder.getD.sorted] at h
  cases h
  refine ⟨fun x hx g' hg' => ?_, ?_⟩
  · cases hg.symm.trans hg'
    have hx := mem_of_mem_take hx
    exact (after_iff (hlast g hg)).mp (mem_filter.mp hx).2
  · have hsub : ((e.streams.getD []).filter (after g.lastID)).Sublist (e.streams.getD []) :=
      filter_sublist
    refine pairwise_map.mpr (List.Pairwise.imp (fun hlt heq => ?_)
      (horder.getD.sorted.sublist ((take_sublist _ _).trans hsub)))
    have hbefore := (compareID_eq_lt.mp hlt).2
    rw [heq] at hbefore
    exact IdUpTo.refl _ hbefore

/-- **What a plan finds in the stream.** All of it is in the stream; what it finds by `>` is
after the last identifier of the group, and without repetition if `>` is given once. -/
theorem plan_spec (horder : StreamInOrder (s.entries key))
    (hlast : ∀ g, (s.cell key).group group = some g → g.lastID ≠ bytes "$")
    (h : s.xReadGroupPlan now group consumer count out streams = .ok results) :
    ((results.get key).getD [] ⊆ (out.get key).getD [] ++ (s.entries key).streams.getD []) ∧
    ((out.get key).getD [] ⊆ (results.get key).getD []) ∧
    (∀ id ∈ freshIDs key s now group consumer count out streams,
      id ∈ ((results.get key).getD []).map (·.id) ∧
        ∀ g, (s.cell key).group group = some g → IdBefore g.lastID id) ∧
    (streams.count (key, bytes ">") ≤ 1 →
      (freshIDs key s now group consumer count out streams).Nodup) ∧
    (streams.count (key, bytes ">") = 0 →
      freshIDs key s now group consumer count out streams = []) := by
  induction streams generalizing out with
  | nil =>
    cases h
    refine ⟨subset_append_left _ _, List.Subset.refl _, fun id hid => ?_, fun _ => ?_,
      fun _ => rfl⟩
    · cases hid
    · exact nodup_nil
  | cons p rest ih =>
    obtain ⟨stream, id⟩ := p
    unfold xReadGroupPlan at h
    unfold freshIDs
    dsimp only at h ⊢
    generalize hentries : (s.entries stream).xReadGroupPlan now group consumer id _ = plan at h ⊢
    rcases plan with e | entries
    · cases h
    dsimp only at h ⊢
    obtain ⟨hin, hout, hfresh, honce, hnone⟩ := ih h
    rw [addResults_get] at hin hout
    refine ⟨?_, List.Subset.trans (subset_append_left _ _) hout, ?_, ?_, ?_⟩
    · intro x hx
      rcases mem_append.mp (hin hx) with hout | hstream
      · rcases mem_append.mp hout with hold | hnew
        · exact mem_append_left _ hold
        · by_cases hkey : key = stream
          · rw [if_pos hkey] at hnew
            subst hkey
            exact mem_append_right _ (mem_of_plan hentries hnew)
          · rw [if_neg hkey] at hnew
            cases hnew
      · exact mem_append_right _ hstream
    · intro x hx
      rcases mem_append.mp hx with hhere | hx
      · by_cases hnew : (stream, id) = (key, bytes ">")
        · rw [if_pos hnew] at hhere
          cases hnew
          obtain ⟨entry, hentry, rfl⟩ := mem_map.mp hhere
          refine ⟨mem_map_of_mem (hout ?_), (new_of_plan horder hlast hentries).1 entry hentry⟩
          rw [if_pos rfl]
          exact mem_append_right _ hentry
        · rw [if_neg hnew] at hhere
          cases hhere
      · exact hfresh x hx
    · intro hcount
      split
      · rename_i heq
        cases heq
        rw [count_cons_self] at hcount
        rw [hnone (by omega), append_nil]
        exact (new_of_plan horder hlast hentries).2
      · rename_i hne
        rw [count_cons_of_ne hne] at hcount
        exact honce hcount
    · intro hcount
      split
      · rename_i heq
        rw [heq, count_cons_self] at hcount
        omega
      · rename_i hne
        rw [count_cons_of_ne hne] at hcount
        exact hnone hcount

end

/-! ## Commands as programs -/

/-- A call of the store; what it found says how to go on. -/
def storeCall (run : Store → Store) (next : Store → Prog Watched) : Prog Watched :=
  .step (fun w => { w with store := run w.store }) (fun w => next w.store)

/-- `xadd` -/
def xaddProg (stream id : Bytes) (fields : List Bytes) (prepared added : Time) : Prog Watched :=
  .lock (storeCall (fun s => (s.onKey stream (Cell.nextStreamID prepared id)).2) (fun s =>
    match (s.onKey stream (Cell.nextStreamID prepared id)).1 with
    | .error _ => .unlock .done
    | .ok id => storeCall (fun s => (s.onKey stream (Cell.xAddPrepared added id fields)).2)
        (fun _ => .unlock .done)))

section
variable (key name : Bytes)

/-- The group that is watched. -/
def Watched.group (w : Watched) : Option ConsumerGroup := (w.store.cell key).group name

/-- What a call on the group of a stream adds to the events. -/
def Watched.note (stream group : Bytes) (event : GroupEvent) (w : Watched) : List GroupEvent :=
  w.events ++ if stream = key ∧ group = name ∧ (w.group key name).isSome then [event] else []

/-- `XAck`, which is an event if it is about the group that is watched. -/
def Watched.ack (stream group : Bytes) (ids : List Bytes) (now : Time) (w : Watched) : Watched where
  store := (w.store.onKey stream (Cell.xAck now group ids)).2
  events := w.note key name stream group (.ack ids)

/-- `xack` -/
def xackProg (stream group : Bytes) (ids : List Bytes) (looked acked : Time) : Prog Watched :=
  .lock (storeCall id (fun s =>
    if (s.entries stream).xGroupExists looked group then
      .step (Watched.ack key name stream group ids acked) (fun _ => .unlock .done)
    else .unlock .done))

/-- `XGroupDeliver`, which is an event if it is about the group that is watched. -/
def Watched.deliver (stream group consumer : Bytes) (at_ : Time) (r : GroupRead) (w : Watched) :
    Watched where
  store := (w.store.onKey stream (Cell.xGroupDeliver at_ group consumer r.delivered at_)).2
  events := w.note key name stream group (.read r)

/-- The loop of `xreadgroup` over the streams it found entries in. -/
def deliverProg (group consumer : Bytes) (at_ : Time) (streams : List (Bytes × Bytes))
    (fresh : List Bytes) (results : Store.StreamResults) : List Bytes → Prog Watched
  | [] => .unlock .done
  | stream :: rest =>
    let ids := ((results.get stream).getD []).map (·.id)
    .step (Watched.deliver key name stream group consumer at_ ⟨streams, fresh, ids⟩) (fun w =>
      match (w.store.onKey stream (Cell.xGroupDeliver at_ group consumer ids at_)).1 with
      | .error _ => .unlock .done
      | .ok () => deliverProg group consumer at_ streams fresh results rest)

/-- The plan of `xreadgroup` and, if it found something, the deliveries; the mutex is held. -/
def planProg (group consumer : Bytes) (count : Int) (streams : List (Bytes × Bytes))
    (planned at_ : Time) (nothing : Prog Watched) : Prog Watched :=
  storeCall id (fun s =>
    match s.xReadGroupPlan planned group consumer count ∅ streams with
    | .error _ => .unlock .done
    | .ok results =>
      if results.isEmpty then nothing
      else deliverProg key name group consumer at_ streams
        (freshIDs key s planned group consumer count ∅ streams) results results.sortedKeys)

/-- `xreadgroup`. `Wait` comes back after a signal or the timeout; when, is left open. -/
def xreadgroupProg (group consumer : Bytes) (count : Int) (streams : List (Bytes × Bytes))
    (block : Bool) (planned again at_ : Time) : Prog Watched :=
  .lock (planProg key name group consumer count streams planned at_ (.unlock
    (if block then
      let retry : Prog Watched :=
        .lock (planProg key name group consumer count streams again at_ (.unlock .done))
      .await (fun _ => true) retry retry
    else .done)))

end

/-- A command on streams behind the checks of its arguments, with the times at which it reads the
clock. -/
inductive StreamCall where
  | xadd (stream id : Bytes) (fields : List Bytes) (prepared added : Time)
  | xreadgroup (group consumer : Bytes) (count : Int) (streams : List (Bytes × Bytes))
      (block : Bool) (planned again delivered : Time)
  | xack (stream group : Bytes) (ids : List Bytes) (looked acked : Time)
  | xclaim (stream group consumer : Bytes) (minIdleMs : Int) (ids : List Bytes) (now : Time)
  | xautoclaim (stream group consumer : Bytes) (minIdleMs : Int) (startID : Bytes) (count : Int)
      (hint : List Bytes) (now : Time)
  | xtrim (stream : Bytes) (maxLen : Int)

def StreamCall.program (key name : Bytes) : StreamCall → Prog Watched
  | .xadd stream id fields prepared added => xaddProg stream id fields prepared added
  | .xreadgroup group consumer count streams block planned again delivered =>
    xreadgroupProg key name group consumer count streams block planned again delivered
  | .xack stream group ids looked acked => xackProg key name stream group ids looked acked
  | .xclaim stream group consumer minIdleMs ids now =>
    .lock (storeCall (fun s =>
      (s.onKey stream (Cell.xClaim now group consumer minIdleMs ids)).2) (fun _ => .unlock .done))
  | .xautoclaim stream group consumer minIdleMs startID count hint now =>
    .lock (storeCall (fun s =>
      (s.onKey stream (Cell.xAutoClaim now group consumer minIdleMs startID count hint)).2)
      (fun _ => .unlock .done))
  | .xtrim stream maxLen =>
    .lock (storeCall (fun s => (s.onKey stream (Cell.xTrim maxLen)).2) (fun _ => .unlock .done))

/-- `XADD` does not call an entry `$`. -/
def StreamCall.Named : StreamCall → Prop
  | .xadd _ id _ _ _ => id ≠ bytes "$"
  | _ => True

/-! ### Alone -/

section
variable {key name group consumer : Bytes} {count : Int} {streams : List (Bytes × Bytes)}

theorem deliverProg_finish {at_ : Time} {fresh : List Bytes} {results : Store.StreamResults}
    (rest : List Bytes) (w : Watched) :
    ((deliverProg key name group consumer at_ streams fresh results rest).finish w).store
      = (Cmd.deliverAll at_ group consumer results rest w.store).2.1 := by
  induction rest generalizing w with
  | nil => rfl
  | cons stream rest ih =>
    unfold deliverProg Cmd.deliverAll Prog.finish
    dsimp only
    cases hr : w.store.onKey stream (xGroupDeliver at_ group consumer
        (((results.get stream).getD []).map (·.id)) at_) with
    | mk r s =>
      cases r with
      | error e => exact congrArg Prod.snd hr
      | ok u =>
        rw [ih]
        exact congrArg (fun p => (Cmd.deliverAll at_ group consumer results rest p.2).2.1) hr

/-- Alone, a reader that finds nothing finds nothing after its wait either. -/
theorem xreadgroupProg_finish (env : Env) (block : Bool) (w : Watched) :
    ((xreadgroupProg key name group consumer count streams block env.now env.now env.now).finish
        w).store = (Cmd.readGroupRun env group consumer count streams w.store).store := by
  have hplan : ∀ nothing : Prog Watched,
      (∀ results, w.store.xReadGroupPlan env.now group consumer count ∅ streams = .ok results →
        results.isEmpty = true → (nothing.finish w).store = w.store) →
      ((planProg key name group consumer count streams env.now env.now nothing).finish w).store
        = (Cmd.readGroupRun env group consumer count streams w.store).store := by
    intro nothing hnothing
    unfold planProg storeCall Cmd.readGroupRun
    unfold Prog.finish
    dsimp only
    cases hresults : w.store.xReadGroupPlan env.now group consumer count ∅ streams with
    | error e => rfl
    | ok results =>
      dsimp only
      by_cases hempty : results.isEmpty = true
      · rw [if_pos hempty, if_pos hempty]
        exact hnothing results hresults hempty
      · rw [if_neg hempty, if_neg hempty]
        exact deliverProg_finish _ _
  refine hplan _ (fun results hresults hempty => ?_)
  cases block with
  | false => rfl
  | true =>
    refine (hplan (.unlock .done) (fun _ _ _ => rfl)).trans ?_
    unfold Cmd.readGroupRun
    rw [hresults]
    dsimp only
    rw [if_pos hempty]
    rfl

/-- For the first stream nothing of the count is used up yet. -/
theorem plan_first {left : Int} (hleft : left = max 1 ((if count ≤ 0 then 10 else count) - 0))
    (e : Entry) (now : Time) : e.xReadGroupPlan now group consumer (bytes ">") count
      = e.xReadGroupPlan now group consumer (bytes ">") left := by
  have hcap : (if count ≤ 0 then 10 else count.toNat) = if left ≤ 0 then 10 else left.toNat := by
    split_ifs at hleft ⊢ <;> omega
  unfold Entry.xReadGroupPlan
  rw [hcap]

/-- The plan of a call that names one stream. -/
theorem plan_single (key : Bytes) (s : Store) (now : Time) :
    s.xReadGroupPlan now group consumer count ∅ [(key, bytes ">")]
      = ((s.entries key).xReadGroupPlan now group consumer (bytes ">") count).map
          (addResults ∅ key) := by
  unfold Store.xReadGroupPlan
  dsimp only
  split
  · rename_i herror
    rw [(plan_first rfl _ _).trans herror]
    rfl
  · rename_i hok
    rw [(plan_first rfl _ _).trans hok]
    rfl

theorem sortedKeys_addResults {key : Bytes} (h : entries ≠ []) :
    (addResults ∅ key entries).sortedKeys = [key] := by
  have hkeys : (addResults ∅ key entries).keys = {key} := by
    unfold addResults
    rw [if_neg h]
    ext k
    rw [Finmap.mem_keys, Finmap.mem_insert, Finset.mem_singleton]
    simp [Finmap.notMem_empty]
  unfold GoMap.sortedKeys
  rw [hkeys]
  exact Finset.sort_singleton _ _

/-- On one stream, `XREADGROUP` by `>` is `readFrom`. -/
theorem readGroupRun_entries (env : Env) (key : Bytes) (s : Store) :
    (Cmd.readGroupRun env group consumer count [(key, bytes ">")] s).store.entries key
      = (readFrom group consumer count env.now env.now (s.cell key)).2.toEntry := by
  unfold Cmd.readGroupRun readFrom
  rw [plan_single]
  show _ = (match (s.entries key).xReadGroupPlan env.now group consumer (bytes ">") count with
    | .error _ => _ | .ok entries => _ : List StreamEntry × Cell).2.toEntry
  cases (s.entries key).xReadGroupPlan env.now group consumer (bytes ">") count with
  | error e => rfl
  | ok entries =>
    show (if (addResults ∅ key entries).isEmpty = true then _ else _ : Result).store.entries key
      = (if entries = [] then _ else _ : List StreamEntry × Cell).2.toEntry
    by_cases hnil : entries = []
    · rw [hnil, if_pos rfl]
      rfl
    · have hempty : (addResults ∅ key entries).isEmpty = false := by
        unfold addResults
        rw [if_neg hnil, Bool.eq_false_iff, Ne, GoMap.isEmpty_iff]
        exact GoMap.insert_ne_empty _ _ _
      have hids : ((addResults ∅ key entries).get key).getD [] = entries := by
        rw [addResults_get, if_pos rfl]
        rfl
      rw [hempty, if_neg Bool.false_ne_true, if_neg hnil, sortedKeys_addResults hnil]
      unfold Cmd.deliverAll
      dsimp only
      rw [hids]
      have hput : (s.onKey key (xGroupDeliver env.now group consumer (entries.map (·.id))
          env.now)).2.entries key = _ := put_entries_self ..
      cases hr : s.onKey key (xGroupDeliver env.now group consumer (entries.map (·.id))
          env.now) with
      | mk r s' =>
        rw [hr] at hput
        cases r <;> exact hput

/-- `XADD` is `addTo`. -/
theorem xAdd_cell (env : KeyEnv) (word : Bytes) (rest : List Bytes) (c : Cell) :
    (Cmd.xAdd.run env word rest c).cell
      = (addTo (arg rest 2) (rest.drop 1) env.now env.now c).2 := by
  dsimp only [Cmd.xAdd, KeyCmd.of]
  unfold addTo
  cases c.nextStreamID env.now (arg rest 2) with
  | mk r c₁ =>
    cases r with
    | error e => rfl
    | ok id =>
      dsimp only
      cases c₁.xAddPrepared env.now id (rest.drop 1) with
      | mk r c₂ => cases r <;> rfl

end

/-! ## The invariant -/

section
variable {key name : Bytes}

/-- The stream is in order; no two reads got the same entry by `>`; and none of these entries is
after the last identifier of the group, whose pending entries are those not acknowledged. -/
structure Watched.Good (key name : Bytes) (w : Watched) : Prop where
  order : StreamInOrder (w.store.entries key)
  apart : (groupReads w.events).Pairwise (fun r r' => r.fresh.Disjoint r'.fresh)
  once : ∀ r ∈ groupReads w.events, r.streams.count (key, bytes ">") ≤ 1 → r.fresh.Nodup
  last : ∀ g, w.group key name = some g → g.lastID ≠ bytes "$"
  pending : ∀ g, w.group key name = some g → g.pending.keys = unacknowledged w.events
  delivered : ∀ g, w.group key name = some g →
    ∀ r ∈ groupReads w.events, ∀ id ∈ r.fresh, IdUpTo id g.lastID

/-- The group is gone, or its last identifier has not gone back. -/
def Watched.Onward (key name : Bytes) (w w' : Watched) : Prop :=
  ∀ g', w'.group key name = some g' →
    ∃ g, w.group key name = some g ∧ IdUpTo g.lastID g'.lastID

theorem Watched.Onward.refl (w : Watched) : w.Onward key name w :=
  fun g hg => ⟨g, hg, .refl _⟩

theorem Watched.Onward.trans {w w' w'' : Watched} (h : w.Onward key name w')
    (h' : w'.Onward key name w'') : w.Onward key name w'' := by
  intro g'' hg''
  obtain ⟨g', hg', hup'⟩ := h' g'' hg''
  obtain ⟨g, hg, hup⟩ := h g' hg'
  exact ⟨g, hg, hup.trans hup'⟩

section
variable {s : Store} {stream : Bytes} {α : Type} {f : Cell → α × Cell}

theorem entries_onKey : (s.onKey key f).2.entries key = (f (s.cell key)).2.toEntry :=
  put_entries_self ..

theorem group_onKey : ((s.onKey key f).2.cell key).group name = (f (s.cell key)).2.group name :=
  congrArg (fun e : Entry => e.groups.bind (·.get name)) entries_onKey

theorem group_onKey_ne (h : key ≠ stream) :
    ((s.onKey stream f).2.cell key).group name = (s.cell key).group name :=
  congrArg (fun e : Entry => e.groups.bind (·.get name)) (put_entries_ne _ _ _ h)

end

namespace Watched.Good

variable {w : Watched}

theorem keeps (h : w.Good key name) {s : Store}
    (hkeeps : Cell.KeepsGroup name (w.store.cell key) (s.cell key))
    (horder : StreamInOrder (s.entries key)) :
    Good key name { w with store := s } ∧ w.Onward key name { w with store := s } := by
  refine ⟨⟨horder, h.apart, h.once, fun g' hg' => ?_, fun g' hg' => ?_, fun g' hg' => ?_⟩,
    fun g' hg' => ?_⟩
  all_goals obtain ⟨g, hg, hlast, hkeys⟩ := hkeeps g' hg'
  · rw [hlast]
    exact h.last g hg
  · rw [hkeys]
    exact h.pending g hg
  · rw [hlast]
    exact h.delivered g hg
  · exact ⟨g, hg, hlast ▸ .refl _⟩

theorem onKey (h : w.Good key name) {stream : Bytes} {α : Type} {f : Cell → α × Cell}
    (hkeeps : stream = key → Cell.KeepsGroup name (w.store.cell stream) (f (w.store.cell stream)).2)
    (horder : stream = key → StreamInOrder (f (w.store.cell stream)).2.toEntry) :
    Good key name { w with store := (w.store.onKey stream f).2 } ∧
      w.Onward key name { w with store := (w.store.onKey stream f).2 } := by
  by_cases hkey : key = stream
  · subst hkey
    exact h.keeps (fun g hg => hkeeps rfl g (group_onKey ▸ hg)) (entries_onKey ▸ horder rfl)
  · have hentry : (w.store.onKey stream f).2.entries key = w.store.entries key :=
      put_entries_ne _ _ _ hkey
    exact h.keeps (.of_eq (group_onKey_ne hkey)) (hentry ▸ h.order)

theorem event (h : w.Good key name) {s : Store} {event : GroupEvent}
    (hg : w.group key name = some g) (horder : StreamInOrder (s.entries key))
    (hgroup : ∀ g', (s.cell key).group name = some g' → g'.lastID ≠ bytes "$" ∧
      IdUpTo g.lastID g'.lastID ∧ g'.pending.keys = unacknowledged (w.events ++ [event]) ∧
      ∀ r, event.asRead = some r → ∀ id ∈ r.fresh, IdUpTo id g'.lastID)
    (hfresh : ∀ r, event.asRead = some r → (∀ id ∈ r.fresh, IdBefore g.lastID id) ∧
      (r.streams.count (key, bytes ">") ≤ 1 → r.fresh.Nodup)) :
    Good key name ⟨s, w.events ++ [event]⟩ ∧ w.Onward key name ⟨s, w.events ++ [event]⟩ := by
  have hmem : ∀ r, r ∈ groupReads (w.events ++ [event]) →
      r ∈ groupReads w.events ∨ event.asRead = some r := by
    intro r hr
    rw [groupReads_append] at hr
    rcases mem_append.mp hr with hr | hr
    · exact .inl hr
    · exact .inr (Option.mem_toList.mp hr)
  refine ⟨⟨horder, ?_, fun r hr hcount => ?_, fun g' hg' => (hgroup g' hg').1,
    fun g' hg' => (hgroup g' hg').2.2.1, fun g' hg' r hr id hid => ?_⟩,
    fun g' hg' => ⟨g, hg, (hgroup g' hg').2.1⟩⟩
  · -- what was got before is not after the last identifier, what is got now is
    rw [groupReads_append, pairwise_append]
    refine ⟨h.apart, ?_, fun r hr r' hr' id hid hid' => ?_⟩
    · cases event.asRead with
      | none => exact .nil
      | some r => exact pairwise_singleton _ _
    · exact h.delivered g hg r hr id hid ((hfresh r' (Option.mem_toList.mp hr')).1 id hid')
  · rcases hmem r hr with hr | hr
    · exact h.once r hr hcount
    · exact (hfresh r hr).2 hcount
  · rcases hmem r hr with hr | hr
    · exact (h.delivered g hg r hr id hid).trans (hgroup g' hg').2.1
    · exact (hgroup g' hg').2.2.2 r hr id hid

theorem note_of_not {stream group : Bytes} (event : GroupEvent)
    (h : ¬ (stream = key ∧ group = name ∧ (w.group key name).isSome)) :
    w.note key name stream group event = w.events := by
  unfold Watched.note
  rw [if_neg h, append_nil]

theorem note_of (event : GroupEvent) (hg : w.group key name = some g) :
    w.note key name key name event = w.events ++ [event] := by
  unfold Watched.note
  rw [if_pos ⟨rfl, rfl, by rw [hg]; rfl⟩]

theorem none_of_not {stream group : Bytes}
    (h : ¬ (stream = key ∧ group = name ∧ (w.group key name).isSome)) (hstream : stream = key) :
    name = group → (w.store.cell stream).group name = none := by
  intro hgroup
  subst hstream hgroup
  by_contra hsome
  exact h ⟨rfl, rfl, Option.isSome_iff_ne_none.mpr hsome⟩

theorem ack (h : w.Good key name) (stream group : Bytes) (ids : List Bytes) (now : Time) :
    Good key name (w.ack key name stream group ids now) ∧
      w.Onward key name (w.ack key name stream group ids now) := by
  unfold Watched.ack
  by_cases hthis : stream = key ∧ group = name ∧ (w.group key name).isSome
  · obtain ⟨rfl, rfl, hsome⟩ := hthis
    obtain ⟨g, hg⟩ := Option.isSome_iff_exists.mp hsome
    rw [note_of _ hg]
    refine h.event hg (entries_onKey ▸ h.order.xAck group ids) (fun g' hg' => ?_)
      (fun r hr => nomatch hr)
    rw [group_onKey] at hg'
    obtain ⟨g₀, hg₀, hlast, hkeys⟩ := xAck_group hg'
    cases hg.symm.trans hg₀
    refine ⟨hlast ▸ h.last g hg, hlast ▸ .refl _, ?_, fun r hr => nomatch hr⟩
    rw [hkeys, h.pending g hg, unacknowledged_ack]
  · rw [note_of_not _ hthis]
    exact h.onKey (fun hstream => .xAck ids (none_of_not hthis hstream))
      (fun hstream => by subst hstream; exact h.order.xAck group ids)

theorem deliver (h : w.Good key name) (stream group consumer : Bytes) (at_ : Time) (r : GroupRead)
    (hnamed : stream = key → group = name → ∀ id ∈ r.delivered, id ≠ bytes "$")
    (hsub : stream = key → group = name → r.fresh ⊆ r.delivered)
    (hnew : stream = key → group = name →
      ∀ g, w.group key name = some g → ∀ id ∈ r.fresh, IdBefore g.lastID id)
    (honce : stream = key → group = name → r.streams.count (key, bytes ">") ≤ 1 → r.fresh.Nodup) :
    Good key name (w.deliver key name stream group consumer at_ r) ∧
      w.Onward key name (w.deliver key name stream group consumer at_ r) := by
  unfold Watched.deliver
  by_cases hthis : stream = key ∧ group = name ∧ (w.group key name).isSome
  · obtain ⟨rfl, rfl, hsome⟩ := hthis
    obtain ⟨g, hg⟩ := Option.isSome_iff_exists.mp hsome
    rw [note_of _ hg]
    refine h.event hg (entries_onKey ▸ h.order.of_eq xGroupDeliver_streams)
      (fun g' hg' => ?_) (fun r' hr' => ?_)
    · rw [group_onKey] at hg'
      cases (xGroupDeliver_group hg).symm.trans hg'
      obtain ⟨hne, hup, hall, hkeys⟩ := foldl_deliver consumer (if isZero at_ then at_ else at_)
        (h.last g hg) (hnamed rfl rfl)
      refine ⟨hne, hup, ?_, fun r' hr' id hid => ?_⟩
      · rw [hkeys, h.pending g hg, unacknowledged_read]
      · cases hr'
        exact hall id (hsub rfl rfl hid)
    · cases hr'
      exact ⟨hnew rfl rfl g hg, honce rfl rfl⟩
  · rw [note_of_not _ hthis]
    exact h.onKey (fun hstream => .xGroupDeliver r.delivered (none_of_not hthis hstream))
      (fun hstream => by subst hstream; exact h.order.of_eq xGroupDeliver_streams)

end Watched.Good

/-! ## What the programs keep -/

/-- What a program keeps while it holds the mutex. -/
abbrev KeptHeld (key name : Bytes) (p : Prog Watched) (w : Watched) : Prop :=
  p.Kept (Watched.Good key name) (Watched.Onward key name) true w

/-- What a program keeps that does not hold it. -/
abbrev KeptFree (key name : Bytes) (p : Prog Watched) : Prop :=
  ∀ w, p.Kept (Watched.Good key name) (Watched.Onward key name) false w

variable {w : Watched}

theorem kept_done : KeptFree key name .done := fun _ => rfl

theorem kept_unlock {p : Prog Watched} (h : KeptFree key name p) (w : Watched) :
    KeptHeld key name (.unlock p) w := ⟨rfl, h⟩

theorem kept_lock {p : Prog Watched}
    (h : ∀ w, w.Good key name → KeptHeld key name p w) : KeptFree key name (.lock p) :=
  fun _ => ⟨rfl, h⟩

theorem kept_onKey (hw : w.Good key name) {stream : Bytes} {α : Type} {f : Cell → α × Cell}
    {next : Store → Prog Watched} (hkeeps : ∀ c, Cell.KeepsGroup name c (f c).2)
    (horder : ∀ e, StreamInOrder e → StreamInOrder (f ⟨e, 0⟩).2.toEntry)
    (hnext : ∀ w', w'.Good key name → KeptHeld key name (next w.store) w') :
    KeptHeld key name (storeCall (fun s => (s.onKey stream f).2) next) w := by
  have hstep : Watched.Good key name { w with store := (w.store.onKey stream f).2 } ∧
      w.Onward key name { w with store := (w.store.onKey stream f).2 } :=
    hw.onKey (fun _ => hkeeps _) (fun hstream => by subst hstream; exact horder _ hw.order)
  exact ⟨rfl, hstep.1, hstep.2, hnext _ hstep.1⟩

theorem kept_look (hw : w.Good key name) {next : Store → Prog Watched}
    (hnext : KeptHeld key name (next w.store) w) : KeptHeld key name (storeCall id next) w :=
  ⟨rfl, hw, .refl w, hnext⟩

theorem xaddProg_kept {stream id : Bytes} (fields : List Bytes) (prepared added : Time)
    (hid : id ≠ bytes "$") : KeptFree key name (xaddProg stream id fields prepared added) := by
  refine kept_lock (fun w hw => kept_onKey hw (fun _ => .nextStreamID id)
    (fun e he => he.nextStreamID id) (fun w' hw' => ?_))
  split
  · exact kept_unlock kept_done _
  · rename_i id' hid'
    exact kept_onKey hw' (fun _ => .xAddPrepared id' fields)
      (fun e he => he.xAddPrepared (nextStreamID_named hid hid') fields)
      (fun _ _ => kept_unlock kept_done _)

theorem xackProg_kept (stream group : Bytes) (ids : List Bytes) (looked acked : Time) :
    KeptFree key name (xackProg key name stream group ids looked acked) := by
  refine kept_lock (fun w hw => kept_look hw ?_)
  split
  · obtain ⟨hgood, honward⟩ := hw.ack stream group ids acked
    exact ⟨rfl, hgood, honward, kept_unlock kept_done _⟩
  · exact kept_unlock kept_done _

/-- The deliveries of a plan. Until the stream itself has its turn, its group is as the plan has
found it. -/
theorem deliverProg_kept {group consumer : Bytes} {at_ : Time} {streams : List (Bytes × Bytes)}
    {fresh : List Bytes} {results : Store.StreamResults} {rest : List Bytes} (hnodup : rest.Nodup)
    (hnamed : group = name → ∀ x ∈ (results.get key).getD [], x.id ≠ bytes "$")
    (hsub : group = name → fresh ⊆ ((results.get key).getD []).map (·.id))
    (honce : group = name → streams.count (key, bytes ">") ≤ 1 → fresh.Nodup) (hw : w.Good key name)
    (hnew : key ∈ rest → group = name →
      ∀ g, w.group key name = some g → ∀ id ∈ fresh, IdBefore g.lastID id) :
    KeptHeld key name (deliverProg key name group consumer at_ streams fresh results rest) w := by
  induction rest generalizing w with
  | nil => exact kept_unlock kept_done _
  | cons stream rest ih =>
    obtain ⟨hstream, hrest⟩ := nodup_cons.mp hnodup
    obtain ⟨hgood, honward⟩ := hw.deliver stream group consumer at_
      ⟨streams, fresh, ((results.get stream).getD []).map (·.id)⟩
      (fun hs hg id hid => by
        subst hs
        obtain ⟨x, hx, rfl⟩ := mem_map.mp hid
        exact hnamed hg x hx)
      (fun hs hg => by subst hs; exact hsub hg)
      (fun hs hg => hnew (hs ▸ .head _) hg) (fun _ => honce)
    refine ⟨rfl, hgood, honward, ?_⟩
    dsimp only
    split
    · exact kept_unlock kept_done _
    · refine ih hrest hgood (fun hkey hgroup g hg => ?_)
      have hne : key ≠ stream := fun heq => hstream (heq ▸ hkey)
      exact hnew (.tail _ hkey) hgroup g ((group_onKey_ne hne).symm.trans hg)

theorem planProg_kept {group consumer : Bytes} {count : Int} {streams : List (Bytes × Bytes)}
    {planned at_ : Time} {nothing : Prog Watched} (hw : w.Good key name)
    (hnothing : KeptHeld key name nothing w) :
    KeptHeld key name (planProg key name group consumer count streams planned at_ nothing) w := by
  refine kept_look hw ?_
  split
  · exact kept_unlock kept_done _
  · rename_i results hplan
    split
    · exact hnothing
    · have hspec := fun hgroup : group = name => plan_spec hw.order
        (show ∀ g, (w.store.cell key).group group = some g → _ from hgroup ▸ hw.last) hplan
      refine deliverProg_kept (Finset.sort_nodup _ _) (fun hgroup x hx => ?_)
        (fun hgroup id hid => ((hspec hgroup).2.2.1 id hid).1)
        (fun hgroup => (hspec hgroup).2.2.2.1) hw
        (fun _ hgroup g hg id hid => ((hspec hgroup).2.2.1 id hid).2 g (hgroup ▸ hg))
      exact hw.order.getD.named x ((hspec hgroup).1 hx)

theorem xreadgroupProg_kept (group consumer : Bytes) (count : Int) (streams : List (Bytes × Bytes))
    (block : Bool) (planned again at_ : Time) : KeptFree key name
      (xreadgroupProg key name group consumer count streams block planned again at_) := by
  -- the plan after the wait
  have hretry : KeptFree key name
      (.lock (planProg key name group consumer count streams again at_ (.unlock .done))) :=
    kept_lock (fun w hw => planProg_kept hw (kept_unlock kept_done w))
  refine kept_lock (fun w hw => planProg_kept hw (kept_unlock ?_ w))
  split
  · exact fun _ => ⟨rfl, hretry, hretry⟩
  · exact kept_done

/-- **Every command keeps the invariant with each of its calls.** -/
theorem StreamCall.program_kept {call : StreamCall} (hnamed : call.Named) :
    KeptFree key name (call.program key name) := by
  cases call with
  | xadd stream id fields prepared added => exact xaddProg_kept fields prepared added hnamed
  | xreadgroup group consumer count streams block planned again delivered =>
    exact xreadgroupProg_kept group consumer count streams block planned again delivered
  | xack stream group ids looked acked => exact xackProg_kept stream group ids looked acked
  | xclaim stream group consumer minIdleMs ids now =>
    exact kept_lock (fun w hw => kept_onKey hw (fun _ => .xClaim group consumer minIdleMs ids)
      (fun e he => he.xClaim group consumer minIdleMs ids) (fun w' _ => kept_unlock kept_done w'))
  | xautoclaim stream group consumer minIdleMs startID count hint now =>
    exact kept_lock (fun w hw => kept_onKey hw
      (fun _ => .xAutoClaim group consumer minIdleMs startID count hint)
      (fun e he => he.xAutoClaim group consumer minIdleMs startID count hint)
      (fun w' _ => kept_unlock kept_done w'))
  | xtrim stream maxLen =>
    exact kept_lock (fun w hw => kept_onKey hw (fun _ => .xTrim maxLen)
      (fun e he => he.xTrim maxLen) (fun w' _ => kept_unlock kept_done w'))

/-! ## The life of a group -/

/-- The store right after `XGroupCreate`, with nothing delivered yet. -/
def Watched.created (key name id : Bytes) (mkstream : Bool) (now : Time) (s : Store) : Watched :=
  ⟨(s.onKey key (Cell.xGroupCreate now name id mkstream)).2, []⟩

theorem Watched.good_created {s : Store} {id : Bytes} {mkstream : Bool} {now : Time}
    (horder : StreamInOrder (s.entries key))
    (hcreate : (s.onKey key (xGroupCreate now name id mkstream)).1 = .ok ()) :
    (Watched.created key name id mkstream now s).Good key name := by
  have hpurged : StreamInOrder ((s.cell key).purge now).toEntry := by
    rw [purge_toEntry]
    exact horder.purged now
  have hcell : (xGroupCreate now name id mkstream (s.cell key)).2.streams
        = ((s.cell key).purge now).streams ∧
      ∃ last, last ≠ bytes "$" ∧
        (xGroupCreate now name id mkstream (s.cell key)).2.group name = some ⟨last, ∅⟩ := by
    have hcreate : (xGroupCreate now name id mkstream (s.cell key)).1 = .ok () := hcreate
    unfold xGroupCreate at hcreate ⊢
    dsimp only at hcreate ⊢
    split at hcreate
    · cases hcreate
    rename_i hconf
    rw [if_neg hconf]
    split at hcreate
    · cases hcreate
    rename_i hstream
    rw [if_neg hstream]
    split at hcreate
    · cases hcreate
    rename_i hnew
    rw [if_neg hnew]
    refine ⟨rfl, if id = bytes "$" then ((s.cell key).purge now).lastID else id, ?_, ?_⟩
    · split
      · exact hpurged.getD.lastIDOf_ne
      · assumption
    · show (setGroup name _ _).group name = _
      rw [group_setGroup, if_pos rfl]
  obtain ⟨hstreams, last, hlast, hgroup⟩ := hcell
  have hthis : (Watched.created key name id mkstream now s).group key name = some ⟨last, ∅⟩ :=
    group_onKey.trans hgroup
  refine ⟨?_, .nil, fun r hr => absurd hr (by simp [groupReads, Watched.created]), ?_, ?_, ?_⟩
  · show StreamInOrder ((s.onKey key (xGroupCreate now name id mkstream)).2.entries key)
    rw [entries_onKey]
    exact hpurged.of_eq hstreams
  all_goals
    intro g hg
    cases hthis.symm.trans hg
  · exact hlast
  · rfl
  · exact fun r hr => absurd hr (by simp [groupReads, Watched.created])

/-- The entry is pending for the consumer. -/
def PendingFor (g : ConsumerGroup) (id consumer : Bytes) : Prop :=
  ∃ p, g.pending.get id = some p ∧ p.consumer = consumer

theorem pendingFor_iff {id : Bytes} :
    id ∈ g.pending.keys ↔ ∃! consumer, PendingFor g id consumer := by
  constructor
  · intro hmem
    obtain ⟨p, hp⟩ := Finmap.mem_iff.mp hmem
    refine ⟨p.consumer, ⟨p, hp, rfl⟩, ?_⟩
    rintro consumer ⟨p', hp', rfl⟩
    cases hp.symm.trans hp'
    rfl
  · rintro ⟨consumer, ⟨p, hp, -⟩, -⟩
    exact Finmap.mem_iff.mpr ⟨p, hp⟩

end

/-- **A group delivers new entries at most once.** In every interleaving of `XREADGROUP`, with or
without `BLOCK`, `XADD`, `XACK`, `XCLAIM`, `XAUTOCLAIM` and `XTRIM` by any number of clients, from
the creation of the group on: no entry is got by `>` in two reads, nor twice in one that asks for
the stream once; as long as the group is there, the entries delivered and not acknowledged are
those that are pending, each for one consumer; and its last identifier does not go back. -/
theorem group_delivers_at_most_once (key name id : Bytes) (mkstream : Bool) (now : Time) (s : Store)
    (horder : StreamInOrder (s.entries key))
    (hcreate : (s.onKey key (Cell.xGroupCreate now name id mkstream)).1 = .ok ())
    (x : System StreamCall Watched)
    (hrun : Reaches (System.step (StreamCall.program key name)) (System.Starts StreamCall.Named)
      (System.idle (Watched.created key name id mkstream now s)) x) :
    (groupReads x.st.events).Pairwise (fun r r' => r.fresh.Disjoint r'.fresh) ∧
    (∀ r ∈ groupReads x.st.events, r.streams.count (key, bytes ">") ≤ 1 → r.fresh.Nodup) ∧
    (∀ g, x.st.group key name = some g → ∀ id,
      id ∈ unacknowledged x.st.events ↔ ∃! consumer, PendingFor g id consumer) ∧
    ∀ y, Reaches (System.step (StreamCall.program key name)) (System.Starts StreamCall.Named) x y →
      ∀ g g', x.st.group key name = some g → y.st.group key name = some g' →
        compareID g'.lastID g.lastID ≠ .lt := by
  have hkept : ∀ call : StreamCall, call.Named → KeptFree key name (call.program key name) :=
    fun _ hnamed => StreamCall.program_kept hnamed
  have hstart := Watched.good_created horder hcreate
  have hx := good_of_kept hkept hstart hrun
  refine ⟨hx.apart, hx.once, fun g hg id => ?_, fun y hrest g g' hg hg' hlt => ?_⟩
  · rw [← hx.pending g hg]
    exact pendingFor_iff
  · have honward := rel_of_kept hkept Watched.Onward.refl Watched.Onward.trans hstart hrun hrest
    obtain ⟨g₀, hg₀, hup⟩ := honward g' hg'
    cases hg.symm.trans hg₀
    exact hup (compareID_eq_lt.mp hlt).2

/-- A stream with one entry. -/
def oneEntry : Store :=
  (Store.new.onKey (bytes "s") (Cell.xAdd 1 (bytes "5-1") [bytes "f", bytes "v"])).2

/-- Consumer `a` reads, an entry is added, and consumer `b`, which has come before it, reads. -/
def twoConsumers : List (Action StreamCall) :=
  let reader (consumer : String) : StreamCall :=
    .xreadgroup (bytes "g") (bytes consumer) 10 [(bytes "s", bytes ">")] false 1 1 1
  [.start 0 (reader "a"), .start 1 (reader "b"), .run 0, .run 0,
    .start 2 (.xadd (bytes "s") (bytes "6-1") [bytes "f", bytes "v"] 1 1), .run 0, .run 0,
    .run 2, .run 2, .run 2, .run 2, .run 1, .run 1, .run 1, .run 1]

/-- Each consumer gets one entry, which is then pending for one of them. -/
theorem group_delivers_at_most_once_two : ∃ x : System StreamCall Watched,
      Reaches (System.step (StreamCall.program (bytes "s") (bytes "g")))
        (System.Starts StreamCall.Named)
        (System.idle (Watched.created (bytes "s") (bytes "g") (bytes "0-0") false 1 oneEntry)) x ∧
      (groupReads x.st.events).map (·.fresh) = [[bytes "5-1"], [bytes "6-1"]] ∧
      ∀ g, x.st.group (bytes "s") (bytes "g") = some g →
        (∃! consumer, PendingFor g (bytes "5-1") consumer) ∧
          ∃! consumer, PendingFor g (bytes "6-1") consumer := by
  have hrun : (runAll (System.step (StreamCall.program (bytes "s") (bytes "g")))
      (System.idle (Watched.created (bytes "s") (bytes "g") (bytes "0-0") false 1 oneEntry))
      twoConsumers).map (fun x => ((groupReads x.st.events).map (·.fresh),
        unacknowledged x.st.events))
      = some ([[bytes "5-1"], [bytes "6-1"]], {bytes "5-1", bytes "6-1"}) := by decide +kernel
  obtain ⟨x, hrun, hx⟩ := Option.map_eq_some_iff.mp hrun
  obtain ⟨hfresh, hpending⟩ := Prod.mk.inj hx
  have hnamed : ∀ a ∈ twoConsumers, ∀ x : System StreamCall Watched,
      x.Starts StreamCall.Named a := by
    simp [twoConsumers, System.Starts, StreamCall.Named, show bytes "6-1" ≠ bytes "$" by decide]
  have hrun := reaches_of_runMeets (runMeets_of_forall hnamed) hrun
  have horder : StreamInOrder (oneEntry.entries (bytes "s")) := by
    intro entries h
    cases h
    exact Ascending.nil.append (by decide) (by decide)
  obtain ⟨-, -, hone, -⟩ := group_delivers_at_most_once _ _ _ _ _ _ horder rfl x hrun
  refine ⟨x, hrun, hfresh, fun g hg => ⟨(hone g hg _).mp ?_, (hone g hg _).mp ?_⟩⟩
  all_goals
    rw [hpending]
    decide

end Vole.Server
