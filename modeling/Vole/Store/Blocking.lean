import Vole.Lib.Transition
import Vole.Store.StoreOps
import Mathlib.Tactic.Abel

/-!
# Blocking pops

Any number of clients push to lists, pop from them, and block in `BPop` until a push wakes
them. A blocked call is a waiter of the store; it runs in three steps: it pops at once or
registers under all its keys, it receives from its channel or times out, and it takes its
registrations back. Everything between two steps is open to the other clients.
-/

namespace Vole

open Go Transition Cell Function Store Finset

variable {left : Bool} {s : Store} {w : Nat} {phase : Nat → Phase} {value : Bytes}

/-- Where a call of `BPop` that had to block stands. -/
inductive Clients.Phase where
  | idle
  /-- registered under its keys, in the `select` -/
  | waiting (keys : List Bytes)
  /-- returned, with the deferred `removeListWaiter` still to come -/
  | leaving (keys : List Bytes)
  deriving DecidableEq

/-- The store, the blocked calls, and what has been pushed and returned so far. -/
structure Clients where
  store : Store
  phase : Nat → Clients.Phase
  pushed : Multiset Bytes
  returned : Multiset Bytes

/-- A step of some client. -/
inductive Clients.Act where
  | push (key : Bytes) (left : Bool) (values : List Bytes)
  | pop (key : Bytes) (left : Bool)
  | lMove (src dst : Bytes) (srcLeft dstLeft : Bool)
  | bPop (keys : List Bytes) (left : Bool)
  | receive (w : Nat)
  | timeout (w : Nat)
  | leave (w : Nat)

namespace Clients

/-- Before anything happens. -/
def start : Clients := ⟨Store.new, fun _ => .idle, 0, 0⟩

/-- The channel of a waiter is read. -/
def drain (s : Store) (w : Nat) : Store :=
  { s with waiters := Function.update s.waiters w { s.waiters w with chan := none } }

/-- One step at a time `now`. A blocked call can only receive, time out or leave when it has
got that far. -/
def step (x : Clients) : Time × Act → Option Clients
  | (now, .push key left values) =>
    match x.store.pushList now key left values with
    | (.ok _, s) => some { x with store := s, pushed := x.pushed + values }
    | (.error _, s) => some { x with store := s }
  | (now, .pop key left) =>
    match x.store.onKey key (Cell.popList now left) with
    | (.ok (some value), s) => some { x with store := s, returned := x.returned + {value} }
    | (_, s) => some { x with store := s }
  | (now, .lMove src dst srcLeft dstLeft) =>
    some { x with store := (x.store.lMove now src dst srcLeft dstLeft).2 }
  | (now, .bPop keys left) =>
    match x.store.bPopStart now keys left with
    | (some (_, value), s) => some { x with store := s, returned := x.returned + {value} }
    | (none, s) => some
        { x with store := s, phase := Function.update x.phase x.store.nextWaiter (.waiting keys) }
  | (_, .receive w) =>
    match x.phase w, (x.store.waiters w).chan with
    | .waiting keys, some (_, value) => some
        { x with
          store := drain x.store w
          phase := Function.update x.phase w (.leaving keys)
          returned := x.returned + {value} }
    | _, _ => none
  | (_, .timeout w) =>
    match x.phase w with
    | .waiting keys => some { x with phase := Function.update x.phase w (.leaving keys) }
    | _ => none
  | (_, .leave w) =>
    match x.phase w with
    | .leaving keys => some
        { x with
          store := x.store.removeListWaiter keys w
          phase := Function.update x.phase w .idle }
    | _ => none

end Clients

/-! ## Where the elements are -/

/-- The elements of the list under a key. -/
def Store.listAt (s : Store) (key : Bytes) : List Bytes := (s.entries key).lists.getD []

/-- The elements of all lists. -/
def Store.elements (s : Store) : Multiset Bytes := ∑ k ∈ s.held, (s.listAt k : Multiset Bytes)

/-- The element handed to a waiter that it has not received. -/
def ListWaiter.content (w : ListWaiter) : Multiset Bytes :=
  match w.chan with
  | none => 0
  | some (_, value) => {value}

/-- What a blocked call still has to receive; a call that has returned receives nothing. -/
def Clients.Phase.content (w : ListWaiter) : Clients.Phase → Multiset Bytes
  | .waiting _ => w.content
  | _ => 0

/-- The elements in the channels of waiting calls. -/
def Store.inFlight (s : Store) (phase : Nat → Clients.Phase) : Multiset Bytes :=
  ∑ w ∈ Finset.range s.nextWaiter, (phase w).content (s.waiters w)

/-- These waiters are different, waiting, and have not been served. -/
def Clients.Fresh (s : Store) (phase : Nat → Clients.Phase) (ws : List Nat) : Prop :=
  ws.Nodup ∧ ∀ w ∈ ws, (s.waiters w).served = false ∧ ∃ keys, phase w = .waiting keys

/-- A step that loses nothing. The waiters that a push reaches, one for each element the
list then has, are fresh; a call does not time out with an element in its channel. -/
def Clients.Act.Careful (x : Clients) : Clients.Act → Prop
  | .push key _ values =>
    Fresh x.store x.phase
      ((x.store.listWaits key).take ((x.store.listAt key).length + values.length))
  | .lMove _ dst _ _ =>
    Fresh x.store x.phase
      ((x.store.listWaits dst).take ((x.store.listAt dst).length + 1))
  | .timeout w => (x.store.waiters w).chan = none
  | _ => True

/-! ## Lists -/

theorem popValue_eq_some {items rest : List Bytes}
    (h : popValue left items = some (value, rest)) : (items : Multiset Bytes) = rest + {value} := by
  unfold popValue at h
  cases left with
  | true =>
    cases items with
    | nil => simp at h
    | cons v vs =>
      simp only [if_true, Option.some.injEq, Prod.mk.injEq] at h
      rw [← h.1, ← h.2, ← Multiset.cons_coe, ← Multiset.singleton_add, add_comm]
  | false =>
    simp only [Bool.false_eq_true, if_false, Option.map_eq_some_iff] at h
    obtain ⟨v, hlast, hpair⟩ := h
    obtain ⟨ys, hys⟩ := List.getLast?_eq_some_iff.mp hlast
    rw [hys, List.dropLast_concat] at hpair
    simp only [Prod.mk.injEq] at hpair
    rw [hys, ← hpair.1, ← hpair.2]
    rfl

theorem popValue_length {items rest : List Bytes}
    (h : popValue left items = some (value, rest)) : items.length = rest.length + 1 := by
  have hcard := congrArg Multiset.card (popValue_eq_some h)
  simpa using hcard

theorem pushValues_coe (left : Bool) (values items : List Bytes) :
    (pushValues left values items : Multiset Bytes) = items + values := by
  unfold pushValues
  cases left with
  | true => simp [← Multiset.coe_add, add_comm]
  | false => simp

@[simp] theorem setList_listAt (c : Cell) (items : List Bytes) :
    (c.setList items).lists.getD [] = items := by
  unfold setList
  split
  · rename_i hempty
    rw [hempty]
    rfl
  · rfl

namespace Store

theorem listAt_put (s : Store) (key : Bytes) (c : Cell) (k : Bytes) :
    (s.put key c).listAt k = if k = key then c.lists.getD [] else s.listAt k := by
  unfold listAt
  rw [put_entries_apply]
  split <;> rfl

theorem listAt_of_not_held {k : Bytes} (h : k ∉ s.held) : s.listAt k = [] := by
  have hzero : s.entries k = 0 := by simpa [held] using h
  unfold listAt
  rw [hzero]
  rfl

theorem elements_eq_sum {S : Finset Bytes} (h : s.held ⊆ S) :
    s.elements = ∑ k ∈ S, (s.listAt k : Multiset Bytes) := by
  refine sum_subset h ?_
  intro k _ hk
  rw [listAt_of_not_held hk]
  rfl

theorem elements_put (s : Store) (key : Bytes) (c : Cell) :
    (s.put key c).elements + s.listAt key = s.elements + (c.lists.getD [] : List Bytes) := by
  have hkey : key ∈ insert key (s.held ∪ (s.put key c).held) := mem_insert_self _ _
  have hold : s.held ⊆ insert key (s.held ∪ (s.put key c).held) :=
    subset_union_left.trans (subset_insert _ _)
  have hnew : (s.put key c).held ⊆ insert key (s.held ∪ (s.put key c).held) :=
    subset_union_right.trans (subset_insert _ _)
  rw [elements_eq_sum hold, elements_eq_sum hnew]
  refine sum_change_one hkey ?_ ?_
  · rw [listAt_put, if_pos rfl, add_comm]
  · intro k hk
    rw [listAt_put, if_neg hk]

theorem elements_take {key value : Bytes} {rest : List Bytes} {c : Cell}
    (hpop : popValue left (s.listAt key) = some (value, rest))
    (hlists : c.lists.getD [] = rest) : (s.put key c).elements + {value} = s.elements := by
  have hput := elements_put s key c
  rw [hlists, popValue_eq_some hpop, add_comm (rest : Multiset Bytes), ← add_assoc] at hput
  exact add_right_cancel hput

theorem elements_give {key : Bytes} {values : List Bytes} {c : Cell}
    (hlists : c.lists.getD [] = pushValues left values (s.listAt key)) :
    (s.put key c).elements = s.elements + values := by
  have hput := elements_put s key c
  rw [hlists, pushValues_coe, add_comm (s.listAt key : Multiset Bytes), ← add_assoc] at hput
  exact add_right_cancel hput

theorem elements_congr {s s' : Store} (h : s'.entries = s.entries) : s'.elements = s.elements := by
  unfold elements held listAt
  rw [h]

/-- Every key holds a list or nothing, and no key expires. -/
def ListsOnly (s : Store) : Prop :=
  ∀ k, (s.entries k).expires = none ∧ (s.entries k).conflicts .list = false

namespace ListsOnly

variable {s : Store}

variable (h : s.ListsOnly)
include h

theorem expired (now : Time) (k : Bytes) : (s.entries k).expired now = false := by
  unfold Entry.expired
  rw [(h k).1]

theorem purge (now : Time) (key : Bytes) : (s.cell key).purge now = s.cell key:= by
  have hlive := h.expired now key
  exact if_neg (by simp [hlive])

theorem purgeKey (now : Time) (key : Bytes) : s.purgeKey now key = s := by
  show s.put key ((s.cell key).purge now) = s
  rw [h.purge now key, put_cell]

theorem put {key : Bytes} {c : Cell} (hexp : c.expires = none)
    (hdata : SameBut .list (s.entries key).toData c.toData) : (s.put key c).ListsOnly := by
  intro k
  refine ⟨?_, put_free hdata (h k).2⟩
  rw [put_entries_apply]
  split
  · exact hexp
  · exact (h k).1

theorem setList (key : Bytes) (items : List Bytes) :
    (s.put key ((s.cell key).setList items)).ListsOnly := by
  refine h.put ?_ (setList_sameBut _ _)
  unfold Cell.setList
  split
  · rfl
  · exact (h key).1

theorem lMoveConflicts (k : Bytes) : lMoveConflicts (s.entries k) = false := by
  have hfree := conflicts_eq_false.mp (h k).2
  simp [Store.lMoveConflicts, Data.hasAny, hfree]

end ListsOnly

/-! ## Waking clients -/

/-- A waiter that has not been served has an empty channel. -/
def Quiet (s : Store) : Prop := ∀ w, (s.waiters w).served = false → (s.waiters w).chan = none

/-- The waiters of waiting calls have been handed out. -/
def Known (s : Store) (phase : Nat → Clients.Phase) : Prop :=
  ∀ w keys, phase w = .waiting keys → w < s.nextWaiter

/-- What a client that wakes others keeps. -/
structure Kept (phase : Nat → Clients.Phase) (s s' : Store) : Prop where
  total : s'.elements + s'.inFlight phase = s.elements + s.inFlight phase
  listsOnly : s'.ListsOnly
  quiet : s'.Quiet
  nextWaiter_eq : s'.nextWaiter = s.nextWaiter

section
variable {s : Store} {phase : Nat → Clients.Phase}

theorem serve_waiters_self (key value : Bytes) (h : (s.waiters w).served = false) :
    (s.serve w key value).waiters w = ⟨(s.waiters w).left, some (key, value), true⟩ := by
  simp [serve, h]

theorem serve_waiters_ne {w v : Nat} (key value : Bytes) (h : v ≠ w) :
    (s.serve w key value).waiters v = s.waiters v := by
  unfold serve
  split
  · rfl
  · exact update_of_ne h _ _

theorem serve_nextWaiter (w : Nat) (key value : Bytes) :
    (s.serve w key value).nextWaiter = s.nextWaiter := by
  unfold serve
  split <;> rfl

theorem inFlight_serve {keys : List Bytes} (key value : Bytes) (hquiet : s.Quiet)
    (hw : w < s.nextWaiter) (hserved : (s.waiters w).served = false)
    (hphase : phase w = .waiting keys) :
    (s.serve w key value).inFlight phase = s.inFlight phase + {value} := by
  unfold inFlight
  rw [serve_nextWaiter, ← add_zero (∑ _ ∈ _, _)]
  refine sum_change_one (mem_range.mpr hw) ?_ ?_
  · rw [serve_waiters_self key value hserved, hphase]
    simp [Clients.Phase.content, ListWaiter.content, hquiet w hserved]
  · intro v hv
    rw [serve_waiters_ne key value hv]

theorem serve_quiet (key value : Bytes) (hquiet : s.Quiet) : (s.serve w key value).Quiet := by
  intro v hv
  by_cases hvw : v = w
  · subst hvw
    by_cases hserved : (s.waiters v).served = false
    · rw [serve_waiters_self key value hserved] at hv
      cases hv
    · have hsame : s.serve v key value = s := if_pos (by simpa using hserved)
      rw [hsame] at hv ⊢
      exact hquiet v hv
  · rw [serve_waiters_ne key value hvw] at hv ⊢
    exact hquiet v hv

theorem listAt_handOver (key : Bytes) (w : Nat) (rest : List Nat) (value : Bytes)
    (items : List Bytes) : (s.handOver key w rest value items).listAt key = items := by
  unfold listAt
  rw [handOver_entries, put_entries_self, setList_listAt]

/-- A round of the wake-up that reaches a fresh waiter loses nothing: the element leaves the
list and is in the channel. -/
theorem handOver_kept {key : Bytes} {rest : List Nat}
    {items keys : List Bytes} (honly : s.ListsOnly) (hquiet : s.Quiet)
    (hw : w < s.nextWaiter) (hserved : (s.waiters w).served = false)
    (hphase : phase w = .waiting keys) (hpop : popValue left (s.listAt key) = some (value, items)) :
    Kept phase s (s.handOver key w rest value items) where
  total := by
    have hflight : (s.handOver key w rest value items).inFlight phase =
        s.inFlight phase + {value} := inFlight_serve key value hquiet hw hserved hphase
    have helems : (s.handOver key w rest value items).elements + {value} = s.elements := by
      rw [elements_congr (handOver_entries key w rest value items s)]
      exact elements_take hpop (setList_listAt _ items)
    rw [hflight, ← helems, add_right_comm, ← add_assoc]
  listsOnly := by
    intro k
    rw [handOver_entries]
    exact honly.setList key items k
  quiet := serve_quiet key value hquiet
  nextWaiter_eq := serve_nextWaiter w key value

theorem wakeLoop_kept (key : Bytes) (ws : List Nat) (s : Store) (honly : s.ListsOnly)
    (hquiet : s.Quiet) (hknown : s.Known phase)
    (hfresh : Clients.Fresh s phase (ws.take (s.listAt key).length)) :
    Kept phase s (wakeLoop key ws s) := by
  induction ws generalizing s with
  | nil => exact ⟨rfl, honly, hquiet, rfl⟩
  | cons w rest ih =>
    unfold wakeLoop
    split
    · exact ⟨rfl, honly, hquiet, rfl⟩
    · rename_i value items hpop
      have hlen : (s.listAt key).length = items.length + 1 := popValue_length hpop
      rw [hlen, List.take_succ_cons] at hfresh
      obtain ⟨hnodup, hall⟩ := hfresh
      obtain ⟨hnotin, hnodup⟩ := List.nodup_cons.mp hnodup
      obtain ⟨hserved, keys, hphase⟩ := hall w (.head _)
      have hround : Kept phase s (s.handOver key w rest value items) :=
        handOver_kept honly hquiet (hknown w keys hphase) hserved hphase hpop
      -- the waiters still to be reached are others, and as fresh as before
      have hfresh' : Clients.Fresh (s.handOver key w rest value items) phase
          (rest.take ((s.handOver key w rest value items).listAt key).length) := by
        rw [listAt_handOver]
        refine ⟨hnodup, fun v hv => ?_⟩
        have hne : v ≠ w := fun h => hnotin (h ▸ hv)
        have hkeep : (s.handOver key w rest value items).waiters v = s.waiters v :=
          serve_waiters_ne key value hne
        rw [hkeep]
        exact hall v (.tail _ hv)
      have hknown' : (s.handOver key w rest value items).Known phase := by
        intro v ks hv
        rw [hround.nextWaiter_eq]
        exact hknown v ks hv
      have hrest := ih _ hround.listsOnly hround.quiet hknown' hfresh'
      exact ⟨hrest.total.trans hround.total, hrest.listsOnly, hrest.quiet,
        hrest.nextWaiter_eq.trans hround.nextWaiter_eq⟩

end

/-! ## The list operations, on stores of lists -/

section
variable {s : Store} {phase : Nat → Clients.Phase} (now : Time)

theorem pushValues_length (left : Bool) (values items : List Bytes) :
    (pushValues left values items).length = items.length + values.length := by
  have hcard := congrArg Multiset.card (pushValues_coe left values items)
  simpa using hcard

theorem pushList_nil (key : Bytes) (left : Bool) (s : Store) :
    s.pushList now key left [] = (.error .listArity, s) := by
  show (Except.error Err.listArity, s.put key (s.cell key)) = _
  rw [put_cell]

variable (honly : s.ListsOnly)
include honly

theorem pushList_eq (key : Bytes) (left : Bool) {values : List Bytes} (hne : values ≠ []) :
    ∃ n, s.pushList now key left values = (.ok n, wakeListWaiters key (s.put key
      { s.cell key with
        lists := some (pushValues left values (s.listAt key)) }.touch)) := by
  have hpush : (s.cell key).pushList now left values = (.ok (), { s.cell key with
      lists := some (pushValues left values (s.listAt key)) }.touch) := by
    have hfree : ¬ (s.cell key).conflicts .list = true := by
      simp [(honly key).2]
    unfold Cell.pushList
    rw [if_neg hne, honly.purge now key, if_neg hfree]
    rfl
  unfold pushList onKey
  rw [hpush]
  exact ⟨_, rfl⟩

theorem popList_eq (key : Bytes) (left : Bool) :
    s.onKey key (popList now left) =
      match popValue left (s.listAt key) with
      | none => (.ok none, s)
      | some (value, rest) => (.ok (some value), s.put key ((s.cell key).setList rest).touch) := by
  have hlive : ¬ (s.cell key).expired now = true := by
    simp [honly.expired now key]
  have hfree : ¬ (s.cell key).conflicts .list = true := by
    simp [(honly key).2]
  have hlist : (s.cell key).lists.getD [] = s.listAt key := rfl
  unfold onKey popList
  rw [if_neg hlive, if_neg hfree, hlist]
  cases popValue left (s.listAt key) with
  | none => simp only [put_cell]
  | some r => rfl

theorem bPopTry_cases (left : Bool) (keys : List Bytes) :
    bPopTry now left keys s = (none, s) ∨
    ∃ key value rest, popValue left (s.listAt key) = some (value, rest) ∧ bPopTry now left keys s =
        (some (key, value), s.put key ((s.cell key).setList rest).touch) := by
  induction keys with
  | nil => exact .inl rfl
  | cons key more ih =>
    have hlive : ¬ (s.cell key).expired now = true := by
      simp [honly.expired now key]
    have hlist : (s.cell key).lists.getD [] = s.listAt key := rfl
    unfold bPopTry onKey bPopCell
    rw [if_neg hlive, hlist]
    cases hpop : popValue left (s.listAt key) with
    | none =>
      simp only [put_cell]
      exact ih
    | some r => exact .inr ⟨key, r.1, r.2, hpop, rfl⟩

theorem lMove_eq (src dst : Bytes) (srcLeft dstLeft : Bool) :
    (s.lMove now src dst srcLeft dstLeft).2 =
      match popValue srcLeft (s.listAt src) with
      | none => s
      | some (value, rest) => s.lMoveWrite src dst dstLeft value rest := by
  have hsame : (if src = dst then s else s.purgeKey now dst) = s := by
    split
    · rfl
    · exact honly.purgeKey now dst
  unfold lMove
  simp only [honly.purgeKey now src, honly.lMoveConflicts, Bool.false_eq_true, if_false, hsame,
    and_false]
  rw [show (s.entries src).lists.getD [] = s.listAt src from rfl]
  cases popValue srcLeft (s.listAt src) <;> rfl

end

end Store

/-! ## Steps and runs -/

namespace Clients

/-- What holds between any two careful steps. -/
structure Inv (x : Clients) : Prop where
  listsOnly : x.store.ListsOnly
  quiet : x.store.Quiet
  known : x.store.Known x.phase
  conserved : x.pushed = x.store.elements + x.store.inFlight x.phase + x.returned

theorem Fresh.take {ws : List Nat} {m n : Nat}
    (h : Fresh s phase (ws.take n)) (hmn : m ≤ n) : Fresh s phase (ws.take m) := by
  have hsub : (ws.take m).Sublist (ws.take n) := List.take_sublist_take_left hmn
  exact ⟨hsub.nodup h.1, fun w hw => h.2 w (hsub.subset hw)⟩

section
variable {x y : Clients} (now : Time)

variable (hinv : Inv x)
include hinv

/-- A store whose lists have been changed, before the wake-up under one key. -/
theorem Inv.wake (key : Bytes) {pushed : Multiset Bytes} (honly : s.ListsOnly)
    (hwaiters : s.waiters = x.store.waiters) (hnext : s.nextWaiter = x.store.nextWaiter)
    (hfresh : Fresh x.store x.phase ((s.listWaits key).take (s.listAt key).length))
    (hconserved : pushed = s.elements + x.store.inFlight x.phase + x.returned) :
    Inv ⟨s.wakeListWaiters key, x.phase, pushed, x.returned⟩ := by
  have hflight : s.inFlight x.phase = x.store.inFlight x.phase := by
    unfold inFlight
    rw [hwaiters, hnext]
  have hkept : Store.Kept x.phase s (s.wakeListWaiters key) := by
    refine wakeLoop_kept key _ s honly ?_ ?_ ?_
    · intro w
      rw [hwaiters]
      exact hinv.quiet w
    · intro w keys hw
      rw [hnext]
      exact hinv.known w keys hw
    · refine ⟨hfresh.1, fun w hw => ?_⟩
      rw [hwaiters]
      exact hfresh.2 w hw
  refine ⟨hkept.listsOnly, hkept.quiet, fun w keys hw => ?_, ?_⟩
  · rw [hkept.nextWaiter_eq, hnext]
    exact hinv.known w keys hw
  · rw [hkept.total, hflight]
    exact hconserved

theorem push_inv (key : Bytes) (left : Bool) (values : List Bytes)
    (hcareful : (Act.push key left values).Careful x)
    (hstep : step x (now, .push key left values) = some y) : Inv y := by
  by_cases hne : values = []
  · subst hne
    simp only [step, pushList_nil] at hstep
    cases hstep
    exact hinv
  · obtain ⟨n, heq⟩ := pushList_eq now hinv.listsOnly key left hne
    simp only [step, heq] at hstep
    cases hstep
    let c : Cell := { x.store.cell key with
      lists := some (pushValues left values (x.store.listAt key)) }.touch
    have hlen : ((x.store.put key c).listAt key).length =
        (x.store.listAt key).length + values.length := by
      rw [listAt_put, if_pos rfl]
      exact pushValues_length left values _
    refine hinv.wake key (hinv.listsOnly.put (hinv.listsOnly key).1 rfl) rfl rfl
      (by rw [hlen]; exact hcareful) ?_
    have hgive : (x.store.put key c).elements = x.store.elements + values := elements_give rfl
    rw [hgive, hinv.conserved]
    abel_nf

theorem take_inv {key value : Bytes} {rest : List Bytes}
    (hpop : popValue left (x.store.listAt key) = some (value, rest)) :
    Inv { x with
      store := x.store.put key ((x.store.cell key).setList rest).touch
      returned := x.returned + {value} } where
  listsOnly := hinv.listsOnly.setList key rest
  quiet := hinv.quiet
  known := hinv.known
  conserved := by
    have htake : (x.store.put key ((x.store.cell key).setList rest).touch).elements + {value} =
        x.store.elements := elements_take hpop (setList_listAt _ rest)
    show x.pushed = (x.store.put key ((x.store.cell key).setList rest).touch).elements +
      x.store.inFlight x.phase + (x.returned + {value})
    rw [hinv.conserved, ← htake]
    abel

theorem pop_inv (key : Bytes) (left : Bool)
    (hstep : step x (now, .pop key left) = some y) : Inv y := by
  simp only [step, popList_eq now hinv.listsOnly key left] at hstep
  cases hpop : popValue left (x.store.listAt key) with
  | none =>
    simp only [hpop] at hstep
    cases hstep
    exact hinv
  | some r =>
    simp only [hpop] at hstep
    cases hstep
    exact take_inv hinv hpop

theorem lMove_inv (src dst : Bytes) (srcLeft dstLeft : Bool)
    (hcareful : (Act.lMove src dst srcLeft dstLeft).Careful x)
    (hstep : step x (now, .lMove src dst srcLeft dstLeft) = some y) : Inv y := by
  simp only [step, lMove_eq now hinv.listsOnly] at hstep
  cases hpop : popValue srcLeft (x.store.listAt src) with
  | none =>
    simp only [hpop] at hstep
    cases hstep
    exact hinv
  | some r =>
    obtain ⟨value, rest⟩ := r
    simp only [hpop, lMoveWrite_eq] at hstep
    cases hstep
    let s₁ := x.store.put src ((x.store.cell src).setList rest)
    let c : Cell := { s₁.cell dst with
      lists := some (pushValues dstLeft [value] (s₁.listAt dst)) }
    let s₂ := (s₁.put dst c).touchKeys [src, dst]
    have honly₁ : s₁.ListsOnly := hinv.listsOnly.setList src rest
    have honly₂ : s₂.ListsOnly := honly₁.put (c := c) (honly₁ dst).1 rfl
    have htake : s₁.elements + {value} = x.store.elements :=
      elements_take hpop (setList_listAt _ rest)
    have hgive : s₂.elements = s₁.elements + ([value] : List Bytes) :=
      elements_give (c := c) rfl
    -- the destination has at most one element more than before
    have hlen : (s₂.listAt dst).length ≤ (x.store.listAt dst).length + 1 := by
      have hput : s₂.listAt dst = pushValues dstLeft [value] (s₁.listAt dst) := by
        show (s₁.put dst c).listAt dst = _
        rw [listAt_put, if_pos rfl]
        rfl
      have hfirst : (s₁.listAt dst).length ≤ (x.store.listAt dst).length := by
        rw [listAt_put]
        split
        · rename_i heq
          rw [setList_listAt, heq, popValue_length hpop]
          omega
        · exact Nat.le_refl _
      rw [hput, pushValues_length]
      simpa using hfirst
    refine hinv.wake dst honly₂ rfl rfl (hcareful.take hlen) ?_
    show x.pushed = s₂.elements + _ + _
    rw [hgive, hinv.conserved, ← htake]
    rfl

theorem register_inv (keys : List Bytes) (left : Bool) :
    Inv { x with
      store := x.store.register keys left
      phase := update x.phase x.store.nextWaiter (.waiting keys) } where
  listsOnly := hinv.listsOnly
  quiet := by
    intro w hw
    show (update x.store.waiters x.store.nextWaiter _ w).chan = none
    by_cases hnew : w = x.store.nextWaiter
    · rw [hnew, update_self]
    · have hold : (x.store.register keys left).waiters w = x.store.waiters w :=
        update_of_ne hnew _ _
      rw [update_of_ne hnew]
      exact hinv.quiet w (hold ▸ hw)
  known := by
    intro w ks hw
    show w < x.store.nextWaiter + 1
    by_cases hnew : w = x.store.nextWaiter
    · omega
    · have hold : x.phase w = .waiting ks := by
        rw [← hw]
        exact (update_of_ne hnew _ _).symm
      have hlt := hinv.known w ks hold
      omega
  conserved := by
    have hflight : (x.store.register keys left).inFlight
        (update x.phase x.store.nextWaiter (.waiting keys)) =
        x.store.inFlight x.phase := by
      show ∑ w ∈ range (x.store.nextWaiter + 1), _ = _
      rw [sum_range_succ]
      have hlast : ((update x.phase x.store.nextWaiter (Phase.waiting keys))
          x.store.nextWaiter).content
          ((x.store.register keys left).waiters x.store.nextWaiter) = 0 := by
        simp [register, Phase.content, ListWaiter.content]
      rw [hlast, add_zero]
      refine sum_congr rfl ?_
      intro w hw
      have hne : w ≠ x.store.nextWaiter := Nat.ne_of_lt (mem_range.mp hw)
      rw [update_of_ne hne]
      have hold : (x.store.register keys left).waiters w = x.store.waiters w :=
        update_of_ne hne _ _
      rw [hold]
    rw [hflight]
    exact hinv.conserved

theorem bPop_inv (keys : List Bytes) (left : Bool)
    (hstep : step x (now, .bPop keys left) = some y) : Inv y := by
  simp only [step, bPopStart] at hstep
  rcases bPopTry_cases now hinv.listsOnly left keys with hnone | ⟨key, value, rest, hpop, hsome⟩
  · simp only [hnone] at hstep
    cases hstep
    exact register_inv hinv keys left
  · simp only [hsome] at hstep
    cases hstep
    exact take_inv hinv hpop

omit hinv in
theorem inFlight_leave {keys : List Bytes}
    {waiters : Nat → ListWaiter} {next : Phase} (hw : w < s.nextWaiter)
    (hphase : phase w = .waiting keys) (hnext : ∀ v, next.content v = 0)
    (hothers : ∀ v, v ≠ w → waiters v = s.waiters v) :
    ({ s with waiters := waiters }.inFlight (update phase w next)) +
      (s.waiters w).content = s.inFlight phase := by
  rw [← add_zero (s.inFlight phase)]
  refine sum_change_one (mem_range.mpr hw) ?_ ?_
  · rw [update_self, hphase, hnext, zero_add, add_zero]
    rfl
  · intro v hv
    show ((update phase w next) v).content (waiters v) = _
    rw [update_of_ne hv, hothers v hv]

omit hinv in
theorem known_update (hknown : s.Known phase)
    {next : Phase} (hnext : ∀ keys, next ≠ .waiting keys) : s.Known (update phase w next) := by
  intro v ks hv
  by_cases hvw : v = w
  · rw [hvw, update_self] at hv
    exact absurd hv (hnext ks)
  · rw [update_of_ne hvw] at hv
    exact hknown v ks hv

/-- A waiting call returns what is in its channel, if anything is. -/
theorem returns_inv {keys : List Bytes} {waiters : Nat → ListWaiter}
    (hphase : x.phase w = .waiting keys) (hself : (waiters w).chan = none) (hothers : ∀ v, v ≠ w → waiters v = x.store.waiters v) :
    Inv ⟨{ x.store with waiters := waiters }, update x.phase w (.leaving keys), x.pushed,
      x.returned + (x.store.waiters w).content⟩ := by
  refine ⟨hinv.listsOnly, fun v hv => ?_, known_update hinv.known (by simp), ?_⟩
  · by_cases hvw : v = w
    · exact hvw ▸ hself
    · have hsame := hothers v hvw
      dsimp only at hv ⊢
      rw [hsame] at hv ⊢
      exact hinv.quiet v hv
  · have hflight : { x.store with waiters := waiters }.inFlight (update x.phase w (.leaving keys))
        + (x.store.waiters w).content = x.store.inFlight x.phase :=
      inFlight_leave (hinv.known w keys hphase) hphase (fun _ => rfl) hothers
    show x.pushed = x.store.elements + _ + _
    rw [hinv.conserved, ← hflight, add_comm x.returned, ← add_assoc, ← add_assoc]

theorem receive_inv (w : Nat) (hstep : step x (now, .receive w) = some y) : Inv y := by
  simp only [step] at hstep
  split at hstep
  · rename_i keys key value hphase hchan
    cases hstep
    have hcontent : (x.store.waiters w).content = {value} := by simp [ListWaiter.content, hchan]
    rw [← hcontent]
    exact returns_inv hinv hphase (by rw [update_self]) (fun v hv => update_of_ne hv _ _)
  · cases hstep

theorem timeout_inv (w : Nat) (hcareful : (Act.timeout w).Careful x)
    (hstep : step x (now, .timeout w) = some y) : Inv y := by
  simp only [step] at hstep
  split at hstep
  · rename_i keys hphase
    cases hstep
    have hchan : (x.store.waiters w).chan = none := hcareful
    have hcontent : (x.store.waiters w).content = 0 := by simp [ListWaiter.content, hchan]
    have hreturns := returns_inv hinv hphase hchan (fun _ _ => rfl)
    rwa [hcontent, add_zero] at hreturns
  · cases hstep

theorem leave_inv (w : Nat) (hstep : step x (now, .leave w) = some y) : Inv y := by
  simp only [step] at hstep
  split at hstep
  · rename_i keys hphase
    cases hstep
    refine ⟨hinv.listsOnly, hinv.quiet, known_update hinv.known (by simp), ?_⟩
    have hflight : x.store.inFlight (update x.phase w .idle) =
        x.store.inFlight x.phase := by
      refine sum_congr rfl ?_
      intro v _
      by_cases hvw : v = w
      · rw [hvw, update_self, hphase]
        rfl
      · rw [update_of_ne hvw]
    show x.pushed = x.store.elements + x.store.inFlight (update x.phase w .idle) +
      x.returned
    rw [hflight]
    exact hinv.conserved
  · cases hstep

theorem step_inv (a : Time × Act) (hcareful : a.2.Careful x)
    (hstep : step x a = some y) : Inv y := by
  obtain ⟨now, act⟩ := a
  cases act with
  | push key left values => exact push_inv now hinv key left values hcareful hstep
  | pop key left => exact pop_inv now hinv key left hstep
  | lMove src dst srcLeft dstLeft =>
    exact lMove_inv now hinv src dst srcLeft dstLeft hcareful hstep
  | bPop keys left => exact bPop_inv now hinv keys left hstep
  | receive w => exact receive_inv now hinv w hstep
  | timeout w => exact timeout_inv now hinv w hcareful hstep
  | leave w => exact leave_inv now hinv w hstep

end

/-- **No element is lost or duplicated.** In a run of careful steps every pushed element is
in a list, in the channel of a waiting call, or was returned; and when no call is waiting,
in a list or returned. -/
theorem blocking_conserves (x : Clients) (hrun : Reaches step (fun x a => a.2.Careful x) start x) :
    x.pushed = x.store.elements + x.store.inFlight x.phase + x.returned ∧
    ((∀ w keys, x.phase w ≠ .waiting keys) → x.pushed = x.store.elements + x.returned) := by
  have hstart : Inv start :=
    ⟨fun _ => ⟨rfl, conflicts_eq_false.mpr (fun t _ => has_empty t)⟩, fun _ _ => rfl,
      fun w keys h => by simp [start] at h, by decide⟩
  have hinv : Inv x := hrun.invariant hstart (fun _ _ a hinv hcareful hstep =>
    step_inv hinv a hcareful hstep)
  refine ⟨hinv.conserved, ?_⟩
  intro hdone
  have hflight : x.store.inFlight x.phase = 0 := by
    refine sum_eq_zero ?_
    intro w _
    cases hphase : x.phase w with
    | waiting keys => exact absurd hphase (hdone w keys)
    | idle => rfl
    | leaving keys => rfl
  rw [hinv.conserved, hflight, add_zero]

/-- A client blocks, a push wakes it, and it receives the element. -/
theorem blocking_conserves_hand_over :
    ∃ x, Reaches step (fun x a => a.2.Careful x) start x ∧ x.returned = {bytes "v"} ∧
      x.pushed = x.store.elements + x.store.inFlight x.phase + x.returned := by
  have hblock : Reaches step (fun x a => a.2.Careful x) start _ :=
    .tail (1, .bPop [bytes "k"] true) .refl trivial rfl
  have hpush := hblock.tail (1, .push (bytes "k") true [bytes "v"])
    (by
      refine ⟨by decide, ?_⟩
      intro w hw
      have hzero : w = 0 := by simpa using (show w ∈ [0] from hw)
      subst hzero
      exact ⟨rfl, [bytes "k"], rfl⟩) rfl
  have hreceive := hpush.tail (1, Act.receive 0) trivial rfl
  exact ⟨_, hreceive, by decide, (blocking_conserves _ hreceive).1⟩

/-- A client waiting on two keys takes an element from each and returns one of them. -/
theorem blocking_loses :
    ∃ x, Reaches step (fun _ _ => True) start x ∧ (∀ w keys, x.phase w ≠ .waiting keys) ∧
      x.pushed ≠ x.store.elements + x.returned := by
  have hrun : runAll step start
      [(1, .bPop [bytes "a", bytes "b"] true), (1, .push (bytes "a") true [bytes "x"]),
        (1, .push (bytes "b") true [bytes "y"]), (1, .receive 0), (1, .leave 0)] = some _ := rfl
  refine ⟨_, reaches_of_runAll hrun, ?_, by decide⟩
  intro w keys
  show update (update (update (fun _ => Phase.idle) 0 _) 0 _) 0
    Phase.idle w ≠ _
  by_cases hw : w = 0
  · rw [hw, update_self]
    exact Phase.noConfusion
  · rw [update_of_ne hw, update_of_ne hw, update_of_ne hw]
    exact Phase.noConfusion

end Clients

end Vole
