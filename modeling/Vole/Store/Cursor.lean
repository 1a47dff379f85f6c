import Vole.Lib.Transition
import Vole.Store.KeySpace

/-!
# Iterating with `Scan`

The cursor of `Scan` is a position in the sorted keys, which are listed anew by every call. A key
that goes away before the cursor moves those behind it forward, past the cursor.
-/

namespace Vole

open Go Transition List Store

theorem not_mem_take_of_sublist {α : Type} [LinearOrder α] {keys passed : List α} {k : α}
    (hsorted : keys.Pairwise (· ≤ ·)) (hsub : passed.Sublist keys) (hbelow : ∀ x ∈ passed, x < k) :
    k ∉ keys.take passed.length := by
  intro hmem
  have hpassed : passed.countP (· < k) = passed.length :=
    countP_eq_length.mpr (fun x hx => decide_eq_true (hbelow x hx))
  rw [← take_append_drop passed.length keys] at hsorted
  have hbehind : (keys.drop passed.length).countP (· < k) = 0 := by
    refine countP_eq_zero.mpr (fun x hx => ?_)
    have hle := (pairwise_append.mp hsorted).2.2 k hmem x hx
    simpa using hle
  have hfront : (keys.take passed.length).countP (· < k) < (keys.take passed.length).length := by
    refine lt_of_le_of_ne countP_le_length (fun heq => ?_)
    exact absurd (countP_eq_length.mp heq k hmem) (by simp)
  have hle : passed.countP (· < k) ≤ keys.countP (· < k) := hsub.countP_le
  rw [← take_append_drop passed.length keys, countP_append, hbehind] at hle
  have := length_take_le passed.length keys
  omega

/-- A call of `Scan` with a count of at least 1: the store it finds, and when. -/
structure ScanCall where
  store : Store
  now : Time
  count : Int
  positive : 1 ≤ count ∧ count < 2 ^ 63

/-- The keys that match, in order. -/
def ScanCall.keys (pattern : Bytes) (call : ScanCall) : List Bytes :=
  call.store.keys call.now pattern

/-- An iteration: the cursor for the next call, if there is one, the keys that stood before it
when it was returned, and the keys returned so far. -/
structure Scanning where
  cursor : Option Int
  passed : List Bytes
  returned : List Bytes

open Scanning

namespace Scanning

def start : Scanning := ⟨some 0, [], []⟩

/-- A call follows the cursor; 0 ends the iteration. -/
def step (pattern : Bytes) (st : Scanning) (call : ScanCall) : Option Scanning :=
  match st.cursor with
  | none => none
  | some cursor =>
    match call.store.scan call.now cursor call.count pattern with
    | .error _ => none
    | .ok (next, page) => some
      { cursor := if next = 0 then none else some next
        passed := (call.keys pattern).take next.toNat
        returned := st.returned ++ page }

end Scanning

section
variable {pattern k : Bytes} {call : ScanCall}

theorem ScanCall.pairwise_keys (call : ScanCall) : (call.keys pattern).Pairwise (· ≤ ·) := by
  unfold keys Store.keys
  split
  · exact pairwise_allKeys _ _
  · exact (pairwise_allKeys _ _).filter _

theorem ScanCall.mem_keys (hmatch : pattern = [] ∨ matchGlob pattern k = true)
    (hexists : (call.store.entries k).existsAt call.now = true) : k ∈ call.keys pattern := by
  have hall : k ∈ call.store.allKeys call.now := mem_allKeys.mpr hexists
  unfold keys Store.keys
  split
  · exact hall
  · rename_i hplain
    exact mem_filter.mpr ⟨hall, hmatch.resolve_left (fun hnil => hplain (.inl hnil))⟩

/-- One call: a key that the cursor has not passed is returned, or the next cursor has not passed
it either. -/
theorem ScanCall.scan_spec {cursor next : Int} {page : List Bytes} (hcursor : 0 ≤ cursor)
    (hk : k ∈ call.keys pattern) (hbefore : k ∉ (call.keys pattern).take cursor.toNat)
    (h : call.store.scan call.now cursor call.count pattern = .ok (next, page)) :
    k ∈ page ∨ 0 < next ∧ next < (call.keys pattern).length
      ∧ k ∉ (call.keys pattern).take next.toNat := by
  have hcount := call.positive
  have hbehind : k ∈ (call.keys pattern).drop cursor.toNat := by
    rw [← take_append_drop cursor.toNat (call.keys pattern)] at hk
    exact (mem_append.mp hk).resolve_left hbefore
  have hstop : wrap64 (cursor + call.count) ≤ cursor + call.count
      ∧ (cursor ≤ wrap64 (cursor + call.count) → wrap64 (cursor + call.count) ≠ 0) := by
    unfold wrap64 Int.bmod
    dsimp only
    split <;> omega
  unfold scan at h
  dsimp only at h
  rw [if_neg (by omega : ¬ call.count ≤ 0)] at h
  generalize wrap64 (cursor + call.count) = stop at h hstop
  generalize hkeys : call.store.keys call.now pattern = keys at h
  change call.keys pattern = keys at hkeys
  rw [hkeys] at hk hbefore hbehind ⊢
  split at h
  · rename_i hout
    rw [take_of_length_le (by omega)] at hbefore
    exact absurd hk hbefore
  split at h
  · cases h
    exact .inl hbehind
  split at h
  · cases h
  cases h
  refine or_iff_not_imp_left.mpr (fun hpage => ⟨by omega, by omega, fun hmem => ?_⟩)
  have hle : next.toNat ≤ cursor.toNat + call.count.toNat := by omega
  have hmem := take_subset_take_left keys hle hmem
  rw [take_add] at hmem
  exact (mem_append.mp hmem).elim hbefore hpage

/-- The key has been returned, or it stands behind the cursor. -/
def Scanning.Ahead (k : Bytes) (st : Scanning) : Prop :=
  k ∈ st.returned ∨ ∃ cursor, st.cursor = some cursor ∧ 0 ≤ cursor
    ∧ st.passed.length = cursor.toNat ∧ ∀ x ∈ st.passed, x < k

theorem Scanning.Ahead.step {st st' : Scanning} (h : st.Ahead k) (hk : k ∈ call.keys pattern)
    (hstay : st.passed.Sublist (call.keys pattern)) (hstep : st.step pattern call = some st') :
    st'.Ahead k := by
  unfold Scanning.step at hstep
  split at hstep
  · cases hstep
  rename_i cursor hcursor
  split at hstep
  · cases hstep
  rename_i next page hscan
  cases hstep
  rcases h with hret | ⟨cursor, hcursor', h0, hlength, hbelow⟩
  · exact .inl (mem_append_left _ hret)
  cases hcursor.symm.trans hcursor'
  have hbefore := not_mem_take_of_sublist call.pairwise_keys hstay hbelow
  rw [hlength] at hbefore
  rcases ScanCall.scan_spec h0 hk hbefore hscan with hpage | ⟨hpos, hlt, hnot⟩
  · exact .inl (mem_append_right _ hpage)
  · refine .inr ⟨next, if_neg (by omega), by omega, ?_, fun x hx => ?_⟩
    · rw [length_take]
      omega
    · have hsorted : (call.keys pattern).Pairwise (· ≤ ·) := call.pairwise_keys
      rw [← take_append_drop next.toNat (call.keys pattern)] at hsorted hk
      refine lt_of_le_of_ne ?_ (fun heq => hnot (heq ▸ hx))
      exact (pairwise_append.mp hsorted).2.2 x hx k
        ((mem_append.mp hk).resolve_left hnot)

end

/-- **A full iteration returns every key that is there all along**, if no key goes away that the
cursor has passed; other keys may be created anywhere and deleted behind the cursor. -/
theorem scan_complete (pattern k : Bytes) (hmatch : pattern = [] ∨ matchGlob pattern k = true)
    (st : Scanning)
    (hrun : Reaches (Scanning.step pattern) (fun st call =>
      (call.store.entries k).existsAt call.now = true ∧ st.passed.Sublist (call.keys pattern))
      Scanning.start st)
    (hdone : st.cursor = none) : k ∈ st.returned := by
  have hstart : start.Ahead k :=
    .inr ⟨0, rfl, le_rfl, rfl, fun x hx => absurd hx not_mem_nil⟩
  have hahead : st.Ahead k := hrun.invariant hstart (fun st st' call h hok hstep =>
    h.step (ScanCall.mem_keys hmatch hok.1) hok.2 hstep)
  rcases hahead with hret | ⟨cursor, hcursor, -⟩
  · exact hret
  · cases hdone.symm.trans hcursor

/-- A call with count 1 that finds these strings. -/
def callAt (keys : List Bytes) : ScanCall :=
  ⟨keys.foldl (fun s k => s.modify k (Cell.set 1 [] 0)) Store.new, 1, 1, by decide⟩

theorem keys_callAt {keys : List Bytes} (hheld : (callAt keys).store.held = keys.toFinset)
    (hsorted : keys.Pairwise (· < ·))
    (hlisted : ∀ k ∈ keys, ((callAt keys).store.entries k).listed 1 = 1) :
    (callAt keys).store.keys (callAt keys).now (bytes "*") = keys := by
  have hsort : keys.toFinset.sort (· ≤ ·) = keys :=
    (toFinset_sort _ (hsorted.imp ne_of_lt)).mpr (hsorted.imp le_of_lt)
  show (callAt keys).store.allKeys 1 = keys
  rw [allKeys_eq, hheld, hsort]
  calc keys.flatMap (fun k => replicate (((callAt keys).store.entries k).listed 1) k)
      = keys.flatMap (fun k => [k]) := flatMap_congr (fun k hk => by rw [hlisted k hk]; rfl)
    _ = keys := flatMap_singleton' keys

theorem keys_callAt_two :
    (callAt [bytes "a", bytes "b"]).store.keys (callAt [bytes "a", bytes "b"]).now (bytes "*")
      = [bytes "a", bytes "b"] :=
  keys_callAt (by decide +kernel) (by decide) (by decide +kernel)

theorem scan_complete_twice : ∃ st, runAll (Scanning.step (bytes "*")) Scanning.start
        [callAt [bytes "a", bytes "b"], callAt [bytes "a", bytes "b"]] = some st
      ∧ bytes "b" ∈ st.returned := by
  have hrun : runAll (step (bytes "*")) start
      [callAt [bytes "a", bytes "b"], callAt [bytes "a", bytes "b"]]
        = some ⟨none, [], [bytes "a", bytes "b"]⟩ := by
    simp only [runAll, step, start, ScanCall.keys, scan, keys_callAt_two]
    rfl
  refine ⟨_, hrun, scan_complete (bytes "*") (bytes "b") (.inr rfl) _
    (reaches_of_runMeets ?_ hrun) rfl⟩
  simp only [RunMeets, step, start, ScanCall.keys, scan, keys_callAt_two]
  exact ⟨⟨by decide +kernel, by decide⟩, ⟨by decide +kernel, by decide⟩, trivial⟩

/-- `a` is deleted before the cursor, which then stands behind `b`. -/
theorem scan_misses : (∀ call ∈ [callAt [bytes "a", bytes "b"], callAt [bytes "b"]],
      (call.store.entries (bytes "b")).existsAt call.now = true) ∧
    ∃ st, runAll (Scanning.step (bytes "*")) Scanning.start
        [callAt [bytes "a", bytes "b"], callAt [bytes "b"]] = some st
      ∧ st.cursor = none ∧ st.returned = [bytes "a"] := by
  have hlater : (callAt [bytes "b"]).store.keys (callAt [bytes "b"]).now (bytes "*")
      = [bytes "b"] := keys_callAt (by decide +kernel) (by decide) (by decide +kernel)
  refine ⟨?_, ⟨none, [], [bytes "a"]⟩, ?_, rfl, rfl⟩
  · intro call hcall
    rcases mem_pair.mp hcall with rfl | rfl <;> decide +kernel
  · simp only [runAll, step, start, ScanCall.keys, scan, keys_callAt_two,
      hlater]
    rfl

end Vole
