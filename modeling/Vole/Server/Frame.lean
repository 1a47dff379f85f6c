import Vole.Server.Renaming
import Vole.Store.StoreOps

/-!
# The keys that a command leaves alone

A command that finds its keys at fixed places leaves every other key alone: rename the other
keys to names that do not exist, and the command still does the same. The few commands that
find their keys elsewhere change only keys that are among their arguments, and `INFO` and
`SAVE` only remove what has expired.
-/

namespace Vole.Server

open Go List Store

variable {keys : List Bytes} {now : Time}

/-! ## Renaming apart -/

theorem exists_apart {k : Bytes} (hk : k ∉ keys) :
    ∃ f : Bytes → Bytes, Function.Injective f ∧ (∀ a ∈ keys, f a = a) ∧ ∀ x, k ≠ f x := by
  -- a text that is longer than all these names
  let pad := k ++ keys.flatten ++ [0]
  have hpad : ∀ a ∈ keys, a.length < pad.length := by
    intro a ha
    have hlen : a.length ≤ keys.flatten.length := (sublist_flatten_of_mem ha).length_le
    simp only [pad, length_append, length_singleton]
    omega
  refine ⟨fun x => if x ∈ keys then x else pad ++ x, fun x y hxy => ?_, fun a ha => if_pos ha,
    fun x hx => ?_⟩
  · dsimp only at hxy
    split at hxy
    · rename_i hx
      split at hxy
      · exact hxy
      · have hlen := hpad x hx
        rw [hxy, length_append] at hlen
        omega
    · split at hxy
      · rename_i hy
        have hlen := hpad y hy
        rw [← hxy, length_append] at hlen
        omega
      · exact append_cancel_left hxy
  · dsimp only at hx
    split at hx
    · rename_i hmem
      exact hk (hx ▸ hmem)
    · have hlen := congrArg length hx
      simp only [pad, length_append, length_singleton] at hlen
      omega

theorem exists_mirrored {f : Bytes → Bytes} (hf : Function.Injective f) {s : Store} (hs : s.Idle) :
    ∃ t : Store, s.Mirrors f s.entries Eq t :=
  ⟨{ s with entries := s.entries.comapDomain f hf, listWaits := fun _ => [] },
    fun _ => rfl, fun _ _ => rfl, fun k => hs (f k), fun _ => rfl, rfl⟩

/-! ## One case of `exec` -/

/-- A key is as it was, and nobody waits for a list. -/
structure Spared (k : Bytes) (s s' : Store) : Prop where
  entry : s'.entries k = s.entries k
  idle : s'.Idle

namespace Spared

variable {k : Bytes} {s s' s'' : Store} {env : Env}

theorem refl (hs : s.Idle) : Spared k s s := ⟨rfl, hs⟩

theorem trans (h : Spared k s s') (h' : Spared k s' s'') : Spared k s s'' :=
  ⟨h'.entry.trans h.entry, h'.idle⟩

theorem put (hs : s.Idle) {key : Bytes} (hk : k ≠ key) (c : Cell) : Spared k s (s.put key c) :=
  ⟨by rw [put_entries_apply, if_neg hk], hs⟩

theorem attempt (hs : s.Idle) {α : Type} {p : Except Bytes α} {g : α → Result}
    (h : ∀ a, p = .ok a → Spared k s (g a).store) : Spared k s (Result.attempt s p g).store :=
  Result.attempt_elim (P := fun r => Spared k s r.store) (fun _ => refl hs) h

theorem owned (hs : s.Idle) {r : Result} (h : Spared k s r.store) :
    Spared k s (Result.owned env keys s r).store :=
  Result.owned_elim (P := fun r => Spared k s r.store) (fun _ => refl hs) h

theorem ite {p : Prop} [Decidable p] {r r' : Result} (h : Spared k s r.store)
    (h' : Spared k s r'.store) : Spared k s (if p then r else r').store := by
  split
  · exact h
  · exact h'

theorem foldl_idle {f : Store → Bytes → Store} (hf : ∀ s key, s.Idle → (f s key).Idle)
    (keys : List Bytes) (hs : s.Idle) : (keys.foldl f s).Idle := by
  induction keys generalizing s with
  | nil => exact hs
  | cons key rest ih => exact ih (hf s key hs)

theorem purgeExpired_idle (hint : List Bytes) (hs : s.Idle) : (s.purgeExpired now hint).Idle :=
  foldl_idle (f := fun s key => s.purgeKey now key) (fun _ _ hs => hs) _ hs

theorem evict_idle (victims : List Bytes) (hs : s.Idle) : (s.evict victims).Idle :=
  foldl_idle (f := fun s key => s.modify key Cell.delete) (fun _ _ hs => hs) _ hs

theorem purgeExpired (hs : s.Idle) (hint : List Bytes)
    (hfresh : (s.entries k).expired now = false) : Spared k s (s.purgeExpired now hint) := by
  refine ⟨?_, purgeExpired_idle hint hs⟩
  rw [purgeExpired_entries, Entry.purged, if_neg (by simp [hfresh])]

theorem evict (hs : s.Idle) {victims : List Bytes} (hk : k ∉ victims) :
    Spared k s (s.evict victims) := by
  induction victims generalizing s with
  | nil => exact refl hs
  | cons key rest ih =>
    have hne : k ≠ key ∧ k ∉ rest := by simpa using hk
    have hkey : Spared k s (s.modify key Cell.delete) := .put hs hne.1 _
    exact hkey.trans (ih hkey.idle hne.2)

end Spared

section

open Cmd Result

variable {k : Bytes} {s : Store} {env : Env} {args : List Bytes}

theorem spared_of_keyArgs {w : StoreWord} {ka : KeyArgs} (hka : w.keyArgs args = some ka)
    (hs : s.Idle) (hk : k ∉ ka.keys args) : Spared k s (w.cmd env args s).store := by
  obtain ⟨f, hf, hfixed, hmissed⟩ := exists_apart hk
  obtain ⟨t, hst⟩ := exists_mirrored hf hs
  have hrenamed : Renamed f s.entries Eq (w.cmd env (ka.rename f args) s)
    (w.cmd (env.pull f) args t) := StoreWord.renamed hka hf hst
  have hsame : Renamed id (fun _ => Entry.empty) Eq (w.cmd env (ka.rename id args) s)
    (w.cmd (env.pull id) args s) :=
    StoreWord.renamed hka Function.injective_id (Store.Same.refl hs)
  rw [KeyArgs.rename_of_fixed hfixed] at hrenamed
  rw [KeyArgs.rename_of_fixed (f := id) (fun _ _ => rfl)] at hsame
  exact ⟨hrenamed.store.outside k hmissed, hsame.store.idle⟩

theorem spared_key {w : KeyWord} (hs : s.Idle) (hk : k ∉ KeyArgs.first.keys args) :
    Spared k s (w.cmd.exec env args s).store := by
  match args with
  | [] => exact .refl hs
  | [word] => exact .refl hs
  | word :: key :: rest =>
    have hne : k ≠ key := by
      rintro rfl
      exact hk (KeyArgs.mem_keys (i := 1) (by simp) rfl)
    refine .ite (.refl hs) ?_
    split
    · exact .refl hs
    · exact .owned hs (.put hs hne _)

theorem ne_getD (hk : k ∉ args) {i : Nat} (hi : i < args.length) : k ≠ args.getD i [] := by
  have hget : args.getD i [] = args[i] := by simp [getD_eq_getElem?_getD, hi]
  rw [hget]
  exact fun heq => hk (heq ▸ getElem_mem hi)

theorem of_counted {p : Prop} [Decidable p] (h : ¬ (!decide p) = true) : p :=
  Decidable.of_not_not (fun hno => h (by rw [decide_eq_false hno]; rfl))

theorem spared_enqueue (hs : s.Idle) (hk : k ∉ args) :
    Spared k s (Cmd.enqueue env args s).store := by
  unfold Cmd.enqueue Cmd.counted
  split
  · exact .refl hs
  rename_i hn
  have hlen : 3 ≤ args.length := of_counted hn
  refine .owned hs (.attempt hs (fun delay _ => ?_))
  have hseq : Store.Idle { s with queueSeq := s.queueSeq + 1 } := hs
  have hput := Spared.put hseq (ne_getD hk (by omega : 1 < args.length))
  exact ⟨(hput _).entry, hs⟩

theorem spared_bPopTry (left : Bool) (hs : s.Idle)
    (hk : k ∉ keys) : Spared k s (bPopTry now left keys s).2 := by
  induction keys generalizing s with
  | nil => exact .refl hs
  | cons key rest ih =>
    have hne : k ≠ key ∧ k ∉ rest := by simpa using hk
    have hkey : Spared k s (s.onKey key (bPopCell now left)).2 := .put hs hne.1 _
    unfold bPopTry
    split
    · rename_i hpop
      rw [hpop] at hkey
      exact hkey
    · rename_i hpop
      rw [hpop] at hkey
      exact hkey.trans (ih hkey.idle hne.2)

theorem spared_blpop (left : Bool) (hs : s.Idle) (hk : k ∉ args) :
    Spared k s (Cmd.blpop left env args s).store := by
  have hkeys : k ∉ args.tail.dropLast :=
    fun hmem => hk (mem_of_mem_tail (mem_of_mem_dropLast hmem))
  have hpop : Spared k s (bPopTry env.now left args.tail.dropLast s).2 :=
    spared_bPopTry left hs hkeys
  refine .ite (.refl hs) (.attempt hs (fun _ _ => .owned hs ?_))
  split
  · rename_i hnone
    rw [hnone] at hpop
    exact hpop
  · rename_i hsome
    rw [hsome] at hpop
    exact hpop

theorem spared_xGroup (hs : s.Idle) (hk : k ∉ args) : Spared k s (Cmd.xGroup env args s).store := by
  unfold Cmd.xGroup Cmd.counted
  split
  · exact .refl hs
  rename_i hn
  have hlen : args.length = 5 ∨ args.length = 6 := of_counted hn
  exact .ite (.refl hs) (.ite (.refl hs) (.owned hs (.put hs (ne_getD hk (by omega)) _)))

theorem parseReadGroup_subset {R : Runtime} {count : Int} {rest : List Bytes}
    {o : Int × List Bytes} (h : parseReadGroup R count rest = .ok o) : o.2 ⊆ rest := by
  fun_induction parseReadGroup R count rest with
  | case2 count opt rest _ =>
    cases h
    exact subset_cons_self ..
  | case5 count opt _ n rest _ _ _ ih =>
    exact fun x hx => .tail _ (.tail _ (ih h hx))
  | case7 count opt _ n rest _ _ _ _ ih =>
    exact fun x hx => .tail _ (.tail _ (ih h hx))
  | _ => cases h

theorem parseStreams_subset {name : String} {parts : List Bytes} {streams : List (Bytes × Bytes)}
    (h : parseStreams name parts = .ok streams) : streams.map (·.1) ⊆ parts := by
  unfold parseStreams at h
  split at h
  · cases h
  · cases h
    intro x hx
    obtain ⟨p, hp, rfl⟩ := mem_map.mp hx
    exact mem_of_mem_take (of_mem_zip hp).1

theorem spared_deliverAll {group consumer : Bytes} {results : Store.StreamResults}
    {streams : List Bytes} (hs : s.Idle) (hk : k ∉ streams) :
    Spared k s (deliverAll now group consumer results streams s).2.1 := by
  induction streams generalizing s with
  | nil => exact .refl hs
  | cons stream rest ih =>
    have hne : k ≠ stream ∧ k ∉ rest := by simpa using hk
    have hkey : Spared k s (s.onKey stream (Cell.xGroupDeliver now group consumer
      (((results.get stream).getD []).map (·.id)) now)).2 := .put hs hne.1 _
    unfold deliverAll
    dsimp only
    split
    · rename_i hdeliver
      rw [hdeliver] at hkey
      exact hkey
    · rename_i hdeliver
      rw [hdeliver] at hkey
      exact hkey.trans (ih hkey.idle hne.2)

theorem spared_xReadGroup (hs : s.Idle) (hk : k ∉ args) :
    Spared k s (Cmd.xReadGroup env args s).store := by
  refine .ite (.refl hs) (.attempt hs (fun o ho => .attempt hs (fun streams hstreams =>
    .owned hs ?_)))
  have hnot : k ∉ streams.map (·.1) := fun hmem =>
    hk (mem_of_mem_drop (parseReadGroup_subset ho (parseStreams_subset hstreams hmem)))
  unfold readGroupRun
  split
  · exact .refl hs
  · rename_i results hplan
    refine .ite (.refl hs) (spared_deliverAll hs (fun hmem => ?_))
    have hmem : k ∈ results := by
      simpa [GoMap.sortedKeys, Finmap.mem_keys] using hmem
    rcases mem_xReadGroupPlan hplan hmem with hnone | ⟨hstream, -⟩
    · exact absurd hnone Finmap.notMem_empty
    · exact hnot hstream

theorem spared_sortRun {key : Bytes} {o : SortOptions} (hs : s.Idle) (hk : k ≠ key)
    (hdst : o.storeKey = [] ∨ k ≠ o.storeKey) : Spared k s (sortRun env key o s).store := by
  have hsort : ∀ dst : Option Bytes, (∀ d, dst = some d → k ≠ d) →
      Spared k s (s.sort env.R env.now key o.alpha o.desc o.offset o.count dst env.hint).2 := by
    intro dst hdst
    have hpurge : Spared k s (s.purgeKey env.now key) := .put hs hk _
    unfold Store.sort
    (repeat' split) <;> first
      | exact .refl hs
      | exact hpurge
      | exact .put hs (hdst _ rfl) _
      | exact hpurge.trans (.put hpurge.idle (hdst _ rfl) _)
  have hsorted : Spared k s (s.sort env.R env.now key o.alpha o.desc o.offset o.count
      (if o.storeKey = [] then none else some o.storeKey) env.hint).2 := by
    refine hsort _ (fun d hd => ?_)
    split at hd
    · cases hd
    · rename_i hne
      cases hd
      exact hdst.resolve_left hne
  unfold sortRun
  dsimp only
  split
  · rename_i herr
    rw [herr] at hsorted
    exact hsorted
  · rename_i hok
    rw [hok] at hsorted
    exact .ite hsorted hsorted

theorem spared_sort (hs : s.Idle) (hk : k ∉ args) : Spared k s (Cmd.sort env args s).store := by
  unfold Cmd.sort Cmd.counted
  split
  · exact .refl hs
  rename_i hn
  have hlen : 2 ≤ args.length := of_counted hn
  refine .owned hs (.attempt hs (fun o ho => ?_))
  have hdst : o.storeKey = [] ∨ k ≠ o.storeKey := by
    rcases parseSort_storeKey ho with hnone | ⟨hmem, -⟩
    · exact .inl hnone
    · exact .inr (fun heq => hk (heq ▸ mem_of_mem_drop hmem))
  have hrun : Spared k s (sortRun env (args.getD 1 []) o s).store :=
    spared_sortRun hs (ne_getD hk (by omega)) hdst
  exact .ite hrun (.owned hs hrun)

end

/-- When a case leaves a key alone: it only reads, or the key is not among its keys, or is not
among its arguments if the keys are not at fixed places. `INFO` and `SAVE` remove expired keys. -/
def Word.Spares (env : Env) (args : List Bytes) (k : Bytes) (e : Entry) : Word → Prop
  | .key w => w.reads = true ∨ k ∉ KeyArgs.first.keys args
  | .store .info => e.expired env.now = false
  | .store w => w.reads = true ∨ k ∉ ((w.keyArgs args).map (·.keys args)).getD args
  | .flushDB | .flushAll => False
  | .save | .bgSave => e.expired env.now = false
  | .eval | .evalSha => True

section
variable {k : Bytes} {env : Env} {args : List Bytes} {st : State}

theorem StoreWord.spared {w : StoreWord} {s : Store} (hs : s.Idle)
    (h : (Word.store w).Spares env args k (s.entries k)) : Spared k s (w.cmd env args s).store := by
  by_cases hinfo : w = .info
  · subst hinfo
    exact .purgeExpired hs env.hint h
  have h : w.reads = true ∨ k ∉ ((w.keyArgs args).map (·.keys args)).getD args := by
    cases w <;> first | exact h | exact absurd rfl hinfo
  by_cases hreads : w.reads = true
  · rw [(StoreWord.still hreads env args s).store]
    exact .refl hs
  have hk := h.resolve_left hreads
  cases hka : w.keyArgs args with
  | some ka =>
    rw [hka] at hk
    exact spared_of_keyArgs hka hs hk
  | none =>
    rw [hka] at hk
    cases w
    case sort => exact spared_sort hs hk
    case xGroup => exact spared_xGroup hs hk
    case xReadGroup => exact spared_xReadGroup hs hk
    case bLPop => exact spared_blpop true hs hk
    case bRPop => exact spared_blpop false hs hk
    case enqueue => exact spared_enqueue hs hk
    all_goals first | exact absurd rfl hreads | exact absurd rfl hinfo | cases hka

theorem KeyWord.spared {w : KeyWord} {s : Store} (hs : s.Idle)
    (h : w.reads = true ∨ k ∉ KeyArgs.first.keys args) :
    Spared k s (w.cmd.exec env args s).store := by
  rcases h with hreads | hk
  · match args with
    | [] => exact .refl hs
    | [word] => exact .refl hs
    | word :: key :: rest =>
      have hact : (w.cmd.act env word key rest s).store = s := by
        show s.put key (w.cmd.run (env.at key) word rest (s.cell key)).cell = s
        rw [(KeyWord.still hreads (env.at key) word rest (s.cell key)).cell, put_cell]
      refine .ite (.refl hs) ?_
      split
      · exact .refl hs
      · exact .owned hs (by rw [hact]; exact .refl hs)
  · exact spared_key hs hk

theorem spared_saveCmd {name done : String} (hs : st.store.Idle)
    (hfresh : (st.store.entries k).expired env.now = false) :
    Spared k st.store (st.saveCmd name done env args).2.store := by
  unfold State.saveCmd
  split
  · exact .refl hs
  split
  · exact .refl hs
  · exact .purgeExpired hs env.hint hfresh

/-- **A case leaves alone every key that it spares.** -/
theorem execWord_spared {w : Word} (hs : st.store.Idle)
    (h : w.Spares env args k (st.store.entries k)) :
    Spared k st.store (execWord env args st w).2.store := by
  cases w with
  | key w => exact KeyWord.spared hs h
  | store w => exact StoreWord.spared hs h
  | flushDB => exact h.elim
  | flushAll => exact h.elim
  | save => exact spared_saveCmd hs h
  | bgSave => exact spared_saveCmd hs h
  | eval => exact .refl hs
  | evalSha => exact .refl hs

end

/-! ## Waiting clients -/

section
variable {env : Env} {args : List Bytes} {st : State}

theorem exists_fresh (args : List Bytes) (s : Store) : ∃ k, k ∉ args ∧ s.entries k = 0 := by
  obtain ⟨k, hk⟩ := Infinite.exists_notMem_finset (args.toFinset ∪ s.held)
  have hk : k ∉ args ∧ k ∉ s.held := by simpa using hk
  exact ⟨k, hk.1, by simpa [held] using hk.2⟩

theorem execWord_idle {w : Word} (hs : st.store.Idle) : (execWord env args st w).2.store.Idle := by
  -- a key that does not exist is spared by every case but the flushes
  obtain ⟨k, hk, hempty⟩ := exists_fresh args st.store
  have hkeys : ∀ ka : KeyArgs, k ∉ ka.keys args := fun ka hmem => hk (ka.keys_subset hmem)
  have hfresh : (st.store.entries k).expired env.now = false := by
    rw [hempty]
    rfl
  cases w with
  | key w => exact (execWord_spared (w := .key w) hs (.inr (hkeys _))).idle
  | store w =>
    refine (execWord_spared (w := .store w) (k := k) hs ?_).idle
    by_cases hinfo : w = .info
    · subst hinfo
      exact hfresh
    · have hargs : k ∉ ((w.keyArgs args).map (·.keys args)).getD args := by
        cases w.keyArgs args with
        | none => exact hk
        | some ka => exact hkeys ka
      cases w <;> first | exact .inr hargs | exact absurd rfl hinfo
  | flushDB => exact fun _ => rfl
  | flushAll => exact fun _ => rfl
  | save => exact (execWord_spared (w := .save) hs hfresh).idle
  | bgSave => exact (execWord_spared (w := .bgSave) hs hfresh).idle
  | eval => exact hs
  | evalSha => exact hs

end

/-! ## One command -/

/-- The command, or each command of the script, leaves a key alone, now and later. -/
def Spares (env : Env) (args : List Bytes) (k : Bytes) (e : Entry) : Prop :=
  ∀ call ∈ expand env args, AtOnce call = true ∧
    ∀ w, Word.ofArgs call = some w → w.Spares env call k e

section
variable {k : Bytes} {env : Env} {args : List Bytes} {st : State}

theorem exec_spared (hs : st.store.Idle) (h : Spares env args k (st.store.entries k)) :
    Spared k st.store (exec env args st).2.store := by
  refine exec_invariant (P := fun t => Spared k st.store t.store) (.refl hs) ?_
  intro call hcall w hw t ht
  have hspares : w.Spares env call k (t.store.entries k) := by
    rw [ht.entry]
    exact (h call hcall).2 w hw
  exact ht.trans (execWord_spared ht.idle hspares)

end

end Vole.Server
