import Vole.Store.StoreLawful

/-!
# What the operations on several keys write

Each operation of the store is a sequence of writes to cells, with keys touched and clients served
between them. Here it is said once which cells it writes and how; what follows for an invariant
is then a matter of single cells.
-/

namespace Vole.Store

open Go Cell

/-- The second store comes from the first by writes that `W` allows, by touching keys, and by
changes outside of the entries and versions. -/
inductive Edits (W : Bytes → Cell → Cell → Prop) (s : Store) : Store → Prop where
  | refl : Edits W s s
  | put {t : Store} (h : Edits W s t) {key : Bytes} {c : Cell} (hw : W key (t.cell key) c) :
      Edits W s (t.put key c)
  | touch {t : Store} (h : Edits W s t) (keys : List Bytes) : Edits W s (t.touchKeys keys)
  | aside {t u : Store} (h : Edits W s t) (hentries : u.entries = t.entries)
      (hversion : u.version = t.version) (hkey : u.keyVersion = t.keyVersion) : Edits W s u

namespace Edits

variable {W : Bytes → Cell → Cell → Prop} {s t u : Store}

theorem trans (h : Edits W s t) (h' : Edits W t u) : Edits W s u := by
  induction h' with
  | refl => exact h
  | put _ hw ih => exact ih.put hw
  | touch _ keys ih => exact ih.touch keys
  | aside _ hentries hversion hkey ih => exact ih.aside hentries hversion hkey

theorem modify (h : Edits W s t) (key : Bytes) {f : Cell → Cell} (hf : ∀ c, W key c (f c)) :
    Edits W s (t.modify key f) := h.put (hf _)

theorem foldl {α : Type} {f : Store → α → Store} {xs : List α} (h : Edits W s t)
    (hf : ∀ t, ∀ x ∈ xs, Edits W t (f t x)) : Edits W s (xs.foldl f t) := by
  induction xs generalizing t with
  | nil => exact h
  | cons x rest ih =>
    exact ih (h.trans (hf t x (.head _))) (fun t y hy => hf t y (.tail _ hy))

theorem orderly (h : Edits (fun _ => Lawful) s t) : Orderly s t := by
  induction h with
  | refl => exact .refl s
  | put _ hw ih => exact ih.trans (.put hw)
  | touch _ keys ih => exact ih.trans ⟨.touchKeys _ keys, id⟩
  | aside _ hentries hversion hkey ih => exact ih.trans (.same hentries hversion hkey)

theorem announced {pending : List Bytes} (h : Edits (fun k c c' => Signals c c' ∨
      k ∈ pending ∧ (c'.hashes = c.hashes ∨ c'.hashes = none)) s t) : Announced pending s t := by
  induction h with
  | refl => exact .refl s
  | put _ hw ih =>
    rcases hw with hsignals | ⟨hkey, hhash⟩
    · exact ih.trans (Announced.put_signals hsignals).weaken
    · exact ih.trans (.put_pending hkey hhash)
  | touch _ keys ih => exact ih.trans (.touchKeys _ keys)
  | aside _ hentries hversion hkey ih => exact ih.trans (.same hentries hversion hkey)

end Edits

section
variable {W : Bytes → Cell → Cell → Prop} {now : Time} {s : Store}

theorem edits_del (keys : List Bytes) (hw : ∀ k ∈ keys, ∀ c, W k c (delCell now c).2) :
    Edits W s (del now keys s).2 := by
  induction keys generalizing s with
  | nil => exact .refl
  | cons key rest ih =>
    exact (Edits.refl.put (hw key (.head _) _)).trans
      (ih (fun k hk => hw k (.tail _ hk)))

theorem edits_enqueue (queueName body : Bytes) (delay : Duration)
    (hw : ∀ n c, W queueName c (Cell.enqueue now n body delay c).2) :
    Edits W s (s.enqueue now queueName body delay).2 := by
  have hseq : Edits W s { s with queueSeq := s.queueSeq + 1 } := .aside .refl rfl rfl rfl
  exact hseq.put (hw _ _)

theorem edits_sampleExpired (hint : List Bytes) (hsample : ∀ k c, W k c (sampleCell now c))
    (hsweep : ∀ k c, W k c (sweepCell now c)) (htags : ∀ k c, W k c (sweepTags now c)) :
    Edits W s (s.sampleExpired now hint) := by
  refine Edits.foldl (Edits.foldl (Edits.foldl .refl ?_) ?_) ?_
  · exact fun t key _ => Edits.refl.modify key (hsample key)
  · exact fun t key _ => Edits.refl.modify key (hsweep key)
  · exact fun t key _ => Edits.refl.modify key (htags key)

theorem edits_evict (victims : List Bytes) (hw : ∀ k c, W k c (delete c)) :
    Edits W s (s.evict victims) :=
  Edits.refl.foldl (fun _ key _ => Edits.refl.modify key (hw key))

theorem edits_wakeLoop {key : Bytes} (hw : ∀ items c, W key c (setList items c))
    (ws : List Nat) : Edits W s (wakeLoop key ws s) := by
  induction ws generalizing s with
  | nil => exact .refl
  | cons w rest ih =>
    unfold wakeLoop
    split
    · exact .refl
    · refine Edits.trans ?_ ih
      unfold handOver serve
      dsimp only
      have hwaits : Edits W s { s with listWaits := Function.update s.listWaits key rest } :=
        .aside .refl rfl rfl rfl
      split
      · exact hwaits.modify key (hw _)
      · exact (hwaits.modify key (hw _)).aside rfl rfl rfl

theorem edits_pushList {key : Bytes} {left : Bool} {values : List Bytes}
    (hpush : ∀ c, W key c (Cell.pushList now left values c).2)
    (hw : ∀ items c, W key c (setList items c)) : Edits W s (s.pushList now key left values).2 := by
  have hput : Edits W s (s.onKey key (Cell.pushList now left values)).2 := Edits.refl.put (hpush _)
  unfold pushList
  generalize s.onKey key (Cell.pushList now left values) = r at hput
  obtain ⟨res, t⟩ := r
  cases res with
  | error e => exact hput
  | ok u => exact hput.trans (edits_wakeLoop hw _)

section
variable (hpurge : ∀ k c, W k c (Cell.purge c now))
include hpurge

theorem edits_purgeKey (key : Bytes) : Edits W s (s.purgeKey now key) :=
  Edits.refl.modify key (hpurge key)

theorem edits_purgeExpired (hint : List Bytes) : Edits W s (s.purgeExpired now hint) :=
  Edits.refl.foldl (fun _ key _ => edits_purgeKey hpurge key)

theorem edits_mSetNXCheck (keys : List Bytes) : Edits W s (mSetNXCheck now keys s).2 := by
  induction keys generalizing s with
  | nil => exact .refl
  | cons key rest ih =>
    unfold mSetNXCheck
    dsimp only
    split
    · exact edits_purgeKey hpurge key
    · exact (edits_purgeKey hpurge key).trans ih

theorem edits_pfMerge {dest : Bytes} (srcs : List Bytes)
    (hw : ∀ (c : Cell) (h : Option HyperLogLog), (c.hlls.isSome = true → h.isSome = true) →
      W dest c { c with hlls := h }) : Edits W s (s.pfMerge now dest srcs) := by
  refine Edits.touch (Edits.foldl ((edits_purgeKey hpurge dest).modify dest
    (fun c => hw c _ (fun _ => rfl))) (fun t key _ => ?_)) _
  unfold pfMergeStep
  dsimp only
  split
  · exact edits_purgeKey hpurge key
  · refine (edits_purgeKey hpurge key).modify dest (fun c => hw c _ (fun h => ?_))
    rw [Option.isSome_map]
    exact h

theorem edits_bitOpRead (keys : List Bytes) : Edits W s (bitOpRead now keys s).2 := by
  induction keys generalizing s with
  | nil => exact .refl
  | cons key rest ih =>
    have hrest : Edits W s (bitOpRead now rest (s.purgeKey now key)).2 :=
      (edits_purgeKey hpurge key).trans ih
    unfold bitOpRead
    dsimp only
    split
    · exact edits_purgeKey hpurge key
    · generalize bitOpRead now rest (s.purgeKey now key) = r at hrest
      obtain ⟨res, t⟩ := r
      cases res <;> exact hrest

end

end

/-! ## Writes that depend on the result -/

section
variable {now : Time} {s : Store} {key src dst : Bytes}

theorem edits_mSetNX {W : Bool → Bytes → Cell → Cell → Prop} (pairs : List (Bytes × Bytes))
    (hpurge : ∀ r k c, W r k c (purge c now))
    (hw : ∀ p ∈ pairs, ∀ c, W true p.1 c (mSetNXWrite p.2 c)) :
    Edits (W (s.mSetNX now pairs).1) s (s.mSetNX now pairs).2 := by
  have hcheck := fun r => edits_mSetNXCheck (s := s) (hpurge r) (pairs.map (·.1))
  unfold mSetNX
  generalize mSetNXCheck now (pairs.map (·.1)) s = r at hcheck
  obtain ⟨ok, t⟩ := r
  cases ok with
  | false => exact hcheck false
  | true => exact (hcheck true).foldl (fun t p hp => Edits.refl.modify p.1 (hw p hp))

theorem edits_sMove {W : Except Err Bool → Bytes → Cell → Cell → Prop} (member : Bytes)
    (hpurge : ∀ r k c, W r k c (purge c now))
    (hsrc : ∀ members c, W (.ok true) src c (setSet members c))
    (hdst : ∀ (c : Cell) members, W (.ok true) dst c { c with sets := some members }) :
    Edits (W (s.sMove now src dst member).1) s (s.sMove now src dst member).2 := by
  have hpurged : ∀ r, Edits (W r) s ((s.purgeKey now src).purgeKey now dst) :=
    fun r => (edits_purgeKey (hpurge r) src).trans (edits_purgeKey (hpurge r) dst)
  unfold sMove
  dsimp only
  split
  · exact hpurged _
  split
  · exact hpurged _
  · exact ((((hpurged _).modify src (fun c => hsrc _ c)).modify dst (fun c => hdst c _)).touch
      [src]).touch [dst]

theorem edits_bitOp {W : Except Err Nat → Bytes → Cell → Cell → Prop} (op : Bytes)
    (keys : List Bytes) (hpurge : ∀ r k c, W r k c (purge c now))
    (hw : ∀ n result c, W (.ok n) dst c { delete c with kv := some result }.touch) :
    Edits (W (s.bitOp now op dst keys).1) s (s.bitOp now op dst keys).2 := by
  have hread := fun r => edits_bitOpRead (s := s) (hpurge r) keys
  unfold bitOp
  dsimp only
  split
  · exact .refl
  · generalize bitOpRead now keys s = r at hread
    obtain ⟨res, t⟩ := r
    cases res with
    | error e => exact hread _
    | ok bufs =>
      dsimp only
      split
      · exact hread _
      · exact (hread _).modify dst (hw _ _)

theorem edits_tsDownsample {W : Except Err Nat → Bytes → Cell → Cell → Prop} {R : Runtime}
    {aggType : Bytes} {start stop bucketSize : Int} (hpurge : ∀ r k c, W r k c (purge c now))
    (hw : ∀ n results c, W (.ok n) dst c (tsReplace results c)) :
    Edits (W (s.tsDownsample R now src dst aggType start stop bucketSize).1) s
      (s.tsDownsample R now src dst aggType start stop bucketSize).2 := by
  unfold tsDownsample
  split
  · exact edits_purgeKey (hpurge _) src
  split
  · exact .refl
  · exact Edits.refl.modify dst (hw _ _)

/-- An expired key costs the destination its list only. -/
theorem edits_sort {W : Except Err (List Bytes) → Bytes → Cell → Cell → Prop} {R : Runtime}
    {alpha desc : Bool} {offset count : Int} {storeKey : Option Bytes} {hint : List Bytes}
    (hpurge : ∀ r k c, W r k c (purge c now))
    (hdrop : ∀ dst ∈ storeKey, ∀ c : Cell, W (.ok []) dst c { c with lists := none }.touch)
    (hw : ∀ dst ∈ storeKey, ∀ r elements c, W (.ok r) dst c (sortStore elements c)) :
    Edits (W (s.sort R now key alpha desc offset count storeKey hint).1) s
      (s.sort R now key alpha desc offset count storeKey hint).2 := by
  have hpurged : ∀ r, Edits (W r) s (s.purgeKey now key) := fun r => edits_purgeKey (hpurge r) key
  unfold sort
  (repeat' split) <;> first
    | exact hpurged _
    | exact .refl
    | exact (hpurged _).modify _ (hdrop _ rfl)
    | exact Edits.refl.modify _ (hw _ rfl _ _)
    | exact Edits.refl.modify _ (hw _ rfl _ [])

theorem lMove_cases (now : Time) (src dst : Bytes) (srcLeft dstLeft : Bool) (s : Store) :
    (∃ r, (∀ v, r ≠ .ok (some v)) ∧
      (s.lMove now src dst srcLeft dstLeft = (r, s.purgeKey now src) ∨
        s.lMove now src dst srcLeft dstLeft = (r, (s.purgeKey now src).purgeKey now dst))) ∨
    ∃ value rest, popValue srcLeft (((s.entries src).purged now).lists.getD []) = some (value, rest)
      ∧ lMoveConflicts ((s.entries src).purged now) = false
      ∧ (src ≠ dst → lMoveConflicts ((s.entries dst).purged now) = false)
      ∧ s.lMove now src dst srcLeft dstLeft = (.ok (some value),
        ((s.purgeKey now src).purgeKey now dst).lMoveWrite src dst dstLeft value rest) := by
  have hsrc : (s.purgeKey now src).entries src = (s.entries src).purged now := by
    rw [purgeKey_entries, if_pos rfl]
  have hboth : (if src = dst then s.purgeKey now src else (s.purgeKey now src).purgeKey now dst)
      = (s.purgeKey now src).purgeKey now dst := by
    split
    · rename_i heq
      rw [← heq, purgeKey_self]
    · rfl
  unfold lMove
  dsimp only
  rw [hsrc, hboth, purgeBoth_dst]
  split
  · exact .inl ⟨.error _, nofun, .inl rfl⟩
  rename_i hfree
  split
  · exact .inl ⟨.ok none, nofun, .inl rfl⟩
  rename_i value rest hpop
  split
  · exact .inl ⟨.error _, nofun, .inr rfl⟩
  · rename_i hconf
    exact .inr ⟨value, rest, hpop, eq_false_of_ne_true hfree,
      fun hne => eq_false_of_ne_true (fun h => hconf ⟨hne, h⟩), rfl⟩

theorem edits_lMove {W : Except Err (Option Bytes) → Bytes → Cell → Cell → Prop}
    {srcLeft dstLeft : Bool} (hpurge : ∀ r k c, W r k c (purge c now))
    (hsrc : ∀ v items c, W (.ok (some v)) src c (setList items c))
    (hwake : ∀ v items c, W (.ok (some v)) dst c (setList items c))
    (hdst : ∀ v items (c : Cell), W (.ok (some v)) dst c { c with lists := some items }) :
    Edits (W (s.lMove now src dst srcLeft dstLeft).1) s
      (s.lMove now src dst srcLeft dstLeft).2 := by
  have hsrc' : ∀ r, Edits (W r) s (s.purgeKey now src) := fun r => edits_purgeKey (hpurge r) src
  have hboth : ∀ r, Edits (W r) s ((s.purgeKey now src).purgeKey now dst) :=
    fun r => (hsrc' r).trans (edits_purgeKey (hpurge r) dst)
  rcases lMove_cases now src dst srcLeft dstLeft s with
    ⟨r, -, heq | heq⟩ | ⟨value, rest, -, -, -, heq⟩
  · rw [heq]
    exact hsrc' _
  · rw [heq]
    exact hboth _
  · rw [heq]
    refine Edits.trans ?_ (edits_wakeLoop (hwake _) _)
    exact (((hboth _).modify src (hsrc _ _)).modify dst (hdst _ _)).touch _

theorem edits_bPopTry {W : Option (Bytes × Bytes) → Bytes → Cell → Cell → Prop} (left : Bool)
    (keys : List Bytes)
    (hnone : ∀ r k c, (bPopCell now left c).1 = none → W r k c (bPopCell now left c).2)
    (hpop : ∀ k v c, W (some (k, v)) k c (bPopCell now left c).2) :
    Edits (W (bPopTry now left keys s).1) s (bPopTry now left keys s).2 := by
  induction keys generalizing s with
  | nil => exact .refl
  | cons key rest ih =>
    have hkey := fun r => hnone r key (s.cell key)
    have hsome := fun v => hpop key v (s.cell key)
    unfold bPopTry onKey
    generalize bPopCell now left (s.cell key) = r at hkey hsome
    obtain ⟨value, c⟩ := r
    cases value with
    | none => exact (Edits.refl.put (hkey _ rfl)).trans ih
    | some value => exact Edits.refl.put (hsome value)

end

theorem edits_bPopStart {W : Bytes → Cell → Cell → Prop} {now : Time} {s : Store}
    (keys : List Bytes) (left : Bool) (hw : ∀ k c, W k c (bPopCell now left c).2) :
    Edits W s (s.bPopStart now keys left).2 := by
  have htry : Edits W s (bPopTry now left keys s).2 :=
    edits_bPopTry (W := fun _ => W) left keys (fun _ k c _ => hw k c) (fun k _ => hw k)
  unfold bPopStart
  generalize bPopTry now left keys s = r at htry
  obtain ⟨res, t⟩ := r
  cases res with
  | some r => exact htry
  | none => exact htry.aside rfl rfl rfl

end Vole.Store
