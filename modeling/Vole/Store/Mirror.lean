import Vole.Store.StoreLawful
import Vole.Store.Queries

/-!
# Two stores side by side

One store mirrors another under a renaming of keys: what it holds under `f k` is what the
other holds under `k`, and under all other keys it still holds what it held at first. With
the identity as renaming the two stores hold the same. Every operation on renamed keys
mirrors the operation on the keys themselves, with the same result.
-/

namespace Vole.Store

open Go Store List Cell

/-! ## Set algebra -/

/-- Under the names `f k` the first store has the sets that the second one has under `k`. A
missing set counts as the empty one. -/
def SameSets (f : Bytes → Bytes) (now : Time) (s t : Store) : Prop :=
  ∀ k, (s.setAt now (f k)).map (·.getD ∅) = (t.setAt now k).map (·.getD ∅)

section
variable {f : Bytes → Bytes} {now : Time} {s t : Store}

theorem interLoop_cons (s : Store) (acc : Finset Bytes) (k : Bytes) (rest : List Bytes) :
    s.interLoop now acc (k :: rest) = ((s.setAt now k).map (·.getD ∅)).bind (fun set =>
      if set = ∅ then .ok ∅ else s.interLoop now (acc ∩ set) rest) := by
  rw [interLoop]
  cases s.setAt now k with
  | error e => rfl
  | ok set => cases set <;> rfl

theorem sInter_cons (s : Store) (k : Bytes) (rest : List Bytes) :
    s.sInter now (k :: rest) = ((s.setAt now k).map (·.getD ∅)).bind (fun set =>
      if set = ∅ then .ok [] else (s.interLoop now set rest).map (·.sort (· ≤ ·))) := by
  unfold sInter
  cases hk : s.setAt now k with
  | error e => simp only [hk, Except.map, Except.bind]
  | ok set =>
    cases set with
    | none => simp only [hk, Except.map, Except.bind, Option.getD, if_true]
    | some members => simp only [hk, Except.map, Except.bind, Option.getD]

theorem setsAt_cons (s : Store) (k : Bytes) (rest : List Bytes) :
    s.setsAt now (k :: rest) = ((s.setAt now k).map (·.getD ∅)).bind (fun set =>
      (s.setsAt now rest).map (set :: ·)) := by
  rw [setsAt]
  cases s.setAt now k <;> rfl

namespace SameSets

variable (h : SameSets f now s t)
include h

theorem interLoop (acc : Finset Bytes) (keys : List Bytes) :
    s.interLoop now acc (keys.map f) = t.interLoop now acc keys := by
  induction keys generalizing acc with
  | nil => rfl
  | cons k rest ih =>
    rw [map_cons, interLoop_cons, interLoop_cons, h k]
    simp only [ih]

theorem sInter (keys : List Bytes) : s.sInter now (keys.map f) = t.sInter now keys := by
  cases keys with
  | nil => rfl
  | cons k rest =>
    rw [map_cons, sInter_cons, sInter_cons, h k]
    simp only [h.interLoop]

theorem setsAt (keys : List Bytes) : s.setsAt now (keys.map f) = t.setsAt now keys := by
  induction keys with
  | nil => rfl
  | cons k rest ih => rw [map_cons, setsAt_cons, setsAt_cons, h k, ih]

theorem sUnion (keys : List Bytes) : s.sUnion now (keys.map f) = t.sUnion now keys := by
  unfold Store.sUnion
  rw [h.setsAt]

theorem sDiff (keys : List Bytes) : s.sDiff now (keys.map f) = t.sDiff now keys := by
  unfold Store.sDiff
  rw [h.setsAt]

end SameSets

end

/-- `s` holds under the names `f k` what `t` holds under `k`, and `base` under all others.
Nobody waits for a list under those names, and the counters of queue messages are related
by `seq`. -/
structure Mirrors (f : Bytes → Bytes) (base : Bytes → Entry) (seq : Nat → Nat → Prop)
    (s t : Store) : Prop where
  inside : ∀ k, s.entries (f k) = t.entries k
  outside : ∀ k, (∀ j, k ≠ f j) → s.entries k = base k
  idle : ∀ k, s.listWaits (f k) = []
  idle' : ∀ k, t.listWaits k = []
  queueSeq : seq s.queueSeq t.queueSeq

/-- The same result, and stores that mirror each other. -/
structure Matches {α : Type} (f : Bytes → Bytes) (base : Bytes → Entry)
    (seq : Nat → Nat → Prop) (r r' : α × Store) : Prop where
  fst : r.1 = r'.1
  snd : Mirrors f base seq r.2 r'.2

theorem Matches.pair {α : Type} {f : Bytes → Bytes} {base : Bytes → Entry}
    {seq : Nat → Nat → Prop} {r r' : α × Store} (h : Matches f base seq r r') :
    ∃ a s t, r = (a, s) ∧ r' = (a, t) ∧ Mirrors f base seq s t :=
  ⟨r.1, r.2, r'.2, rfl, Prod.ext h.fst.symm rfl, h.snd⟩

namespace Mirrors

variable {f : Bytes → Bytes} {base : Bytes → Entry} {seq : Nat → Nat → Prop} {s t : Store}
  {now : Time} (h : Mirrors f base seq s t)
include h

theorem cell_eq (k : Bytes) : s.cell (f k) = t.cell k := by
  unfold cell
  rw [h.inside k]

theorem touchKeys (keys keys' : List Bytes) :
    Mirrors f base seq (s.touchKeys keys) (t.touchKeys keys') :=
  ⟨h.inside, h.outside, h.idle, h.idle', h.queueSeq⟩

variable (hf : Function.Injective f)
include hf

theorem update (k : Bytes) {e e' : Entry} (he : e = e')
    {s' t' : Store} (hs : s'.entries = s.entries.update (f k) e)
    (ht : t'.entries = t.entries.update k e') (hws : s'.listWaits = s.listWaits)
    (hwt : t'.listWaits = t.listWaits) (hseq : seq s'.queueSeq t'.queueSeq) :
    Mirrors f base seq s' t' where
  inside j := by
    rw [hs, ht, DFinsupp.coe_update, DFinsupp.coe_update, he]
    by_cases hj : j = k
    · subst hj
      rw [Function.update_self, Function.update_self]
    · rw [Function.update_of_ne hj, Function.update_of_ne (fun heq => hj (hf heq))]
      exact h.inside j
  outside j hj := by
    rw [hs, DFinsupp.coe_update, Function.update_of_ne (hj k)]
    exact h.outside j hj
  idle j := by rw [hws]; exact h.idle j
  idle' j := by rw [hwt]; exact h.idle' j
  queueSeq := hseq

theorem put (k : Bytes) {c c' : Cell} (hc : c.toEntry = c'.toEntry) :
    Mirrors f base seq (s.put (f k) c) (t.put k c') :=
  h.update hf k hc rfl rfl rfl rfl h.queueSeq

theorem modify (k : Bytes) (g : Cell → Cell) :
    Mirrors f base seq (s.modify (f k) g) (t.modify k g) :=
  h.put hf k (by rw [h.cell_eq k])

theorem onKey {α : Type} (k : Bytes) (g : Cell → α × Cell) :
    Matches f base seq (s.onKey (f k) g) (t.onKey k g) where
  fst := by
    show (g (s.cell (f k))).1 = (g (t.cell k)).1
    rw [h.cell_eq k]
  snd := h.put hf k (by rw [h.cell_eq k])

theorem purgeKey (k : Bytes) : Mirrors f base seq (s.purgeKey now (f k)) (t.purgeKey now k) :=
  h.modify hf k _

theorem purged (now : Time) (k : Bytes) :
    ∃ s' t', s.purgeKey now (f k) = s' ∧ t.purgeKey now k = t' ∧ Mirrors f base seq s' t' :=
  ⟨_, _, rfl, rfl, h.purgeKey hf k⟩

omit hf in
theorem foldl {β : Type} (items : List β) {g g' : Store → β → Store}
    (hstep : ∀ (s t : Store) (x : β), Mirrors f base seq s t → Mirrors f base seq (g s x) (g' t x))
    : Mirrors f base seq (items.foldl g s) (items.foldl g' t) := by
  induction items generalizing s t with
  | nil => exact h
  | cons x rest ih => exact ih (hstep s t x h)

/-! ## Operations on several keys -/

theorem del (keys : List Bytes) : Matches f base seq (del now (keys.map f) s) (del now keys t) := by
  induction keys generalizing s t with
  | nil => exact ⟨rfl, h⟩
  | cons k rest ih =>
    have hkey := h.onKey hf k (delCell now)
    have hrest := ih hkey.snd
    refine ⟨?_, hrest.snd⟩
    rw [map_cons]
    unfold del
    dsimp only
    rw [hkey.fst, hrest.fst]

theorem mSetNXCheck (keys : List Bytes) :
    Matches f base seq (mSetNXCheck now (keys.map f) s) (mSetNXCheck now keys t) := by
  induction keys generalizing s t with
  | nil => exact ⟨rfl, h⟩
  | cons k rest ih =>
    have hpurged : Mirrors f base seq (s.purgeKey now (f k)) (t.purgeKey now k) := h.purgeKey hf k
    rw [map_cons]
    unfold mSetNXCheck
    dsimp only
    rw [hpurged.inside k]
    split
    · exact ⟨rfl, hpurged⟩
    · exact ih hpurged

/-- The pairs of a command with their keys renamed. -/
def renamePairs (f : Bytes → Bytes) (pairs : List (Bytes × Bytes)) : List (Bytes × Bytes) :=
  pairs.map (fun p => (f p.1, p.2))

omit h hf in
theorem renamePairs_keys (pairs : List (Bytes × Bytes)) :
    (renamePairs f pairs).map (·.1) = (pairs.map (·.1)).map f := by
  simp [renamePairs]

theorem foldl_pairs (pairs : List (Bytes × Bytes)) (g : Bytes → Cell → Cell) :
    Mirrors f base seq ((renamePairs f pairs).foldl (fun s p => s.modify p.1 (g p.2)) s)
      (pairs.foldl (fun s p => s.modify p.1 (g p.2)) t) := by
  rw [renamePairs, foldl_map]
  exact h.foldl pairs (fun s t p hst => hst.modify hf p.1 (g p.2))

theorem mSetNX (pairs : List (Bytes × Bytes)) :
    Matches f base seq (s.mSetNX now (renamePairs f pairs)) (t.mSetNX now pairs) := by
  obtain ⟨a, s₁, t₁, hs, ht, hst⟩ := (h.mSetNXCheck hf (pairs.map (·.1))).pair
  unfold Store.mSetNX
  rw [renamePairs_keys, hs, ht]
  cases a with
  | false => exact ⟨rfl, hst⟩
  | true => exact ⟨rfl, hst.foldl_pairs hf pairs mSetNXWrite⟩

theorem rename (key newkey : Bytes) :
    Matches f base seq (s.rename now (f key) (f newkey)) (t.rename now key newkey) := by
  unfold Store.rename
  rw [h.inside key]
  split
  · exact ⟨rfl, h.purgeKey hf key⟩
  split
  · exact ⟨rfl, h⟩
  refine ⟨rfl, ?_⟩
  have hdel : Mirrors f base seq (s.modify (f newkey) delete) (t.modify newkey delete) :=
    h.modify hf newkey _
  generalize s.modify (f newkey) delete = s₁ at hdel ⊢
  generalize t.modify newkey delete = t₁ at hdel ⊢
  refine touchKeys ?_ _ _
  have hmoved : Mirrors f base seq
      { s₁ with
        entries := s₁.entries.update (f newkey)
          (renameMoved (s₁.entries (f key)) (s₁.entries (f newkey))) }
      { t₁ with
        entries := t₁.entries.update newkey
          (renameMoved (t₁.entries key) (t₁.entries newkey)) } :=
    hdel.update hf newkey (by rw [hdel.inside, hdel.inside]) rfl rfl rfl rfl
      hdel.queueSeq
  by_cases hk : key = newkey
  · subst hk
    rw [if_pos rfl, if_pos rfl]
    exact hmoved
  · rw [if_neg hk, if_neg (fun heq => hk (hf heq))]
    exact hmoved.update hf key (by rw [hdel.inside]) rfl rfl rfl rfl
      hdel.queueSeq

theorem copy (src dst : Bytes) (replace : Bool) :
    Matches f base seq (s.copy now (f src) (f dst) replace) (t.copy now src dst replace) := by
  obtain ⟨s₁, t₁, hs, ht, h₁⟩ := h.purged hf now src
  unfold Store.copy
  dsimp only
  rw [hs, ht, h₁.inside src]
  split
  · exact ⟨rfl, h₁⟩
  obtain ⟨s₂, t₂, hs, ht, h₂⟩ := h₁.purged hf now dst
  rw [hs, ht, h₂.inside dst]
  split
  · exact ⟨rfl, h₂⟩
  refine ⟨rfl, ?_⟩
  have h₃ : Mirrors f base seq
      (if (t₂.entries dst).existsAt now = true then s₂.modify (f dst) delete else s₂)
      (if (t₂.entries dst).existsAt now = true then t₂.modify dst delete else t₂) := by
    split
    · exact h₂.modify hf dst _
    · exact h₂
  dsimp only
  rw [h₃.inside src]
  exact h₃.modify hf dst _

theorem sMove (src dst member : Bytes) :
    Matches f base seq (s.sMove now (f src) (f dst) member) (t.sMove now src dst member) := by
  obtain ⟨s₁, t₁, hs, ht, h₁⟩ := (h.purgeKey hf src).purged hf now dst
  unfold Store.sMove
  dsimp only
  rw [hs, ht, h₁.inside src, h₁.inside dst]
  split
  · exact ⟨rfl, h₁⟩
  split
  · exact ⟨rfl, h₁⟩
  · exact ⟨rfl, (((h₁.modify hf src _).modify hf dst _).touchKeys _ _).touchKeys _ _⟩

theorem pfMerge (dest : Bytes) (srcs : List Bytes) :
    Mirrors f base seq (s.pfMerge now (f dest) (srcs.map f)) (t.pfMerge now dest srcs) := by
  refine touchKeys ?_ _ _
  rw [foldl_map]
  refine ((h.purgeKey hf dest).modify hf dest _).foldl srcs ?_
  intro s t k hst
  obtain ⟨s₁, t₁, hs, ht, h₁⟩ := hst.purged hf now k
  unfold pfMergeStep
  dsimp only
  rw [hs, ht, h₁.inside k]
  split
  · exact h₁
  · exact h₁.modify hf dest _

theorem bitOpRead (keys : List Bytes) :
    Matches f base seq (bitOpRead now (keys.map f) s) (bitOpRead now keys t) := by
  induction keys generalizing s t with
  | nil => exact ⟨rfl, h⟩
  | cons k rest ih =>
    have h₁ : Mirrors f base seq (s.purgeKey now (f k)) (t.purgeKey now k) := h.purgeKey hf k
    have hrest := ih h₁
    rw [map_cons]
    unfold bitOpRead
    dsimp only
    rw [h₁.inside k]
    split
    · exact ⟨rfl, h₁⟩
    · obtain ⟨a, s₂, t₂, hs, ht, hst⟩ := hrest.pair
      rw [hs, ht]
      cases a with
      | error e => exact ⟨rfl, hst⟩
      | ok bufs => exact ⟨rfl, hst⟩

theorem bitOp (op dest : Bytes) (keys : List Bytes) :
    Matches f base seq (s.bitOp now op (f dest) (keys.map f)) (t.bitOp now op dest keys) := by
  unfold Store.bitOp
  dsimp only
  rw [length_map]
  split
  · exact ⟨rfl, h⟩
  obtain ⟨a, s₂, t₂, hs, ht, hst⟩ := (h.bitOpRead hf keys).pair
  rw [hs, ht]
  cases a with
  | error e => exact ⟨rfl, hst⟩
  | ok bufs =>
    dsimp only
    cases bitOpResult (toUpper op) bufs with
    | error e => exact ⟨rfl, hst⟩
    | ok result =>
      refine ⟨rfl, ?_⟩
      dsimp only
      exact hst.modify hf dest _

/-! ## Lists -/

omit hf in
theorem wake (key : Bytes) : wakeListWaiters (f key) s = s ∧ wakeListWaiters key t = t := by
  unfold wakeListWaiters
  rw [h.idle key, h.idle' key]
  exact ⟨rfl, rfl⟩

theorem pushList (key : Bytes) (left : Bool) (values : List Bytes) :
    Matches f base seq (s.pushList now (f key) left values) (t.pushList now key left values) := by
  have hkey := h.onKey hf key (Cell.pushList now left values)
  obtain ⟨a, s₁, t₁, hs, ht, hst⟩ := hkey.pair
  unfold Store.pushList
  rw [hs, ht]
  cases a with
  | error e => exact ⟨rfl, hst⟩
  | ok =>
    dsimp only
    rw [(wake hst key).1, (wake hst key).2]
    refine ⟨?_, hst⟩
    rw [hst.inside key]

theorem lMoveWrite (src dst : Bytes) (dstLeft : Bool) (value : Bytes) (rest : List Bytes) :
    Mirrors f base seq (s.lMoveWrite (f src) (f dst) dstLeft value rest)
      (t.lMoveWrite src dst dstLeft value rest) := by
  unfold Store.lMoveWrite
  have h₁ := ((h.modify hf src (setList rest)).modify hf dst (fun c =>
    { c with lists := some (pushValues dstLeft [value] (c.lists.getD [])) })).touchKeys
      [f src, f dst] [src, dst]
  rw [(wake h₁ dst).1, (wake h₁ dst).2]
  exact h₁

theorem lMove (src dst : Bytes) (srcLeft dstLeft : Bool) :
    Matches f base seq (s.lMove now (f src) (f dst) srcLeft dstLeft)
      (t.lMove now src dst srcLeft dstLeft) := by
  obtain ⟨s₁, t₁, hs, ht, h₁⟩ := h.purged hf now src
  unfold Store.lMove
  dsimp only
  rw [hs, ht, h₁.inside src]
  split
  · exact ⟨rfl, h₁⟩
  cases popValue srcLeft ((t₁.entries src).lists.getD []) with
  | none => exact ⟨rfl, h₁⟩
  | some popped =>
    have h₂ : Mirrors f base seq (if f src = f dst then s₁ else s₁.purgeKey now (f dst))
        (if src = dst then t₁ else t₁.purgeKey now dst) := by
      by_cases hk : src = dst
      · rw [if_pos hk, if_pos (congrArg f hk)]
        exact h₁
      · rw [if_neg hk, if_neg (fun heq => hk (hf heq))]
        exact h₁.purgeKey hf dst
    generalize (if f src = f dst then s₁ else s₁.purgeKey now (f dst)) = s₂ at h₂ ⊢
    generalize (if src = dst then t₁ else t₁.purgeKey now dst) = t₂ at h₂ ⊢
    simp only [h₂.inside dst, ne_eq, hf.eq_iff]
    split
    · exact ⟨rfl, h₂⟩
    · exact ⟨rfl, h₂.lMoveWrite hf src dst dstLeft popped.1 popped.2⟩

theorem tsDownsample {R : Runtime} (src dst aggType : Bytes) (start stop bucketSize : Int) :
    Matches f base seq (s.tsDownsample R now (f src) (f dst) aggType start stop bucketSize)
      (t.tsDownsample R now src dst aggType start stop bucketSize) := by
  unfold Store.tsDownsample
  rw [h.inside src]
  split
  · exact ⟨rfl, h.purgeKey hf src⟩
  cases (t.entries src).timeseries with
  | none => exact ⟨rfl, h⟩
  | some ts => exact ⟨rfl, h.modify hf dst _⟩

theorem sort {R : Runtime} (key : Bytes) (alpha desc : Bool)
    (offset count : Int) (hint : List Bytes) :
    Matches f base seq (s.sort R now (f key) alpha desc offset count none hint)
      (t.sort R now key alpha desc offset count none hint) := by
  unfold Store.sort
  rw [h.inside key]
  split
  · exact ⟨rfl, h.purgeKey hf key⟩
  cases sortElements (t.entries key) hint with
  | none =>
    dsimp only
    split
    · exact ⟨rfl, h⟩
    · exact ⟨rfl, h⟩
  | some elements =>
    dsimp only
    split <;> exact ⟨rfl, h⟩

/-! ## Queries -/

omit hf

theorem existCount (keys : List Bytes) : s.existCount now (keys.map f) = t.existCount now keys := by
  unfold Store.existCount
  rw [countP_map]
  refine countP_congr (fun k _ => ?_)
  rw [Function.comp_apply, h.inside k]

theorem mGet (keys : List Bytes) : s.mGet now (keys.map f) = t.mGet now keys := by
  unfold Store.mGet
  rw [map_map]
  refine map_congr_left (fun k _ => ?_)
  rw [Function.comp_apply, h.inside k]

theorem sameSets : SameSets f now s t := by
  intro k
  unfold setAt
  rw [h.inside k]

theorem pfCount {R : Runtime} (keys : List Bytes) :
    s.pfCount R now (keys.map f) = t.pfCount R now keys := by
  match keys with
  | [] => rfl
  | [k] =>
    simp only [Store.pfCount, map, h.inside]
  | j :: k :: rest =>
    simp only [Store.pfCount, map_cons, foldl_cons, foldl_map, h.inside]

end Mirrors

/-! ## Stores that hold the same -/

/-- Nobody waits for a list. -/
def Idle (s : Store) : Prop := ∀ k, s.listWaits k = []

/-- Both stores hold the same, and nobody waits on either. -/
abbrev Same (s t : Store) : Prop := Mirrors id (fun _ => Entry.empty) Eq s t

namespace Same

variable {s t u : Store}

theorem of_entries (h : ∀ k, s.entries k = t.entries k) (hs : s.Idle) (ht : t.Idle)
    (hseq : s.queueSeq = t.queueSeq) : Same s t :=
  ⟨h, fun k hk => absurd rfl (hk k), hs, ht, hseq⟩

theorem refl (h : s.Idle) : Same s s := of_entries (fun _ => rfl) h h rfl

theorem trans (h : Same s t) (h' : Same t u) : Same s u :=
  of_entries (fun k => (h.inside k).trans (h'.inside k)) h.idle h'.idle'
    (h.queueSeq.trans h'.queueSeq)

theorem put_put {key : Bytes} {c c₀ c' : Cell} (h : Same (s.put key c₀) t)
    (hc : c.toEntry = c'.toEntry) : Same (s.put key c) (t.put key c') := by
  refine of_entries (fun k => ?_) h.idle h.idle' h.queueSeq
  have hk := h.inside k
  rw [id, put_entries_apply] at hk
  rw [put_entries_apply, put_entries_apply]
  by_cases heq : k = key
  · rw [if_pos heq, if_pos heq]
    exact hc
  · rw [if_neg heq] at hk
    rw [if_neg heq, if_neg heq]
    exact hk

theorem modify_congr (h : Same s t) (key : Bytes) {f g : Cell → Cell}
    (hfg : (f (t.cell key)).toEntry = (g (t.cell key)).toEntry) :
    Same (s.modify key f) (t.modify key g) := by
  have hcell : s.cell key = t.cell key := h.cell_eq key
  unfold modify
  rw [hcell]
  exact h.put Function.injective_id key hfg

theorem touchKeys_left (h : Same s t) (keys : List Bytes) : Same (s.touchKeys keys) t :=
  ⟨h.inside, h.outside, h.idle, h.idle', h.queueSeq⟩

theorem enqueue {now : Time} (h : Same s t) (name body : Bytes) (delay : Duration) :
    Same (s.enqueue now name body delay).2 (t.enqueue now name body delay).2 := by
  unfold Store.enqueue
  rw [h.queueSeq]
  have hseq : Same { s with queueSeq := t.queueSeq + 1 } { t with queueSeq := t.queueSeq + 1 } :=
    ⟨h.inside, h.outside, h.idle, h.idle', rfl⟩
  exact (hseq.onKey Function.injective_id name _).snd

end Same

end Vole.Store
