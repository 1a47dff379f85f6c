import Vole.Store.Reads

/-!
# Background expiry

`sampleExpired` deletes some keys whose expiry has passed and then cleans up: rate limits
that have not been used for twice their window, delays that have run out, and the tags of
keys that do not exist. A query that is gated reads the same afterwards. The others look at
groups, queues, tags or rate limits without asking whether their key has expired.
-/

namespace Vole

open Go Entry Store

variable {v : Bool}

namespace Entry

/-- The entry goes in a sweep: it has been sampled after its expiry, or the clean-up of tags
has come to it. -/
def removed (now : Time) (sampled : Bool) (e : Entry) : Bool :=
  (sampled && e.expires.any (fun t => !isZero t && decide (t < now)))
    || (e.tags.isSome && e.expired now)

/-- The rate limit has been used within twice its window, so that `sampleExpired` keeps it. -/
def recent (now : Time) (rl : RateLimiter) : Bool :=
  match rl.requests.getLast? with
  | none => false
  | some newest => decide (timeSub now newest ≤ wrap64 (rl.window * 2))

/-- What a sweep leaves of an entry. -/
def swept (now : Time) (sampled : Bool) (e : Entry) : Entry :=
  if e.removed now sampled then Entry.empty
  else { e with
    rateLimiters := e.rateLimiters.filter (recent now)
    notBefore := e.notBefore.filter (fun t => decide (now ≤ t))
    tags := if e.existsAt now then e.tags else none }

end Entry

namespace Store

/-- `sampleExpired` with the keys that its first loop visits as an argument. -/
def sampleVisiting (now : Time) (visited hint : List Bytes) (s : Store) : Store :=
  let s := visited.foldl (fun s key => s.modify key (sampleCell now)) s
  let s := (enumerate hint s.held).foldl (fun s key => s.modify key (sweepCell now)) s
  (enumerate hint s.held).foldl (fun s key => s.modify key (sweepTags now)) s

theorem sampleExpired_eq (now : Time) (hint : List Bytes) (s : Store) :
    s.sampleExpired now hint = s.sampleVisiting now
      (((enumerate hint s.held).filter (fun k => (s.entries k).expires.isSome)).take 100)
      hint := rfl

end Store

/-! ## One entry -/

namespace Entry

variable {now : Time} {e : Entry}

/-- The first loop, on an entry it visits. -/
def sampled (now : Time) (e : Entry) : Entry :=
  if e.expires.any (fun t => !isZero t && decide (t < now)) then Entry.empty else e

/-- The clean-up of rate limits and delays. -/
def cleaned (now : Time) (e : Entry) : Entry :=
  { e with
    rateLimiters := e.rateLimiters.filter (recent now)
    notBefore := e.notBefore.filter (fun t => decide (now ≤ t)) }

/-- The clean-up of tags. -/
def untagged (now : Time) (e : Entry) : Entry :=
  if e.tags.isNone then e
  else if (e.purged now).existsAt now then e.purged now
  else { e.purged now with tags := none }

theorem sampleCell_toEntry (now : Time) (c : Cell) :
    (sampleCell now c).toEntry = c.toEntry.sampled now := by
  unfold sampleCell sampled
  cases c.expires with
  | none => rfl
  | some t =>
    dsimp only [Option.any]
    split <;> rfl

theorem sweepCell_toEntry (now : Time) (c : Cell) :
    (sweepCell now c).toEntry = c.toEntry.cleaned now := rfl

theorem sweepTags_toEntry (now : Time) (c : Cell) :
    (sweepTags now c).toEntry = c.toEntry.untagged now := by
  unfold sweepTags untagged
  split
  · rfl
  · dsimp only
    rw [Cell.purge_toEntry]
    split
    · exact c.purge_toEntry now
    · rfl

theorem sampled_sampled (now : Time) (e : Entry) : (e.sampled now).sampled now = e.sampled now := by
  unfold sampled
  split
  · rfl
  · rfl

theorem cleaned_cleaned (now : Time) (e : Entry) : (e.cleaned now).cleaned now = e.cleaned now := by
  simp only [cleaned, Option.filter_filter, Bool.and_self]

theorem untagged_untagged (now : Time) (e : Entry) :
    (e.untagged now).untagged now = e.untagged now := by
  by_cases htags : e.tags.isNone = true
  · have hsame : e.untagged now = e := if_pos htags
    rw [hsame, hsame]
  · by_cases hex : e.existsAt now = true
    · have hsame : e.untagged now = e := by
        rw [untagged, if_neg htags, purged_existsAt, if_pos hex, purged_of_existsAt hex]
      rw [hsame, hsame]
    · have hnone : (e.untagged now).tags.isNone = true := by
        rw [untagged, if_neg htags, purged_existsAt, if_neg hex]
        rfl
      rw [untagged, if_pos hnone]

theorem expired_of_any (h : e.expires.any (fun t => !isZero t && decide (t < now)) = true) :
    e.expired now = true := by
  unfold expired
  cases hx : e.expires with
  | none =>
    rw [hx] at h
    cases h
  | some t =>
    rw [hx] at h
    simp only [Option.any_some, Bool.and_eq_true, decide_eq_true_eq] at h
    simp only [h.1, Bool.true_and, decide_eq_true_eq]
    exact Int.le_of_lt h.2

theorem expired_of_removed (h : e.removed now v = true) : e.expired now = true := by
  simp only [removed, Bool.or_eq_true, Bool.and_eq_true] at h
  rcases h with ⟨-, hany⟩ | ⟨-, hexp⟩
  · exact expired_of_any hany
  · exact hexp

theorem visible_cleaned (now : Time) (e : Entry) : (e.cleaned now).visible now = e.visible now := by
  unfold visible cleaned
  cases hnb : e.notBefore with
  | none => rfl
  | some t =>
    by_cases ht : now ≤ t
    · simp [Option.filter, ht]
    · simp [Option.filter, ht, Int.le_of_lt (Int.not_le.mp ht)]

theorem existsAt_cleaned (now : Time) (e : Entry) :
    (e.cleaned now).existsAt now = e.existsAt now := by
  unfold existsAt
  rw [visible_cleaned]
  rfl

theorem untagged_cleaned_sampled (now : Time) (v : Bool) (e : Entry) :
    (((if v then e.sampled now else e).cleaned now).untagged now) = e.swept now v := by
  have hempty : (empty.cleaned now).untagged now = empty := rfl
  by_cases hvisit : v = true ∧ e.expires.any (fun t => !isZero t && decide (t < now)) = true
  · have hremoved : e.removed now v = true := by simp [removed, hvisit.1, hvisit.2]
    have hsampled : e.sampled now = empty := if_pos hvisit.2
    rw [if_pos hvisit.1, hsampled, hempty, swept, if_pos hremoved]
  · have hsame : (if v then e.sampled now else e) = e := by
      by_cases hv : v = true
      · rw [if_pos hv]
        exact if_neg (fun hany => hvisit ⟨hv, hany⟩)
      · exact if_neg hv
    have hremoved : e.removed now v = (e.tags.isSome && e.expired now) := by
      have hfirst : (v && e.expires.any (fun t => !isZero t && decide (t < now))) = false := by
        rw [← Bool.not_eq_true, Bool.and_eq_true]
        exact hvisit
      unfold removed
      rw [hfirst, Bool.false_or]
    rw [hsame, swept, hremoved]
    cases htags : e.tags with
    | none =>
      have hnone : (e.cleaned now).tags.isNone = true := by
        show e.tags.isNone = true
        rw [htags]
        rfl
      rw [untagged, if_pos hnone, cleaned]
      simp [htags]
    | some tags =>
      have hsome : ¬ (e.cleaned now).tags.isNone = true := by
        show ¬ e.tags.isNone = true
        rw [htags]
        simp
      rw [untagged, if_neg hsome, purged_existsAt, existsAt_cleaned]
      cases hexp : e.expired now with
      | true =>
        have hpurged : (e.cleaned now).purged now = empty := if_pos hexp
        have hnot : e.existsAt now = false := by simp [existsAt, hexp]
        rw [hpurged, hnot]
        rfl
      | false =>
        have hpurged : (e.cleaned now).purged now = e.cleaned now :=
          if_neg (by rw [show (e.cleaned now).expired now = e.expired now from rfl, hexp]; simp)
        rw [hpurged]
        cases hex : e.existsAt now <;> simp [cleaned, htags]

theorem swept_view (now : Time) (v : Bool) (e : Entry) : (e.swept now v).view now = e.view now := by
  unfold swept
  split
  · rename_i hremoved
    rw [view_of_expired (expired_of_removed hremoved)]
    rfl
  · cases hexp : e.expired now with
    | true => exact (view_of_expired (by exact hexp)).trans (view_of_expired hexp).symm
    | false =>
      refine (view_of_not_expired (by exact hexp)).trans (.trans ?_ (view_of_not_expired hexp).symm)
      simp only [Option.filter_filter]
      congr 2
      funext t
      by_cases ht : now < t
      · simp [ht, Int.le_of_lt ht]
      · simp [ht]

end Entry

namespace Store

theorem sampleVisiting_entries (now : Time) (visited hint : List Bytes) (s : Store) (k : Bytes) :
    (s.sampleVisiting now visited hint).entries k
      = (s.entries k).swept now (decide (k ∈ visited)) := by
  have hheld : ∀ (s : Store) (g : Entry → Entry), g empty = empty →
      (if k ∈ enumerate hint s.held then g (s.entries k) else s.entries k) = g (s.entries k) := by
    intro s g hg
    split
    · rfl
    · rename_i hk
      have hzero : s.entries k = empty :=
        DFinsupp.notMem_support_iff.mp (fun h => hk (mem_enumerate.mpr h))
      rw [hzero, hg]
  unfold sampleVisiting
  rw [foldl_modify_entries (g := fun e => e.untagged now) (sweepTags_toEntry now)
      (untagged_untagged now), hheld _ (fun e => e.untagged now) rfl,
    foldl_modify_entries (g := fun e => e.cleaned now) (sweepCell_toEntry now)
      (cleaned_cleaned now), hheld _ (fun e => e.cleaned now) rfl,
    foldl_modify_entries (g := fun e => e.sampled now) (sampleCell_toEntry now)
      (sampled_sampled now), ← untagged_cleaned_sampled]
  simp only [decide_eq_true_eq]

end Store

/-! ## Answers -/

/-- What is left of the limit, and the next reset, show as for a key that has no limit. -/
def Entry.ShowsNone (now : Time) (rl : RateLimiter) : Prop :=
  rl.max - (rl.requests.filter (fun t => decide (now - rl.window < t))).length = -1 ∧
    ∀ first ∈ rl.requests.head?, unixMilli (first + rl.window) = 0

/-- A sweep that may sample the key does not change the answer for its entry. -/
def KeyRead.Undisturbed (now : Time) (sampled : Bool) (e : Entry) : KeyRead → Prop
  | .xReadGroupPlan _ _ _ _ => e.removed now sampled = false
  | .xInfoStream => e.removed now sampled = true → e.streams = none ∧ e.groups.getD ∅ = ∅
  | .xInfoGroups _ => e.removed now sampled = true → e.groups.getD ∅ = ∅
  | .xPendingSummary group _ => e.removed now sampled = true →
      ∀ g, e.groups.bind (·.get group) = some g → g.pending = ∅
  | .qLen => e.removed now sampled = true → ∀ q, e.queues = some q → q.pending = []
  | .qInfo => e.removed now sampled = true → ∀ q, e.queues = some q →
      q.pending = [] ∧ q.processing = ∅ ∧ q.deadLetter = []
  | .qPeek _ => e.removed now sampled = true → ∀ q, e.queues = some q → q.pending = []
  | .qDead _ => e.removed now sampled = true → ∀ q, e.queues = some q → q.deadLetter = []
  | .tagGet => e.tags = none ∨ e.expired now = true ∨ e.existsAt now = true
  | .rateLimitPeek => ∀ rl, e.rateLimiters = some rl →
      (e.removed now sampled = true ∨ Entry.recent now rl = false) → Entry.ShowsNone now rl
  | _ => True

def Query.Undisturbed (now : Time) (visited : List Bytes) (s : Store) : Query → Prop
  | .key k r => r.Undisturbed now (decide (k ∈ visited)) (s.entries k)
  | _ => True

namespace Entry

variable {now : Time} {e : Entry}

theorem xInfoStream_eq_empty_iff :
    e.xInfoStream = empty.xInfoStream ↔ e.streams = none ∧ e.groups.getD ∅ = ∅ := by
  have hgroups : (e.groups.getD ∅).size = 0 ↔ e.groups.getD ∅ = ∅ := by
    rw [← GoMap.isEmpty_iff, GoMap.isEmpty, decide_eq_true_iff]
    rfl
  have hempty : empty.xInfoStream = (0, bytes "0-0", bytes "0-0", 0, false) := rfl
  rw [hempty, ← hgroups]
  unfold xInfoStream
  cases hs : e.streams with
  | none => simp
  | some entries =>
    cases entries with
    | nil => simp
    | cons first rest => simp [List.getLast?_cons]

theorem xInfoGroups_eq_nil_iff {hint : List Bytes} :
    e.xInfoGroups hint = [] ↔ e.groups.getD ∅ = ∅ := by
  unfold xInfoGroups
  rw [List.filterMap_eq_nil_iff]
  constructor
  · intro h
    rw [← GoMap.isEmpty_iff, GoMap.isEmpty, decide_eq_true_iff, Finset.card_eq_zero]
    refine Finset.eq_empty_of_forall_notMem (fun name hname => ?_)
    have hnone := h name (mem_enumerate.mpr hname)
    rw [Option.map_eq_none_iff] at hnone
    exact Finmap.lookup_eq_none.mp hnone (Finmap.mem_keys.mp hname)
  · intro h name hname
    rw [h] at hname
    exact absurd (mem_enumerate.mp hname) (by simp)

theorem xPendingSummary_eq_iff {group : Bytes} {hint : List Bytes} :
    e.xPendingSummary group hint = (0, [], [], ∅)
      ↔ ∀ g, e.groups.bind (·.get group) = some g → g.pending = ∅ := by
  unfold xPendingSummary
  cases hg : e.groups.bind (·.get group) with
  | none => simp
  | some g =>
    dsimp only
    by_cases hp : g.pending.isEmpty = true
    · rw [if_pos hp]
      simp [(GoMap.isEmpty_iff _).mp hp]
    · rw [if_neg hp]
      have hne : g.pending ≠ ∅ := fun h => hp ((GoMap.isEmpty_iff _).mpr h)
      have hsize : g.pending.size ≠ 0 := by simpa [GoMap.isEmpty, GoMap.size] using hp
      simp [hne, hsize]

theorem qInfo_eq_iff : e.qInfo = (0, 0, 0) ↔ ∀ q, e.queues = some q →
      q.pending = [] ∧ q.processing = ∅ ∧ q.deadLetter = [] := by
  unfold qInfo
  cases hq : e.queues with
  | none => simp
  | some q =>
    have hproc : q.processing.size = 0 ↔ q.processing = ∅ := by
      rw [← GoMap.isEmpty_iff, GoMap.isEmpty, decide_eq_true_iff]
      rfl
    simp [hproc]

theorem qLen_eq_iff : e.qInfo.1 = 0 ↔ ∀ q, e.queues = some q → q.pending = [] := by
  unfold qInfo
  cases hq : e.queues <;> simp

theorem take_eq_nil_iff {f : Queue → List QueueMessage} {n : Nat} (hn : 0 < n) :
    ((e.queues.map f).getD []).take n = [] ↔ ∀ q, e.queues = some q → f q = [] := by
  cases hq : e.queues with
  | none => simp
  | some q => simp [Nat.ne_of_gt hn]

theorem qPeek_eq_iff {count : Int} :
    e.qPeek count = empty.qPeek count ↔ ∀ q, e.queues = some q → q.pending = [] := by
  have hempty : empty.qPeek count = [] := List.take_nil
  rw [hempty]
  exact take_eq_nil_iff (by split <;> omega)

theorem qDead_eq_iff {count : Int} :
    e.qDead count = empty.qDead count ↔ ∀ q, e.queues = some q → q.deadLetter = [] := by
  have hempty : empty.qDead count = [] := List.take_nil
  rw [hempty]
  exact take_eq_nil_iff (by split <;> omega)

theorem xInfoGroups_empty (hint : List Bytes) : empty.xInfoGroups hint = [] :=
  xInfoGroups_eq_nil_iff.mpr rfl

theorem answer_swept_of_fields {α : Type} {f : Entry → α} {cond : Prop}
    (hfields : ∀ e e' : Entry, e.toData = e'.toData → e.groups = e'.groups →
      e.queues = e'.queues → f e = f e') (hempty : f e = f empty ↔ cond) :
    f (e.swept now v) = f e ↔ (e.removed now v = true → cond) := by
  unfold swept
  cases hr : e.removed now v with
  | true =>
    rw [if_pos rfl, eq_comm, hempty]
    simp
  | false =>
    simp only [Bool.false_eq_true, false_implies, iff_true]
    exact hfields _ _ rfl rfl rfl

/-- A plan for an expired stream is empty; once the stream is deleted, it is an error. -/
theorem xReadGroupPlan_swept_iff {group consumer id : Bytes} {count : Int} :
    (e.swept now v).xReadGroupPlan now group consumer id count
        = e.xReadGroupPlan now group consumer id count ↔ e.removed now v = false := by
  cases hr : e.removed now v with
  | true =>
    have hswept : e.swept now v = empty := if_pos hr
    have hbefore : e.xReadGroupPlan now group consumer id count = .ok [] :=
      if_pos (expired_of_removed hr)
    have hafter : empty.xReadGroupPlan now group consumer id count = .error .noGroup := rfl
    rw [hswept, hbefore, hafter]
    simp
  | false =>
    rw [swept, if_neg (by simp [hr])]
    exact iff_of_true rfl rfl

theorem rateLimitPeek_eq_iff {rl : RateLimiter} (h : e.rateLimiters = some rl) :
    e.rateLimitPeek now = (-1, 0) ↔ ShowsNone now rl := by
  unfold rateLimitPeek ShowsNone
  rw [h, Prod.mk.injEq]
  cases rl.requests.head? <;> simp

theorem rateLimitPeek_swept_iff : (e.swept now v).rateLimitPeek now = e.rateLimitPeek now
      ↔ ∀ rl, e.rateLimiters = some rl →
        (e.removed now v = true ∨ recent now rl = false) → ShowsNone now rl := by
  have hgone : ∀ e' : Entry, e'.rateLimiters = none → e'.rateLimitPeek now = (-1, 0) := by
    intro e' h
    unfold rateLimitPeek
    rw [h]
  cases hrl : e.rateLimiters with
  | none =>
    have hswept : (e.swept now v).rateLimiters = none := by
      unfold swept
      split
      · rfl
      · simp [hrl]
    rw [hgone _ hswept, hgone _ hrl]
    simp
  | some rl =>
    by_cases hlost : e.removed now v = true ∨ recent now rl = false
    · have hswept : (e.swept now v).rateLimiters = none := by
        unfold swept
        split
        · rfl
        · rename_i hkept
          simp [hrl, Option.filter, hlost.resolve_left hkept]
      rw [hgone _ hswept]
      constructor
      · intro h rl' hrl' _
        cases hrl'
        exact (rateLimitPeek_eq_iff hrl).mp h.symm
      · intro h
        exact ((rateLimitPeek_eq_iff hrl).mpr (h rl rfl hlost)).symm
    · rw [not_or] at hlost
      have hswept : (e.swept now v).rateLimiters = some rl := by
        unfold swept
        rw [if_neg hlost.1]
        simp [hrl, Option.filter, hlost.2]
      have hsame : (e.swept now v).rateLimitPeek now = e.rateLimitPeek now := by
        unfold rateLimitPeek
        rw [hswept, hrl]
      refine ⟨fun _ rl' hrl' hor => ?_, fun _ => hsame⟩
      cases hrl'
      exact absurd hor (not_or.mpr hlost)

theorem tagGet_swept_iff : (e.swept now v).tagGet now = e.tagGet now
      ↔ e.tags = none ∨ e.expired now = true ∨ e.existsAt now = true := by
  have hexpired : e.expired now = true → e.tagGet now = none := fun h => if_pos h
  have hlive : e.expired now = false → e.tagGet now = e.tags := fun h => if_neg (by simp [h])
  cases hr : e.removed now v with
  | true =>
    have hexp := expired_of_removed hr
    have hswept : e.swept now v = empty := if_pos hr
    rw [hswept, hexpired hexp]
    exact iff_of_true rfl (.inr (.inl hexp))
  | false =>
    have hswept : (e.swept now v).tagGet now
        = if e.expired now then none else if e.existsAt now then e.tags else none := by
      rw [swept, if_neg (by simp [hr])]
      rfl
    rw [hswept]
    cases hexp : e.expired now with
    | true => simp [hexpired hexp]
    | false =>
      rw [hlive hexp]
      cases e.existsAt now <;> simp [eq_comm]

end Entry

theorem KeyRead.answer_swept_iff (R : Runtime) (now : Time) (v : Bool) (e : Entry) (r : KeyRead) :
    r.answer R (e.swept now v) now = r.answer R e now ↔ r.Undisturbed now v e := by
  have hgated : r.Gated → r.answer R (e.swept now v) now = r.answer R e now := by
    intro hr
    rw [← r.answer_view hr, swept_view, r.answer_view hr]
  cases r with
  | xReadGroupPlan group consumer id count => exact xReadGroupPlan_swept_iff
  | xInfoStream =>
    exact answer_swept_of_fields (fun _ _ hdata hgroups _ => by
      simp only [Entry.xInfoStream, hdata, hgroups]) xInfoStream_eq_empty_iff
  | xInfoGroups hint =>
    exact answer_swept_of_fields (f := fun e => e.xInfoGroups hint)
      (fun _ _ _ hgroups _ => by simp only [Entry.xInfoGroups, hgroups])
      (by rw [xInfoGroups_empty]; exact xInfoGroups_eq_nil_iff)
  | xPendingSummary group hint =>
    exact answer_swept_of_fields (f := fun e => e.xPendingSummary group hint)
      (fun _ _ _ hgroups _ => by simp only [Entry.xPendingSummary, hgroups])
      Entry.xPendingSummary_eq_iff
  | qLen =>
    exact Entry.answer_swept_of_fields (f := fun e => e.qInfo.1)
      (fun _ _ _ _ hqueues => by simp only [Entry.qInfo, hqueues]) Entry.qLen_eq_iff
  | qInfo =>
    exact Entry.answer_swept_of_fields (f := fun e => e.qInfo)
      (fun _ _ _ _ hqueues => by simp only [Entry.qInfo, hqueues]) Entry.qInfo_eq_iff
  | qPeek count =>
    exact Entry.answer_swept_of_fields (f := fun e => e.qPeek count)
      (fun _ _ _ _ hqueues => by simp only [Entry.qPeek, hqueues]) Entry.qPeek_eq_iff
  | qDead count =>
    exact Entry.answer_swept_of_fields (f := fun e => e.qDead count)
      (fun _ _ _ _ hqueues => by simp only [Entry.qDead, hqueues]) Entry.qDead_eq_iff
  | tagGet => exact Entry.tagGet_swept_iff
  | rateLimitPeek => exact Entry.rateLimitPeek_swept_iff
  | _ => exact iff_of_true (hgated trivial) trivial

/-- A sweep at a time changes the answer of a query at this time exactly when the query reads
something that a sweep removes. -/
theorem sweep_unobservable_iff (R : Runtime) (s : Store) (now : Time)
    (visited hint : List Bytes) (q : Query) :
    q.answer R (s.sampleVisiting now visited hint) now = q.answer R s now
      ↔ q.Undisturbed now visited s := by
  have hgated : q.Gated → q.answer R (s.sampleVisiting now visited hint) now = q.answer R s now := by
    refine Query.answer_congr (fun k => ?_) q
    rw [sampleVisiting_entries, swept_view]
  cases q with
  | key k r =>
    show r.answer R ((s.sampleVisiting now visited hint).entries k) now = _ ↔ _
    rw [sampleVisiting_entries]
    exact r.answer_swept_iff R now _ _
  | _ => exact iff_of_true (hgated trivial) trivial

/-- A stream with a tag, whose expiry is at the time `2`. -/
def taggedStream : Store :=
  (Op.cell (bytes "k") (.expire 1)).apply default 1
    ((Op.cell (bytes "k") (.tagSet [(bytes "a", bytes "b")])).apply default 1
      ((Op.cell (bytes "k") (.xAdd (bytes "1-1") [bytes "f", bytes "v"])).apply default 1
        Store.new))

/-- A rate limit that was used at the time `1` and has a window of `1`. -/
def usedLimit : Store := (Op.cell (bytes "k") (.rateLimit 5 1)).apply default 1 Store.new

/-- Once the stream has expired, and once the rate limit has not been used for a while,
`XInfoStream` and `RateLimitPeek` tell whether a sweep has taken place. -/
theorem sweep_observed :
    (Query.key (bytes "k") .xInfoStream).answer default (taggedStream.sampleExpired 3 []) 3
        ≠ (Query.key (bytes "k") .xInfoStream).answer default taggedStream 3
      ∧ (Query.key (bytes "k") .rateLimitPeek).answer default (usedLimit.sampleExpired 4 []) 4
        ≠ (Query.key (bytes "k") .rateLimitPeek).answer default usedLimit 4 := by
  have hstream : ∀ b, ((taggedStream.entries (bytes "k")).swept 3 b).xInfoStream
      ≠ (taggedStream.entries (bytes "k")).xInfoStream := by decide +kernel
  have hlimit : ∀ b, ((usedLimit.entries (bytes "k")).swept 4 b).rateLimitPeek 4
      ≠ (usedLimit.entries (bytes "k")).rateLimitPeek 4 := by decide +kernel
  constructor
  · show ((taggedStream.sampleExpired 3 []).entries (bytes "k")).xInfoStream ≠ _
    rw [sampleExpired_eq, sampleVisiting_entries]
    exact hstream _
  · show ((usedLimit.sampleExpired 4 []).entries (bytes "k")).rateLimitPeek 4 ≠ _
    rw [sampleExpired_eq, sampleVisiting_entries]
    exact hlimit _

end Vole
