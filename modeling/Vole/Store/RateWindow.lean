import Vole.Store.Sweep
import Vole.Go.Decimal
import Vole.Lib.Transition

/-!
# The sliding window of a rate limit

A limiter keeps the times of the requests it has allowed, as far as they lie in the window of
the last request, and `sampleExpired` drops a limiter that has not been used for twice its
window. Nothing that counts is lost by either, as long as the key has no expiry: a key that has
expired goes with its limiter.
-/

namespace Vole

open Go Store List Transition

variable {max window now : Int} {c : Cell} {s : Store} {key : Bytes}

/-- The times in the window that ends at `t`. -/
def inWindow (window t : Int) (times : List Int) : List Int :=
  times.filter (fun u => t - window < u ∧ u ≤ t)

/-- The times that the window has not passed. -/
def counting (window now : Int) (times : List Int) : List Int :=
  times.filter (fun u => decide (now - window < u))

def requests (e : Entry) : List Int := (e.rateLimiters.map (·.requests)).getD []

/-- `RateLimit` allows a request if less than `max` count, and records it then. -/
theorem rateLimit_spec (hmax : 1 ≤ max) {r : Except Err Cell.RateReply × Cell}
    (h : c.rateLimit now max window = r) :
    let old := counting window now (requests c.toEntry)
    ∃ reply, r.1 = .ok reply ∧ (reply.allowed = true ↔ old.length < max) ∧
      reply.remaining = (if reply.allowed then max - old.length - 1 else 0) ∧
      r.2.rateLimiters = some ⟨window, max, old ++ if reply.allowed then [now] else []⟩ ∧
      r.2.expires = c.expires := by
  intro old
  unfold Cell.rateLimit at h
  dsimp only at h
  split at h
  · rename_i hfull
    split at h
    · rename_i hnil
      rw [hnil] at hfull
      exact absurd (hmax.trans hfull) (by decide)
    · cases h
      refine ⟨_, rfl, iff_of_false Bool.false_ne_true (not_lt.mpr hfull), rfl, ?_, rfl⟩
      rw [if_neg Bool.false_ne_true, append_nil]
      rfl
  · rename_i hfree
    cases h
    refine ⟨_, rfl, iff_of_true rfl (not_le.mp hfree), ?_, rfl, rfl⟩
    rw [length_append, Int.natCast_add, ← Int.sub_sub]
    rfl

/-- `sampleExpired` keeps the limiter of a key without an expiry, unless its last request is more
than twice the window ago. -/
theorem sampleExpired_limiter (hnone : (s.entries key).expires = none) (now : Int)
    (hint : List Bytes) :
    let e := (s.sampleExpired now hint).entries key
    e.expires = none ∧ (e.rateLimiters = (s.entries key).rateLimiters ∨ (e.rateLimiters = none ∧
      ∀ newest ∈ (requests (s.entries key)).getLast?, ∃ rl ∈ (s.entries key).rateLimiters,
        wrap64 (rl.window * 2) < timeSub now newest)) := by
  intro e
  have hentry : ∃ v, e = (s.entries key).swept now v :=
    ⟨_, sampleVisiting_entries now _ hint s key⟩
  obtain ⟨v, hentry⟩ := hentry
  have hkept : (s.entries key).removed now v = false := by
    simp [Entry.removed, Entry.expired, hnone]
  rw [Entry.swept, hkept, if_neg Bool.false_ne_true] at hentry
  rw [hentry]
  refine ⟨hnone, ?_⟩
  unfold requests
  cases (s.entries key).rateLimiters with
  | none => exact .inl rfl
  | some rl =>
    cases hlast : rl.requests.getLast? with
    | none => exact .inr ⟨by simp [Entry.recent, hlast], by simp [hlast]⟩
    | some newest =>
      by_cases hgap : timeSub now newest ≤ wrap64 (rl.window * 2)
      · exact .inl (by simp [Entry.recent, hlast, hgap])
      · refine .inr ⟨by simp [Entry.recent, hlast, hgap], fun u hu => ⟨rl, rfl, ?_⟩⟩
        cases hlast.symm.trans hu
        exact not_le.mp hgap

/-! ## Runs -/

/-- `RateLimit` on the key, and `sampleExpired` on the whole store. -/
inductive LimitEvent where
  | request (now : Int)
  | sweep (now : Int) (hint : List Bytes)

/-- The store, the times at which requests for the key were allowed, and the time of the last
event. -/
structure Limited where
  store : Store
  allowed : List Int
  clock : Int

namespace Limited

/-- One event; a crash ends the run. -/
def step (key : Bytes) (max window : Int) (x : Limited) : LimitEvent → Option Limited
  | .request now =>
    let r := x.store.onKey key (Cell.rateLimit now max window)
    r.1.toOption.map (fun reply =>
      ⟨r.2, x.allowed ++ if reply.allowed then [now] else [], now⟩)
  | .sweep now hint => some ⟨x.store.sampleExpired now hint, x.allowed, now⟩

/-- The clock does not go back. -/
def Later (x : Limited) : LimitEvent → Prop
  | .request now => x.clock ≤ now
  | .sweep now _ => x.clock ≤ now

/-- At any later time the limiter has the requests that count, and no window holds too many. -/
structure Inv (key : Bytes) (max window : Int) (x : Limited) : Prop where
  lasting : (x.store.entries key).expires = none
  window_eq : ∀ rl ∈ (x.store.entries key).rateLimiters, rl.window = window
  rising : (requests (x.store.entries key)).Pairwise (· ≤ ·)
  past : ∀ u ∈ x.allowed, u ≤ x.clock
  counts : ∀ now ≥ x.clock,
    counting window now (requests (x.store.entries key)) = counting window now x.allowed
  bound : ∀ t, (inWindow window t x.allowed).length ≤ max

variable {x y : Limited}

namespace Inv

theorem inWindow_eq (h : x.Inv key max window) (hnow : x.clock ≤ now) :
    inWindow window now x.allowed = counting window now (requests (x.store.entries key)) := by
  rw [h.counts now hnow]
  refine filter_congr fun u hu => ?_
  have hpast : u ≤ x.clock := h.past u hu
  rw [decide_eq_decide]
  omega

/-- A window that holds the new request has begun after the one that ends with it. -/
theorem bound_request (h : x.Inv key max window) (hnow : x.clock ≤ now)
    (hfree : (counting window now (requests (x.store.entries key))).length < max) (t : Int) :
    (inWindow window t (x.allowed ++ [now])).length ≤ max := by
  have hold := h.bound t
  unfold inWindow at hold ⊢
  rw [filter_append, length_append]
  by_cases ht : now ≤ t
  · have hsub : (x.allowed.filter (fun u => t - window < u ∧ u ≤ t)).length
        ≤ (counting window now x.allowed).length :=
      (monotone_filter_right _ fun u hu => by
        rw [decide_eq_true_eq] at hu ⊢
        omega).length_le
    rw [h.counts now hnow] at hfree
    have hone := length_filter_le (fun u => decide (t - window < u ∧ u ≤ t)) [now]
    rw [length_singleton] at hone
    omega
  · rw [filter_cons_of_neg (by simp [ht])]
    exact hold

/-- A request drops what the window has passed, and is recorded if it is allowed. -/
theorem request (hmax : 1 ≤ max) (h : x.Inv key max window) (hnow : x.clock ≤ now)
    (hstep : x.step key max window (.request now) = some y) : y.Inv key max window := by
  obtain ⟨reply, hreply, hallowed, -, hlimiter, hexpires⟩ := rateLimit_spec hmax
    (rfl : (x.store.cell key).rateLimit now max window = _)
  unfold Limited.step onKey at hstep
  dsimp only at hstep
  rw [hreply] at hstep
  cases hstep
  generalize (x.store.cell key).rateLimit now max window = r at hlimiter hexpires
  have hentry : (x.store.put key r.2).entries key = r.2.toEntry := put_entries_self _ _ _
  have hrequests : requests r.2.toEntry = counting window now (requests (x.store.entries key))
      ++ if reply.allowed then [now] else [] := by
    unfold requests
    rw [hlimiter]
    rfl
  have hpast : ∀ u ∈ x.allowed, u ≤ now := fun u hu => (h.past u hu).trans hnow
  have hnew : ∀ u ∈ (if reply.allowed then [now] else []), u = now := by
    intro u hu
    split at hu
    · exact mem_singleton.mp hu
    · cases hu
  constructor
  · rw [hentry]
    exact hexpires.trans h.lasting
  · rw [hentry, hlimiter]
    rintro rl ⟨⟩
    rfl
  · rw [hentry, hrequests]
    refine pairwise_append.mpr ⟨h.rising.filter _, ?_, fun u hu v hv => ?_⟩
    · split
      · exact pairwise_singleton _ _
      · exact .nil
    · rw [h.counts now hnow] at hu
      rw [hnew v hv]
      exact hpast u (mem_of_mem_filter hu)
  · intro u hu
    rcases mem_append.mp hu with hold | hlast
    · exact hpast u hold
    · exact (hnew u hlast).le
  · intro t (ht : now ≤ t)
    have hold := h.counts t (hnow.trans ht)
    rw [hentry, hrequests]
    unfold counting at hold ⊢
    rw [filter_append, filter_append, ← hold, filter_filter]
    refine congrArg (· ++ _) (filter_congr fun u _ => ?_)
    rw [← Bool.decide_and, decide_eq_decide]
    omega
  · dsimp only
    split
    · rename_i hyes
      exact h.bound_request hnow (hallowed.mp hyes)
    · rw [append_nil]
      exact h.bound

/-- A limiter that is dropped has no request that counts. -/
theorem sweep (hpos : 0 < window) (hfits : window < 2 ^ 62) (h : x.Inv key max window)
    (hnow : x.clock ≤ now) (hint : List Bytes) :
    Inv key max window ⟨x.store.sampleExpired now hint, x.allowed, now⟩ := by
  have hpast : ∀ u ∈ x.allowed, u ≤ now := fun u hu => (h.past u hu).trans hnow
  obtain ⟨hlasting, hsame | ⟨hnone, hold⟩⟩ := sampleExpired_limiter h.lasting now hint
  · have hrequests : requests ((x.store.sampleExpired now hint).entries key)
        = requests (x.store.entries key) := by
      unfold requests
      rw [hsame]
    exact ⟨hlasting, hsame ▸ h.window_eq, hrequests ▸ h.rising, hpast,
      fun t ht => hrequests ▸ h.counts t (hnow.trans ht), h.bound⟩
  · have hrequests : requests ((x.store.sampleExpired now hint).entries key) = [] := by
      unfold requests
      rw [hnone]
      rfl
    refine ⟨hlasting, by rw [hnone]; nofun, hrequests ▸ .nil, hpast, fun t ht => ?_, h.bound⟩
    rw [hrequests, ← h.counts t (hnow.trans ht)]
    refine (filter_eq_nil_iff.mpr fun u hu hcounts => ?_).symm
    have hcounts : t - window < u := of_decide_eq_true hcounts
    have ht : now ≤ t := ht
    have hlast := h.rising.rel_getLast hu
    obtain ⟨rl, hrl, hgap⟩ := hold _ (getLast?_eq_some_getLast (ne_nil_of_mem hu))
    rw [h.window_eq rl hrl, wrap64_of_range ⟨by omega, by omega⟩] at hgap
    generalize (requests (x.store.entries key)).getLast _ = newest at hlast hgap
    have hgap : window * 2 < Max.max (-2 ^ 63) (Min.min (2 ^ 63 - 1) (now - newest)) := hgap
    omega

end Inv

theorem Inv.step (hmax : 1 ≤ max) (hpos : 0 < window) (hfits : window < 2 ^ 62) {a : LimitEvent}
    (h : x.Inv key max window) (hlater : x.Later a) (hstep : x.step key max window a = some y) :
    y.Inv key max window := by
  cases a with
  | request now => exact h.request hmax hlater hstep
  | sweep now hint =>
    cases hstep
    exact h.sweep hpos hfits hlater hint

end Limited

/-- **The sliding window.** With a limit of at least one and a window that can be doubled, along
every run on a key without an expiry: no window at any position holds more than `max` allowed
requests; and the next request is answered, is allowed exactly if the window that ends with it
holds less, and is told how many are left. -/
theorem rateLimit_sliding (hmax : 1 ≤ max) (hpos : 0 < window) (hfits : window < 2 ^ 62)
    (hfresh : (s.entries key).rateLimiters = none) (hlasting : (s.entries key).expires = none)
    {clock : Int} {x : Limited}
    (hrun : Reaches (Limited.step key max window) Limited.Later ⟨s, [], clock⟩ x) :
    (∀ t, (inWindow window t x.allowed).length ≤ max) ∧ ∀ now ≥ x.clock,
      let used : Int := (inWindow window now x.allowed).length
      ∃ reply, (x.store.onKey key (Cell.rateLimit now max window)).1 = .ok reply ∧
        (reply.allowed = true ↔ used < max) ∧
        reply.remaining = max - used - if reply.allowed then 1 else 0 := by
  have hrequests : requests (s.entries key) = [] := by
    unfold requests
    rw [hfresh]
    rfl
  have hstart : Limited.Inv key max window ⟨s, [], clock⟩ := by
    refine ⟨hlasting, by rw [hfresh]; nofun, ?_, nofun, fun _ _ => ?_, fun t => ?_⟩
    · rw [hrequests]
      exact .nil
    · rw [hrequests]
    · exact (Int.zero_le_ofNat 1).trans hmax
  have hinv : x.Inv key max window :=
    hrun.invariant hstart (fun _ _ _ h => h.step hmax hpos hfits)
  refine ⟨hinv.bound, fun now hnow => ?_⟩
  obtain ⟨reply, hreply, hallowed, hleft, -⟩ := rateLimit_spec hmax
    (rfl : (x.store.cell key).rateLimit now max window = _)
  have hbound := hinv.bound now
  rw [hinv.inWindow_eq hnow] at hbound ⊢
  refine ⟨reply, hreply, hallowed, ?_⟩
  rw [hleft]
  split
  · rfl
  · -- a request is denied when the limit is used up
    rename_i hno
    have hfull := mt hallowed.mpr hno
    rw [cell_toEntry] at hfull
    omega

/-- The second of two requests at once is denied. -/
theorem rateLimit_sliding_two : ∃ x,
    runAll (Limited.step (bytes "k") 1 10) ⟨Store.new, [], 0⟩
        [.request 5, .request 5, .sweep 6 []] = some x ∧
      x.allowed = [5] ∧ ∀ t, (inWindow 10 t x.allowed).length ≤ (1 : Int) := by
  refine exists_of_runMeets Limited.Later
    ⟨(by decide : (0 : Int) ≤ 5), le_refl (5 : Int), (by decide : (5 : Int) ≤ 6), trivial⟩ rfl
    (fun hrun => ⟨rfl, ?_⟩)
  exact (rateLimit_sliding (by decide) (by decide) (by decide) rfl rfl hrun).1

end Vole
