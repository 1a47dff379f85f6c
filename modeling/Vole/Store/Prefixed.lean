import Vole.Store.Mirror

/-!
# The keys with a common prefix

A pattern that starts with plain characters matches a key if the key starts with them and the
rest of the pattern matches the rest of the key. So the listing of the keys with a prefix,
taken off again, is the listing of the store that holds those keys without it.
-/

namespace Vole

open Go List

/-! ## Patterns -/

/-- No character has a meaning in a pattern. -/
def Literal (p : Bytes) : Prop := ∀ c ∈ p, c ≠ 42 ∧ c ≠ 63 ∧ c ≠ 91 ∧ c ≠ 92

instance (p : Bytes) : Decidable (Literal p) := inferInstanceAs (Decidable (∀ c ∈ p, _))

theorem matchGlobLoop_literal {c : UInt8} (hc : c ≠ 42 ∧ c ≠ 63 ∧ c ≠ 91 ∧ c ≠ 92) (fuel : Nat)
    (pattern : Bytes) (d : UInt8) (str : Bytes) :
    matchGlobLoop (fuel + 1) (c :: pattern) (d :: str)
      = if c ≠ d then false else matchGlobLoop fuel pattern str := by
  rw [matchGlobLoop]
  · exact fun h => hc.1 h
  · exact fun h => hc.2.1 h
  · exact fun h => hc.2.2.1 h
  · exact fun h => hc.2.2.2 h

theorem matchGlobLoop_append {p : Bytes} (hp : Literal p) (fuel : Nat) (pattern str : Bytes) :
    matchGlobLoop (p.length + fuel) (p ++ pattern) (p ++ str) = matchGlobLoop fuel pattern str := by
  induction p with
  | nil => simp
  | cons c rest ih =>
    have hlen : (c :: rest).length + fuel = (rest.length + fuel) + 1 := by
      rw [length_cons]
      omega
    rw [hlen, cons_append, cons_append,
      matchGlobLoop_literal (hp c (.head _)), if_neg (not_not.mpr rfl)]
    exact ih (fun d hd => hp d (.tail _ hd))

theorem matchGlob_append {p : Bytes} (hp : Literal p) (pattern str : Bytes) :
    matchGlob (p ++ pattern) (p ++ str) = matchGlob pattern str := by
  unfold matchGlob
  rw [length_append, Nat.add_assoc]
  exact matchGlobLoop_append hp _ pattern str

theorem prefix_of_matchGlobLoop {p : Bytes} (hp : Literal p) {fuel : Nat} {pattern str : Bytes}
    (h : matchGlobLoop fuel (p ++ pattern) str = true) : p <+: str := by
  induction p generalizing fuel str with
  | nil => exact nil_prefix
  | cons c rest ih =>
    match fuel, str with
    | 0, _ => cases h
    | fuel + 1, [] =>
      have hnil : matchGlobLoop (fuel + 1) (c :: (rest ++ pattern)) [] = false := by
        rw [matchGlobLoop]
        exact fun hstar => (hp c (.head _)).1 hstar
      rw [cons_append, hnil] at h
      cases h
    | fuel + 1, d :: str =>
      rw [cons_append, matchGlobLoop_literal (hp c (.head _))] at h
      split at h
      · cases h
      · rename_i hcd
        obtain rfl := not_not.mp hcd
        exact cons_prefix_cons.mpr
          ⟨rfl, ih (fun d hd => hp d (.tail _ hd)) h⟩

theorem matchGlob_star (str : Bytes) : matchGlob (bytes "*") str = true := rfl

/-! ## Listings -/

theorem append_le_append {p a b : Bytes} : p ++ a ≤ p ++ b ↔ a ≤ b := by
  induction p with
  | nil => rfl
  | cons c rest ih =>
    rw [cons_append, cons_append, ← not_lt, cons_lt_cons_iff]
    simpa using ih

namespace Store

variable {p : Bytes} {base : Bytes → Entry} {seq : Nat → Nat → Prop} {s t : Store} {now : Time}

variable (h : Mirrors (p ++ ·) base seq s t)
include h

theorem Mirrors.sort_held :
    (s.held.sort (· ≤ ·)).filter (p.isPrefixOf ·) = (t.held.sort (· ≤ ·)).map (p ++ ·) := by
  have hmem : ∀ k, p ++ k ∈ s.held ↔ k ∈ t.held := by
    intro k
    have hinside : s.entries (p ++ k) = t.entries k := h.inside k
    simp [held, hinside]
  have hnodup : ((s.held.sort (· ≤ ·)).filter (p.isPrefixOf ·)).Nodup :=
    (Finset.sort_nodup ..).filter _
  have hnodup' : ((t.held.sort (· ≤ ·)).map (p ++ ·)).Nodup :=
    (Finset.sort_nodup ..).map (append_right_injective p)
  refine List.Perm.eq_of_pairwise' ((Finset.pairwise_sort ..).filter _) ?_
    ((perm_ext_iff_of_nodup hnodup hnodup').mpr (fun k => ?_))
  · rw [pairwise_map]
    exact (Finset.pairwise_sort t.held (· ≤ ·)).imp append_le_append.mpr
  · simp only [mem_filter, Finset.mem_sort, mem_map, isPrefixOf_iff_prefix]
    constructor
    · rintro ⟨hk, j, rfl⟩
      exact ⟨j, (hmem j).mp hk, rfl⟩
    · rintro ⟨j, hj, rfl⟩
      exact ⟨(hmem j).mpr hj, prefix_append p j⟩

theorem Mirrors.allKeys :
    (s.allKeys now).filter (p.isPrefixOf ·) = (t.allKeys now).map (p ++ ·) := by
  let listed (s : Store) (key : Bytes) : List Bytes :=
    if (s.entries key).expired now || !(s.entries key).visible now then []
    else replicate (DataType.all.countP (s.entries key).has) key
  have hself : ∀ key, ∀ a ∈ listed s key, a = key := by
    intro key a ha
    dsimp only [listed] at ha
    split at ha
    · cases ha
    · exact eq_of_mem_replicate ha
  have hlisted : ∀ k, listed s (p ++ k) = (listed t k).map (p ++ ·) := by
    intro k
    have hinside : s.entries (p ++ k) = t.entries k := h.inside k
    dsimp only [listed]
    rw [hinside]
    split
    · rfl
    · rw [map_replicate]
  have hfilter : ∀ keys : List Bytes, (keys.flatMap (listed s)).filter (p.isPrefixOf ·)
      = (keys.filter (p.isPrefixOf ·)).flatMap (listed s) := by
    intro keys
    induction keys with
    | nil => rfl
    | cons key rest ih =>
      rw [flatMap_cons, filter_append, ih]
      cases hkey : p.isPrefixOf key with
      | true =>
        rw [filter_cons_of_pos hkey, flatMap_cons,
          filter_eq_self.mpr (fun a ha => by rw [hself key a ha]; exact hkey)]
      | false =>
        rw [filter_cons_of_neg (by simp [hkey]),
          filter_eq_nil_iff.mpr (fun a ha => by rw [hself key a ha]; simp [hkey]),
          nil_append]
  show ((s.held.sort (· ≤ ·)).flatMap (listed s)).filter _
    = ((t.held.sort (· ≤ ·)).flatMap (listed t)).map _
  rw [hfilter, h.sort_held, flatMap_map, map_flatMap]
  exact congrArg (fun g => flatMap g (t.held.sort (· ≤ ·))) (funext hlisted)

/-- **The listing of the keys with a prefix** is that of the store without it. -/
theorem Mirrors.keys (hp : Literal p) (hne : p ≠ [])
    {pattern : Bytes} (hpattern : pattern ≠ []) :
    s.keys now (p ++ pattern) = (t.keys now pattern).map (p ++ ·) := by
  have hplain : ¬ (p ++ pattern = [] ∨ p ++ pattern = bytes "*") := by
    rintro (hnil | hstar)
    · exact hne (append_eq_nil_iff.mp hnil).1
    · obtain ⟨c, rest, rfl⟩ := exists_cons_of_ne_nil hne
      exact (hp c (.head _)).1 (cons.inj hstar).1
  have hkeys : t.keys now pattern = (t.allKeys now).filter (matchGlob pattern) := by
    unfold Store.keys
    split
    · rename_i hall
      rw [hall.resolve_left hpattern]
      exact (filter_eq_self.mpr (fun k _ => matchGlob_star k)).symm
    · rfl
  have hfilter : (s.allKeys now).filter (matchGlob (p ++ pattern))
      = ((s.allKeys now).filter (p.isPrefixOf ·)).filter (matchGlob (p ++ pattern)) := by
    rw [filter_filter]
    refine filter_congr (fun k _ => ?_)
    cases hmatch : matchGlob (p ++ pattern) k with
    | false => rfl
    | true => simpa using prefix_of_matchGlobLoop hp hmatch
  have hmatch : matchGlob (p ++ pattern) ∘ (p ++ ·) = matchGlob pattern :=
    funext (matchGlob_append hp pattern)
  calc s.keys now (p ++ pattern)
      = (s.allKeys now).filter (matchGlob (p ++ pattern)) := if_neg hplain
    _ = ((t.allKeys now).map (p ++ ·)).filter (matchGlob (p ++ pattern)) := by
        rw [hfilter, h.allKeys]
    _ = ((t.allKeys now).filter (matchGlob pattern)).map (p ++ ·) := by
        rw [filter_map, hmatch]
    _ = (t.keys now pattern).map (p ++ ·) := by rw [hkeys]

end Store

end Vole
