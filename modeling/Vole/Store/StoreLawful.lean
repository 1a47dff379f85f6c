import Vole.Store.Ops

/-!
# The operations on the store follow the rules

The rules of `Lawful`, lifted to the whole store: what an operation changes is announced by
a version above every version handed out before, and no key gets a second type.
-/

namespace Vole

open Go

variable {key : Bytes} {c : Cell}

@[simp] theorem Entry.purged_purged (e : Entry) (now : Time) :
    (e.purged now).purged now = e.purged now := by
  by_cases hexp : e.expired now = true
  · have hempty : e.purged now = Entry.empty := if_pos hexp
    rw [hempty]
    rfl
  · have hsame : e.purged now = e := if_neg hexp
    rw [hsame, hsame]

namespace Store

/-! ## Writing a cell back -/

section
variable (s : Store) (key : Bytes) (c : Cell)

@[simp] theorem put_entries_self : (s.put key c).entries key = c.toEntry := by
  simp [put]

theorem put_entries_ne {k : Bytes} (h : k ≠ key) : (s.put key c).entries k = s.entries k := by
  simp [put, Function.update_of_ne h]

theorem put_entries_apply (k : Bytes) :
    (s.put key c).entries k = if k = key then c.toEntry else s.entries k := by
  by_cases h : k = key
  · subst h
    simp
  · rw [put_entries_ne s key c h, if_neg h]

@[simp] theorem put_version : (s.put key c).version = s.version + c.bumps := rfl

theorem put_keyVersion_ne {k : Bytes} (h : k ≠ key) :
    (s.put key c).keyVersion k = s.keyVersion k := by
  unfold put
  split
  · exact Function.update_of_ne h _ _
  · rfl

theorem put_keyVersion_self : (s.put key c).keyVersion key = if 0 < c.bumps then s.version + c.bumps
      else s.keyVersion key := by
  unfold put
  split
  · exact Function.update_self _ _ _
  · rfl

@[simp] theorem cell_toEntry : (s.cell key).toEntry = s.entries key := rfl

@[simp] theorem cell_bumps : (s.cell key).bumps = 0 := rfl

theorem put_cell (s : Store) (key : Bytes) : s.put key (s.cell key) = s := by
  unfold put
  rw [cell_toEntry, cell_bumps, DFinsupp.update_self, if_neg (Nat.lt_irrefl 0)]
  rfl

theorem modify_entries (f : Cell → Cell) (k : Bytes) :
    (s.modify key f).entries k = if k = key then (f (s.cell key)).toEntry else s.entries k :=
  put_entries_apply s key _ k

/-- The same change to the cells of several keys, one after the other; what happens to an
entry does not depend on how often its key is named. -/
theorem foldl_modify_entries {f : Cell → Cell} {g : Entry → Entry}
    (hf : ∀ c, (f c).toEntry = g c.toEntry) (hg : ∀ e, g (g e) = g e) (keys : List Bytes)
    (s : Store) (k : Bytes) : (keys.foldl (fun s key => s.modify key f) s).entries k
      = if k ∈ keys then g (s.entries k) else s.entries k := by
  induction keys generalizing s with
  | nil => rfl
  | cons key rest ih =>
    rw [List.foldl_cons, ih, modify_entries, hf, cell_toEntry]
    by_cases hk : k = key
    · subst hk
      simp [hg]
    · simp [hk]

theorem purgeKey_entries (now : Time) (k : Bytes) : (s.purgeKey now key).entries k =
      if k = key then (s.entries key).purged now else s.entries k := by
  unfold purgeKey modify
  rw [put_entries_apply, Cell.purge_toEntry, cell_toEntry]

theorem purgeKey_of_fresh {s : Store} {key : Bytes} {now : Time}
    (h : (s.entries key).expired now = false) : s.purgeKey now key = s := by
  show s.put key ((s.cell key).purge now) = s
  rw [Cell.purge_of_fresh (c := s.cell key) h, put_cell]

theorem purgeKey_self {s : Store} {key : Bytes} {now : Time} :
    (s.purgeKey now key).purgeKey now key = s.purgeKey now key := by
  refine purgeKey_of_fresh ?_
  rw [purgeKey_entries, if_pos rfl]
  unfold Entry.purged
  split
  · rfl
  · exact eq_false_of_ne_true ‹_›

section
variable (s : Store) (src dst : Bytes) (now : Time)

theorem purgeBoth_entries (k : Bytes) : ((s.purgeKey now src).purgeKey now dst).entries k
      = if k = src ∨ k = dst then (s.entries k).purged now else s.entries k := by
  rw [purgeKey_entries, purgeKey_entries, purgeKey_entries]
  grind [Entry.purged_purged]

theorem purgeBoth_src : ((s.purgeKey now src).purgeKey now dst).entries src
    = (s.entries src).purged now := by
  rw [purgeBoth_entries, if_pos (.inl rfl)]

theorem purgeBoth_dst : ((s.purgeKey now src).purgeKey now dst).entries dst
    = (s.entries dst).purged now := by
  rw [purgeBoth_entries, if_pos (.inr rfl)]

end

end

/-! ## The rules -/

/-- No key holds an empty hash. -/
def NoEmptyHash (s : Store) : Prop := ∀ k, (s.entries k).hashes ≠ some ∅

/-- No key has a version above the counter. -/
def Bounded (s : Store) : Prop := ∀ k, s.keyVersion k ≤ s.version

/-- No key has two types. -/
def AllOneType (s : Store) : Prop := ∀ k, OneType (s.entries k).toData

/-- Versions are kept or fresh, and a key whose type maps change gets a fresh one, unless
it is one of `pending`: those still have to be touched. -/
structure Announced (pending : List Bytes) (s s' : Store) : Prop where
  mono : s.version ≤ s'.version
  fresh : ∀ k, s'.keyVersion k = s.keyVersion k ∨ s.version < s'.keyVersion k
  touched : ∀ k, k ∉ pending → (s'.entries k).toData ≠ (s.entries k).toData →
    s.version < s'.keyVersion k
  bounded : s.Bounded → s'.Bounded
  noEmptyHash : s.NoEmptyHash → s'.NoEmptyHash

/-- A piece of an operation that follows the rules of the store. -/
structure Orderly (s s' : Store) : Prop extends Announced [] s s' where
  oneType : s.AllOneType → s'.AllOneType

namespace Announced

variable {s s' s'' : Store} {pending : List Bytes}

theorem same (hentries : s'.entries = s.entries) (hversion : s'.version = s.version)
    (hkey : s'.keyVersion = s.keyVersion) : Announced pending s s' where
  mono := by rw [hversion]
  fresh k := by
    rw [hkey]
    exact .inl rfl
  touched k _ hne := by
    rw [hentries] at hne
    exact absurd rfl hne
  bounded hb := by
    intro k
    rw [hkey, hversion]
    exact hb k
  noEmptyHash hne := by
    intro k
    rw [hentries]
    exact hne k

theorem refl (s : Store) : Announced pending s s := same rfl rfl rfl

theorem lt_of_lt {k : Bytes} {n : Nat} (h : Announced pending s s') (hn : n ≤ s.version)
    (hk : n < s.keyVersion k) : n < s'.keyVersion k := by
  rcases h.fresh k with heq | hlt
  · rw [heq]
    exact hk
  · exact Nat.lt_of_le_of_lt hn hlt

theorem trans (h : Announced pending s s') (h' : Announced pending s' s'') :
    Announced pending s s'' where
  mono := Nat.le_trans h.mono h'.mono
  fresh k := by
    rcases h'.fresh k with heq | hlt
    · rw [heq]
      exact h.fresh k
    · exact .inr (Nat.lt_of_le_of_lt h.mono hlt)
  touched k hk hne := by
    by_cases hmid : (s'.entries k).toData = (s.entries k).toData
    · have hlt := h'.touched k hk (by rw [hmid]; exact hne)
      exact Nat.lt_of_le_of_lt h.mono hlt
    · exact h'.lt_of_lt h.mono (h.touched k hk hmid)
  bounded := h'.bounded ∘ h.bounded
  noEmptyHash := h'.noEmptyHash ∘ h.noEmptyHash

theorem weaken (h : Announced [] s s') : Announced pending s s' where
  mono := h.mono
  fresh := h.fresh
  touched k _ := h.touched k (by simp)
  bounded := h.bounded
  noEmptyHash := h.noEmptyHash

theorem close (h : Announced pending s s')
    (hkeys : ∀ k ∈ pending, s.version < s'.keyVersion k) : Announced [] s s' where
  mono := h.mono
  fresh := h.fresh
  touched k _ hne := by
    by_cases hk : k ∈ pending
    · exact hkeys k hk
    · exact h.touched k hk hne
  bounded := h.bounded
  noEmptyHash := h.noEmptyHash

theorem put (htouched : key ∉ pending → c.toData ≠ (s.entries key).toData → 0 < c.bumps)
    (hhash : s.NoEmptyHash → c.hashes ≠ some ∅) : Announced pending s (s.put key c) where
  mono := by
    rw [put_version]
    omega
  fresh k := by
    by_cases hk : k = key
    · subst hk
      rw [put_keyVersion_self]
      split
      · exact .inr (by omega)
      · exact .inl rfl
    · exact .inl (put_keyVersion_ne s key c hk)
  touched k hpend hne := by
    by_cases hk : k = key
    · subst hk
      rw [put_entries_self] at hne
      have hbump : 0 < c.bumps := htouched hpend hne
      rw [put_keyVersion_self, if_pos hbump]
      omega
    · rw [put_entries_ne s key c hk] at hne
      exact absurd rfl hne
  bounded hb := by
    intro k
    have hbk := hb k
    rw [put_version]
    by_cases hk : k = key
    · subst hk
      rw [put_keyVersion_self]
      split <;> omega
    · rw [put_keyVersion_ne s key c hk]
      omega
  noEmptyHash hne := by
    intro k
    rw [put_entries_apply]
    split
    · exact hhash hne
    · exact hne k

theorem put_signals (h : Signals (s.cell key) c) : Announced [] s (s.put key c) :=
  put (fun _ hne => h.touched hne) (fun hne => h.noEmptyHash (hne key))

theorem put_pending (hkey : key ∈ pending)
    (hhash : c.hashes = (s.entries key).hashes ∨ c.hashes = none) :
    Announced pending s (s.put key c) := by
  refine put (fun hout _ => absurd hkey hout) ?_
  intro hne
  rcases hhash with hh | hh
  · rw [hh]
    exact hne key
  · rw [hh]
    simp

theorem touchKeys (s : Store) (keys : List Bytes) : Announced pending s (s.touchKeys keys) where
  mono := Nat.le_succ _
  fresh k := by
    simp only [Store.touchKeys]
    split
    · exact .inr (Nat.lt_succ_self _)
    · exact .inl rfl
  touched k _ hne := absurd rfl hne
  bounded hb := by
    intro k
    have hbk := hb k
    simp only [Store.touchKeys]
    split <;> omega
  noEmptyHash := id

theorem close_touchKeys (h : Announced pending s s') : Announced [] s (s'.touchKeys pending) := by
  refine (h.trans (touchKeys s' pending)).close ?_
  intro k hk
  show s.version < if k ∈ pending then s'.version + 1 else s'.keyVersion k
  rw [if_pos hk]
  exact Nat.lt_succ_of_le h.mono

theorem foldl {α : Type} {f : Store → α → Store} (h : ∀ s a, Announced pending s (f s a))
    (as : List α) (s : Store) : Announced pending s (as.foldl f s) := by
  induction as generalizing s with
  | nil => exact refl s
  | cons a rest ih => exact (h s a).trans (ih _)

end Announced

namespace Orderly

variable {s s' s'' : Store}

theorem same (hentries : s'.entries = s.entries) (hversion : s'.version = s.version)
    (hkey : s'.keyVersion = s.keyVersion) : Orderly s s' where
  toAnnounced := .same hentries hversion hkey
  oneType hone := by
    intro k
    rw [hentries]
    exact hone k

theorem refl (s : Store) : Orderly s s := same rfl rfl rfl

theorem trans (h : Orderly s s') (h' : Orderly s' s'') : Orderly s s'' where
  toAnnounced := h.toAnnounced.trans h'.toAnnounced
  oneType := h'.oneType ∘ h.oneType

theorem put (h : Lawful (s.cell key) c) : Orderly s (s.put key c) where
  toAnnounced := .put_signals h.toSignals
  oneType hone := by
    intro k
    rw [put_entries_apply]
    split
    · exact h.oneType (hone key)
    · exact hone k

theorem modify {f : Cell → Cell} (key : Bytes) (h : ∀ c, Lawful c (f c)) :
    Orderly s (s.modify key f) :=
  put (h _)

theorem purgeKey (s : Store) (now : Time) (key : Bytes) : Orderly s (s.purgeKey now key) :=
  modify key (fun c => .purge c now)

theorem foldl {α : Type} {f : Store → α → Store} (h : ∀ s a, Orderly s (f s a)) (as : List α)
    (s : Store) : Orderly s (as.foldl f s) := by
  induction as generalizing s with
  | nil => exact refl s
  | cons a rest ih => exact (h s a).trans (ih _)

end Orderly

end Store

end Vole
