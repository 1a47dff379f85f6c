import Vole.Store.Snapshot

/-!
# What an operation may do to a key

Two rules run through the store. A key is held by at most one of the nine type maps, and
an operation that changes what they hold touches the key. `Lawful c c'` says that a piece
of an operation, from the cell `c` to the cell `c'`, follows both; it is proved once for
every operation on one key. The operations that break a rule are those whose lemma below
has a hypothesis, or only one half of the conclusion.
-/

namespace Vole

open Go Option

variable {c c' : Cell} {own : DataType}

/-! ## One type -/

/-- At most one type map holds the key. -/
def OneType (d : Data) : Prop := ∀ t u, d.has t = true → d.has u = true → t = u

theorem conflicts_eq_false {d : Data} :
    d.conflicts own = false ↔ ∀ t, t ≠ own → d.has t = false := by
  simp [Data.conflicts, Data.hasAny, DataType.mem_others]

/-- Two checks that leave no other type out. -/
theorem conflicts_of_hasAny {d : Data} {ts us : List DataType} (hts : d.hasAny ts = false)
    (hus : d.hasAny us = false) (hall : ∀ t ∈ own.others, t ∈ ts ++ us) :
    d.conflicts own = false := by
  rw [conflicts_eq_false]
  intro t ht
  rcases List.mem_append.mp (hall t (DataType.mem_others.mpr ht)) with hmem | hmem
  · exact eq_false_of_ne_true (List.any_eq_false.mp hts t hmem)
  · exact eq_false_of_ne_true (List.any_eq_false.mp hus t hmem)

theorem OneType.of_conflicts {d : Data} (h : d.conflicts own = false) : OneType d := by
  rw [conflicts_eq_false] at h
  have hown : ∀ t, d.has t = true → t = own := by
    intro t ht
    by_contra hne
    rw [h t hne] at ht
    cases ht
  intro t u ht hu
  rw [hown t ht, hown u hu]

@[simp] theorem has_empty (t : DataType) : Data.empty.has t = false := by cases t <;> rfl

theorem eq_empty_of_has {d : Data} (h : ∀ t, d.has t = false) : d = Data.empty := by
  have hnone : ∀ t, ¬ d.has t = true := fun t => by simp [h t]
  obtain ⟨⟩ := d
  simp only [Data.empty, Data.mk.injEq, ← not_isSome_iff_eq_none]
  exact ⟨hnone .string, hnone .hash, hnone .list, hnone .set, hnone .zset, hnone .stream,
    hnone .hll, hnone .json, hnone .timeseries⟩

theorem oneType_empty : OneType Data.empty := by
  intro t u ht
  simp at ht

/-- The type maps differ at most in that of `own`. -/
def SameBut (own : DataType) (d d' : Data) : Prop :=
  match own with
  | .string => d' = { d with kv := d'.kv }
  | .hash => d' = { d with hashes := d'.hashes }
  | .list => d' = { d with lists := d'.lists }
  | .set => d' = { d with sets := d'.sets }
  | .zset => d' = { d with zsets := d'.zsets }
  | .stream => d' = { d with streams := d'.streams }
  | .hll => d' = { d with hlls := d'.hlls }
  | .json => d' = { d with jsons := d'.jsons }
  | .timeseries => d' = { d with timeseries := d'.timeseries }

theorem SameBut.has_eq {own t : DataType} {d d' : Data} (h : SameBut own d d')
    (ht : t ≠ own) : d'.has t = d.has t := by
  cases own <;>
    · unfold SameBut at h
      dsimp only at h
      rw [h]
      cases t <;> first | rfl | exact absurd rfl ht

theorem SameBut.hashes_eq {d d' : Data} (h : SameBut own d d')
    (hown : own ≠ .hash) : d'.hashes = d.hashes := by
  cases own <;> first
    | exact absurd rfl hown
    | (unfold SameBut at h; dsimp only at h; rw [h])

theorem SameBut.free {d d' : Data} (h : SameBut own d d')
    (hfree : d.conflicts own = false) : d'.conflicts own = false := by
  rw [conflicts_eq_false] at hfree ⊢
  intro t ht
  rw [h.has_eq ht]
  exact hfree t ht

/-! ## The rules -/

/-- Touches are only ever added, a change of the type maps comes with one, and no empty
hash is left behind. -/
structure Signals (c c' : Cell) : Prop where
  mono : c.bumps ≤ c'.bumps
  touched : c'.toData ≠ c.toData → c.bumps < c'.bumps
  noEmptyHash : c.hashes ≠ some ∅ → c'.hashes ≠ some ∅

/-- A piece of an operation that follows the rules of the store. -/
structure Lawful (c c' : Cell) : Prop extends Signals c c' where
  oneType : OneType c.toData → OneType c'.toData

namespace Signals

theorem refl (c : Cell) : Signals c c := ⟨Nat.le_refl _, fun h => absurd rfl h, id⟩

theorem trans {c c' c'' : Cell} (h : Signals c c') (h' : Signals c' c'') : Signals c c'' where
  mono := Nat.le_trans h.mono h'.mono
  touched hne := by
    by_cases hmid : c'.toData = c.toData
    · have := h'.touched (by rw [hmid]; exact hne)
      have := h.mono
      omega
    · have := h.touched hmid
      have := h'.mono
      omega
  noEmptyHash := h'.noEmptyHash ∘ h.noEmptyHash

theorem of_bump (h : c.bumps < c'.bumps)
    (hhash : c'.hashes = c.hashes ∨ c'.hashes = none) : Signals c c' where
  mono := Nat.le_of_lt h
  touched _ := h
  noEmptyHash hne := by
    rcases hhash with hh | hh
    · rw [hh]; exact hne
    · rw [hh]; simp

theorem of_same (hdata : c'.toData = c.toData) (h : c.bumps ≤ c'.bumps) : Signals c c' where
  mono := h
  touched hne := absurd hdata hne
  noEmptyHash := by
    have hh : c'.hashes = c.hashes := congrArg Data.hashes hdata
    rw [hh]
    exact id

end Signals

namespace Lawful

theorem refl (c : Cell) : Lawful c c := ⟨.refl c, id⟩

theorem trans {c c' c'' : Cell} (h : Lawful c c') (h' : Lawful c' c'') : Lawful c c'' where
  toSignals := h.toSignals.trans h'.toSignals
  oneType := h'.oneType ∘ h.oneType

theorem same (hdata : c'.toData = c.toData) (h : c.bumps ≤ c'.bumps) : Lawful c c' where
  toSignals := .of_same hdata h
  oneType := by rw [hdata]; exact id

/-- Afterwards nothing is left but a value of type `own`, and the key is touched. -/
theorem only (own : DataType) (hown : own ≠ .hash)
    (hfree : c'.conflicts own = false) (hbump : c.bumps < c'.bumps) : Lawful c c' where
  toSignals := by
    have habsent : c'.has .hash = false := conflicts_eq_false.mp hfree .hash hown.symm
    exact .of_bump hbump (.inr (isNone_iff_eq_none.mp (by simpa [Data.has] using habsent)))
  oneType _ := .of_conflicts hfree

/-- Nothing is in the way of a value of type `own`, and only that type is written. -/
theorem write (own : DataType) (hconf : ¬ c.conflicts own = true)
    (hdata : SameBut own c.toData c'.toData) (hbumps : c'.bumps = c.bumps) (hown : own ≠ .hash) :
    Lawful c c'.touch :=
  only own hown (hdata.free (eq_false_of_ne_true hconf)) (Nat.lt_succ_of_le hbumps.ge)

theorem writeHash (hconf : ¬ c.conflicts .hash = true)
    (hdata : SameBut .hash c.toData c'.toData) (hbump : c.bumps < c'.bumps)
    (hhash : c'.hashes ≠ some ∅) : Lawful c c' where
  toSignals := ⟨Nat.le_of_lt hbump, fun _ => hbump, fun _ => hhash⟩
  oneType _ := .of_conflicts (hdata.free (eq_false_of_ne_true hconf))

theorem erase (hframe : ∀ t, c'.has t = true → c.has t = true)
    (hhash : c'.hashes = c.hashes ∨ c'.hashes = none) (hbump : c.bumps < c'.bumps) : Lawful c c' where
  toSignals := .of_bump hbump hhash
  oneType h t u ht hu := h t u (hframe t ht) (hframe u hu)

theorem delete (c : Cell) : Lawful c c.delete := by
  refine erase ?_ (.inr rfl) (Nat.lt_succ_self _)
  intro t ht
  have : c.delete.has t = false := has_empty t
  rw [this] at ht
  cases ht

theorem purge (c : Cell) (now : Time) : Lawful c (c.purge now) := by
  unfold Cell.purge
  split
  · exact delete c
  · exact refl c

theorem touch (c : Cell) : Lawful c c.touch := same rfl (Nat.le_succ _)

end Lawful

/-- An operation that follows the rules, and keeps to one type if what it overlooks is not
there. -/
structure LawfulIf (safe : Prop) (c c' : Cell) : Prop extends Signals c c' where
  oneType : safe → OneType c.toData → OneType c'.toData

namespace LawfulIf

variable {safe : Prop} {c c' c'' : Cell}

theorem lawful (h : LawfulIf safe c c') (hsafe : safe) : Lawful c c' :=
  ⟨h.toSignals, h.oneType hsafe⟩

theorem of (h : Lawful c c') : LawfulIf safe c c' := ⟨h.toSignals, fun _ => h.oneType⟩

theorem trans (h : Lawful c c') (h' : LawfulIf safe c' c'') : LawfulIf safe c c'' :=
  ⟨h.toSignals.trans h'.toSignals, fun hsafe => h'.oneType hsafe ∘ h.oneType⟩

/-- The key is touched, and on the condition it holds nothing but a value of type `own`. -/
theorem only (own : DataType) (hfree : safe → c'.conflicts own = false)
    (hhash : c'.hashes = c.hashes ∨ c'.hashes = none) (hbump : c.bumps < c'.bumps) :
    LawfulIf safe c c' :=
  ⟨.of_bump hbump hhash, fun hsafe _ => .of_conflicts (hfree hsafe)⟩

/-- On the condition, nothing is in the way of the value of type `own` that is written. -/
theorem write (own : DataType) (hfree : safe → c.conflicts own = false)
    (hdata : SameBut own c.toData c'.toData) (hbumps : c'.bumps = c.bumps) (hown : own ≠ .hash) :
    LawfulIf safe c c'.touch :=
  only own (fun hsafe => hdata.free (hfree hsafe)) (.inl (hdata.hashes_eq hown))
    (Nat.lt_succ_of_le hbumps.ge)

end LawfulIf

/-! ## Operations that can fail -/

theorem Cell.purge_of_fresh {c : Cell} {now : Time} (h : c.expired now = false) :
    c.purge now = c := by
  unfold Cell.purge
  rw [if_neg (by simp [h])]

theorem Cell.purge_of_hasAny {c : Cell} {now : Time} {ts : List DataType}
    (h : (c.purge now).hasAny ts = true) : c.purge now = c := by
  unfold Cell.purge at h ⊢
  split at h
  · have hnone : c.delete.hasAny ts = false :=
      List.any_eq_false.mpr (fun t _ => Bool.eq_false_iff.mp (has_empty t))
    rw [hnone] at h
    cases h
  · rename_i hexp
    rw [if_neg hexp]

/-- An operation that fails leaves the key as it was, or at most purged if `purges` says so. -/
structure Checked {α : Type} (safe : Prop) (purges : Bool) (now : Time) (c : Cell)
    (r : Except Err α × Cell) : Prop extends LawfulIf safe c r.2 where
  refused : ∀ err, r.1 = .error err → r.2 = c ∨ purges = true ∧ r.2 = c.purge now

namespace Checked

variable {α : Type} {safe : Prop} {purges : Bool} {now : Time} {c c' : Cell}

theorem same (r : Except Err α) : Checked safe purges now c (r, c) :=
  ⟨.of (.refl c), fun _ _ => .inl rfl⟩

theorem okIf (a : α) (h : LawfulIf safe c c') : Checked safe purges now c (.ok a, c') :=
  ⟨h, nofun⟩

theorem ok (a : α) (h : Lawful c c') : Checked safe purges now c (.ok a, c') := okIf a (.of h)

theorem purged (a : α) : Checked safe purges now c (.ok a, c.purge now) := ok a (.purge c now)

theorem conflict {ts : List DataType} (err : Err) (h : (c.purge now).hasAny ts = true) :
    Checked safe purges now c ((.error err, c.purge now) : Except Err α × Cell) := by
  rw [Cell.purge_of_hasAny h]
  exact same _

theorem gone (err : Err) :
    Checked safe true now c ((.error err, c.purge now) : Except Err α × Cell) :=
  ⟨.of (.purge c now), fun _ _ => .inr ⟨rfl, rfl⟩⟩

theorem write (own : DataType) (a : α) (hconf : ¬ (c.purge now).conflicts own = true)
    (hdata : SameBut own (c.purge now).toData c'.toData)
    (hbumps : c'.bumps = (c.purge now).bumps) (hown : own ≠ .hash) :
    Checked safe purges now c (.ok a, c'.touch) :=
  ok a ((Lawful.purge c now).trans (.write own hconf hdata hbumps hown))

end Checked

end Vole
