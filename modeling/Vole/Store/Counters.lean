import Vole.Go.Decimal
import Vole.Store.StoreLawful

/-!
# Counters

`IncrBy`, `DecrBy` and `HIncrBy` add 64-bit integers, which wrap around. `DecrBy` negates its
argument first; the least integer is its own negative, but the two wrap-arounds cancel out, so
that only the sum counts.
-/

namespace Vole

open Go

inductive Counter where
  | incrBy
  | decrBy
  | hIncrBy (field : Bytes)

namespace Counter

def run (now : Time) (delta : Int) : Counter → Cell → Except Err Int × Cell
  | incrBy => Cell.incrBy now delta
  | decrBy => Cell.decrBy now delta
  | hIncrBy field => Cell.hIncrBy now field delta

def own : Counter → DataType
  | incrBy | decrBy => .string
  | hIncrBy _ => .hash

/-- The text under the key or the field. -/
def text (e : Entry) : Counter → Option Bytes
  | incrBy | decrBy => e.kv
  | hIncrBy field => (e.hashes.getD ∅).get field

/-- The stored integer, or `0`, if there is nothing that is not an integer. -/
def stored (now : Time) (e : Entry) (w : Counter) : Option Int :=
  if (e.purged now).conflicts w.own then none
  else
    match w.text (e.purged now) with
    | none => some 0
    | some text => parseInt text

/-- The sum, or the difference. -/
def total (n delta : Int) : Counter → Int
  | decrBy => n - delta
  | _ => n + delta

/-- The exact sum is returned and stored, or there is an error and nothing has changed. -/
def Exact (now : Time) (key : Bytes) (delta : Int) (s : Store) (w : Counter) : Prop :=
  (∃ n, w.stored now (s.entries key) = some n ∧
    (s.onKey key (w.run now delta)).1 = .ok (w.total n delta) ∧
    w.text ((s.onKey key (w.run now delta)).2.entries key) = some (formatInt (w.total n delta))) ∨
  ∃ err, s.onKey key (w.run now delta) = (.error err, s)

end Counter

theorem wrap64_add_neg (n delta : Int) : wrap64 (n + wrap64 (-delta)) = wrap64 (n - delta) := by
  unfold wrap64
  rw [Int.add_bmod_bmod, ← Int.sub_eq_add_neg]

theorem Counter.run_checked {now : Time} {c : Cell} (w : Counter) (delta : Int) :
    Checked True false now c (w.run now delta c) := by
  cases w with
  | incrBy => exact Cell.incrBy_checked delta
  | decrBy => exact Cell.incrBy_checked _
  | hIncrBy field => exact Cell.hIncrBy_checked field delta

/-- Without an integer there is an error; else the wrapped sum is returned and stored. -/
def Counter.Wraps (now : Time) (w : Counter) (c : Cell) (total : Int → Int)
    (r : Except Err Int × Cell) : Prop :=
  (w.stored now c.toEntry = none ∧ ∃ err, r.1 = .error err) ∨
    ∃ n, w.stored now c.toEntry = some n ∧ r.1 = .ok (wrap64 (total n)) ∧
      w.text r.2.toEntry = some (formatInt (wrap64 (total n)))

section
variable (now : Time) (delta : Int) (c : Cell)

theorem wraps_incrBy {w : Counter} (hw : w = .incrBy ∨ w = .decrBy) :
    w.Wraps now c (· + delta) (c.incrBy now delta) := by
  rcases hw with rfl | rfl
  all_goals
    unfold Counter.Wraps Counter.stored Counter.own Counter.text Cell.incrBy
    rw [← Cell.purge_toEntry]
    dsimp only
    split
    · exact .inl ⟨rfl, _, rfl⟩
    cases (c.purge now).kv with
    | none => exact .inr ⟨0, rfl, rfl, rfl⟩
    | some data =>
      dsimp only
      cases parseInt data with
      | none => exact .inl ⟨rfl, _, rfl⟩
      | some n => exact .inr ⟨n, rfl, rfl, rfl⟩

theorem wraps_hIncrBy (field : Bytes) :
    (Counter.hIncrBy field).Wraps now c (· + delta) (c.hIncrBy now field delta) := by
  unfold Counter.Wraps Counter.stored Counter.own Counter.text Cell.hIncrBy
  rw [← Cell.purge_toEntry]
  dsimp only
  split
  · exact .inl ⟨rfl, _, rfl⟩
  cases ((c.purge now).hashes.getD ∅).get field with
  | none => exact .inr ⟨0, rfl, rfl, Finmap.lookup_insert _⟩
  | some v =>
    dsimp only
    cases parseInt v with
    | none => exact .inl ⟨rfl, _, rfl⟩
    | some n => exact .inr ⟨n, rfl, rfl, Finmap.lookup_insert _⟩

theorem Counter.wraps (w : Counter) : w.Wraps now c (w.total · delta) (w.run now delta c) := by
  cases w with
  | incrBy => exact wraps_incrBy now delta c (.inl rfl)
  | decrBy =>
    have hdecr := wraps_incrBy now (wrap64 (-delta)) c (.inr rfl)
    unfold Wraps at hdecr
    simp only [wrap64_add_neg] at hdecr
    exact hdecr
  | hIncrBy field => exact wraps_hIncrBy now delta c field

end

/-- **Counters are exact where the sum is a 64-bit integer**, and nowhere else. -/
theorem counter_exact_iff (w : Counter) (s : Store) (now : Time) (key : Bytes) (delta : Int) :
    w.Exact now key delta s ↔
      ∀ n, w.stored now (s.entries key) = some n → Int64Range (w.total n delta) := by
  rcases w.wraps now delta (s.cell key) with ⟨hnone, err, herr⟩ | ⟨n, hn, hres, htext⟩
  · have hnone : w.stored now (s.entries key) = none := hnone
    refine ⟨fun _ n hn => (nomatch hnone.symm.trans hn), fun _ => .inr ⟨err, ?_⟩⟩
    have hcell : (w.run now delta (s.cell key)).2 = s.cell key :=
      (w.run_checked delta).refused_same herr
    show ((w.run now delta (s.cell key)).1, s.put key (w.run now delta (s.cell key)).2) = _
    rw [herr, hcell, Store.put_cell]
  · have hn : w.stored now (s.entries key) = some n := hn
    constructor
    · rintro (⟨m, hm, hexact, -⟩ | ⟨err, herr⟩) k hk
      · cases hm.symm.trans hk
        cases hn.symm.trans hk
        have heq := Except.ok.inj (hres.symm.trans hexact)
        rw [← heq]
        exact wrap64_range _
      · have herr : (w.run now delta (s.cell key)).1 = .error err := congrArg Prod.fst herr
        cases hres.symm.trans herr
    · intro hrange
      rw [wrap64_of_range (hrange n hn)] at hres htext
      refine .inl ⟨n, hn, hres, ?_⟩
      show w.text ((s.put key (w.run now delta (s.cell key)).2).entries key) = _
      rw [Store.put_entries_self]
      exact htext

/-- The greatest integer plus one is the least one, and `0` minus the least one is the least one. -/
theorem counter_wraps :
    let greatest : Entry := { Entry.empty with kv := some (bytes "9223372036854775807") }
    (Counter.incrBy.stored 1 greatest = some 9223372036854775807 ∧
        (Counter.incrBy.run 1 1 ⟨greatest, 0⟩).1 = .ok (-9223372036854775808)) ∧
      Counter.decrBy.stored 1 Entry.empty = some 0 ∧
      (Counter.decrBy.run 1 (-9223372036854775808) ⟨Entry.empty, 0⟩).1
        = .ok (-9223372036854775808) := by
  decide +kernel

end Vole
