import Vole.Go.Runtime
import Mathlib.Data.List.TakeWhile

/-!
# Decimal numbers in text

`fmt.Sscan` into an integer, and how it, `strconv.ParseInt` and `strconv.FormatInt` agree.
`Sscan` reads a leading zero as the mark of an octal, binary or hexadecimal number, which
`ParseInt` with base ten does not.
-/

namespace Vole.Go

open List Option

variable {s : Bytes} {n : Int} {c : UInt8} {digits : Bytes}

/-! ## `fmt.Sscan` -/

def isSpace (c : UInt8) : Bool := c = 32 ∨ (9 ≤ c ∧ c ≤ 13)

/-- A digit of the base, or the underscore that `Sscan` lets stand between digits. -/
def scanned (base : Nat) (c : UInt8) : Bool :=
  c = 95 || (digitVal c).any (· < base)

/-- Underscores stand only after a digit and before another one; `saw` tells whether the
text follows a digit. -/
def underscoreOK : Bool → Bytes → Bool
  | saw, [] => saw
  | saw, c :: rest => if c = 95 then saw && underscoreOK false rest else underscoreOK true rest

/-- The number that a run of digits stands for. -/
def digitsValue (base : Nat) (digits : Bytes) : Nat :=
  digits.foldl (fun n c => n * base + (digitVal c).getD 0) 0

/-- The base and the digits after a sign: a leading zero announces another base than ten. -/
def scanBase : Bytes → Nat × Bool × Bytes
  | 48 :: c :: rest =>
    if c = 98 ∨ c = 66 then (2, true, rest)
    else if c = 111 ∨ c = 79 then (8, true, rest)
    else if c = 120 ∨ c = 88 then (16, true, rest)
    else (8, true, c :: rest)
  | s => (10, false, s)

/-- What `fmt.Sscan(s, &n)` leaves in a fresh `n` of type `int64`: `0` when it fails. What
follows the number is not looked at. -/
def sscanInt (s : Bytes) : Int :=
  let s := s.dropWhile isSpace
  let neg : Bool := s.head? = some 45
  let s := if neg ∨ s.head? = some 43 then s.tail else s
  let (base, zero, body) := scanBase s
  let token := body.takeWhile (scanned base)
  let n := digitsValue base (token.filter (· ≠ 95))
  if !underscoreOK zero token then 0
  else if neg then (if n ≤ 2 ^ 63 then -(n : Int) else 0)
  else if n < 2 ^ 63 then n else 0

example : sscanInt (bytes "10") = 10 := by decide
example : sscanInt (bytes "010") = 8 := by decide

/-! ## Decimal digits -/

def IsDecimal (s : Bytes) : Prop := ∀ c ∈ s, 48 ≤ c ∧ c ≤ 57

section
variable (h : 48 ≤ c ∧ c ≤ 57)
include h

theorem digitVal_decimal : digitVal c = some (c.toNat - 48) := by
  simp [digitVal, h]

theorem toNat_decimal : 48 ≤ c.toNat ∧ c.toNat ≤ 57 := by
  have h1 := UInt8.le_iff_toNat_le.mp h.1
  have h2 := UInt8.le_iff_toNat_le.mp h.2
  exact ⟨by simpa using h1, by simpa using h2⟩

theorem scanned_decimal : scanned 10 c = true := by
  have hc := toNat_decimal h
  have hlt : c.toNat - 48 < 10 := by omega
  simp [scanned, digitVal_decimal h, hlt]

theorem ne_underscore : c ≠ 95 := by
  rintro rfl
  exact absurd h.2 (by decide)

end

theorem takeWhile_decimal (h : IsDecimal s) : s.takeWhile (scanned 10) = s :=
  takeWhile_eq_self_iff.mpr (fun c hc => scanned_decimal (h c hc))

theorem filter_decimal (h : IsDecimal s) : s.filter (· ≠ 95) = s :=
  filter_eq_self.mpr (fun c hc => by simpa using ne_underscore (h c hc))

theorem underscoreOK_decimal (h : IsDecimal s) (saw : Bool) (hs : s ≠ []) :
    underscoreOK saw s = true := by
  induction s generalizing saw with
  | nil => exact absurd rfl hs
  | cons c rest ih =>
    have hc := ne_underscore (h c (by simp))
    have hrest : IsDecimal rest := fun d hd => h d (by simp [hd])
    cases rest with
    | nil => simp [underscoreOK, hc]
    | cons d more =>
      rw [underscoreOK, if_neg hc]
      exact ih hrest true (by simp)

theorem foldlM_parseDigit (h : IsDecimal s) (a : Nat) : s.foldlM (parseDigit 10) a
      = some (s.foldl (fun n c => n * 10 + (digitVal c).getD 0) a) := by
  induction s generalizing a with
  | nil => rfl
  | cons c rest ih =>
    have hc := h c (by simp)
    have hlt : c.toNat - 48 < 10 := by have := toNat_decimal hc; omega
    have hdigit : parseDigit 10 a c = some (a * 10 + (digitVal c).getD 0) := by
      simp [parseDigit, digitVal_decimal hc, hlt]
    rw [foldlM_cons, hdigit]
    exact ih (fun d hd => h d (by simp [hd])) _

theorem isDecimal_of_foldlM {a n : Nat} (h : s.foldlM (parseDigit 10) a = some n) : IsDecimal s := by
  induction s generalizing a with
  | nil => exact fun c hc => absurd hc (by simp)
  | cons c rest ih =>
    rw [foldlM_cons, bind_eq_bind, bind_eq_some_iff] at h
    obtain ⟨m, hm, hrest⟩ := h
    have hc : 48 ≤ c ∧ c ≤ 57 := by
      by_contra hnot
      obtain ⟨d, hd, hval⟩ := bind_eq_some_iff.mp hm
      rw [digitVal, if_neg hnot] at hd
      -- a letter counts ten or more, so it is not a digit of base ten
      dsimp only at hd
      split at hd
      · cases hd
        rw [if_neg (by omega)] at hval
        cases hval
      · cases hd
    intro d hd
    rcases mem_cons.mp hd with rfl | hd
    · exact hc
    · exact ih hrest d hd

theorem parseUint_eq_some {n : Nat} :
    parseUint s 10 64 = some n ↔ s ≠ [] ∧ IsDecimal s ∧ digitsValue 10 s = n ∧ n < 2 ^ 64 := by
  constructor
  · intro h
    unfold parseUint at h
    split at h
    · cases h
    · rename_i hs
      obtain ⟨m, hm, hbound⟩ := bind_eq_some_iff.mp h
      have hdec := isDecimal_of_foldlM hm
      rw [foldlM_parseDigit hdec] at hm
      split at hbound
      · rename_i hlt
        cases hbound
        exact ⟨hs, hdec, some.inj hm, hlt⟩
      · cases hbound
  · rintro ⟨hs, hdec, hval, hlt⟩
    have hfold : s.foldl (fun n c => n * 10 + (digitVal c).getD 0) 0 = n := hval
    rw [parseUint, if_neg hs, foldlM_parseDigit hdec, hfold]
    exact if_pos hlt

/-- A number under the sign of a text, or `0` if it is out of range. -/
def signedValue (s : Bytes) (n : Nat) : Int :=
  if s.head? = some 45 then (if n ≤ 2 ^ 63 then -(n : Int) else 0)
  else if n < 2 ^ 63 then n else 0

theorem sscanInt_signed (hdec : IsDecimal digits) (hs : digits ≠ []) (s : Bytes)
    (hsign : s = digits ∨ s = 43 :: digits ∨ s = 45 :: digits) {base : Nat} {zero : Bool}
    {body token : Bytes} (hbase : scanBase digits = (base, zero, body))
    (htoken : body.takeWhile (scanned base) = token) (hclean : IsDecimal token)
    (hok : zero = true ∨ token ≠ []) : sscanInt s = signedValue s (digitsValue base token) := by
  have hfirst : ∃ c rest, digits = c :: rest ∧ 48 ≤ c ∧ c ≤ 57 := by
    cases digits with
    | nil => exact absurd rfl hs
    | cons c rest => exact ⟨c, rest, rfl, hdec c (by simp)⟩
  have hparts : s.dropWhile isSpace = s ∧
      (if (decide (s.head? = some 45)) = true ∨ s.head? = some 43 then s.tail else s)
        = digits := by
    obtain ⟨c, rest, rfl, hc⟩ := hfirst
    rcases hsign with rfl | rfl | rfl
    · have hspace : isSpace c = false := by
        have := toNat_decimal hc
        have h32 : c ≠ 32 := by rintro rfl; exact absurd hc.1 (by decide)
        have h13 : ¬ c ≤ 13 := fun h => absurd (hc.1.trans h) (by decide)
        simp [isSpace, h32, h13]
      have h45 : c ≠ 45 := by rintro rfl; exact absurd hc.1 (by decide)
      have h43 : c ≠ 43 := by rintro rfl; exact absurd hc.1 (by decide)
      simp [hspace, h45, h43]
    · have hplus : isSpace 43 = false := by decide
      simp [hplus]
    · have hminus : isSpace 45 = false := by decide
      simp [hminus]
  have hunderscore : underscoreOK zero token = true := by
    by_cases hnil : token = []
    · rw [hnil, hok.resolve_right (fun h => h hnil)]
      rfl
    · exact underscoreOK_decimal hclean zero hnil
  unfold sscanInt signedValue
  simp only [hparts.1, hparts.2, hbase, htoken, filter_decimal hclean, hunderscore]
  simp

theorem sscanInt_digits (hdec : IsDecimal digits) (hs : digits ≠ [])
    (hzero : digits.head? = some 48 → digits = [48]) (s : Bytes)
    (hsign : s = digits ∨ s = 43 :: digits ∨ s = 45 :: digits) :
    sscanInt s = signedValue s (digitsValue 10 digits) := by
  have hbase : scanBase digits = (10, false, digits) := by
    match digits, hzero with
    | [], _ => rfl
    | [c], _ => unfold scanBase; split <;> simp_all
    | c :: d :: rest, hzero =>
      have hc : c ≠ 48 := by
        rintro rfl
        exact absurd (hzero rfl) (by simp)
      unfold scanBase
      split
      · rename_i heq
        exact absurd (cons.inj heq).1 hc
      · rfl
  exact sscanInt_signed hdec hs s hsign hbase (takeWhile_decimal hdec) hdec (.inr hs)

/-! ## A leading zero -/

theorem digit_of_octal (h : 48 ≤ c ∧ c ≤ 57) : scanned 8 c = true ↔ (digitVal c).getD 0 < 8 := by
  simp [scanned, digitVal_decimal h, ne_underscore h]

theorem le_foldl_digits (l : Bytes) (b : Nat) :
    b ≤ l.foldl (fun n c => n * 10 + (digitVal c).getD 0) b := by
  induction l generalizing b with
  | nil => exact Nat.le_refl b
  | cons c rest ih => exact Nat.le_trans (show b ≤ b * 10 + (digitVal c).getD 0 by omega) (ih _)

/-- Read in base eight, and up to the first digit that is none of that base, a number other than
zero falls behind with every further digit. -/
theorem octal_lt {l : Bytes} (hdec : IsDecimal l) {a b : Nat} (hab : a ≤ b) (hb : 0 < b)
    (hlt : l ≠ [] ∨ a < b) :
    (l.takeWhile (scanned 8)).foldl (fun n c => n * 8 + (digitVal c).getD 0) a
      < l.foldl (fun n c => n * 10 + (digitVal c).getD 0) b := by
  induction l generalizing a b with
  | nil => exact hlt.resolve_left (fun h => h rfl)
  | cons c rest ih =>
    by_cases hc : scanned 8 c = true
    · rw [takeWhile_cons_of_pos hc, foldl_cons, foldl_cons]
      exact ih (fun d hd => hdec d (.tail _ hd)) (by omega) (by omega)
        (.inr (by omega))
    · rw [takeWhile_cons_of_neg hc, foldl_nil, foldl_cons]
      have := le_foldl_digits rest (b * 10 + (digitVal c).getD 0)
      omega

theorem octal_eq_iff {l : Bytes} (hdec : IsDecimal l) :
    digitsValue 8 (l.takeWhile (scanned 8)) = digitsValue 10 l ↔ digitsValue 10 l < 8 := by
  induction l with
  | nil => exact iff_of_true rfl (by decide)
  | cons c rest ih =>
    have hrest : IsDecimal rest := fun d hd => hdec d (.tail _ hd)
    have hoctal := digit_of_octal (hdec c (.head _))
    have hten : digitsValue 10 (c :: rest)
        = rest.foldl (fun n c => n * 10 + (digitVal c).getD 0) ((digitVal c).getD 0) := by
      simp [digitsValue]
    have hge := le_foldl_digits rest ((digitVal c).getD 0)
    by_cases hc : scanned 8 c = true
    · have height : digitsValue 8 ((c :: rest).takeWhile (scanned 8))
          = (rest.takeWhile (scanned 8)).foldl (fun n c => n * 8 + (digitVal c).getD 0)
            ((digitVal c).getD 0) := by
        simp [digitsValue, takeWhile_cons_of_pos hc]
      rw [height, hten]
      generalize (digitVal c).getD 0 = d at hoctal hge
      cases d with
      | zero => exact ih hrest
      | succ d =>
        cases rest with
        | nil => exact iff_of_true rfl (hoctal.mp hc)
        | cons c' rest =>
          have hlt := octal_lt hrest (Nat.le_refl (d + 1)) (Nat.succ_pos d)
            (.inl (cons_ne_nil c' rest))
          have hmore := le_foldl_digits rest ((d + 1) * 10 + (digitVal c').getD 0)
          rw [foldl_cons] at hlt ⊢
          exact iff_of_false (by omega) (by omega)
    · have hnine : ¬ (digitVal c).getD 0 < 8 := fun h => hc (hoctal.mpr h)
      rw [takeWhile_cons_of_neg hc, hten]
      refine iff_of_false (fun h => ?_) (by omega)
      have h : 0 = _ := h
      omega

theorem sscanInt_octal {rest : Bytes} (hdec : IsDecimal (c :: rest)) (s : Bytes)
    (hsign : s = 48 :: c :: rest ∨ s = 43 :: 48 :: c :: rest ∨ s = 45 :: 48 :: c :: rest) :
    sscanInt s = signedValue s (digitsValue 8 ((c :: rest).takeWhile (scanned 8))) := by
  have hc := hdec c (.head _)
  have hbase : scanBase (48 :: c :: rest) = (8, true, c :: rest) := by
    have hne : ∀ d : UInt8, 57 < d → c ≠ d := by
      rintro d hd rfl
      exact absurd hc.2 (UInt8.not_le.mpr hd)
    simp [scanBase, hne 98 (by decide), hne 66 (by decide), hne 111 (by decide), hne 79 (by decide),
      hne 120 (by decide), hne 88 (by decide)]
  have hall : IsDecimal (48 :: c :: rest) := by
    intro d hd
    rcases mem_cons.mp hd with rfl | hd
    · decide
    · exact hdec d hd
  exact sscanInt_signed hall (cons_ne_nil _ _) s hsign hbase rfl
    (fun d hd => hdec d ((takeWhile_sublist _).subset hd)) (.inl rfl)

/-! ## Reading back -/

/-- The digits that `FormatInt` writes. -/
def decimal (n : Nat) : Bytes := (Nat.toDigits 10 n).map (fun c => UInt8.ofNat c.toNat)

theorem digitChar_byte {d : Nat} (hd : d < 10) :
    UInt8.ofNat (Nat.digitChar d).toNat = UInt8.ofNat (48 + d) := by
  rw [Nat.toNat_digitChar_of_lt_ten hd]

theorem decimal_of_lt {n : Nat} (h : n < 10) : decimal n = [UInt8.ofNat (48 + n)] := by
  rw [decimal, Nat.toDigits_of_lt_base h, map_singleton, digitChar_byte h]

theorem decimal_of_le {n : Nat} (h : 10 ≤ n) :
    decimal n = decimal (n / 10) ++ [UInt8.ofNat (48 + n % 10)] := by
  rw [decimal, Nat.toDigits_of_base_le (by decide) h, map_append, map_singleton,
    digitChar_byte (Nat.mod_lt _ (by decide))]
  rfl

theorem decimal_digit {d : Nat} (hd : d < 10) :
    48 ≤ UInt8.ofNat (48 + d) ∧ UInt8.ofNat (48 + d) ≤ 57
      ∧ digitVal (UInt8.ofNat (48 + d)) = some d := by
  have h : ∀ e : Fin 10, 48 ≤ UInt8.ofNat (48 + e.val) ∧ UInt8.ofNat (48 + e.val) ≤ 57
      ∧ digitVal (UInt8.ofNat (48 + e.val)) = some e.val := by decide
  exact h ⟨d, hd⟩

/-- What `FormatInt` writes of a number without its sign: decimal digits for the number,
without a superfluous leading zero. -/
theorem decimal_spec (n : Nat) :
    decimal n ≠ [] ∧ IsDecimal (decimal n) ∧ digitsValue 10 (decimal n) = n
      ∧ ((decimal n).head? = some 48 → decimal n = [48]) := by
  induction n using Nat.strongRecOn with
  | _ n ih =>
    rcases Nat.lt_or_ge n 10 with h | h
    · have hd := decimal_digit h
      rw [decimal_of_lt h]
      refine ⟨by simp, ?_, ?_, by simp⟩
      · intro c hc
        rw [mem_singleton.mp hc]
        exact ⟨hd.1, hd.2.1⟩
      · simp only [digitsValue, foldl_cons, foldl_nil, hd.2.2, getD_some]
        omega
    · obtain ⟨hne, hdec, hval, hzero⟩ := ih (n / 10) (by omega)
      have hd := decimal_digit (Nat.mod_lt n (by decide : 0 < 10))
      rw [decimal_of_le h]
      refine ⟨by simp, ?_, ?_, ?_⟩
      · intro c hc
        rcases mem_append.mp hc with hc | hc
        · exact hdec c hc
        · rw [mem_singleton.mp hc]
          exact ⟨hd.1, hd.2.1⟩
      · unfold digitsValue at hval ⊢
        rw [foldl_append, hval]
        simp only [foldl_cons, foldl_nil, hd.2.2, getD_some]
        omega
      · intro hhead
        rw [head?_append_of_ne_nil _ hne] at hhead
        -- the leading digits would be those of zero, but the number is at least ten
        rw [hzero hhead] at hval
        have h0 : n / 10 = 0 := by rw [← hval]; decide
        omega

theorem formatInt_eq (n : Int) :
    formatInt n = if n < 0 then 45 :: decimal n.natAbs else decimal n.natAbs := rfl

theorem scanDigits_decimal (h : IsDecimal s) (a : Nat)
    (hbound : s.foldl (fun n c => n * 10 + (digitVal c).getD 0) a < 2 ^ 64) :
    scanDigits a s = .ok (s.foldl (fun n c => n * 10 + (digitVal c).getD 0) a) := by
  induction s generalizing a with
  | nil => rfl
  | cons c rest ih =>
    have hc := h c (by simp)
    have hval : (digitVal c).getD 0 = c.toNat - 48 := by rw [digitVal_decimal hc]; rfl
    have hrest : IsDecimal rest := fun d hd => h d (by simp [hd])
    rw [foldl_cons, hval] at hbound ⊢
    -- the value only grows from digit to digit, so no digit overflows
    rw [scanDigits, if_pos hc, if_pos (lt_of_le_of_lt (le_foldl_digits rest _) hbound)]
    exact ih hrest _ hbound

theorem parseSigned_decimal (neg : Bool) (n : Nat) (h : if neg then n ≤ 2 ^ 63 else n < 2 ^ 63) :
    parseSigned neg (decimal n) = some (if neg then -(n : Int) else n) := by
  obtain ⟨hne, hdec, hval, -⟩ := decimal_spec n
  have hparse : parseUint (decimal n) 10 64 = some n := by
    refine parseUint_eq_some.mpr ⟨hne, hdec, hval, ?_⟩
    split at h <;> omega
  unfold parseSigned
  rw [hparse, bind_some]
  cases neg <;> exact if_pos h

theorem mem_formatInt (h : c ∈ formatInt n) : c = 45 ∨ (48 ≤ c ∧ c ≤ 57) := by
  have hdec := (decimal_spec n.natAbs).2.1
  rw [formatInt_eq] at h
  split at h
  · rcases mem_cons.mp h with rfl | h
    · exact .inl rfl
    · exact .inr (hdec c h)
  · exact .inr (hdec c h)

/-- A number in a text that does not begin with a superfluous zero. -/
def NoLeadingZero (s : Bytes) : Prop :=
  let digits := if s.head? = some 45 ∨ s.head? = some 43 then s.tail else s
  digits.head? = some 48 → digits = [48]

instance (s : Bytes) : Decidable (NoLeadingZero s) := by unfold NoLeadingZero; infer_instance

theorem parseSigned_eq_some {neg : Bool} (h : parseSigned neg digits = some n) :
    digits ≠ [] ∧ IsDecimal digits ∧
      (if neg then digitsValue 10 digits ≤ 2 ^ 63 ∧ n = -(digitsValue 10 digits : Int)
        else digitsValue 10 digits < 2 ^ 63 ∧ n = digitsValue 10 digits) := by
  obtain ⟨m, hm, hn⟩ := bind_eq_some_iff.mp h
  obtain ⟨hs, hdec, hval, -⟩ := parseUint_eq_some.mp hm
  refine ⟨hs, hdec, ?_⟩
  rw [hval]
  cases neg <;> simp only [Bool.false_eq_true, if_true, if_false] at hn ⊢ <;> split at hn <;>
    cases hn <;> exact ⟨by assumption, rfl⟩

theorem parseInt_eq_some (h : parseInt s = some n) :
    ∃ digits, (s = digits ∨ s = 43 :: digits ∨ s = 45 :: digits) ∧ digits ≠ [] ∧
      IsDecimal digits ∧ n.natAbs = digitsValue 10 digits ∧
      n = signedValue s (digitsValue 10 digits) ∧
      (NoLeadingZero s ↔ (digits.head? = some 48 → digits = [48])) := by
  unfold parseInt at h
  unfold signedValue NoLeadingZero
  split at h
  · rename_i digits
    obtain ⟨hs, hdec, hbound, rfl⟩ := parseSigned_eq_some h
    have hsign : ¬ (43 :: digits).head? = some (45 : UInt8) := nofun
    refine ⟨digits, .inr (.inl rfl), hs, hdec, Int.natAbs_natCast _, ?_, by simp⟩
    rw [if_neg hsign, if_pos hbound]
  · rename_i digits
    obtain ⟨hs, hdec, hbound, rfl⟩ := parseSigned_eq_some h
    refine ⟨digits, .inr (.inr rfl), hs, hdec, by simp, ?_, by simp⟩
    rw [if_pos (by rfl), if_pos hbound]
  · rename_i hplus hminus
    obtain ⟨hs, hdec, hbound, rfl⟩ := parseSigned_eq_some h
    have hsign : s.head? ≠ some 45 ∧ s.head? ≠ some 43 := by
      refine ⟨fun hh => ?_, fun hh => ?_⟩
      all_goals obtain ⟨rest, rfl⟩ := head?_eq_some_iff.mp hh
      · exact hminus rest rfl
      · exact hplus rest rfl
    refine ⟨s, .inl rfl, hs, hdec, Int.natAbs_natCast _, ?_, by simp [hsign]⟩
    rw [if_neg hsign.1, if_pos hbound]

/-- **`Sscan` and `ParseInt` agree** on a text without a superfluous leading zero, and on the
numbers below eight. -/
theorem sscanInt_eq_iff (h : parseInt s = some n) :
    sscanInt s = n ↔ NoLeadingZero s ∨ n.natAbs < 8 := by
  obtain ⟨digits, hsign, hs, hdec, habs, hn, hzero⟩ := parseInt_eq_some h
  by_cases hplain : NoLeadingZero s
  · rw [sscanInt_digits hdec hs (hzero.mp hplain) s hsign]
    exact iff_of_true hn.symm (.inl hplain)
  · obtain ⟨c, rest, rfl⟩ : ∃ c rest, digits = 48 :: c :: rest := by
      have hz := hzero.not.mp hplain
      obtain ⟨hhead, hlong⟩ := Classical.not_imp.mp hz
      obtain ⟨rest, rfl⟩ := head?_eq_some_iff.mp hhead
      obtain ⟨c, rest, rfl⟩ := exists_cons_of_ne_nil (fun h => hlong (h ▸ rfl))
      exact ⟨c, rest, rfl⟩
    have hrest : IsDecimal (c :: rest) := fun d hd => hdec d (.tail _ hd)
    have hten : digitsValue 10 (48 :: c :: rest) = digitsValue 10 (c :: rest) := rfl
    have heq := octal_eq_iff hrest
    rw [hten] at habs hn
    rw [sscanInt_octal hrest s hsign, habs, ← heq, or_iff_right hplain]
    rw [hn] at habs ⊢
    unfold signedValue at habs ⊢
    split
    · rename_i hminus
      rw [if_pos hminus] at habs
      split <;> split <;> omega
    · rename_i hminus
      rw [if_neg hminus] at habs
      split <;> split <;> omega

theorem sscanInt_of_parseInt (h : parseInt s = some n) (hzero : NoLeadingZero s) : sscanInt s = n :=
  (sscanInt_eq_iff h).mpr (.inl hzero)

/-! ## Ranges -/

/-- The values of `int64`. -/
def Int64Range (n : Int) : Prop := -(2 ^ 63) ≤ n ∧ n < 2 ^ 63

theorem wrap64_of_range (h : Int64Range n) : wrap64 n = n := by
  obtain ⟨hlo, hhi⟩ := h
  exact Int.bmod_eq_of_le (by omega) (by omega)

theorem wrap64_range (n : Int) : Int64Range (wrap64 n) := by
  unfold wrap64 Int64Range
  have h1 := Int.le_bmod (x := n) (m := 2 ^ 64) (by decide)
  have h2 := Int.bmod_lt (x := n) (m := 2 ^ 64) (by decide)
  omega

theorem parseInt_range (h : parseInt s = some n) : Int64Range n := by
  have hsigned : ∃ neg digits, parseSigned neg digits = some n := by
    unfold parseInt at h
    split at h <;> exact ⟨_, _, h⟩
  obtain ⟨neg, digits, hn⟩ := hsigned
  obtain ⟨-, -, hval⟩ := parseSigned_eq_some hn
  unfold Int64Range
  split at hval <;> omega

theorem parseIntValue_range (s : Bytes) : Int64Range (parseIntValue s) := by
  unfold parseIntValue Int64Range
  dsimp only
  split
  · omega
  · split <;> omega
  · split <;> omega

theorem parseInt_formatInt (h : Int64Range n) : parseInt (formatInt n) = some n := by
  obtain ⟨hlo, hhi⟩ := h
  rw [formatInt_eq]
  split
  · have hn : parseInt (45 :: decimal n.natAbs) = some (-(n.natAbs : Int)) :=
      parseSigned_decimal true n.natAbs (by simp only [if_true]; omega)
    rw [hn]
    congr 1
    omega
  · obtain ⟨hne, hdec, -, -⟩ := decimal_spec n.natAbs
    obtain ⟨c, rest, hcons⟩ := exists_cons_of_ne_nil hne
    have hc := hdec c (by simp [hcons])
    -- a digit is neither of the signs
    have hsigned : parseInt (decimal n.natAbs) = parseSigned false (decimal n.natAbs) := by
      rw [hcons]
      unfold parseInt
      split
      · rename_i heq
        exact absurd ((cons.inj heq).1 ▸ hc).1 (by decide)
      · rename_i heq
        exact absurd ((cons.inj heq).1 ▸ hc).1 (by decide)
      · rfl
    rw [hsigned, parseSigned_decimal false n.natAbs
      (by simp only [Bool.false_eq_true, if_false]; omega)]
    simp only [Bool.false_eq_true, if_false, some.injEq]
    omega

theorem parseIntValue_of_parseInt (h : parseInt s = some n) : parseIntValue s = n := by
  have hparts : parseSigned (splitSign s).1 (splitSign s).2 = some n := by
    unfold parseInt at h
    unfold splitSign
    split at h <;> exact h
  obtain ⟨hne, hdec, hn⟩ := parseSigned_eq_some hparts
  have hscan : scanDigits 0 (splitSign s).2 = .ok (digitsValue 10 (splitSign s).2) := by
    refine scanDigits_decimal hdec 0 ?_
    show digitsValue 10 _ < 2 ^ 64
    split at hn <;> omega
  unfold parseIntValue
  generalize splitSign s = p at hne hn hscan
  obtain ⟨neg, digits⟩ := p
  obtain ⟨c, rest, rfl⟩ := exists_cons_of_ne_nil hne
  dsimp only at hn hscan ⊢
  rw [hscan]
  split at hn <;> simp_all <;> omega

theorem noLeadingZero_formatInt (n : Int) : NoLeadingZero (formatInt n) := by
  obtain ⟨-, hdec, -, hzero⟩ := decimal_spec n.natAbs
  rw [formatInt_eq]
  split
  · exact hzero
  · have hsign : ¬ ((decimal n.natAbs).head? = some 45 ∨ (decimal n.natAbs).head? = some 43) := by
      rintro (h | h) <;> exact absurd (hdec _ (mem_of_head? h)).1 (by decide)
    unfold NoLeadingZero
    rwa [if_neg hsign]

theorem sscanInt_formatInt (h : Int64Range n) : sscanInt (formatInt n) = n :=
  sscanInt_of_parseInt (parseInt_formatInt h) (noLeadingZero_formatInt n)

theorem parseIntValue_formatInt (h : Int64Range n) : parseIntValue (formatInt n) = n :=
  parseIntValue_of_parseInt (parseInt_formatInt h)

end Vole.Go
