import Vole.Go.Strings

/-!
# UTF-8 text

A Go string is any sequence of bytes. `encoding/json` writes text only: each byte that does
not belong to a UTF-8 sequence is replaced by the replacement character U+FFFD.
-/

namespace Vole.Go

/-! ## Sequences -/

/-- The bytes behind the first two of a sequence. -/
def tailByte (c : UInt8) : Bool := 0x80 ≤ c && c ≤ 0xBF

/-- The second byte of a sequence: overlong forms, surrogates and values above U+10FFFF are
kept out by narrower ranges. -/
def secondByte (first c : UInt8) : Bool :=
  let lo : UInt8 := if first = 0xE0 then 0xA0 else if first = 0xF0 then 0x90 else 0x80
  let hi : UInt8 := if first = 0xED then 0x9F else if first = 0xF4 then 0x8F else 0xBF
  lo ≤ c && c ≤ hi

/-- The length of the UTF-8 sequence at the front of a text, zero if there is none. -/
def runeLen : Bytes → Nat
  | [] => 0
  | b :: rest =>
    if b < 0x80 then 1
    else if 0xC2 ≤ b ∧ b ≤ 0xDF then
      match rest with
      | c :: _ => if tailByte c then 2 else 0
      | _ => 0
    else if 0xE0 ≤ b ∧ b ≤ 0xEF then
      match rest with
      | c :: d :: _ => if secondByte b c && tailByte d then 3 else 0
      | _ => 0
    else if 0xF0 ≤ b ∧ b ≤ 0xF4 then
      match rest with
      | c :: d :: e :: _ => if secondByte b c && tailByte d && tailByte e then 4 else 0
      | _ => 0
    else 0

theorem runeLen_congr {b : UInt8} {rest rest' : Bytes} {n : Nat}
    (h : runeLen (b :: rest) = n + 1) (htake : rest'.take n = rest.take n) :
    runeLen (b :: rest') = n + 1 := by
  unfold runeLen at h ⊢
  dsimp only at h ⊢
  split
  · rename_i hone
    rwa [if_pos hone] at h
  rename_i hone
  rw [if_neg hone] at h
  split
  · rename_i htwo
    rw [if_pos htwo] at h
    match rest, h with
    | c :: _, h =>
      dsimp only at h
      split at h <;> cases h
      match rest', htake with
      | _ :: _, htake =>
        cases htake
        exact if_pos (by assumption)
  rename_i htwo
  rw [if_neg htwo] at h
  split
  · rename_i hthree
    rw [if_pos hthree] at h
    match rest, h with
    | c :: d :: _, h =>
      dsimp only at h
      split at h <;> cases h
      match rest', htake with
      | _ :: _ :: _, htake =>
        cases htake
        exact if_pos (by assumption)
  rename_i hthree
  rw [if_neg hthree] at h
  split
  · rename_i hfour
    rw [if_pos hfour] at h
    match rest, h with
    | c :: d :: e :: _, h =>
      dsimp only at h
      split at h <;> cases h
      match rest', htake with
      | _ :: _ :: _ :: _, htake =>
        cases htake
        exact if_pos (by assumption)
  · rename_i hfour
    rw [if_neg hfour] at h
    cases h

/-! ## Whole texts -/

/-- `skip` counts the bytes of the current sequence that are still to be passed over. -/
def validFrom : Nat → Bytes → Bool
  | _, [] => true
  | skip + 1, _ :: rest => validFrom skip rest
  | 0, b :: rest =>
    match runeLen (b :: rest) with
    | 0 => false
    | n + 1 => validFrom n rest

/-- `utf8.ValidString` -/
def validUTF8 (s : Bytes) : Bool := validFrom 0 s

/-- U+FFFD -/
def replacementChar : Bytes := [0xEF, 0xBF, 0xBD]

def replaceInvalidFrom : Nat → Bytes → Bytes
  | _, [] => []
  | skip + 1, b :: rest => b :: replaceInvalidFrom skip rest
  | 0, b :: rest =>
    match runeLen (b :: rest) with
    | 0 => replacementChar ++ replaceInvalidFrom 0 rest
    | n + 1 => b :: replaceInvalidFrom n rest

/-- A string that has been written as JSON and read again. -/
def replaceInvalid (s : Bytes) : Bytes := replaceInvalidFrom 0 s

theorem take_replaceInvalidFrom (n : Nat) (s : Bytes) :
    (replaceInvalidFrom n s).take n = s.take n := by
  induction s generalizing n with
  | nil => rfl
  | cons b rest ih =>
    cases n with
    | zero => rfl
    | succ n =>
      rw [replaceInvalidFrom, List.take_succ_cons, List.take_succ_cons, ih]

theorem length_le_replaceInvalidFrom (n : Nat) (s : Bytes) :
    s.length ≤ (replaceInvalidFrom n s).length := by
  induction s generalizing n with
  | nil => exact Nat.zero_le _
  | cons b rest ih =>
    cases n with
    | succ n => exact Nat.succ_le_succ (ih n)
    | zero =>
      rw [replaceInvalidFrom]
      split
      · have hrest := ih 0
        simp only [replacementChar, List.length_append, List.length_cons, List.length_nil]
        omega
      · exact Nat.succ_le_succ (ih _)

theorem replaceInvalidFrom_eq_self_iff (n : Nat) (s : Bytes) :
    replaceInvalidFrom n s = s ↔ validFrom n s = true := by
  induction s generalizing n with
  | nil => simp [replaceInvalidFrom, validFrom]
  | cons b rest ih =>
    cases n with
    | succ n => simp [replaceInvalidFrom, validFrom, ih]
    | zero =>
      rw [replaceInvalidFrom, validFrom]
      split
      · have hlength := length_le_replaceInvalidFrom 0 rest
        refine iff_of_false (fun heq => ?_) Bool.false_ne_true
        have hsame := congrArg List.length heq
        simp only [replacementChar, List.length_append, List.length_cons,
          List.length_nil] at hsame
        omega
      · simp [ih]

theorem validFrom_replaceInvalidFrom (n : Nat) (s : Bytes) :
    validFrom n (replaceInvalidFrom n s) = true := by
  induction s generalizing n with
  | nil => cases n <;> rfl
  | cons b rest ih =>
    cases n with
    | succ n => exact ih n
    | zero =>
      rw [replaceInvalidFrom]
      split
      · exact ih 0
      · rename_i n hrune
        have hsame : runeLen (b :: replaceInvalidFrom n rest) = n + 1 :=
          runeLen_congr hrune (take_replaceInvalidFrom n rest)
        rw [validFrom, hsame]
        exact ih n

/-- **Exactly the valid texts survive.** -/
theorem replaceInvalid_eq_self_iff (s : Bytes) : replaceInvalid s = s ↔ validUTF8 s = true :=
  replaceInvalidFrom_eq_self_iff 0 s

theorem validUTF8_replaceInvalid (s : Bytes) : validUTF8 (replaceInvalid s) = true :=
  validFrom_replaceInvalidFrom 0 s

/-- A bitmap with its first bit set. -/
example : replaceInvalid [0x80] = [0xEF, 0xBF, 0xBD] := by decide

end Vole.Go
