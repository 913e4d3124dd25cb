/-
# Decimal digits of a fixed width

`padded w n` is the decimal writing of `n` with leading zeros up to width `w`,
as a list of characters. Padding does not change the value read back, digit
lists of one length are determined by their value, and hence the padded writing
of a number splits at any position into the padded writings of quotient and
remainder.
-/

import Mathlib.Data.List.Induction
import Mathlib.Data.Nat.Basic
import Mathlib.Tactic.Ring

namespace Embsys.Math

/-- Only decimal digits. -/
def AllDigits (text : List Char) : Prop :=
  ∀ c ∈ text, c.isDigit

/-- The value of a list of decimal digits, most significant first. -/
abbrev digitsValue (text : List Char) : ℕ :=
  Nat.ofDigitChars 10 text 0

/-- Decimal writing with leading zeros up to width `w`; wider numbers are not cut. -/
def padded (w n : ℕ) : List Char :=
  List.leftpad w '0' (Nat.toDigits 10 n)

theorem isDigit_iff_toNat (c : Char) : c.isDigit ↔ 48 ≤ c.toNat ∧ c.toNat ≤ 57 := by
  simp only [Char.isDigit, ge_iff_le, Bool.and_eq_true, decide_eq_true_eq,
    UInt32.le_iff_toNat_le]
  rfl

theorem allDigits_append {first second : List Char} :
    AllDigits (first ++ second) ↔ AllDigits first ∧ AllDigits second := by
  simp [AllDigits, or_imp, forall_and]

theorem allDigits_take {text : List Char} (htext : AllDigits text) (n : ℕ) :
    AllDigits (text.take n) :=
  fun c hc => htext c (List.mem_of_mem_take hc)

theorem allDigits_toDigits (n : ℕ) : AllDigits (Nat.toDigits 10 n) :=
  fun _ hc => Nat.isDigit_of_mem_toDigits (by decide) (by decide) hc

theorem allDigits_padded (w n : ℕ) : AllDigits (padded w n) := by
  intro c hc
  rcases List.mem_append.mp hc with hpad | hdigit
  · rw [List.eq_of_mem_replicate hpad]
    decide
  · exact allDigits_toDigits n c hdigit

theorem padded_ne_nil (w n : ℕ) : padded w n ≠ [] := by
  simp [padded, List.leftpad]

theorem length_padded_of_lt {w n : ℕ} (hw : 0 < w) (hn : n < 10 ^ w) :
    (padded w n).length = w := by
  rw [padded, List.length_leftpad]
  exact Nat.max_eq_left ((Nat.length_toDigits_le_iff (by decide) hw).mpr hn)

/-- Leading zeros do not change the value read back. -/
@[simp]
theorem digitsValue_padded (w n : ℕ) : digitsValue (padded w n) = n := by
  simp [digitsValue, padded, List.leftpad, Nat.ofDigitChars_append]

theorem digitsValue_append (first second : List Char) :
    digitsValue (first ++ second) =
      digitsValue first * 10 ^ second.length + digitsValue second := by
  rw [digitsValue, Nat.ofDigitChars_append, Nat.ofDigitChars_eq_ofDigitChars_zero,
    Nat.mul_comm]

/-- A text of digits reads as less than the next power of ten. -/
theorem digitsValue_lt {text : List Char} (hdigits : AllDigits text) :
    digitsValue text < 10 ^ text.length := by
  induction text using List.reverseRecOn with
  | nil => simp
  | append_singleton front c ih =>
      obtain ⟨hfront, hc⟩ := allDigits_append.mp hdigits
      obtain ⟨-, hhigh⟩ := (isDigit_iff_toNat c).mp (hc c (by simp))
      have hlast : digitsValue [c] ≤ 9 := by
        simp only [digitsValue, Nat.ofDigitChars_cons, Nat.ofDigitChars_nil]
        change 10 * 0 + (c.toNat - 48) ≤ 9
        omega
      have hvalue := ih hfront
      rw [digitsValue_append, List.length_append, List.length_singleton, pow_succ]
      omega

/-- The leading digits of a number start with a digit other than zero. -/
theorem pow_le_digitsValue_take {n k : ℕ} (hk : 1 < k) (hlong : k ≤ (Nat.toDigits 10 n).length) :
    10 ^ (k - 1) ≤ digitsValue ((Nat.toDigits 10 n).take k) := by
  have hdigits := allDigits_toDigits n
  rw [← List.take_append_drop k (Nat.toDigits 10 n)] at hdigits
  have hlow := digitsValue_lt (allDigits_append.mp hdigits).2
  have hsplit := digitsValue_append ((Nat.toDigits 10 n).take k) ((Nat.toDigits 10 n).drop k)
  rw [List.take_append_drop, digitsValue, Nat.ofDigitChars_ten_toDigits] at hsplit
  have hn : 10 ^ ((Nat.toDigits 10 n).length - 1) ≤ n := by
    by_contra hsmall
    have hshort := (Nat.length_toDigits_le_iff (b := 10) (by decide) (by omega)).mpr
      (not_le.mp hsmall)
    omega
  have hpow : 10 ^ ((Nat.toDigits 10 n).length - 1) =
      10 ^ (k - 1) * 10 ^ ((Nat.toDigits 10 n).drop k).length := by
    rw [← pow_add, List.length_drop]
    congr 1
    omega
  rw [hpow] at hn
  by_contra hsmall
  have hnext := Nat.mul_le_mul_right (10 ^ ((Nat.toDigits 10 n).drop k).length)
    (Nat.succ_le_of_lt (not_le.mp hsmall))
  rw [Nat.succ_mul] at hnext
  omega

/-- Reading a digit character and writing it again gives the same character. -/
theorem digitChar_toNat_sub {c : Char} (hc : c.isDigit) :
    c.toNat - 48 < 10 ∧ Nat.digitChar (c.toNat - 48) = c := by
  obtain ⟨hlow, hhigh⟩ := (isDigit_iff_toNat c).mp hc
  refine ⟨by omega, ?_⟩
  apply Char.ext
  apply UInt32.toNat_inj.mp
  have hwrite := Nat.toNat_digitChar_of_lt_ten (show c.toNat - 48 < 10 by omega)
  simp only [Char.toNat] at hwrite hlow hhigh ⊢
  omega

/-- A digit list is the padded writing of its value. -/
theorem padded_digitsValue {text : List Char} (hdigits : AllDigits text)
    (hne : text ≠ []) : padded text.length (digitsValue text) = text := by
  induction text using List.reverseRecOn with
  | nil => exact absurd rfl hne
  | append_singleton front c ih =>
      obtain ⟨hfront, hc⟩ := allDigits_append.mp hdigits
      obtain ⟨hlt, hchar⟩ := digitChar_toNat_sub (hc c (by simp))
      have hvalue : digitsValue (front ++ [c]) = 10 * digitsValue front + (c.toNat - 48) := by
        simp [digitsValue, Nat.ofDigitChars_append, Nat.ofDigitChars_cons]
      have hlast : Nat.toDigits 10 (c.toNat - 48) = [c] := by
        rw [Nat.toDigits_of_lt_base hlt, hchar]
      rw [hvalue]
      rcases Nat.eq_zero_or_pos (digitsValue front) with hzero | hpos
      · -- All digits so far are zeros: the last one is the whole unpadded writing.
        have hfrontZero : front = List.replicate front.length '0' := by
          cases hfr : front with
          | nil => rfl
          | cons d rest =>
              have hpad := ih hfront (by simp [hfr])
              rw [hzero, padded, Nat.toDigits_zero] at hpad
              rw [← hfr]
              conv_lhs => rw [← hpad]
              rw [List.leftpad, ← List.replicate_one, List.replicate_append_replicate]
              simp [hfr]
        rw [hzero, padded, Nat.mul_zero, Nat.zero_add, hlast, List.leftpad,
          List.length_append, List.length_singleton, Nat.add_sub_cancel, ← hfrontZero]
      · have hpad := ih hfront (by rintro rfl; simp at hpos)
        rw [padded, ← Nat.toDigits_append_toDigits (by decide) hpos hlt, hlast,
          List.leftpad, List.length_append, List.length_append, List.length_singleton,
          Nat.add_sub_add_right, ← List.append_assoc]
        congr 1

/-- Digit lists of one length are determined by their value. -/
theorem eq_of_digitsValue_eq {first second : List Char} (hfirst : AllDigits first)
    (hsecond : AllDigits second) (hlength : first.length = second.length)
    (hvalue : digitsValue first = digitsValue second) : first = second := by
  cases hf : first with
  | nil => exact (List.length_eq_zero_iff.mp (by rw [← hlength, hf]; rfl)).symm
  | cons c rest =>
      have hne : first ≠ [] := by simp [hf]
      have hne' : second ≠ [] := by
        rintro rfl
        simp [hf] at hlength
      rw [← hf, ← padded_digitsValue hfirst hne, ← padded_digitsValue hsecond hne',
        hlength, hvalue]

/-- **Splitting a padded writing.** The high part is the padded quotient, the low
part the padded remainder. -/
theorem padded_add {high low quotient remainder : ℕ} (hhigh : 0 < high) (hlow : 0 < low)
    (hquotient : quotient < 10 ^ high) (hremainder : remainder < 10 ^ low) :
    padded (high + low) (quotient * 10 ^ low + remainder) =
      padded high quotient ++ padded low remainder := by
  have hlowLength := length_padded_of_lt hlow hremainder
  have hbound : quotient * 10 ^ low + remainder < 10 ^ (high + low) := by
    calc quotient * 10 ^ low + remainder
        < quotient * 10 ^ low + 10 ^ low := by omega
      _ = (quotient + 1) * 10 ^ low := by ring
      _ ≤ 10 ^ high * 10 ^ low := Nat.mul_le_mul_right _ hquotient
      _ = 10 ^ (high + low) := (pow_add 10 high low).symm
  apply eq_of_digitsValue_eq (allDigits_padded _ _)
    (allDigits_append.mpr ⟨allDigits_padded _ _, allDigits_padded _ _⟩)
  · rw [length_padded_of_lt (by omega) hbound, List.length_append,
      length_padded_of_lt hhigh hquotient, hlowLength]
  · rw [digitsValue_append, hlowLength]
    simp

end Embsys.Math
