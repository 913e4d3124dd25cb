/-
# Rounding to the nearest integer, ties to even

Mathlib's `round` sends a half upwards. Decimal output on IEEE systems sends it
to the even neighbour, which differs exactly at the halves and is what makes
rounding commute with negation. This module develops that rounding over any
floor ring: its error, its order bounds against integers, and its behaviour
under negation and under even shifts.
-/

import Mathlib.Algebra.Order.Floor.Ring
import Mathlib.Algebra.Order.Field.Basic
import Mathlib.Algebra.Ring.Int.Parity
import Mathlib.Tactic.Linarith
import Mathlib.Tactic.Ring
import Mathlib.Tactic.NormNum

namespace Embsys.Math

variable {K : Type*} [Field K] [LinearOrder K] [IsStrictOrderedRing K] [FloorRing K]

/-- The nearest integer, a half going to the even neighbour. -/
def roundEven (x : K) : ℤ :=
  if Int.fract x < 1 / 2 then ⌊x⌋
  else if 1 / 2 < Int.fract x then ⌊x⌋ + 1
  else if Even ⌊x⌋ then ⌊x⌋
  else ⌊x⌋ + 1

omit [IsStrictOrderedRing K] in
/-- The rounded value is one of the two integers around the argument, and the
distance to it is at most a half. -/
theorem roundEven_cases (x : K) :
    (roundEven x = ⌊x⌋ ∧ Int.fract x ≤ 1 / 2) ∨
      (roundEven x = ⌊x⌋ + 1 ∧ 1 / 2 ≤ Int.fract x) := by
  unfold roundEven
  split_ifs with hlow hhigh heven
  · exact Or.inl ⟨rfl, hlow.le⟩
  · exact Or.inr ⟨rfl, hhigh.le⟩
  · exact Or.inl ⟨rfl, not_lt.mp hhigh⟩
  · exact Or.inr ⟨rfl, not_lt.mp hlow⟩

/-- Rounding to nearest moves a number by at most a half. -/
theorem abs_roundEven_sub_le (x : K) : |(roundEven x : K) - x| ≤ 1 / 2 := by
  rcases roundEven_cases x with ⟨hround, hhalf⟩ | ⟨hround, hhalf⟩
  · rw [hround, abs_sub_comm, Int.self_sub_floor, abs_of_nonneg (Int.fract_nonneg x)]
    exact hhalf
  · have hup : ((⌊x⌋ + 1 : ℤ) : K) - x = 1 - Int.fract x := by
      rw [← Int.self_sub_floor]
      push_cast
      ring
    rw [hround, hup, abs_of_nonneg (sub_nonneg.mpr (Int.fract_lt_one x).le), sub_le_comm]
    exact le_trans (by norm_num) hhalf

@[simp]
theorem roundEven_intCast (n : ℤ) : roundEven (n : K) = n := by
  simp [roundEven]

omit [IsStrictOrderedRing K] in
/-- Rounding never passes an integer from above. -/
theorem le_roundEven {n : ℤ} {x : K} (h : (n : K) ≤ x) : n ≤ roundEven x := by
  have hfloor : n ≤ ⌊x⌋ := Int.le_floor.mpr h
  rcases roundEven_cases x with ⟨hround, -⟩ | ⟨hround, -⟩ <;> omega

/-- Rounding never passes an integer from below. -/
theorem roundEven_le {n : ℤ} {x : K} (h : x ≤ (n : K)) : roundEven x ≤ n := by
  rcases eq_or_lt_of_le h with rfl | hlt
  · exact (roundEven_intCast n).le
  · have hfloor : ⌊x⌋ < n := Int.floor_lt.mpr hlt
    rcases roundEven_cases x with ⟨hround, -⟩ | ⟨hround, -⟩ <;> omega

omit [IsStrictOrderedRing K] in
theorem roundEven_nonneg {x : K} (h : 0 ≤ x) : 0 ≤ roundEven x :=
  le_roundEven (by exact_mod_cast h)

/-- Even shifts keep the parity of the floor, hence the choice made at a half. -/
theorem roundEven_add_two_mul (x : K) (n : ℤ) :
    roundEven (x + ((2 * n : ℤ) : K)) = roundEven x + 2 * n := by
  have hparity : Even (⌊x⌋ + 2 * n) ↔ Even ⌊x⌋ := by
    simp [Int.even_add]
  simp only [roundEven, Int.fract_add_intCast, Int.floor_add_intCast, hparity]
  split_ifs <;> omega

/-- The floor of a number that is not an integer moves one down under negation. -/
theorem floor_neg_of_fract_ne_zero {x : K} (hfract : Int.fract x ≠ 0) : ⌊-x⌋ = -⌊x⌋ - 1 := by
  have hx := Int.floor_add_fract x
  have hx' := Int.floor_add_fract (-x)
  rw [Int.fract_neg hfract] at hx'
  have hcast : ((⌊-x⌋ : ℤ) : K) = ((-⌊x⌋ - 1 : ℤ) : K) := by
    push_cast
    linarith only [hx, hx']
  exact_mod_cast hcast

/-- Rounding commutes with negation because both sides of a half agree on which
neighbour is even. -/
theorem roundEven_neg (x : K) : roundEven (-x) = -roundEven x := by
  by_cases hfract : Int.fract x = 0
  · have hx := Int.floor_add_fract x
    rw [hfract, add_zero] at hx
    rw [← hx, ← Int.cast_neg, roundEven_intCast, roundEven_intCast]
  · have hlow : 1 - Int.fract x < 1 / 2 ↔ 1 / 2 < Int.fract x := by
      rw [sub_lt_comm, sub_half]
    have hhigh : 1 / 2 < 1 - Int.fract x ↔ Int.fract x < 1 / 2 := by
      rw [lt_sub_comm, sub_half]
    have hparity : Even (-⌊x⌋ - 1) ↔ ¬ Even ⌊x⌋ := by
      rw [Int.even_sub_one, even_neg]
    simp only [roundEven, Int.fract_neg hfract, floor_neg_of_fract_ne_zero hfract, hlow, hhigh,
      hparity]
    rcases lt_trichotomy (Int.fract x) (1 / 2) with hbelow | hhalf | habove
    · simp only [hbelow, hbelow.not_gt, if_true, if_false]
      omega
    · simp only [hhalf, lt_irrefl, if_false]
      split_ifs <;> omega
    · simp only [habove, habove.not_gt, if_true, if_false]
      omega

/-- An even integer is reached from half a unit below on: the tie goes up to it. -/
theorem even_le_roundEven_iff {n : ℤ} (hn : Even n) (x : K) :
    n ≤ roundEven x ↔ (n : K) - 1 / 2 ≤ x := by
  have hsplit := Int.floor_add_fract x
  have hfract := Int.fract_lt_one x
  constructor
  · intro hle
    rcases roundEven_cases x with ⟨hround, -⟩ | ⟨hround, hhalf⟩
    · have hn' : (n : K) ≤ ⌊x⌋ := by exact_mod_cast hround ▸ hle
      have := Int.floor_le x
      linarith
    · have hn' : (n : K) ≤ ⌊x⌋ + 1 := by exact_mod_cast hround ▸ hle
      linarith
  · intro hle
    by_contra hlt
    push Not at hlt
    have hfloor : n - 2 < ⌊x⌋ := by
      have : ((n - 2 : ℤ) : K) < ⌊x⌋ := by
        push_cast
        linarith
      exact_mod_cast this
    unfold roundEven at hlt
    split_ifs at hlt with hlow hhigh heven
    · have : ⌊x⌋ = n - 1 := by omega
      rw [this] at hsplit
      push_cast at hsplit
      linarith
    · omega
    · have : ⌊x⌋ = n - 1 := by omega
      rw [this, Int.even_sub_one] at heven
      exact heven hn
    · omega

end Embsys.Math
