/-
# The degree-minute coordinate

`coordinate` keeps whole degrees in the hundreds and minutes below them. The
minutes of a floor are in `[0, 60)` on both sides of zero, so a coordinate, also
after printing, stays in a window `[100 k, 100 k + 60]`. The error value `-1` of
the decoder lies in none of these windows, and a text that was cut to its width
is too large to read as it.
-/

import Mathlib.Tactic.NormNum
import Embsys.Gps.Nmea

namespace Embsys.Gps

open Embsys.Math Embsys.C

theorem coordinate_eq (decimal : ℚ) :
    coordinate decimal = (⌊decimal⌋ : ℚ) * 100 + Int.fract decimal * 60 := by
  simp [coordinate, Int.self_sub_floor]

theorem le_coordinate (decimal : ℚ) : ((⌊decimal⌋ * 100 : ℤ) : ℚ) ≤ coordinate decimal := by
  have hfract := Int.fract_nonneg decimal
  rw [coordinate_eq]
  push_cast
  linarith

theorem coordinate_lt (decimal : ℚ) : coordinate decimal < ((⌊decimal⌋ * 100 + 60 : ℤ) : ℚ) := by
  have hfract := Int.fract_lt_one decimal
  rw [coordinate_eq]
  push_cast
  linarith

theorem coordinate_nonneg {decimal : ℚ} (hnonneg : 0 ≤ decimal) : 0 ≤ coordinate decimal := by
  refine le_trans ?_ (le_coordinate decimal)
  exact_mod_cast Int.mul_nonneg (Int.floor_nonneg.mpr hnonneg) (by decide)

/-- A further degree outweighs all minutes. -/
theorem coordinate_strictMono : StrictMono coordinate := by
  intro first second hlt
  rcases (Int.floor_le_floor hlt.le).eq_or_lt with hfloor | hfloor
  · have hfirst := Int.floor_add_fract first
    have hsecond := Int.floor_add_fract second
    rw [coordinate_eq, coordinate_eq, hfloor]
    rw [hfloor] at hfirst
    linarith
  · calc coordinate first < ((⌊first⌋ * 100 + 60 : ℤ) : ℚ) := coordinate_lt first
      _ ≤ ((⌊second⌋ * 100 : ℤ) : ℚ) := by
        have hdegree : ⌊first⌋ * 100 + 60 ≤ ⌊second⌋ * 100 := by omega
        exact_mod_cast hdegree
      _ ≤ coordinate second := le_coordinate second

@[simp]
theorem coordinate_zero : coordinate 0 = 0 := by
  simp [coordinate]

/-- The minutes of a negative angle do not reach up to zero. -/
theorem coordinate_neg_iff (decimal : ℚ) : coordinate decimal < 0 ↔ decimal < 0 := by
  have hzero : coordinate decimal < coordinate 0 ↔ decimal < 0 :=
    coordinate_strictMono.lt_iff_lt
  rwa [coordinate_zero] at hzero

/-- The integer part of a coordinate keeps its sign: the minutes leave the coordinate of a
negative angle at least 40 below zero. -/
theorem truncate_coordinate_neg_iff (decimal : ℚ) :
    truncate (coordinate decimal) < 0 ↔ decimal < 0 := by
  rw [truncate_neg_iff]
  constructor
  · intro hle
    rw [← coordinate_neg_iff]
    linarith
  · intro hneg
    have hfloor : ⌊decimal⌋ < 0 := Int.floor_lt.mpr (by exact_mod_cast hneg)
    have hfar : ⌊decimal⌋ * 100 + 60 ≤ -40 := by omega
    have hfar' : ((⌊decimal⌋ * 100 + 60 : ℤ) : ℚ) ≤ -40 := by exact_mod_cast hfar
    linarith [coordinate_lt decimal]

/-- A coordinate is at most some minutes after a whole degree exactly when the number of
degrees is. -/
theorem coordinate_le_iff (degrees : ℤ) {minutes : ℚ} (hnonneg : 0 ≤ minutes)
    (hlt : minutes < 60) (decimal : ℚ) :
    coordinate decimal ≤ degrees * 100 + minutes ↔ 60 * decimal ≤ 60 * degrees + minutes := by
  have hsplit := Int.floor_add_fract decimal
  have hcoordinate := coordinate_eq decimal
  constructor
  · intro hle
    rcases le_or_gt degrees ⌊decimal⌋ with hfloor | hfloor
    · have hfloor' : (degrees : ℚ) ≤ ⌊decimal⌋ := by exact_mod_cast hfloor
      linarith
    · have hdecimal := Int.floor_lt.mp hfloor
      linarith
  · intro hle
    have hfloor : ⌊decimal⌋ < degrees + 1 := by
      rw [Int.floor_lt]
      push_cast
      linarith
    have hfloor' : (⌊decimal⌋ : ℚ) ≤ degrees := by exact_mod_cast Int.lt_add_one_iff.mp hfloor
    linarith

/-- The printed coordinate stays in the window of its degree, the carry to 60
minutes included. -/
theorem roundTo_coordinate_mem (precision : ℕ) (decimal : ℚ) :
    ((⌊decimal⌋ * 100 : ℤ) : ℚ) ≤ roundTo precision (coordinate decimal) ∧
      roundTo precision (coordinate decimal) ≤ ((⌊decimal⌋ * 100 + 60 : ℤ) : ℚ) :=
  ⟨le_roundTo precision (le_coordinate decimal),
    roundTo_le precision (coordinate_lt decimal).le⟩

/-- No printed coordinate is the error value of the decoder. -/
theorem roundTo_coordinate_ne_neg_one (precision : ℕ) (decimal : ℚ) :
    roundTo precision (coordinate decimal) ≠ -1 := by
  obtain ⟨hlow, hhigh⟩ := roundTo_coordinate_mem precision decimal
  intro hsentinel
  rw [hsentinel] at hlow hhigh
  have hlow' : ⌊decimal⌋ * 100 ≤ -1 := by exact_mod_cast hlow
  have hhigh' : -1 ≤ ⌊decimal⌋ * 100 + 60 := by exact_mod_cast hhigh
  omega

/-- A field that holds its whole text reads as the printed number. -/
theorem atof_field {width precision : ℕ} (hprecision : 0 < precision) {x : ℚ}
    (hfits : (formatFixed width precision x).length ≤ width) :
    atof (field width precision x) = roundTo precision x := by
  rw [field, List.take_of_length_le hfits, atof_formatFixed hprecision]

/-- A field is the whole text of a number that prints within the places there are. -/
theorem field_eq_formatFixed_iff {width precision : ℕ} (places : ℕ) (hprecision : 0 < precision)
    (hplaces : 0 < places) (hwidth : width = places + 1 + precision) {x : ℚ} (hx : 0 ≤ x) :
    field width precision x = formatFixed width precision x ↔
      x < 10 ^ places - 1 / 2 / 10 ^ precision := by
  subst hwidth
  have hround := roundTo_lt_iff hprecision (10 ^ places) x
  push_cast at hround
  rw [field, List.take_eq_self_iff, length_formatFixed_le_iff hprecision hplaces le_rfl hx, hround]

/-- A field reads as the printed number, or was cut and still reads as a number of all the
digits there is room for, as does the printed number. -/
theorem atof_field_cases {width precision : ℕ} (places : ℕ) (hprecision : 0 < precision)
    (hplaces : 1 < places) (hwidth : width = places + 1 + precision) {x : ℚ} (hx : 0 ≤ x) :
    atof (field width precision x) = roundTo precision x ∨
      (10 ^ places ≤ atof (field width precision x) ∧ 10 ^ places ≤ roundTo precision x) := by
  subst hwidth
  have hlength : (formatFixed (places + 1 + precision) precision x).length ≤
      places + 1 + precision ↔ roundTo precision x < 10 ^ places :=
    length_formatFixed_le_iff hprecision (by omega) le_rfl hx
  rcases Nat.lt_or_ge (places + 1 + precision)
    (formatFixed (places + 1 + precision) precision x).length with hlong | hfits
  · have hread := le_atof_take_formatFixed hprecision (by omega) hx hlong
    have hplaces' : places + 1 + precision - precision - 1 = places := by omega
    rw [hplaces'] at hread
    refine Or.inr ⟨hread, not_lt.mp fun hsmall => ?_⟩
    exact absurd (hlength.mpr hsmall) (not_le.mpr hlong)
  · exact Or.inl (atof_field hprecision hfits)

/-- A field reads below a bound when the number prints below it: a number too large
for the field does not become small by being cut. -/
theorem atof_field_lt_iff {width precision : ℕ} (places bound : ℕ)
    (hprecision : 0 < precision) (hplaces : 1 < places) (hwidth : width = places + 1 + precision)
    (hbound : bound ≤ 10 ^ places) {x : ℚ} (hx : 0 ≤ x) :
    atof (field width precision x) < bound ↔ x < bound - 1 / 2 / 10 ^ precision := by
  have hround := roundTo_lt_iff hprecision bound x
  have hbound' : (bound : ℚ) ≤ 10 ^ places := by exact_mod_cast hbound
  push_cast at hround
  rw [← hround]
  rcases atof_field_cases places hprecision hplaces hwidth hx with hread | ⟨hread, hprinted⟩
  · rw [hread]
  · exact iff_of_false (not_lt.mpr (hbound'.trans hread)) (not_lt.mpr (hbound'.trans hprinted))

theorem atof_field_le_iff {width precision : ℕ} (places bound : ℕ)
    (hprecision : 0 < precision) (hplaces : 1 < places) (hwidth : width = places + 1 + precision)
    (hbound : bound < 10 ^ places) {x : ℚ} (hx : 0 ≤ x) :
    atof (field width precision x) ≤ bound ↔ x ≤ bound + 1 / 2 / 10 ^ precision := by
  have hround := roundTo_le_iff hprecision bound x
  have hbound' : (bound : ℚ) < 10 ^ places := by exact_mod_cast hbound
  push_cast at hround
  rw [← hround]
  rcases atof_field_cases places hprecision hplaces hwidth hx with hread | ⟨hread, hprinted⟩
  · rw [hread]
  · exact iff_of_false (not_le.mpr (hbound'.trans_le hread))
      (not_le.mpr (hbound'.trans_le hprinted))

/-- No coordinate field reads as the error value, whether its text was cut or not. -/
theorem atof_field_coordinate_ne_neg_one {width precision : ℕ} (hprecision : 0 < precision)
    (hwidth : precision + 3 ≤ width) (decimal : ℚ) :
    atof (field width precision (coordinate decimal)) ≠ -1 := by
  rcases Nat.lt_or_ge width (formatFixed width precision (coordinate decimal)).length with
    hlong | hfits
  · intro hsentinel
    have hlarge := atof_take_formatFixed hprecision hwidth hlong
    rw [field] at hsentinel
    rw [hsentinel] at hlarge
    norm_num at hlarge
  · rw [atof_field hprecision hfits]
    exact roundTo_coordinate_ne_neg_one precision decimal

end Embsys.Gps
