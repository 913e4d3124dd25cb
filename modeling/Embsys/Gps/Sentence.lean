/-
# The documented sentence forms

A GLL sentence gives each coordinate as unsigned degrees and minutes with two
decimals, the sign as a letter. This module states that form, as a value of a
type that only holds sentences of the form, and settles when the frames of the
simulator have it: the coordinate must not be negative, and its minutes must not
print as 60.

A VTG sentence gives four numbers, each with its unit. The frames of the simulator
never have that form: the unit of the speed in knots is overwritten, and what
follows it stands two places too early.
-/

import Mathlib.Tactic.NormNum
import Embsys.Gps.Coordinate

namespace Embsys.Gps

open Embsys.Math Embsys.C

/-- Degrees on `width` places and minutes on two, from hundredths of a minute. -/
def ddmm (width degrees minutes : ℕ) : List Char :=
  padded width degrees ++ padded 2 (minutes / 100) ++ '.' :: padded 2 (minutes % 100)

/-- An unsigned coordinate of the form with its hemisphere, the minutes in
hundredths. -/
structure Angle (width : ℕ) where
  degrees : ℕ
  minutes : ℕ
  /-- South or west. -/
  negative : Bool
  degrees_lt : degrees < 10 ^ width
  minutes_lt : minutes < 6000

def Angle.text {width : ℕ} (angle : Angle width) : List Char :=
  ddmm width angle.degrees angle.minutes

/-- The signed decimal degrees an angle stands for. -/
def Angle.value {width : ℕ} (angle : Angle width) : ℚ :=
  (if angle.negative then -1 else 1) * (angle.degrees + angle.minutes / 100 / 60)

/-- `$GPGLL,ddmm.mm,N|S,dddmm.mm,E|W,hhmmss,A`. -/
structure GllSentence where
  latitude : Angle 2
  longitude : Angle 3
  timeinfo : Tm

def GllSentence.text (sentence : GllSentence) : List Char :=
  gllText sentence.latitude.text (if sentence.latitude.negative then 'S' else 'N')
    sentence.longitude.text (if sentence.longitude.negative then 'W' else 'E')
    (dateText sentence.timeinfo)

/-! ## Texts of the form -/

theorem isDigit_or_point_of_mem_ddmm {width degrees minutes : ℕ} {c : Char}
    (hc : c ∈ ddmm width degrees minutes) : c.isDigit ∨ c = '.' := by
  simp only [ddmm, List.mem_append, List.mem_cons] at hc
  rcases hc with (hdegrees | hwhole) | rfl | hhundredths
  · exact Or.inl (allDigits_padded _ _ c hdegrees)
  · exact Or.inl (allDigits_padded _ _ c hwhole)
  · exact Or.inr rfl
  · exact Or.inl (allDigits_padded _ _ c hhundredths)

/-- Degrees and whole minutes are one number in the printed coordinate. -/
theorem ddmm_eq {width degrees minutes : ℕ} (hwidth : 0 < width)
    (hdegrees : degrees < 10 ^ width) (hminutes : minutes < 6000) :
    ddmm width degrees minutes =
      padded (width + 2) (degrees * 10 ^ 2 + minutes / 100) ++ '.' :: padded 2 (minutes % 100) := by
  rw [padded_add hwidth (by decide) hdegrees (by omega), ddmm]

theorem length_padded_hundredths (n : ℕ) : (padded 2 (n % 100)).length = 2 :=
  length_padded_of_lt (by decide) (Nat.mod_lt _ (by decide))

theorem length_ddmm {width degrees minutes : ℕ} (hwidth : 0 < width)
    (hdegrees : degrees < 10 ^ width) (hminutes : minutes < 6000) :
    (ddmm width degrees minutes).length = width + 5 := by
  rw [ddmm, List.length_append, List.length_append, List.length_cons,
    length_padded_of_lt hwidth hdegrees, length_padded_of_lt (by decide) (by omega),
    length_padded_hundredths]

/-- A coordinate of the form reads as the number it prints. -/
theorem atof_ddmm {width degrees minutes : ℕ} (hminutes : minutes < 6000) :
    atof (ddmm width degrees minutes) = degrees * 100 + (minutes : ℚ) / 100 := by
  have hwhole : digitsValue (padded width degrees ++ padded 2 (minutes / 100)) =
      degrees * 100 + minutes / 100 := by
    rw [digitsValue_append, length_padded_of_lt (by decide) (by omega)]
    simp
  have hread := atof_decimal false
    (allDigits_append.mpr ⟨allDigits_padded width degrees, allDigits_padded 2 (minutes / 100)⟩)
    (List.append_ne_nil_of_left_ne_nil (padded_ne_nil _ _) _)
    (allDigits_padded 2 (minutes % 100))
  rw [length_padded_hundredths, digitsValue_padded, hwhole] at hread
  have hsplit : (minutes : ℚ) = 100 * (minutes / 100 : ℕ) + (minutes % 100 : ℕ) := by
    exact_mod_cast (Nat.div_add_mod minutes 100).symm
  calc atof (ddmm width degrees minutes)
      = ((degrees * 100 + minutes / 100 : ℕ) : ℚ) + (minutes % 100 : ℕ) / 10 ^ 2 := by
        simpa [ddmm] using hread
    _ = degrees * 100 + (minutes : ℚ) / 100 := by
        rw [hsplit]
        push_cast
        ring

/-! ## When the simulator's fields have the form -/

/-- The coordinate field of the form for a decimal angle: the absolute value in
hundredths of a minute, rounded, and then cut into degrees and minutes. -/
def ddmmOf (width : ℕ) (decimal : ℚ) : List Char :=
  let hundredths := scaled 2 (decimal * 60)
  ddmm width (hundredths / 6000) (hundredths % 6000)

/-- The condition under which the printed coordinate has the form. -/
def PrintsMinutes (decimal : ℚ) : Prop :=
  0 ≤ decimal ∧ 60 * (decimal - ⌊decimal⌋) < 59.995

/-- The sign of a negative coordinate stays in its field. -/
theorem field_coordinate_ne_of_neg {width : ℕ} (hwidth : 0 < width) {decimal : ℚ}
    (hneg : decimal < 0) (text : List Char) (htext : ∀ c ∈ text, c.isDigit ∨ c = '.') :
    field width 2 (coordinate decimal) ≠ text := by
  have hcoordinate := (coordinate_neg_iff decimal).mpr hneg
  have hsign : '-' ∈ field width 2 (coordinate decimal) := by
    obtain ⟨n, rfl⟩ : ∃ n, width = n + 1 := ⟨width - 1, by omega⟩
    rw [field, formatFixed_eq (by decide), signText, if_pos hcoordinate]
    simp
  rintro rfl
  rcases htext '-' hsign with hdigit | hpoint
  · exact absurd hdigit (by decide)
  · exact absurd hpoint (by decide)

/-- The hundredths of a minute that are printed, with the whole degrees apart. -/
theorem scaled_coordinate {decimal : ℚ} (hnonneg : 0 ≤ decimal) :
    ∃ degrees minutes : ℕ, (degrees : ℤ) = ⌊decimal⌋ ∧ minutes ≤ 6000 ∧
      scaled 2 (coordinate decimal) = degrees * 10000 + minutes ∧
      scaled 2 (decimal * 60) = degrees * 6000 + minutes ∧
      (minutes < 6000 ↔ 60 * (decimal - ⌊decimal⌋) < 59.995) := by
  have hfract := Int.fract_nonneg decimal
  have hfract' := Int.fract_lt_one decimal
  have hsplit := Int.floor_add_fract decimal
  obtain ⟨degrees, hdegrees⟩ := Int.eq_ofNat_of_zero_le (Int.floor_nonneg.mpr hnonneg)
  have hrounded : 0 ≤ roundEven (Int.fract decimal * 6000) :=
    roundEven_nonneg (by positivity)
  obtain ⟨minutes, hminutes⟩ := Int.eq_ofNat_of_zero_le hrounded
  have hcoordinate : coordinate decimal * 10 ^ 2 =
      Int.fract decimal * 6000 + ((2 * (5000 * degrees) : ℤ) : ℚ) := by
    rw [coordinate_eq, hdegrees]
    push_cast
    ring
  have hsixty : decimal * 60 * 10 ^ 2 =
      Int.fract decimal * 6000 + ((2 * (3000 * degrees) : ℤ) : ℚ) := by
    conv_lhs => rw [← hsplit, hdegrees]
    push_cast
    ring
  refine ⟨degrees, minutes, hdegrees.symm, ?_, ?_, ?_, ?_⟩
  · have hle : roundEven (Int.fract decimal * 6000) ≤ 6000 :=
      roundEven_le (by push_cast; linarith)
    omega
  · rw [scaled, abs_of_nonneg (coordinate_nonneg hnonneg), hcoordinate, roundEven_add_two_mul,
      hminutes]
    omega
  · rw [scaled, abs_of_nonneg (by positivity), hsixty, roundEven_add_two_mul, hminutes]
    omega
  · have hcarry := even_le_roundEven_iff (n := 6000) (by decide) (Int.fract decimal * 6000)
    rw [hminutes] at hcarry
    rw [Int.self_sub_floor, ← not_le, ← not_le, not_iff_not]
    have hcast : 6000 ≤ minutes ↔ (6000 : ℤ) ≤ minutes := by omega
    rw [hcast, hcarry]
    push_cast
    constructor <;> intro <;> linarith

/-- A coordinate that is not negative fills its field without a cut. -/
theorem field_coordinate_of_nonneg {width degrees minutes : ℕ} {decimal : ℚ}
    (hnonneg : 0 ≤ coordinate decimal) (hdegrees : degrees < 10 ^ width)
    (hminutes : minutes ≤ 6000)
    (hscaled : scaled 2 (coordinate decimal) = degrees * 10000 + minutes) :
    (formatFixed (width + 5) 2 (coordinate decimal)).length ≤ width + 5 ∧
      field (width + 5) 2 (coordinate decimal) =
        padded (width + 2) (degrees * 10 ^ 2 + minutes / 100) ++
          '.' :: padded 2 (minutes % 100) := by
  have hwhole : (degrees * 10000 + minutes) / 10 ^ 2 = degrees * 10 ^ 2 + minutes / 100 := by omega
  have hfraction : (degrees * 10000 + minutes) % 10 ^ 2 = minutes % 100 := by omega
  have htext : formatFixed (width + 5) 2 (coordinate decimal) =
      padded (width + 2) (degrees * 10 ^ 2 + minutes / 100) ++
        '.' :: padded 2 (minutes % 100) := by
    rw [formatFixed_eq (by decide), signText, if_neg (not_lt.mpr hnonneg), hscaled, hwhole,
      hfraction]
    rfl
  have hlength : (formatFixed (width + 5) 2 (coordinate decimal)).length = width + 5 := by
    have hpow : 10 ^ (width + 2) = 10 ^ width * 100 := by rw [pow_add]; rfl
    rw [htext, List.length_append, List.length_cons,
      length_padded_of_lt (by omega) (by rw [hpow]; omega), length_padded_hundredths]
  exact ⟨hlength.le, by rw [field, List.take_of_length_le hlength.le, htext]⟩

/-- **Form of one coordinate field.** -/
theorem field_coordinate_eq_ddmmOf_iff {width : ℕ} (hwidth : 0 < width) {decimal : ℚ}
    (hbound : decimal < 10 ^ width) :
    field (width + 5) 2 (coordinate decimal) = ddmmOf width decimal ↔ PrintsMinutes decimal := by
  by_cases hnonneg : 0 ≤ decimal
  · obtain ⟨degrees, minutes, hfloor, hle, hcoordinate, hsixty, hcarry⟩ :=
      scaled_coordinate hnonneg
    have hdegrees : degrees < 10 ^ width := by
      have hlt : ⌊decimal⌋ < ((10 ^ width : ℕ) : ℤ) :=
        Int.floor_lt.mpr (by exact_mod_cast hbound)
      omega
    have hpositive := coordinate_nonneg hnonneg
    obtain ⟨hfits, htext⟩ :=
      field_coordinate_of_nonneg hpositive hdegrees hle hcoordinate
    rw [PrintsMinutes, ← hcarry, and_iff_right hnonneg, ddmmOf, hsixty]
    constructor
    · intro hform
      by_contra hlarge
      -- At 60 minutes the two texts read as numbers 40 apart.
      obtain rfl : minutes = 6000 := by omega
      have hread := congrArg atof hform
      have hdegree : (degrees * 6000 + 6000) / 6000 = degrees + 1 := by omega
      have hminute : (degrees * 6000 + 6000) % 6000 = 0 := by omega
      rw [atof_field (by decide) hfits, roundTo_eq_scaled, if_neg (not_lt.mpr hpositive),
        hcoordinate] at hread
      simp only [hdegree, hminute] at hread
      rw [atof_ddmm (by decide)] at hread
      push_cast at hread
      linarith
    · intro hminutes
      have hdegree : (degrees * 6000 + minutes) / 6000 = degrees := by omega
      have hminute : (degrees * 6000 + minutes) % 6000 = minutes := by omega
      simp only [hdegree, hminute]
      rw [htext, ddmm_eq hwidth hdegrees hminutes]
  · have hneg := not_le.mp hnonneg
    refine iff_of_false ?_ fun hform => hnonneg hform.1
    exact field_coordinate_ne_of_neg (by omega) hneg _ fun c hc =>
      isDigit_or_point_of_mem_ddmm hc

/-- **Form of a frame.** Within the range of positions the two coordinate fields
have the documented form exactly when neither coordinate is negative and neither
prints 60 minutes. -/
theorem nmeaGll_wellFormed_iff {latitude longitude : ℚ} (timeinfo : Tm)
    (hlat : -90 ≤ latitude ∧ latitude ≤ 90) (hlon : -180 ≤ longitude ∧ longitude ≤ 180) :
    (load (nmeaGll latitude longitude timeinfo) 7 7 = ddmmOf 2 latitude ∧
        load (nmeaGll latitude longitude timeinfo) 17 8 = ddmmOf 3 longitude) ↔
      PrintsMinutes latitude ∧ PrintsMinutes longitude := by
  have hlat' : latitude < 10 ^ 2 := lt_of_le_of_lt hlat.2 (by norm_num)
  have hlon' : longitude < 10 ^ 3 := lt_of_le_of_lt hlon.2 (by norm_num)
  rw [load_nmeaGll_lat, load_nmeaGll_lon]
  exact and_congr (field_coordinate_eq_ddmmOf_iff (by decide) hlat')
    (field_coordinate_eq_ddmmOf_iff (by decide) hlon')

theorem nmeaGll_wellFormed_northEast :
    (load (nmeaGll (481 / 10) (9 / 2) firstTime) 7 7 = ddmmOf 2 (481 / 10) ∧
        load (nmeaGll (481 / 10) (9 / 2) firstTime) 17 8 = ddmmOf 3 (9 / 2)) ↔
      PrintsMinutes (481 / 10) ∧ PrintsMinutes (9 / 2) :=
  nmeaGll_wellFormed_iff firstTime (by norm_num) (by norm_num)

/-- South of the equator the sign takes the place of a digit. -/
theorem not_forall_nmeaGll_wellFormed :
    ¬ ∀ (latitude longitude : ℚ) (timeinfo : Tm), -90 ≤ latitude ∧ latitude ≤ 90 →
      -180 ≤ longitude ∧ longitude ≤ 180 →
      load (nmeaGll latitude longitude timeinfo) 7 7 = ddmmOf 2 latitude ∧
        load (nmeaGll latitude longitude timeinfo) 17 8 = ddmmOf 3 longitude := by
  intro h
  have hsouth := (h (-9 / 2) (9 / 2) firstTime (by norm_num) (by norm_num)).1
  exact absurd hsouth (by decide +kernel)

/-! ## VTG -/

/-- `$GPVTG,ccc.c,T,ccc.c,M,sss.s,N,kkk.k,K`, the four numbers rounded to one decimal
and padded to five characters. -/
def vtgSentence (courseReal courseMagn speedKnot speedKmh : ℚ) : List Char :=
  ['$', 'G', 'P', 'V', 'T', 'G', ','] ++ formatFixed 5 1 courseReal ++ [',', 'T', ','] ++
    formatFixed 5 1 courseMagn ++ [',', 'M', ','] ++ formatFixed 5 1 speedKnot ++
    [',', 'N', ','] ++ formatFixed 5 1 speedKmh ++ [',', 'K']

theorem nul_notMem_vtgSentence (courseReal courseMagn speedKnot speedKmh : ℚ) :
    nul ∉ vtgSentence courseReal courseMagn speedKnot speedKmh := by
  have hnumber : ∀ x : ℚ, nul ∉ formatFixed 5 1 x := by
    intro x hmem
    rcases mem_formatFixed (by decide) hmem with hdigit | hpoint | hminus
    · exact absurd hdigit (by decide)
    · exact absurd hpoint (by decide)
    · exact absurd hminus (by decide)
  have hname : nul ∉ ['$', 'G', 'P', 'V', 'T', 'G', ','] := by decide
  have htrue : nul ∉ [',', 'T', ','] := by decide
  have hmagnetic : nul ∉ [',', 'M', ','] := by decide
  have hknots : nul ∉ [',', 'N', ','] := by decide
  have hkmh : nul ∉ [',', 'K'] := by decide
  simp only [vtgSentence, List.mem_append, not_or]
  exact ⟨⟨⟨⟨⟨⟨⟨⟨hname, hnumber _⟩, htrue⟩, hnumber _⟩, hmagnetic⟩, hnumber _⟩, hknots⟩, hnumber _⟩,
    hkmh⟩

/-- **No VTG frame has the form.** Whatever the numbers are, terminators are left at
the end of the frame. -/
theorem nmeaVtg_ne_vtgSentence (courseReal courseMagn speedKnot : ℚ) :
    nmeaVtg courseReal courseMagn speedKnot ≠
        vtgSentence courseReal courseMagn speedKnot (knotToKmh * speedKnot) ∧
      nul ∈ nmeaVtg courseReal courseMagn speedKnot := by
  have hnul : nul ∈ nmeaVtg courseReal courseMagn speedKnot := by
    rw [nmeaVtg_eq, vtgText]
    simp
  refine ⟨fun hform => ?_, hnul⟩
  rw [hform] at hnul
  exact nul_notMem_vtgSentence _ _ _ _ hnul

/-- The frame of the simulator's first iteration. -/
theorem not_forall_nmeaVtg_eq_vtgSentence :
    ¬ ∀ courseReal courseMagn speedKnot : ℚ, 0 ≤ courseReal ∧ courseReal < 360 →
      0 ≤ courseMagn ∧ courseMagn < 360 → 0 ≤ speedKnot ∧ 1.852 * speedKnot < 999.95 →
      nmeaVtg courseReal courseMagn speedKnot =
          vtgSentence courseReal courseMagn speedKnot (1.852 * speedKnot) ∧
        nul ∉ nmeaVtg courseReal courseMagn speedKnot := by
  intro h
  have hfirst := (h 54.7 34.4 5.5 (by norm_num) (by norm_num) (by norm_num)).1
  exact absurd hfirst (by decide +kernel)

end Embsys.Gps
