/-
# Hemisphere letters through the decoder

The decoder reads the digits of the two coordinate fields and neither letter, so
every sentence of the documented form publishes the position of its northern and
eastern counterpart.
-/

import Embsys.Gps.Sentence
import Embsys.Forwarder.Convert

namespace Embsys.Pipeline

open Embsys.Math Embsys.C Embsys.Gps Embsys.ShmWriter Embsys.Forwarder

theorem length_angle_text {width : ℕ} (hwidth : 0 < width) (angle : Angle width) :
    angle.text.length = width + 5 :=
  length_ddmm hwidth angle.degrees_lt angle.minutes_lt

theorem nul_notMem_gllSentence_text (sentence : GllSentence) : nul ∉ sentence.text := by
  have hangle : ∀ {width : ℕ} (angle : Angle width), nul ∉ angle.text := by
    intro width angle hmem
    rcases isDigit_or_point_of_mem_ddmm hmem with hdigit | hpoint
    · exact absurd hdigit (by decide)
    · exact absurd hpoint (by decide)
  have hdate : nul ∉ dateText sentence.timeinfo := fun hmem =>
    absurd (allDigits_dateText sentence.timeinfo nul hmem) (by decide)
  have hnorth : nul ≠ if sentence.latitude.negative then 'S' else 'N' := by
    split_ifs <;> decide
  have heast : nul ≠ if sentence.longitude.negative then 'W' else 'E' := by
    split_ifs <;> decide
  have hcomma : nul ≠ ',' := by decide
  have hvalid : nul ≠ 'A' := by decide
  have hname : nul ∉ ['$', 'G', 'P', 'G', 'L', 'L', ','] := by decide
  rw [GllSentence.text, gllText]
  simp only [List.mem_append, List.mem_cons, List.not_mem_nil, or_false, not_or] at hname ⊢
  exact ⟨⟨⟨⟨⟨⟨hname, hangle _⟩, hcomma, hnorth, hcomma⟩, hangle _⟩, hcomma, heast, hcomma⟩, hdate⟩,
    hcomma, hvalid⟩

/-- A coordinate of the form is published as its unsigned degrees. -/
theorem toDecimal_atof_angle {width : ℕ} (angle : Angle width) :
    toDecimal (atof angle.text) = angle.degrees + (angle.minutes : ℚ) / 100 / 60 := by
  have hminutes := angle.minutes_lt
  have hsmall : (angle.minutes : ℚ) / 100 < 60 := by
    rw [div_lt_iff₀ (by norm_num)]
    exact_mod_cast (by omega : angle.minutes < 60 * 100)
  have hpos : (0 : ℚ) ≤ (angle.minutes : ℚ) / 100 := by positivity
  rw [Angle.text, atof_ddmm hminutes, toDecimal_of_mem angle.degrees]
  · push_cast
    ring
  · push_cast
    linarith
  · push_cast
    linarith

/-- An angle is not read as the error value. -/
theorem atof_angle_ne {width : ℕ} (angle : Angle width) : atof angle.text ≠ -1 := by
  have hread : (0 : ℚ) ≤ atof angle.text := by
    rw [Angle.text, atof_ddmm angle.minutes_lt]
    positivity
  linarith

/-- A sentence of the form, delivered whole, publishes its position without signs. -/
theorem decodeFrame_fill_sentence (sentence : GllSentence) :
    decodeFrame (fill sentence.text) =
      some ⟨atof sentence.latitude.text, atof sentence.longitude.text,
        atoi (dateText sentence.timeinfo)⟩ := by
  have htime : atoi (dateText sentence.timeinfo) ≠ -1 := by
    rw [atoi_digits (allDigits_dateText sentence.timeinfo)]
    omega
  have hnul := nul_notMem_gllSentence_text sentence
  rw [GllSentence.text] at hnul ⊢
  rw [decodeFrame_fill_gllText (length_angle_text (by decide) _) (length_angle_text (by decide) _)
    (length_dateText _) hnul, fixOf, if_pos ⟨htime, atof_angle_ne _, atof_angle_ne _⟩]

/-- An angle equals its unsigned value only when the sign does not matter. -/
theorem unsigned_eq_value_iff {width : ℕ} (angle : Angle width) :
    angle.degrees + (angle.minutes : ℚ) / 100 / 60 = angle.value ↔
      angle.negative = false ∨ (angle.degrees = 0 ∧ angle.minutes = 0) := by
  have hpos : (0 : ℚ) ≤ angle.degrees := by positivity
  have hpos' : (0 : ℚ) ≤ (angle.minutes : ℚ) / 100 / 60 := by positivity
  cases hnegative : angle.negative with
  | false => simp [Angle.value, hnegative]
  | true =>
      simp only [Angle.value, hnegative, if_true, Bool.true_eq_false, false_or]
      constructor
      · intro heq
        have hdegrees : (angle.degrees : ℚ) = 0 := by linarith
        have hminutes : (angle.minutes : ℚ) = 0 := by linarith
        exact ⟨by exact_mod_cast hdegrees, by exact_mod_cast hminutes⟩
      · rintro ⟨hdegrees, hminutes⟩
        simp [hdegrees, hminutes]

/-- **Hemispheres.** A sentence is stored, and published with its signed position
exactly when each coordinate is north or east, or zero. -/
theorem convert_eq_value_iff (sentence : GllSentence) :
    (∃ record, decodeFrame (fill sentence.text) = some record ∧
        (convert record).latitude = sentence.latitude.value ∧
        (convert record).longitude = sentence.longitude.value) ↔
      (sentence.latitude.negative = false ∨
          (sentence.latitude.degrees = 0 ∧ sentence.latitude.minutes = 0)) ∧
        (sentence.longitude.negative = false ∨
          (sentence.longitude.degrees = 0 ∧ sentence.longitude.minutes = 0)) := by
  rw [decodeFrame_fill_sentence, ← unsigned_eq_value_iff, ← unsigned_eq_value_iff,
    ← toDecimal_atof_angle, ← toDecimal_atof_angle]
  simp [convert]

/-- The sentence `$GPGLL,4916.45,N,12311.12,W,225444,A`. -/
def vancouver : GllSentence where
  latitude := ⟨49, 1645, false, by decide, by decide⟩
  longitude := ⟨123, 1112, true, by decide, by decide⟩
  timeinfo := ⟨22, 54, 44, by decide, by decide, by decide⟩

/-- Its longitude is published as east. -/
theorem not_forall_convert_eq_value :
    ¬ ∀ sentence : GllSentence, ∃ record, decodeFrame (fill sentence.text) = some record ∧
      (convert record).latitude = sentence.latitude.value ∧
      (convert record).longitude = sentence.longitude.value := by
  intro h
  obtain ⟨record, hrecord, -, hlongitude⟩ := h vancouver
  have hdecoded : decodeFrame (fill vancouver.text) =
      some ⟨491645 / 100, 1231112 / 100, 225444⟩ := by
    decide +kernel
  rw [hdecoded] at hrecord
  rw [← Option.some.inj hrecord] at hlongitude
  exact absurd hlongitude (by decide +kernel)

end Embsys.Pipeline
