/-
# Accuracy from the simulator to the forwarder

The three programs agree on offsets, padding and the degree-minute convention:
a frame delivered whole is stored, and the message built from the stored record
carries the digits of the time and both coordinates, each with one error from
the two printed decimals of a minute and one from the four of the message.
-/

import Mathlib.Tactic.NormNum
import Embsys.ShmWriter.Soundness
import Embsys.Forwarder.Convert

namespace Embsys.Pipeline

open Embsys.Math Embsys.C Embsys.Gps Embsys.ShmWriter Embsys.Forwarder

/-- The error of one coordinate over the whole pipeline. -/
theorem abs_atof_toDecimal_sub_le {width : ℕ} (decimal : ℚ)
    (hfits : (formatFixed width 2 (coordinate decimal)).length ≤ width) :
    |atof (formatFixed 0 4 (toDecimal (atof (field width 2 (coordinate decimal))))) - decimal| ≤
      0.005 / 60 + 0.00005 := by
  rw [atof_field (by decide) hfits, atof_formatFixed (by decide)]
  have hprinted := abs_roundTo_sub_le 2 (coordinate decimal)
  have hmessage := abs_roundTo_sub_le 4 (toDecimal (roundTo 2 (coordinate decimal)))
  have hconverted : |toDecimal (roundTo 2 (coordinate decimal)) - decimal| ≤ 0.005 / 60 := by
    rw [toDecimal_roundTo_coordinate, abs_div, abs_of_pos (by norm_num : (0 : ℚ) < 60)]
    refine div_le_div_of_nonneg_right (hprinted.trans ?_) (by norm_num)
    norm_num
  calc |roundTo 4 (toDecimal (roundTo 2 (coordinate decimal))) - decimal|
      ≤ |roundTo 4 (toDecimal (roundTo 2 (coordinate decimal))) -
            toDecimal (roundTo 2 (coordinate decimal))| +
          |toDecimal (roundTo 2 (coordinate decimal)) - decimal| := abs_sub_le _ _ _
    _ ≤ 1 / 2 / 10 ^ 4 + 0.005 / 60 := add_le_add hmessage hconverted
    _ = 0.005 / 60 + 0.00005 := by norm_num

/-- The time of a message has the digits of the frame. -/
theorem formatInt_atoi_dateText (timeinfo : Tm) :
    formatInt 6 (atoi (dateText timeinfo)) = dateText timeinfo := by
  have hdigits := allDigits_dateText timeinfo
  have hlength := length_dateText timeinfo
  rw [atoi_digits hdigits, formatInt_natCast, ← hlength]
  apply padded_digitsValue hdigits
  rintro hnil
  rw [hnil] at hlength
  exact absurd hlength (by decide)

/-- A message splits at its slashes into the three texts it is made of. -/
theorem splitOn_forward {decimalCoord : DecimalCoord} (htime : 0 ≤ decimalCoord.time) :
    (forward decimalCoord).splitOn '/' =
      [formatInt 6 decimalCoord.time, formatFixed 0 4 decimalCoord.latitude,
        formatFixed 0 4 decimalCoord.longitude] := by
  have hfixed : ∀ x : ℚ, '/' ∉ formatFixed 0 4 x := by
    intro x hmem
    rcases mem_formatFixed (by decide) hmem with hdigit | hpoint | hminus
    · exact absurd hdigit (by decide)
    · exact absurd hpoint (by decide)
    · exact absurd hminus (by decide)
  have htext : '/' ∉ formatInt 6 decimalCoord.time := by
    obtain ⟨n, hn⟩ := Int.eq_ofNat_of_zero_le htime
    rw [hn]
    intro hmem
    rw [formatInt_natCast] at hmem
    exact absurd (allDigits_padded 6 n '/' hmem) (by decide)
  have hforward : forward decimalCoord = ['/'].intercalate
      [formatInt 6 decimalCoord.time, formatFixed 0 4 decimalCoord.latitude,
        formatFixed 0 4 decimalCoord.longitude] := by
    simp [forward, List.intercalate]
  rw [hforward]
  refine List.splitOn_intercalate _ ?_ (List.cons_ne_nil _ _)
  simp [htext, hfixed]

/-- **End-to-end accuracy.** A frame whose coordinates fit their fields is stored
when it is delivered whole, and the message built from the record carries its time
digits and both positions within the error of the printed decimals. -/
theorem forward_accurate (latitude longitude : ℚ) (timeinfo : Tm)
    (hlat : (formatFixed 7 2 (coordinate latitude)).length ≤ 7)
    (hlon : (formatFixed 8 2 (coordinate longitude)).length ≤ 8) :
    ∃ record, decodeFrame (fill (nmeaGll latitude longitude timeinfo)) = some record ∧
      ∃ timeText latText lonText,
        (forward (convert record)).splitOn '/' = [timeText, latText, lonText] ∧
          timeText = load (nmeaGll latitude longitude timeinfo) 28 6 ∧
          |atof latText - latitude| ≤ 0.005 / 60 + 0.00005 ∧
          |atof lonText - longitude| ≤ 0.005 / 60 + 0.00005 := by
  have hstored := decodeFrame_fill_nmeaGll latitude longitude timeinfo
  rw [decoded_gll] at hstored
  have htime : 0 ≤ atoi (dateText timeinfo) := by
    rw [atoi_digits (allDigits_dateText timeinfo)]
    exact Int.natCast_nonneg _
  refine ⟨_, hstored, _, _, _, splitOn_forward htime, ?_, ?_, ?_⟩
  · rw [load_nmeaGll_date]
    exact formatInt_atoi_dateText timeinfo
  · exact abs_atof_toDecimal_sub_le latitude hlat
  · exact abs_atof_toDecimal_sub_le longitude hlon

/-- South and west included: the coordinate of a negative angle fits its field too. -/
theorem forward_accurate_southWest :
    ∃ record, decodeFrame (fill (nmeaGll (-19 / 2) (-9 / 2) firstTime)) = some record ∧
      ∃ timeText latText lonText,
        (forward (convert record)).splitOn '/' = [timeText, latText, lonText] ∧
          timeText = load (nmeaGll (-19 / 2) (-9 / 2) firstTime) 28 6 ∧
          |atof latText - (-19 / 2)| ≤ 0.005 / 60 + 0.00005 ∧
          |atof lonText - (-9 / 2)| ≤ 0.005 / 60 + 0.00005 :=
  forward_accurate (-19 / 2) (-9 / 2) firstTime (by decide +kernel) (by decide +kernel)

end Embsys.Pipeline
