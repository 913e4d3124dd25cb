/-
# The size of a message

The buffer of a message has 22 bytes, which is the length of the form the source
gives for it and leaves no room for the terminator. A message needs a byte more
for every further digit of its degrees, so whether it fits depends on the two
degrees alone: a position east of ten degrees fits only near the equator.
-/

import Embsys.Pipeline.Accuracy

namespace Embsys.Pipeline

open Embsys.C Embsys.Gps Embsys.ShmWriter Embsys.Forwarder

/-- `sizeof(message)`. -/
def messageSize : ℕ := 22

/-- The text of a coordinate in a message. -/
def shown (width : ℕ) (decimal : ℚ) : List Char :=
  formatFixed 0 4 (toDecimal (atof (field width 2 (coordinate decimal))))

/-- The message made from a frame of the simulator. -/
theorem forward_decoded (latitude longitude : ℚ) (timeinfo : Tm) :
    ∃ record, decodeFrame (fill (nmeaGll latitude longitude timeinfo)) = some record ∧
      forward (convert record) =
        formatInt 6 (atoi (dateText timeinfo)) ++ ['/'] ++ shown 7 latitude ++ ['/'] ++
          shown 8 longitude := by
  have hstored := decodeFrame_fill_nmeaGll latitude longitude timeinfo
  rw [decoded_gll] at hstored
  exact ⟨_, hstored, rfl⟩

/-- A coordinate that has no more degrees than its field has room for fits its field. -/
theorem length_coordinate_le (degrees : ℕ) {decimal : ℚ} (hnonneg : 0 ≤ decimal)
    (hbound : decimal < 10 ^ degrees) :
    (formatFixed (degrees + 2 + 1 + 2) 2 (coordinate decimal)).length ≤ degrees + 2 + 1 + 2 := by
  have hfloor : ⌊decimal⌋ + 1 ≤ 10 ^ degrees :=
    Int.add_one_le_of_lt (Int.floor_lt.mpr (by exact_mod_cast hbound))
  rw [length_formatFixed_le_iff (by decide) (by omega) le_rfl (coordinate_nonneg hnonneg)]
  have hfloor' : (⌊decimal⌋ : ℚ) + 1 ≤ 10 ^ degrees := by exact_mod_cast hfloor
  have hwindow := (roundTo_coordinate_mem 2 decimal).2
  push_cast at hwindow
  rw [pow_add]
  linarith

/-- A coordinate that is not negative and has no more degrees than its field has room
for is shown with at most `places` digits of degrees exactly below the next power of
ten, the carry of the minutes counted. -/
theorem length_shown_le_iff {width : ℕ} (degrees places : ℕ) (hplaces : 0 < places)
    (hwidth : width = degrees + 2 + 1 + 2) {decimal : ℚ} (hnonneg : 0 ≤ decimal)
    (hbound : decimal < 10 ^ degrees) :
    (shown width decimal).length ≤ places + 1 + 4 ↔
      60 * decimal < 60 * 10 ^ places - 0.005 := by
  subst hwidth
  have hfits := length_coordinate_le degrees hnonneg hbound
  have hshown : 0 ≤ toDecimal (roundTo 2 (coordinate decimal)) := by
    refine le_trans ?_ (floor_le_toDecimal_roundTo_coordinate 2 decimal)
    exact_mod_cast Int.floor_nonneg.mpr hnonneg
  have hbelow := roundTo_toDecimal_lt_iff decimal (10 ^ places)
  push_cast at hbelow
  rw [shown, atof_field (by decide) hfits,
    length_formatFixed_le_iff (by decide) hplaces (Nat.zero_le _) hshown, hbelow]

/-- A text of four decimals has a digit of degrees, the point and its decimals. -/
theorem six_le_length_shown (width : ℕ) (decimal : ℚ) : 6 ≤ (shown width decimal).length :=
  lt_length_formatFixed (by decide) _

/-- **Messages that fit.** A message of a position on the northern and eastern quarter
of the globe fits its buffer with its terminator exactly when the longitude is shown
below ten degrees, or the latitude below ten and the longitude below a hundred. -/
theorem forward_fits_iff {latitude longitude : ℚ} (timeinfo : Tm)
    (hlat : 0 ≤ latitude ∧ latitude ≤ 90) (hlon : 0 ≤ longitude ∧ longitude ≤ 180) :
    (∃ record, decodeFrame (fill (nmeaGll latitude longitude timeinfo)) = some record ∧
        (sprintf (forward (convert record))).length ≤ messageSize) ↔
      60 * longitude < 599.995 ∨ (60 * latitude < 599.995 ∧ 60 * longitude < 5999.995) := by
  obtain ⟨record, hstored, hmessage⟩ := forward_decoded latitude longitude timeinfo
  have hlat' : latitude < 10 ^ 2 := hlat.2.trans_lt (by norm_num)
  have hlon' : longitude < 10 ^ 3 := hlon.2.trans_lt (by norm_num)
  have htime : (formatInt 6 (atoi (dateText timeinfo))).length = 6 := by
    rw [formatInt_atoi_dateText, length_dateText]
  have hlength : (sprintf (forward (convert record))).length =
      (shown 7 latitude).length + (shown 8 longitude).length + 9 := by
    rw [hmessage]
    simp only [sprintf, List.length_append, List.length_singleton, htime]
    omega
  -- How many digits of degrees each text can have, and the longitudes and latitudes of each count.
  have hlatOne : (shown 7 latitude).length ≤ 6 ↔ 60 * latitude < 599.995 :=
    (length_shown_le_iff 2 1 (by decide) rfl hlat.1 hlat').trans (by norm_num)
  have hlatTwo : (shown 7 latitude).length ≤ 7 :=
    (length_shown_le_iff 2 2 (by decide) rfl hlat.1 hlat').mpr (by linarith [hlat.2])
  have hlonOne : (shown 8 longitude).length ≤ 6 ↔ 60 * longitude < 599.995 :=
    (length_shown_le_iff 3 1 (by decide) rfl hlon.1 hlon').trans (by norm_num)
  have hlonTwo : (shown 8 longitude).length ≤ 7 ↔ 60 * longitude < 5999.995 :=
    (length_shown_le_iff 3 2 (by decide) rfl hlon.1 hlon').trans (by norm_num)
  have hlatLeast := six_le_length_shown 7 latitude
  have hlonLeast := six_le_length_shown 8 longitude
  rw [← hlatOne, ← hlonOne, ← hlonTwo]
  constructor
  · rintro ⟨record', hstored', hsize⟩
    obtain rfl : record' = record := Option.some.inj (hstored'.symm.trans hstored)
    rw [hlength, messageSize] at hsize
    omega
  · intro hshort
    refine ⟨record, hstored, ?_⟩
    rw [hlength, messageSize]
    omega

/-- At the position the simulator starts from the message fits to the last byte. -/
theorem forward_fits_start :
    ∃ record, decodeFrame (fill (nmeaGll (48608958 / 1000000) (7682288 / 1000000) firstTime)) =
        some record ∧ (sprintf (forward (convert record))).length ≤ messageSize :=
  (forward_fits_iff firstTime (by norm_num) (by norm_num)).mpr (by norm_num)

/-- East of ten degrees a message of the northern half overruns its buffer. -/
theorem not_forall_forward_fits :
    ¬ ∀ (latitude longitude : ℚ) (timeinfo : Tm), 0 ≤ latitude ∧ latitude ≤ 90 →
      0 ≤ longitude ∧ longitude ≤ 180 →
      ∃ record, decodeFrame (fill (nmeaGll latitude longitude timeinfo)) = some record ∧
        (sprintf (forward (convert record))).length ≤ messageSize := by
  intro h
  obtain ⟨record, hrecord, hsize⟩ :=
    h (492742 / 10000) (1231853 / 10000) firstTime (by norm_num) (by norm_num)
  have hdecoded : decodeFrame (fill (nmeaGll (492742 / 10000) (1231853 / 10000) firstTime)) =
      some ⟨491645 / 100, 1231112 / 100, 123519⟩ := by
    decide +kernel
  rw [hdecoded] at hrecord
  rw [← Option.some.inj hrecord] at hsize
  exact absurd hsize (by decide +kernel)

end Embsys.Pipeline
