/-
# The NMEA frames of the simulator

`nmeaGll` and `nmeaVtg` build their frames by writes into a zeroed array: every
field is formatted into a local string and copied with its terminator, which
lands on the next separator and is repaired by a later write. The two layout
theorems compose these writes in order and give each frame as one text, whatever
the values of the fields are. Floating-point values are exact rationals, and the
local arrays that hold the formatted fields are as long as the text needs.
-/

import Embsys.C.Stdio

namespace Embsys.Gps

open Embsys.Math Embsys.C

/-! ## Sizes and fixed texts -/

def nmeaLatSize : ℕ := 8
def nmeaLongSize : ℕ := 9
def nmeaCourseSize : ℕ := 6
def nmeaSpeedSize : ℕ := 6
def nmeaHeader : List Char := ['$', 'G', 'P']
def nmeaSeparator : Char := ','
def nmeaFrameGll : List Char := ['G', 'L', 'L']
def nmeaGllSize : ℕ := 36
def nmeaFrameVtg : List Char := ['V', 'T', 'G']
def nmeaVtgSize : ℕ := 38
def knotToKmh : ℚ := 1852 / 1000

/-! ## Field formatting -/

/-- The broken-down local time. A leap second makes `tmSec` reach 60. -/
structure Tm where
  tmHour : ℕ
  tmMin : ℕ
  tmSec : ℕ
  tmHour_lt : tmHour < 24
  tmMin_lt : tmMin < 60
  tmSec_le : tmSec ≤ 60

/-- Two successive times of day, for examples. -/
def firstTime : Tm := ⟨12, 35, 19, by decide, by decide, by decide⟩

def secondTime : Tm := ⟨12, 35, 20, by decide, by decide, by decide⟩

/-- The string in `kmh_str` and the integer returned. -/
def knotToKmhStr (knot : ℚ) (size : ℕ) (format : ℚ → List Char) : List Char × ℤ :=
  let kmh := knotToKmh * knot
  (snprintf size (format kmh), truncate kmh)

def currentDateStr (timeinfo : Tm) : List Char :=
  sprintf (formatInt 2 timeinfo.tmHour ++ formatInt 2 timeinfo.tmMin ++
    formatInt 2 timeinfo.tmSec)

/-- The degree-minute coordinate `dddmm.mm` of a decimal one, as a number. -/
def coordinate (decimal : ℚ) : ℚ :=
  let deg := ⌊decimal⌋
  let min := (decimal - deg) * 60
  deg * 100 + min

/-- The string in `str` and the integer returned. -/
def decimalToStr (decimal : ℚ) (size : ℕ) (format : ℚ → List Char) : List Char × ℤ :=
  let coord := coordinate decimal
  (snprintf size (format coord), truncate coord)

/-! ## Frames -/

/-- The frame left in `gll->frame` for the decimal latitude and longitude. -/
def nmeaGll (latitude longitude : ℚ) (timeinfo : Tm) : List Char :=
  let frame := zeroed nmeaGllSize
  let frame := memcpy frame 0 nmeaHeader
  let frame := memcpy frame 3 nmeaFrameGll
  let frame := store frame 6 nmeaSeparator
  let (latStr, lat) := decimalToStr latitude nmeaLatSize (formatFixed 7 2)
  let frame := memcpy frame 7 latStr
  let frame := store frame 14 nmeaSeparator
  let frame := if lat < 0 then store frame 15 'S' else store frame 15 'N'
  let frame := store frame 16 nmeaSeparator
  let (longStr, lon) := decimalToStr longitude nmeaLongSize (formatFixed 8 2)
  let frame := memcpy frame 17 longStr
  let frame := store frame 25 nmeaSeparator
  let frame := if lon < 0 then store frame 26 'W' else store frame 26 'E'
  let frame := store frame 27 nmeaSeparator
  let dateStr := currentDateStr timeinfo
  let frame := memcpy frame 28 dateStr
  let frame := store frame 34 nmeaSeparator
  store frame 35 'A'

/-- The frame left in `vtg->frame` (GPS_OK build). The separator after the knots
is written twice at offset 28, so the kilometres field starts at 29, over the
unit letter. -/
def nmeaVtg (courseReal courseMagn speedKnot : ℚ) : List Char :=
  let frame := zeroed nmeaVtgSize
  let frame := memcpy frame 0 nmeaHeader
  let frame := memcpy frame 3 nmeaFrameVtg
  let frame := store frame 6 nmeaSeparator
  let courseRealStr := snprintf nmeaCourseSize (formatFixed 5 1 courseReal)
  let frame := memcpy frame 7 courseRealStr
  let frame := store frame 12 nmeaSeparator
  let frame := store frame 13 'T'
  let frame := store frame 14 nmeaSeparator
  let courseMagnStr := snprintf nmeaCourseSize (formatFixed 5 1 courseMagn)
  let frame := memcpy frame 15 courseMagnStr
  let frame := store frame 20 nmeaSeparator
  let frame := store frame 21 'M'
  let frame := store frame 22 nmeaSeparator
  let speedKnotStr := snprintf nmeaSpeedSize (formatFixed 5 1 speedKnot)
  let frame := memcpy frame 23 speedKnotStr
  let frame := store frame 28 nmeaSeparator
  let frame := store frame 29 'N'
  let frame := store frame 28 nmeaSeparator
  let (speedKmhStr, _) := knotToKmhStr speedKnot nmeaSpeedSize (formatFixed 5 1)
  let frame := memcpy frame 29 speedKmhStr
  let frame := store frame 34 nmeaSeparator
  store frame 35 'K'

/-! ## Layout -/

/-- The field of `width` characters that `snprintf` leaves of a fixed-point text. -/
def field (width precision : ℕ) (x : ℚ) : List Char :=
  (formatFixed width precision x).take width

/-- The six characters of the time of day. -/
def dateText (timeinfo : Tm) : List Char :=
  padded 2 timeinfo.tmHour ++ padded 2 timeinfo.tmMin ++ padded 2 timeinfo.tmSec

/-- A GLL sentence with the given fields. -/
def gllText (lat : List Char) (northSouth : Char) (lon : List Char) (eastWest : Char)
    (date : List Char) : List Char :=
  ['$', 'G', 'P', 'G', 'L', 'L', ','] ++ lat ++ [',', northSouth, ','] ++ lon ++
    [',', eastWest, ','] ++ date ++ [',', 'A']

/-- A VTG frame as the code leaves it, two terminators at its end. -/
def vtgText (courseReal courseMagn speedKnot speedKmh : List Char) : List Char :=
  ['$', 'G', 'P', 'V', 'T', 'G', ','] ++ courseReal ++ [',', 'T', ','] ++ courseMagn ++
    [',', 'M', ','] ++ speedKnot ++ [','] ++ speedKmh ++ [',', 'K', nul, nul]

section Sentence

variable {lat lon date : List Char} {northSouth eastWest : Char}

theorem length_gllText (hlat : lat.length = 7) (hlon : lon.length = 8) (hdate : date.length = 6) :
    (gllText lat northSouth lon eastWest date).length = nmeaGllSize := by
  simp [gllText, hlat, hlon, hdate, nmeaGllSize]

theorem load_gllText_lat (hlat : lat.length = 7) {rest : List Char} :
    load (gllText lat northSouth lon eastWest date ++ rest) 7 7 = lat := by
  have hsplit : gllText lat northSouth lon eastWest date ++ rest =
      ['$', 'G', 'P', 'G', 'L', 'L', ','] ++ (lat ++ ([',', northSouth, ','] ++ lon ++
        [',', eastWest, ','] ++ date ++ [',', 'A'] ++ rest)) := by simp [gllText]
  rw [hsplit]
  exact load_append rfl hlat

theorem load_gllText_lon (hlat : lat.length = 7) (hlon : lon.length = 8) {rest : List Char} :
    load (gllText lat northSouth lon eastWest date ++ rest) 17 8 = lon := by
  have hsplit : gllText lat northSouth lon eastWest date ++ rest =
      (['$', 'G', 'P', 'G', 'L', 'L', ','] ++ lat ++ [',', northSouth, ',']) ++ (lon ++
        ([',', eastWest, ','] ++ date ++ [',', 'A'] ++ rest)) := by simp [gllText]
  rw [hsplit]
  exact load_append (by simp [hlat]) hlon

theorem load_gllText_date (hlat : lat.length = 7) (hlon : lon.length = 8)
    (hdate : date.length = 6) {rest : List Char} :
    load (gllText lat northSouth lon eastWest date ++ rest) 28 6 = date := by
  have hsplit : gllText lat northSouth lon eastWest date ++ rest =
      (['$', 'G', 'P', 'G', 'L', 'L', ','] ++ lat ++ [',', northSouth, ','] ++ lon ++
        [',', eastWest, ',']) ++ (date ++ ([',', 'A'] ++ rest)) := by simp [gllText]
  rw [hsplit]
  exact load_append (by simp [hlat, hlon]) hdate

end Sentence

theorem length_field (width precision : ℕ) (x : ℚ) : (field width precision x).length = width := by
  rw [field, List.length_take]
  exact Nat.min_eq_left (le_length_formatFixed width precision x)

theorem mem_field {width precision : ℕ} (hprecision : 0 < precision) {x : ℚ} {c : Char}
    (hc : c ∈ field width precision x) : c.isDigit ∨ c = '.' ∨ c = '-' :=
  mem_formatFixed hprecision (List.mem_of_mem_take hc)

theorem snprintf_formatFixed (width precision : ℕ) (x : ℚ) :
    snprintf (width + 1) (formatFixed width precision x) = field width precision x ++ [nul] :=
  rfl

theorem length_dateText (timeinfo : Tm) : (dateText timeinfo).length = 6 := by
  have hhour := timeinfo.tmHour_lt
  have hmin := timeinfo.tmMin_lt
  have hsec := timeinfo.tmSec_le
  simp only [dateText, List.length_append]
  rw [length_padded_of_lt (by decide) (by omega), length_padded_of_lt (by decide) (by omega),
    length_padded_of_lt (by decide) (by omega)]

theorem allDigits_dateText (timeinfo : Tm) : AllDigits (dateText timeinfo) :=
  allDigits_append.mpr ⟨allDigits_append.mpr ⟨allDigits_padded _ _, allDigits_padded _ _⟩,
    allDigits_padded _ _⟩

theorem currentDateStr_eq (timeinfo : Tm) :
    currentDateStr timeinfo = dateText timeinfo ++ [nul] := by
  simp only [currentDateStr, sprintf, formatInt_natCast, dateText]

/-- The hemisphere letter of the latitude, chosen by the integer `decimal_to_str` returns. -/
def northSouth (latitude : ℚ) : Char :=
  if truncate (coordinate latitude) < 0 then 'S' else 'N'

def eastWest (longitude : ℚ) : Char :=
  if truncate (coordinate longitude) < 0 then 'W' else 'E'

theorem ite_store (p : Prop) [Decidable p] (buffer : List Char) (offset : ℕ) (c d : Char) :
    (if p then store buffer offset c else store buffer offset d) =
      store buffer offset (if p then c else d) := by
  split_ifs <;> rfl

/-- **Layout of GLL frames.** All writes of `nmea_gll` composed. -/
theorem nmeaGll_eq (latitude longitude : ℚ) (timeinfo : Tm) :
    nmeaGll latitude longitude timeinfo =
      gllText (field 7 2 (coordinate latitude)) (northSouth latitude)
        (field 8 2 (coordinate longitude)) (eastWest longitude) (dateText timeinfo) := by
  have hlat := length_field 7 2 (coordinate latitude)
  have hlon := length_field 8 2 (coordinate longitude)
  have hdate := length_dateText timeinfo
  have hns : (if (decimalToStr latitude nmeaLatSize (formatFixed 7 2)).2 < 0 then 'S' else 'N') =
      northSouth latitude := rfl
  have hew : (if (decimalToStr longitude nmeaLongSize (formatFixed 8 2)).2 < 0 then 'W' else 'E') =
      eastWest longitude := rfl
  simp only [nmeaGll, ite_store, hns, hew]
  simp only [decimalToStr, nmeaLatSize, nmeaLongSize, snprintf_formatFixed, currentDateStr_eq]
  generalize northSouth latitude = ns
  generalize eastWest longitude = ew
  generalize field 7 2 (coordinate latitude) = lat at hlat ⊢
  generalize field 8 2 (coordinate longitude) = lon at hlon ⊢
  generalize dateText timeinfo = date at hdate ⊢
  match lat, lon, date, hlat, hlon, hdate with
  | [_, _, _, _, _, _, _], [_, _, _, _, _, _, _, _], [_, _, _, _, _, _], _, _, _ =>
      simp [memcpy, store, zeroed, gllText, nmeaGllSize, nmeaHeader, nmeaFrameGll, nmeaSeparator,
        List.replicate]

theorem load_nmeaGll_lat (latitude longitude : ℚ) (timeinfo : Tm) :
    load (nmeaGll latitude longitude timeinfo) 7 7 = field 7 2 (coordinate latitude) := by
  rw [nmeaGll_eq, ← List.append_nil (gllText _ _ _ _ _)]
  exact load_gllText_lat (length_field _ _ _)

theorem load_nmeaGll_lon (latitude longitude : ℚ) (timeinfo : Tm) :
    load (nmeaGll latitude longitude timeinfo) 17 8 = field 8 2 (coordinate longitude) := by
  rw [nmeaGll_eq, ← List.append_nil (gllText _ _ _ _ _)]
  exact load_gllText_lon (length_field _ _ _) (length_field _ _ _)

theorem load_nmeaGll_date (latitude longitude : ℚ) (timeinfo : Tm) :
    load (nmeaGll latitude longitude timeinfo) 28 6 = dateText timeinfo := by
  rw [nmeaGll_eq, ← List.append_nil (gllText _ _ _ _ _)]
  exact load_gllText_date (length_field _ _ _) (length_field _ _ _) (length_dateText timeinfo)

/-- **Layout of VTG frames.** All writes of `nmea_vtg` composed. -/
theorem nmeaVtg_eq (courseReal courseMagn speedKnot : ℚ) :
    nmeaVtg courseReal courseMagn speedKnot =
      vtgText (field 5 1 courseReal) (field 5 1 courseMagn) (field 5 1 speedKnot)
        (field 5 1 (knotToKmh * speedKnot)) := by
  have hreal := length_field 5 1 courseReal
  have hmagn := length_field 5 1 courseMagn
  have hknot := length_field 5 1 speedKnot
  have hkmh := length_field 5 1 (knotToKmh * speedKnot)
  simp only [nmeaVtg, knotToKmhStr, nmeaCourseSize, nmeaSpeedSize, snprintf_formatFixed]
  generalize field 5 1 courseReal = real at hreal ⊢
  generalize field 5 1 courseMagn = magn at hmagn ⊢
  generalize field 5 1 speedKnot = knot at hknot ⊢
  generalize field 5 1 (knotToKmh * speedKnot) = kmh at hkmh ⊢
  match real, magn, knot, kmh, hreal, hmagn, hknot, hkmh with
  | [_, _, _, _, _], [_, _, _, _, _], [_, _, _, _, _], [_, _, _, _, _], _, _, _, _ =>
      simp [memcpy, store, zeroed, vtgText, nmeaVtgSize, nmeaHeader, nmeaFrameVtg, nmeaSeparator,
        List.replicate]

/-- Where the four numbers of a VTG frame stand. -/
theorem load_nmeaVtg (courseReal courseMagn speedKnot : ℚ) :
    load (nmeaVtg courseReal courseMagn speedKnot) 7 5 = field 5 1 courseReal ∧
      load (nmeaVtg courseReal courseMagn speedKnot) 15 5 = field 5 1 courseMagn ∧
      load (nmeaVtg courseReal courseMagn speedKnot) 23 5 = field 5 1 speedKnot ∧
      load (nmeaVtg courseReal courseMagn speedKnot) 29 5 =
        field 5 1 (knotToKmh * speedKnot) := by
  have hreal := length_field 5 1 courseReal
  have hmagn := length_field 5 1 courseMagn
  have hknot := length_field 5 1 speedKnot
  have hkmh := length_field 5 1 (knotToKmh * speedKnot)
  rw [nmeaVtg_eq]
  generalize field 5 1 courseReal = real at hreal ⊢
  generalize field 5 1 courseMagn = magn at hmagn ⊢
  generalize field 5 1 speedKnot = knot at hknot ⊢
  generalize field 5 1 (knotToKmh * speedKnot) = kmh at hkmh ⊢
  match real, magn, knot, kmh, hreal, hmagn, hknot, hkmh with
  | [_, _, _, _, _], [_, _, _, _, _], [_, _, _, _, _], [_, _, _, _, _], _, _, _, _ =>
      exact ⟨rfl, rfl, rfl, rfl⟩

end Embsys.Gps
