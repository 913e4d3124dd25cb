/-
# The time gps_reader reads

gps_reader has its own copy of the decoder: `get_time` fills a string of its caller and
returns the number in it. It accepts what shm_writer accepts and reads the same number.
On the frames of the simulator that number is the time of day, so two frames compare as
their times do, whatever their positions.
-/

import Embsys.ShmWriter.Soundness

namespace Embsys.GpsReader

open Embsys.C Embsys.Gps Embsys.Math

/-! ## util.c -/

def isGll (frame : List Char) : ℤ :=
  if strlen frame = nmeaGllSize then
    let id := load frame 3 3 ++ [nul]
    if cstr id = ['G', 'L', 'L'] then 0 else 1
  else 1

/-- The value returned, and `time_str` as the call leaves it. -/
def getTime (frame timeStr : List Char) : ℤ × List Char :=
  if isGll frame = 0 then
    let timeStr := memcpy timeStr 0 (load frame 28 6)
    let timeStr := store timeStr 6 nul
    (atoi (cstr timeStr), timeStr)
  else (-1, timeStr)

/-! ## Two copies of one decoder -/

/-- Both programs accept the same frames. -/
theorem isGll_eq (frame : List Char) : isGll frame = ShmWriter.isGll frame := rfl

/-- An accepted frame has its six characters of time, none of them a terminator. -/
theorem load_time_of_isGll {frame : List Char} (hgll : isGll frame = 0) :
    (load frame 28 6).length = 6 ∧ nul ∉ load frame 28 6 := by
  obtain ⟨hlength, -⟩ := (ShmWriter.isGll_eq_zero_iff frame).mp hgll
  obtain ⟨hlong, hnul, -⟩ := strlen_eq_iff.mp hlength
  have hsize : 28 + 6 ≤ nmeaGllSize := by decide
  constructor
  · rw [load, List.length_take, List.length_drop]
    exact Nat.min_eq_left (Nat.le_sub_of_add_le' (Nat.le_trans hsize hlong))
  · exact ShmWriter.nul_notMem_load hnul hsize

/-- What `get_time` leaves of an accepted frame: six characters and the terminator, and
the number they read as. -/
theorem getTime_of_isGll {frame : List Char} (hgll : isGll frame = 0) (timeStr : List Char) :
    getTime frame timeStr =
      (atoi (load frame 28 6), load frame 28 6 ++ nul :: timeStr.drop 7) := by
  obtain ⟨hlength, hnul⟩ := load_time_of_isGll hgll
  have htime : store (memcpy timeStr 0 (load frame 28 6)) 6 nul =
      load frame 28 6 ++ nul :: timeStr.drop 7 := by
    simp [store, memcpy, hlength, List.drop_append]
  simp only [getTime, hgll, if_true, htime, cstr_append_nul hnul]

/-- Both programs read the same number, from any frame. -/
theorem getTime_fst (frame timeStr : List Char) :
    (getTime frame timeStr).1 = ShmWriter.getTime frame := by
  by_cases hgll : isGll frame = 0
  · have hnul := (load_time_of_isGll hgll).2
    have hgll' : ShmWriter.isGll frame = 0 := hgll
    simp only [getTime_of_isGll hgll, ShmWriter.getTime, hgll', if_true, cstr_append_nul hnul]
  · rw [getTime, if_neg hgll, ShmWriter.getTime, if_neg (isGll_eq frame ▸ hgll)]

/-! ## The frames of the simulator -/

/-- The simulator's GLL frame is accepted in a reader's buffer. -/
theorem isGll_fill_gll (latitude longitude : ℚ) (timeinfo : Tm) :
    isGll (ShmWriter.fill (Frame.gll latitude longitude timeinfo).bytes) = 0 := by
  apply ShmWriter.isGll_fill_of_storedBy
  rw [ShmWriter.storedBy_bytes, ShmWriter.decoded_gll, Option.isSome_some]

/-- The time stands where `get_time` takes it from. -/
theorem load_time_fill_gll (latitude longitude : ℚ) (timeinfo : Tm) :
    load (ShmWriter.fill (Frame.gll latitude longitude timeinfo).bytes) 28 6 =
      dateText timeinfo := by
  rw [ShmWriter.fill_eq, Frame.bytes, nmeaGll_eq]
  exact load_gllText_date (length_field _ _ _) (length_field _ _ _) (length_dateText timeinfo)

/-- The digits of a time of day are hours, minutes and seconds side by side. -/
theorem digitsValue_dateText (timeinfo : Tm) :
    digitsValue (dateText timeinfo) =
      timeinfo.tmHour * 10000 + timeinfo.tmMin * 100 + timeinfo.tmSec := by
  have hmin : (padded 2 timeinfo.tmMin).length = 2 :=
    length_padded_of_lt (by decide) (Nat.lt_trans timeinfo.tmMin_lt (by decide))
  have hsec : (padded 2 timeinfo.tmSec).length = 2 :=
    length_padded_of_lt (by decide) (Nat.lt_of_le_of_lt timeinfo.tmSec_le (by decide))
  rw [dateText, digitsValue_append, digitsValue_append, digitsValue_padded, digitsValue_padded,
    digitsValue_padded, hmin, hsec]
  ring

/-- **The time of a frame.** From a GLL frame alone in the buffer `get_time` takes the time of
day, as text and as number; the bytes of the caller's string behind the text stay. -/
theorem getTime_gll (latitude longitude : ℚ) (timeinfo : Tm) {timeStr : List Char}
    (hsize : 7 ≤ timeStr.length) :
    getTime (ShmWriter.fill (Frame.gll latitude longitude timeinfo).bytes) timeStr =
        ((digitsValue (dateText timeinfo) : ℤ), dateText timeinfo ++ nul :: timeStr.drop 7) ∧
      (dateText timeinfo ++ nul :: timeStr.drop 7).length = timeStr.length := by
  have hgll := isGll_fill_gll latitude longitude timeinfo
  have htime := load_time_fill_gll latitude longitude timeinfo
  constructor
  · rw [getTime_of_isGll hgll, htime, atoi_digits (allDigits_dateText timeinfo)]
  · simp only [List.length_append, List.length_cons, length_dateText, List.length_drop]
    omega

/-- **Frames compare as their times.** The numbers of two frames stand in the order of hours,
then minutes, then seconds, a leap second included. -/
theorem getTime_le_iff (latitude longitude latitude' longitude' : ℚ) (earlier later : Tm)
    {timeStr timeStr' : List Char} (hsize : 7 ≤ timeStr.length) (hsize' : 7 ≤ timeStr'.length) :
    (getTime (ShmWriter.fill (Frame.gll latitude longitude earlier).bytes) timeStr).1 ≤
        (getTime (ShmWriter.fill (Frame.gll latitude' longitude' later).bytes) timeStr').1 ↔
      earlier.tmHour < later.tmHour ∨ earlier.tmHour = later.tmHour ∧
        (earlier.tmMin < later.tmMin ∨ earlier.tmMin = later.tmMin ∧
          earlier.tmSec ≤ later.tmSec) := by
  have hmin := earlier.tmMin_lt
  have hsec := earlier.tmSec_le
  have hmin' := later.tmMin_lt
  have hsec' := later.tmSec_le
  rw [(getTime_gll latitude longitude earlier hsize).1,
    (getTime_gll latitude' longitude' later hsize').1, digitsValue_dateText, digitsValue_dateText]
  omega

/-- A VTG frame has no time: the string of the caller stays as it is. -/
theorem getTime_vtg (courseReal courseMagn speedKnot : ℚ) (timeStr : List Char) :
    getTime (ShmWriter.fill (Frame.vtg courseReal courseMagn speedKnot).bytes) timeStr =
      (-1, timeStr) := by
  have hgll : isGll (ShmWriter.fill (Frame.vtg courseReal courseMagn speedKnot).bytes) ≠ 0 := by
    intro hgll
    obtain ⟨body, hbytes, -⟩ := vtg_bytes courseReal courseMagn speedKnot
    have hname := (ShmWriter.shape_of_isGll_fill hgll).2.1
    simp [hbytes] at hname
  rw [getTime, if_neg hgll]

end Embsys.GpsReader
