/-
# What the decoder accepts

Every text has the places of an accepted one or is left alone, and an accepted text
changes shared memory unless a field reads as the value the decoder uses for errors.
Sentences of the documented form are such texts, and so are texts with any header,
separators or status. As any text can stand in a field, the decoder is followed here with
all values of its float fields: an infinity and NaN differ from the error value and are
stored. Where neither is read, it is the decoder in the rationals.
-/

import Embsys.ShmWriter.Decoder

namespace Embsys.ShmWriter

open Embsys.Math Embsys.C Embsys.Gps

/-! ## The decoder with infinities and NaN -/

/-- The record in shared memory with whatever its float fields can hold. -/
structure FloatShdata where
  latitude : FloatValue
  longitude : FloatValue
  time : ℤ
  deriving DecidableEq

/-- The record of a new segment. -/
def FloatShdata.zero : FloatShdata := ⟨.finite 0, .finite 0, 0⟩

def FloatShdata.rational (shdata : FloatShdata) : Shdata where
  latitude  := shdata.latitude.rational
  longitude := shdata.longitude.rational
  time      := shdata.time

/-- `get_latitude`. -/
def getLatitudeFloat (frame : List Char) : FloatValue :=
  if isGll frame = 0 then
    let latStr := load frame 7 7 ++ [nul]
    strtod (cstr latStr)
  else .finite (-1)

/-- `get_longitude`. -/
def getLongitudeFloat (frame : List Char) : FloatValue :=
  if isGll frame = 0 then
    let longStr := load frame 17 8 ++ [nul]
    strtod (cstr longStr)
  else .finite (-1)

/-- `decode_frame`. -/
def decodeFrameFloat (frame : List Char) : Option FloatShdata :=
  if isGll frame = 0 then
    let time := getTime frame
    let latitude := getLatitudeFloat frame
    let longitude := getLongitudeFloat frame
    -- NaN compares unequal to everything
    if time ≠ -1 ∧ latitude ≠ .finite (-1) ∧ longitude ≠ .finite (-1) then
      some ⟨latitude, longitude, time⟩
    else none
  else none

example : decodeFrameFloat ("XXXGLL,nan    ,N,    -inf,W,  12ab,A".toList ++ [nul]) =
    some ⟨.nan, .inf true, 12⟩ := by
  decide +kernel

/-- No other value is the error value in the rationals. -/
theorem FloatValue.rational_eq_neg_one_iff (value : FloatValue) :
    value.rational = -1 ↔ value = .finite (-1) := by
  cases value <;> simp [FloatValue.rational]

/-- **The two decoders.** The decoder in the rationals stores the same records, with 0 in
place of an infinity or NaN. -/
theorem decodeFrame_eq_map (frame : List Char) :
    decodeFrame frame = (decodeFrameFloat frame).map FloatShdata.rational := by
  have hlatitude : (getLatitudeFloat frame).rational = getLatitude frame := by
    unfold getLatitudeFloat getLatitude
    split_ifs
    · exact rational_strtod _
    · rfl
  have hlongitude : (getLongitudeFloat frame).rational = getLongitude frame := by
    unfold getLongitudeFloat getLongitude
    split_ifs
    · exact rational_strtod _
    · rfl
  unfold decodeFrame decodeFrameFloat
  simp only [← hlatitude, ← hlongitude, ne_eq, FloatValue.rational_eq_neg_one_iff]
  split_ifs <;> rfl

namespace Slots

/-- No field reads as the value the decoder returns for a text that is not a frame. -/
def Readable (slots : Slots) : Prop :=
  atoi slots.date ≠ -1 ∧ strtod slots.lat ≠ .finite (-1) ∧ strtod slots.lon ≠ .finite (-1)

instance (slots : Slots) : Decidable slots.Readable :=
  inferInstanceAs (Decidable (_ ∧ _))

def fix (slots : Slots) : FloatShdata where
  latitude  := strtod slots.lat
  longitude := strtod slots.lon
  time      := atoi slots.date

/-- Whatever follows the terminator, the fields are read from their places. -/
theorem decodeFrameFloat_text (slots : Slots) (hnul : nul ∉ slots.text) (rest : List Char) :
    decodeFrameFloat (slots.text ++ nul :: rest) =
      if slots.Readable then some slots.fix else none := by
  obtain ⟨hname, hlat, hlon, hdate⟩ := slots.load_text (nul :: rest)
  have hstrlen : strlen (slots.text ++ nul :: rest) = nmeaGllSize := by
    rw [strlen, cstr_append_nul hnul, slots.length_text]
  have hgll := (isGll_eq_zero_iff _).mpr ⟨hstrlen, hname⟩
  have hlatNul : nul ∉ slots.lat := fun hmem => hnul (by simp [text, hmem])
  have hlonNul : nul ∉ slots.lon := fun hmem => hnul (by simp [text, hmem])
  have hdateNul : nul ∉ slots.date := fun hmem => hnul (by simp [text, hmem])
  simp only [decodeFrameFloat, getTime, getLatitudeFloat, getLongitudeFloat, hgll, if_true, hlat,
    hlon, hdate]
  rw [cstr_append_nul hdateNul, cstr_append_nul hlatNul, cstr_append_nul hlonNul]
  rfl

end Slots

/-- Texts with other places are left alone. -/
theorem exists_slots_of_decodeFrameFloat {text rest : List Char} {record : FloatShdata}
    (hnul : nul ∉ text) (hstored : decodeFrameFloat (text ++ nul :: rest) = some record) :
    ∃ slots : Slots, slots.text = text := by
  have hgll : isGll (text ++ nul :: rest) = 0 := by
    by_contra hother
    simp [decodeFrameFloat, hother] at hstored
  obtain ⟨hlength, hname⟩ := (isGll_eq_zero_iff _).mp hgll
  rw [strlen, cstr_append_nul hnul] at hlength
  apply Slots.exists_text_eq hlength
  rw [← hname, load, load, List.drop_append_of_le_length, List.take_append_of_le_length]
  · rw [List.length_drop, hlength]
    decide
  · rw [hlength]
    decide

/-! ## The record after a text -/

/-- Shared memory after `decode_frame` was given a buffer. -/
def published (shdata : FloatShdata) (frame : List Char) : FloatShdata :=
  (decodeFrameFloat frame).getD shdata

/-- Digits, the point and two more digits. -/
def IsCoordinate (digits : ℕ) (text : List Char) : Prop :=
  ∃ whole fraction, text = whole ++ '.' :: fraction ∧
    AllDigits whole ∧ whole.length = digits ∧ AllDigits fraction ∧ fraction.length = 2

/-- `$GPGLL,ddmm.mm,N|S,dddmm.mm,E|W,hhmmss,A` with any digits in their places. -/
def WellFormed (text : List Char) : Prop :=
  ∃ lat northSouth lon eastWest date, text = gllText lat northSouth lon eastWest date ∧
    IsCoordinate 4 lat ∧ northSouth ∈ ['N', 'S'] ∧ IsCoordinate 5 lon ∧ eastWest ∈ ['E', 'W'] ∧
    AllDigits date ∧ date.length = 6

theorem IsCoordinate.length_eq {digits : ℕ} {text : List Char} (h : IsCoordinate digits text) :
    text.length = digits + 3 := by
  obtain ⟨whole, fraction, rfl, -, hwhole, -, hfraction⟩ := h
  rw [List.length_append, List.length_cons, hwhole, hfraction]

/-- A coordinate of digits is not read as the error value. -/
theorem IsCoordinate.strtod_ne {digits : ℕ} {text : List Char} (hdigits : 0 < digits)
    (h : IsCoordinate digits text) : strtod text ≠ .finite (-1) := by
  obtain ⟨whole, fraction, rfl, hwhole, hlength, hfraction, -⟩ := h
  have hne : whole ≠ [] := List.ne_nil_of_length_pos (hlength ▸ hdigits)
  have hread := atof_decimal false hwhole hne hfraction
  have hnonneg : (0 : ℚ) ≤ atof (whole ++ '.' :: fraction) := by
    simp only [Bool.false_eq_true, if_false, List.nil_append] at hread
    rw [hread]
    positivity
  rw [ne_eq, ← FloatValue.rational_eq_neg_one_iff, rational_strtod]
  linarith

/-- A well-formed sentence has the places and its fields can be read. -/
theorem WellFormed.exists_slots {text : List Char} (h : WellFormed text) :
    ∃ slots : Slots, slots.text = text ∧ slots.Readable := by
  obtain ⟨lat, northSouth, lon, eastWest, date, rfl, hlat, -, hlon, -, hdigits, hdate⟩ := h
  obtain ⟨slots, htext, rfl, rfl, rfl⟩ := exists_slots_gllText hlat.length_eq hlon.length_eq hdate
  refine ⟨slots, htext, ?_, hlat.strtod_ne (by decide), hlon.strtod_ne (by decide)⟩
  rw [atoi_digits hdigits]
  omega

/-- **What is published.** A text changes shared memory only if it has the places of an
accepted text and no field reads as the error value; then its fields are stored as they
read. Every well-formed sentence is such a text. -/
theorem published_exact {text : List Char} (hnul : nul ∉ text) (rest : List Char)
    (shdata : FloatShdata) :
    (∀ slots : Slots, slots.text = text → slots.Readable →
        published shdata (text ++ nul :: rest) = slots.fix) ∧
      ((¬ ∃ slots : Slots, slots.text = text ∧ slots.Readable) →
        published shdata (text ++ nul :: rest) = shdata) ∧
      (WellFormed text → ∃ slots : Slots, slots.text = text ∧ slots.Readable) := by
  refine ⟨?_, ?_, WellFormed.exists_slots⟩
  · rintro slots rfl hreadable
    rw [published, slots.decodeFrameFloat_text hnul, if_pos hreadable, Option.getD_some]
  · intro hother
    cases hstored : decodeFrameFloat (text ++ nul :: rest) with
    | none => rw [published, hstored, Option.getD_none]
    | some record =>
        obtain ⟨slots, rfl⟩ := exists_slots_of_decodeFrameFloat hnul hstored
        rw [slots.decodeFrameFloat_text hnul, if_neg fun h => hother ⟨slots, rfl, h⟩] at hstored
        cases hstored

/-- The documented sentence with this status. -/
def withStatus (status : Char) : List Char :=
  "$GPGLL,4916.45,N,12311.12,W,225444,".toList ++ [status]

theorem published_exact_valid :
    (∀ slots : Slots, slots.text = withStatus 'A' → slots.Readable →
        published .zero (withStatus 'A' ++ nul :: zeroed 13) = slots.fix) ∧
      ((¬ ∃ slots : Slots, slots.text = withStatus 'A' ∧ slots.Readable) →
        published .zero (withStatus 'A' ++ nul :: zeroed 13) = .zero) ∧
      (WellFormed (withStatus 'A') →
        ∃ slots : Slots, slots.text = withStatus 'A' ∧ slots.Readable) :=
  published_exact (by decide) (zeroed 13) .zero

/-- A fix that is declared void is published all the same. -/
theorem not_forall_published_wellFormed :
    ¬ ∀ (text rest : List Char) (shdata : FloatShdata), nul ∉ text →
      published shdata (text ++ nul :: rest) ≠ shdata → WellFormed text := by
  intro h
  have hdecoded : decodeFrameFloat (withStatus 'V' ++ nul :: zeroed 13) =
      some ⟨.finite (491645 / 100), .finite (1231112 / 100), 225444⟩ := by
    decide +kernel
  have hchanged : published .zero (withStatus 'V' ++ nul :: zeroed 13) ≠ .zero := by
    rw [published, hdecoded, Option.getD_some]
    intro heq
    exact absurd (congrArg FloatShdata.time heq) (by decide)
  have hnul : nul ∉ withStatus 'V' := by decide
  obtain ⟨lat, northSouth, lon, eastWest, date, htext, -⟩ :=
    h (withStatus 'V') (zeroed 13) .zero hnul hchanged
  have hvoid : (withStatus 'V').getLast? = some 'V' := List.getLast?_concat
  have hvalid : (gllText lat northSouth lon eastWest date).getLast? = some 'A' := by
    rw [gllText, List.getLast?_append_of_ne_nil _ (List.cons_ne_nil _ _)]
    rfl
  rw [htext, hvalid] at hvoid
  exact absurd hvoid (by decide)

end Embsys.ShmWriter
