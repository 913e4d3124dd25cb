/-
# Layout of frames

Every value is printed into a field of fixed size, so all frames of a kind have the
same character, or a character of the same kind, at every offset. A layout lists
what may stand at each offset; whatever can be told from the kinds alone, such as
where the commas and letters of a frame are, is computed from its layout. The
hemisphere letters are the only places that depend on more than that.
-/

import Mathlib.Data.List.Forall2
import Embsys.Gps.Wire
import Embsys.Gps.Coordinate

namespace Embsys.Gps

open Embsys.Math Embsys.C

/-- What may stand at one offset of a frame. -/
inductive Place
  | mark (c : Char)
  | northSouth
  | eastWest
  | number
  deriving DecidableEq

def Place.Allows : Place → Char → Prop
  | mark c, x => x = c
  | northSouth, x => x = 'N' ∨ x = 'S'
  | eastWest, x => x = 'E' ∨ x = 'W'
  | number, x => x.isDigit ∨ x = '.' ∨ x = '-'

/-- The text has an allowed character at every offset of the layout, and no more. -/
abbrev Fits (layout : List Place) (text : List Char) : Prop :=
  List.Forall₂ Place.Allows layout text

def marks (text : List Char) : List Place :=
  text.map Place.mark

def numbers (n : ℕ) : List Place :=
  List.replicate n Place.number

/-- The 36 characters of a GLL frame. -/
def gllLayout : List Place :=
  marks ['$', 'G', 'P', 'G', 'L', 'L', ','] ++ numbers 7 ++ [.mark ',', .northSouth, .mark ','] ++
    numbers 8 ++ [.mark ',', .eastWest, .mark ','] ++ numbers 6 ++ marks [',', 'A']

/-- The 36 characters of a VTG frame in front of its two terminators. -/
def vtgLayout : List Place :=
  marks ['$', 'G', 'P', 'V', 'T', 'G', ','] ++ numbers 5 ++ marks [',', 'T', ','] ++ numbers 5 ++
    marks [',', 'M', ','] ++ numbers 5 ++ marks [','] ++ numbers 5 ++ marks [',', 'K']

theorem fits_marks (text : List Char) : Fits (marks text) text := by
  rw [Fits, marks, List.forall₂_map_left_iff, List.forall₂_same]
  intro c _
  rfl

theorem fits_numbers {text : List Char} {n : ℕ} (hlength : text.length = n)
    (htext : ∀ c ∈ text, Place.number.Allows c) : Fits (numbers n) text := by
  subst hlength
  induction text with
  | nil => exact List.Forall₂.nil
  | cons c text ih =>
      rw [List.forall_mem_cons] at htext
      exact List.Forall₂.cons htext.1 (ih htext.2)

theorem fits_field (width : ℕ) {precision : ℕ} (hprecision : 0 < precision) (x : ℚ) :
    Fits (numbers width) (field width precision x) :=
  fits_numbers (length_field width precision x) fun _ hc => mem_field hprecision hc

theorem fits_dateText (timeinfo : Tm) : Fits (numbers 6) (dateText timeinfo) :=
  fits_numbers (length_dateText timeinfo) fun c hc => Or.inl (allDigits_dateText timeinfo c hc)

theorem Fits.append {first second : List Place} {front back : List Char}
    (hfront : Fits first front) (hback : Fits second back) :
    Fits (first ++ second) (front ++ back) :=
  List.rel_append hfront hback

theorem fits_nmeaGll (latitude longitude : ℚ) (timeinfo : Tm) :
    Fits gllLayout (nmeaGll latitude longitude timeinfo) := by
  have hnorth : Fits [.mark ',', .northSouth, .mark ','] [',', northSouth latitude, ','] := by
    refine .cons rfl (.cons ?_ (.cons rfl .nil))
    unfold northSouth
    split_ifs
    · exact Or.inr rfl
    · exact Or.inl rfl
  have heast : Fits [.mark ',', .eastWest, .mark ','] [',', eastWest longitude, ','] := by
    refine .cons rfl (.cons ?_ (.cons rfl .nil))
    unfold eastWest
    split_ifs
    · exact Or.inr rfl
    · exact Or.inl rfl
  rw [nmeaGll_eq]
  exact (((((fits_marks _).append (fits_field 7 (by decide) _)).append hnorth).append
    (fits_field 8 (by decide) _)).append heast |>.append (fits_dateText timeinfo)).append
      (fits_marks _)

theorem exists_fits_nmeaVtg (courseReal courseMagn speedKnot : ℚ) :
    ∃ body, nmeaVtg courseReal courseMagn speedKnot = body ++ [nul, nul] ∧
      Fits vtgLayout body := by
  have hnumber : ∀ x : ℚ, Fits (numbers 5) (field 5 1 x) := fits_field 5 (by decide)
  refine ⟨_, ?_, ((((((((fits_marks _).append (hnumber courseReal)).append (fits_marks _)).append
    (hnumber courseMagn)).append (fits_marks _)).append (hnumber speedKnot)).append
      (fits_marks _)).append (hnumber (knotToKmh * speedKnot))).append (fits_marks _)⟩
  rw [nmeaVtg_eq, vtgText]
  simp

/-! ## What a layout tells -/

/-- A property of characters that holds of all the characters of a place or of none. -/
structure Uniform (p : Char → Bool) : Prop where
  northSouth : p 'S' = p 'N'
  eastWest : p 'W' = p 'E'
  number : ∀ c, Place.number.Allows c → p c = p '0'

/-- Whether the characters of a place have a uniform property. -/
def Place.test (p : Char → Bool) : Place → Bool
  | mark c => p c
  | northSouth => p 'N'
  | eastWest => p 'E'
  | number => p '0'

theorem Uniform.eq_test {p : Char → Bool} (hp : Uniform p) {place : Place} {c : Char}
    (hc : place.Allows c) : p c = place.test p := by
  cases place with
  | mark => exact congrArg p hc
  | northSouth =>
      rcases hc with rfl | rfl
      · rfl
      · exact hp.northSouth
  | eastWest =>
      rcases hc with rfl | rfl
      · rfl
      · exact hp.eastWest
  | number => exact hp.number c hc

/-- **Offsets from the layout.** The offsets of the characters with a uniform property
are the same in all texts of a layout. -/
theorem Uniform.findIdxs_eq {p : Char → Bool} (hp : Uniform p) {layout : List Place}
    {text : List Char} (hfits : Fits layout text) :
    text.findIdxs p = layout.findIdxs (Place.test p) := by
  have hmap : text.map p = layout.map (Place.test p) := by
    induction hfits with
    | nil => rfl
    | cons hc _ ih => rw [List.map_cons, List.map_cons, ih, hp.eq_test hc]
  calc text.findIdxs p = (text.map p).findIdxs id := by rw [List.findIdxs_map]; rfl
    _ = (layout.map (Place.test p)).findIdxs id := by rw [hmap]
    _ = layout.findIdxs (Place.test p) := by rw [List.findIdxs_map]; rfl

/-- Neither a hemisphere letter nor a character of a number. -/
theorem uniform_eq {d : Char} (hd : d ∉ ['N', 'S', 'E', 'W', '.', '-']) (hdigit : ¬ d.isDigit) :
    Uniform fun c => decide (c = d) := by
  simp only [List.mem_cons, not_or] at hd
  obtain ⟨hn, hs, he, hw, hpoint, hminus, -⟩ := hd
  have hzero : '0' ≠ d := by
    rintro rfl
    exact hdigit (by decide)
  refine ⟨by simp [Ne.symm hn, Ne.symm hs], by simp [Ne.symm he, Ne.symm hw], ?_⟩
  rintro c (hc | rfl | rfl)
  · have hne : c ≠ d := by
      rintro rfl
      exact hdigit hc
    simp [hne, hzero]
  · simp [Ne.symm hpoint, hzero]
  · simp [Ne.symm hminus, hzero]

theorem uniform_isAlpha : Uniform Char.isAlpha := by
  refine ⟨rfl, rfl, ?_⟩
  rintro c (hdigit | rfl | rfl)
  · rw [isDigit_iff_toNat] at hdigit
    have hrange : c.val.toNat ≤ 57 := hdigit.2
    have hupper : ¬ 'A'.val ≤ c.val := by
      intro hle
      have hlow : 65 ≤ c.val.toNat := UInt32.le_iff_toNat_le.mp hle
      omega
    have hlower : ¬ 'a'.val ≤ c.val := by
      intro hle
      have hlow : 97 ≤ c.val.toNat := UInt32.le_iff_toNat_le.mp hle
      omega
    show (decide ('A'.val ≤ c.val ∧ c.val ≤ 'Z'.val) ||
      (decide ('a'.val ≤ c.val) && decide (c.val ≤ 'z'.val))) = false
    rw [decide_eq_false fun hboth => hupper hboth.1, decide_eq_false hlower]
    rfl
  · rfl
  · rfl

/-- What is the same in all frames of a layout: the offsets of the commas and of the
letters, and the frame name where it stands. -/
structure Regular (layout : List Place) (frame : List Char) (commas letters : List ℕ) : Prop where
  fits : Fits layout frame
  length : frame.length = 36
  nul_notMem : nul ∉ frame
  commas : frame.findIdxs (fun c => decide (c = ',')) = commas
  letters : frame.findIdxs Char.isAlpha = letters

theorem Fits.regular {layout : List Place} {frame : List Char} (hfits : Fits layout frame)
    (hlength : layout.length = 36)
    (hnul : layout.findIdxs (Place.test fun c => decide (c = nul)) = []) :
    Regular layout frame (layout.findIdxs (Place.test fun c => decide (c = ',')))
      (layout.findIdxs (Place.test Char.isAlpha)) where
  fits := hfits
  length := hfits.length_eq.symm.trans hlength
  nul_notMem := by
    rw [← (uniform_eq (by decide) (by decide)).findIdxs_eq hfits,
      List.findIdxs_eq_nil_iff] at hnul
    intro hmem
    exact absurd rfl (of_decide_eq_false (hnul nul hmem))
  commas := (uniform_eq (by decide) (by decide)).findIdxs_eq hfits
  letters := uniform_isAlpha.findIdxs_eq hfits

/-- A frame name brings its two letters along. -/
theorem getElem?_of_load_eq {frame : List Char} {offset : ℕ}
    (hload : load frame offset 3 = nmeaFrameGll) :
    frame[offset + 1]? = some 'L' ∧ frame[offset + 2]? = some 'L' := by
  have hsecond := congrArg (·[1]?) hload
  have hthird := congrArg (·[2]?) hload
  simp only [load, List.getElem?_take, List.getElem?_drop] at hsecond hthird
  exact ⟨by simpa [nmeaFrameGll] using hsecond, by simpa [nmeaFrameGll] using hthird⟩

theorem load_nmeaGll_eq_iff (latitude longitude : ℚ) (timeinfo : Tm) (offset : ℕ) :
    load (nmeaGll latitude longitude timeinfo) offset 3 = nmeaFrameGll ↔ offset = 3 := by
  constructor
  · intro hload
    obtain ⟨hsecond, hthird⟩ := getElem?_of_load_eq hload
    obtain ⟨-, hsecond'⟩ :=
      @Frame.eq_gll_of_getElem?_eq_L (.gll latitude longitude timeinfo) _ hsecond
    obtain ⟨-, hthird'⟩ :=
      @Frame.eq_gll_of_getElem?_eq_L (.gll latitude longitude timeinfo) _ hthird
    omega
  · rintro rfl
    simp [nmeaGll_eq, gllText, load, nmeaFrameGll]

theorem load_nmeaVtg_ne (courseReal courseMagn speedKnot : ℚ) (offset : ℕ) :
    load (nmeaVtg courseReal courseMagn speedKnot) offset 3 ≠ nmeaFrameGll := by
  intro hload
  obtain ⟨⟨latitude, longitude, timeinfo, hframe⟩, -⟩ :=
    @Frame.eq_gll_of_getElem?_eq_L (.vtg courseReal courseMagn speedKnot) _
      (getElem?_of_load_eq hload).1
  cases hframe

/-- **Layout of frames.** Whatever the values, the characters of a frame are those of its
layout, with the commas and letters at the same offsets, and the name of a GLL frame
stands at its place only. -/
theorem frames_layout (latitude longitude courseReal courseMagn speedKnot : ℚ) (timeinfo : Tm) :
    Regular gllLayout (nmeaGll latitude longitude timeinfo) [6, 14, 16, 25, 27, 34]
        [1, 2, 3, 4, 5, 15, 26, 35] ∧
      (∃ body, nmeaVtg courseReal courseMagn speedKnot = body ++ [nul, nul] ∧
        Regular vtgLayout body [6, 12, 14, 20, 22, 28, 34] [1, 2, 3, 4, 5, 13, 21, 35]) ∧
      (∀ offset, load (nmeaGll latitude longitude timeinfo) offset 3 = nmeaFrameGll ↔
        offset = 3) ∧
      ∀ offset, load (nmeaVtg courseReal courseMagn speedKnot) offset 3 ≠ nmeaFrameGll := by
  refine ⟨?_, ?_, load_nmeaGll_eq_iff latitude longitude timeinfo,
    load_nmeaVtg_ne courseReal courseMagn speedKnot⟩
  · exact (fits_nmeaGll latitude longitude timeinfo).regular rfl (by decide)
  · obtain ⟨body, hframe, hfits⟩ := exists_fits_nmeaVtg courseReal courseMagn speedKnot
    exact ⟨body, hframe, hfits.regular rfl (by decide)⟩

/-! ## Hemispheres -/

theorem northSouth_eq (latitude : ℚ) : northSouth latitude = if latitude < 0 then 'S' else 'N' := by
  simp only [northSouth, truncate_coordinate_neg_iff]

theorem eastWest_eq (longitude : ℚ) : eastWest longitude = if longitude < 0 then 'W' else 'E' := by
  simp only [eastWest, truncate_coordinate_neg_iff]

/-- **Hemispheres.** The letters are those of the signs, although they are chosen by the
integers that `decimal_to_str` returns. -/
theorem nmeaGll_hemispheres (latitude longitude : ℚ) (timeinfo : Tm) :
    (nmeaGll latitude longitude timeinfo)[15]? = some (if latitude < 0 then 'S' else 'N') ∧
      (nmeaGll latitude longitude timeinfo)[26]? =
        some (if longitude < 0 then 'W' else 'E') := by
  have hlat := length_field 7 2 (coordinate latitude)
  have hlon := length_field 8 2 (coordinate longitude)
  rw [nmeaGll_eq, northSouth_eq, eastWest_eq]
  simp [gllText, List.getElem?_append, hlat, hlon]

end Embsys.Gps
