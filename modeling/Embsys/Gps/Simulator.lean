/-
# The simulator over any number of iterations

The five globals of gps.c grow by a fixed step in every iteration of the main
loop, and nothing ever brings one of them back. The positions and courses leave
their range after a while, and the speed in km/h outgrows its field; each bound is
met up to an iteration that can be computed and is broken in every run that goes
further. The increments are exact rationals here.
-/

import Embsys.Gps.Coordinate
import Embsys.Gps.Wire

namespace Embsys.Gps

open Embsys.C

/-- The globals of gps.c. -/
structure Simulator where
  lat : ℚ
  lon : ℚ
  courseReal : ℚ
  courseMagn : ℚ
  speedKnot : ℚ

namespace Simulator

/-- The initial values of the globals. -/
def initial : Simulator where
  lat := 48.608958
  lon := 7.682288
  courseReal := 54.7
  courseMagn := 34.4
  speedKnot := 5.5

/-- `write_vtg`: the frame written and the globals it leaves. -/
def writeVtg (simulator : Simulator) : Frame × Simulator :=
  (.vtg simulator.courseReal simulator.courseMagn simulator.speedKnot,
    { simulator with
      courseReal := simulator.courseReal + 0.01
      courseMagn := simulator.courseMagn + 0.01
      speedKnot := simulator.speedKnot + 0.01 })

/-- `write_gll` at this time of day. -/
def writeGll (simulator : Simulator) (timeinfo : Tm) : Frame × Simulator :=
  (.gll simulator.lat simulator.lon timeinfo,
    { simulator with lat := simulator.lat + 0.001, lon := simulator.lon + 0.001 })

/-- The frames written in `n` iterations of the main loop and the globals after
them; the clock gives the time of day of each iteration. -/
def main (clock : ℕ → Tm) : ℕ → List Frame × Simulator
  | 0 => ([], initial)
  | n + 1 =>
      let (frames, simulator) := main clock n
      let (gll, simulator) := simulator.writeGll (clock n)
      let (vtg, simulator) := simulator.writeVtg
      (frames ++ [gll, vtg], simulator)

/-! ## Closed form -/

/-- The globals after `n` iterations. -/
def after (n : ℕ) : Simulator where
  lat := initial.lat + n * 0.001
  lon := initial.lon + n * 0.001
  courseReal := initial.courseReal + n * 0.01
  courseMagn := initial.courseMagn + n * 0.01
  speedKnot := initial.speedKnot + n * 0.01

/-- Each iteration adds its step to every global. -/
theorem main_eq_after (clock : ℕ → Tm) (n : ℕ) : (main clock n).2 = after n := by
  induction n with
  | zero => simp [main, after]
  | succ n ih =>
      rw [main]
      simp only [ih, writeGll, writeVtg, after, Simulator.mk.injEq]
      refine ⟨?_, ?_, ?_, ?_, ?_⟩ <;> push_cast <;> ring

/-- The two frames of an iteration, after `n` others. -/
def framesAt (clock : ℕ → Tm) (n : ℕ) : List Frame :=
  [.gll (after n).lat (after n).lon (clock n),
    .vtg (after n).courseReal (after n).courseMagn (after n).speedKnot]

theorem main_frames (clock : ℕ → Tm) (n : ℕ) :
    (main clock n).1 = (List.range n).flatMap (framesAt clock) := by
  induction n with
  | zero => rfl
  | succ n ih =>
      rw [main, List.range_succ, List.flatMap_append, ← ih]
      simp [writeGll, writeVtg, framesAt, main_eq_after]

/-- A property of all frames written is one of the frames of each iteration. -/
theorem forall_mem_main {clock : ℕ → Tm} {n : ℕ} {P : Frame → Prop} :
    (∀ frame ∈ (main clock n).1, P frame) ↔ ∀ i < n, ∀ frame ∈ framesAt clock i, P frame := by
  rw [main_frames]
  simp only [List.mem_flatMap, List.mem_range]
  constructor
  · intro h i hi frame hframe
    exact h frame ⟨i, hi, hframe⟩
  · rintro h frame ⟨i, hi, hframe⟩
    exact h i hi frame hframe

end Simulator

/-! ## Range -/

/-- A GLL frame encodes a position on the globe: its two coordinates, with the degrees in the
hundreds, read as at most 90 and 180 degrees. -/
def Frame.PositionInRange : Frame → Prop
  | .gll latitude longitude timeinfo =>
      let frame := nmeaGll latitude longitude timeinfo
      atof (load frame 7 7) ≤ 9000 ∧ atof (load frame 17 8) ≤ 18000
  | .vtg _ _ _ => True

/-- The two courses of a VTG frame read below 360.0. -/
def Frame.CoursesInRange : Frame → Prop
  | .gll _ _ _ => True
  | .vtg courseReal courseMagn speedKnot =>
      let frame := nmeaVtg courseReal courseMagn speedKnot
      atof (load frame 7 5) < 360 ∧ atof (load frame 15 5) < 360

/-- The two speeds of a VTG frame are the whole formatted texts. -/
def Frame.SpeedsWhole : Frame → Prop
  | .gll _ _ _ => True
  | .vtg courseReal courseMagn speedKnot =>
      let frame := nmeaVtg courseReal courseMagn speedKnot
      load frame 23 5 = formatFixed 5 1 speedKnot ∧
        load frame 29 5 = formatFixed 5 1 (knotToKmh * speedKnot)

/-- All numbers of a frame are in range. -/
def Frame.InRange (frame : Frame) : Prop :=
  frame.PositionInRange ∧ frame.CoursesInRange ∧ frame.SpeedsWhole

theorem Frame.positionInRange_gll_iff {latitude longitude : ℚ} (timeinfo : Tm)
    (hlat : 0 ≤ latitude) (hlon : 0 ≤ longitude) :
    (Frame.gll latitude longitude timeinfo).PositionInRange ↔
      60 * latitude ≤ 5400.005 ∧ 60 * longitude ≤ 10800.005 := by
  have hreadLat : atof (field 7 2 (coordinate latitude)) ≤ 9000 ↔ 60 * latitude ≤ 5400.005 := by
    have hread := atof_field_le_iff 4 9000 (by decide : 0 < 2) (by decide) rfl (by decide)
      (coordinate_nonneg hlat)
    have hwhole := coordinate_le_iff 90 (by norm_num : (0 : ℚ) ≤ 0.005) (by norm_num) latitude
    norm_num at hread hwhole ⊢
    rw [hread, hwhole]
  have hreadLon : atof (field 8 2 (coordinate longitude)) ≤ 18000 ↔
      60 * longitude ≤ 10800.005 := by
    have hread := atof_field_le_iff 5 18000 (by decide : 0 < 2) (by decide) rfl (by decide)
      (coordinate_nonneg hlon)
    have hwhole := coordinate_le_iff 180 (by norm_num : (0 : ℚ) ≤ 0.005) (by norm_num) longitude
    norm_num at hread hwhole ⊢
    rw [hread, hwhole]
  simp only [PositionInRange, load_nmeaGll_lat, load_nmeaGll_lon, hreadLat, hreadLon]

theorem Frame.coursesInRange_vtg_iff {courseReal courseMagn : ℚ} (speedKnot : ℚ)
    (hreal : 0 ≤ courseReal) (hmagn : 0 ≤ courseMagn) :
    (Frame.vtg courseReal courseMagn speedKnot).CoursesInRange ↔
      courseReal < 359.95 ∧ courseMagn < 359.95 := by
  obtain ⟨hloadReal, hloadMagn, -⟩ := load_nmeaVtg courseReal courseMagn speedKnot
  have hcourse : ∀ {x : ℚ}, 0 ≤ x → (atof (field 5 1 x) < 360 ↔ x < 359.95) := by
    intro x hx
    have hread := atof_field_lt_iff 3 360 (by decide : 0 < 1) (by decide) rfl (by decide) hx
    norm_num at hread ⊢
    exact hread
  simp only [CoursesInRange, hloadReal, hloadMagn, hcourse hreal, hcourse hmagn]

theorem Frame.speedsWhole_vtg_iff (courseReal courseMagn : ℚ) {speedKnot : ℚ}
    (hspeed : 0 ≤ speedKnot) :
    (Frame.vtg courseReal courseMagn speedKnot).SpeedsWhole ↔
      knotToKmh * speedKnot < 999.95 := by
  obtain ⟨-, -, hloadKnot, hloadKmh⟩ := load_nmeaVtg courseReal courseMagn speedKnot
  have hwhole : ∀ {x : ℚ}, 0 ≤ x → (field 5 1 x = formatFixed 5 1 x ↔ x < 999.95) := by
    intro x hx
    have hfits := field_eq_formatFixed_iff 3 (by decide : 0 < 1) (by decide) rfl hx
    norm_num at hfits ⊢
    exact hfits
  have hkmh : 0 ≤ knotToKmh * speedKnot := mul_nonneg (by norm_num [knotToKmh]) hspeed
  simp only [SpeedsWhole, hloadKnot, hloadKmh, hwhole hspeed, hwhole hkmh]
  apply and_iff_right_of_imp
  intro hsmall
  norm_num [knotToKmh] at hsmall ⊢
  linarith

/-! ## Up to when -/

/-- A property that does not come back once it is lost holds of the first `n`
iterations exactly when they stop before it is lost. -/
theorem forall_lt_iff_le {P : ℕ → Prop} {last : ℕ} (hanti : ∀ i j, i ≤ j → P j → P i)
    (hlast : P last) (hlost : ¬ P (last + 1)) (n : ℕ) : (∀ i < n, P i) ↔ n ≤ last + 1 := by
  constructor
  · intro hall
    by_contra hlong
    exact hlost (hall (last + 1) (not_le.mp hlong))
  · intro hle i hi
    exact hanti i last (by omega) hlast

namespace Simulator

/-- No global ever decreases. -/
theorem after_mono {i j : ℕ} (hij : i ≤ j) :
    (after i).lat ≤ (after j).lat ∧ (after i).lon ≤ (after j).lon ∧
      (after i).courseReal ≤ (after j).courseReal ∧
      (after i).courseMagn ≤ (after j).courseMagn ∧
      (after i).speedKnot ≤ (after j).speedKnot := by
  have hcast : (i : ℚ) ≤ j := by exact_mod_cast hij
  simp only [after]
  refine ⟨?_, ?_, ?_, ?_, ?_⟩ <;> linarith

theorem after_nonneg (n : ℕ) :
    0 ≤ (after n).lat ∧ 0 ≤ (after n).lon ∧ 0 ≤ (after n).courseReal ∧
      0 ≤ (after n).courseMagn ∧ 0 ≤ (after n).speedKnot := by
  simp only [after, initial]
  refine ⟨?_, ?_, ?_, ?_, ?_⟩ <;> positivity

variable (clock : ℕ → Tm) (n : ℕ)

theorem positionInRange_iff :
    (∀ frame ∈ (main clock n).1, frame.PositionInRange) ↔ n ≤ 41392 := by
  have hframes : ∀ i, (∀ frame ∈ framesAt clock i, frame.PositionInRange) ↔
      60 * (after i).lat ≤ 5400.005 ∧ 60 * (after i).lon ≤ 10800.005 := by
    intro i
    obtain ⟨hlat, hlon, -⟩ := after_nonneg i
    rw [← Frame.positionInRange_gll_iff (clock i) hlat hlon]
    simp [framesAt, Frame.PositionInRange]
  simp only [forall_mem_main, hframes]
  refine forall_lt_iff_le (fun i j hij h => ?_) ?_ ?_ n
  · obtain ⟨hlat, hlon, -⟩ := after_mono hij
    exact ⟨(mul_le_mul_of_nonneg_left hlat (by norm_num)).trans h.1,
      (mul_le_mul_of_nonneg_left hlon (by norm_num)).trans h.2⟩
  · norm_num [after, initial]
  · norm_num [after, initial]

theorem coursesInRange_iff :
    (∀ frame ∈ (main clock n).1, frame.CoursesInRange) ↔ n ≤ 30525 := by
  have hframes : ∀ i, (∀ frame ∈ framesAt clock i, frame.CoursesInRange) ↔
      (after i).courseReal < 359.95 ∧ (after i).courseMagn < 359.95 := by
    intro i
    obtain ⟨-, -, hreal, hmagn, -⟩ := after_nonneg i
    rw [← Frame.coursesInRange_vtg_iff (after i).speedKnot hreal hmagn]
    simp [framesAt, Frame.CoursesInRange]
  simp only [forall_mem_main, hframes]
  refine forall_lt_iff_le (fun i j hij h => ?_) ?_ ?_ n
  · obtain ⟨-, -, hreal, hmagn, -⟩ := after_mono hij
    exact ⟨hreal.trans_lt h.1, hmagn.trans_lt h.2⟩
  · norm_num [after, initial]
  · norm_num [after, initial]

theorem speedsWhole_iff :
    (∀ frame ∈ (main clock n).1, frame.SpeedsWhole) ↔ n ≤ 53443 := by
  have hframes : ∀ i, (∀ frame ∈ framesAt clock i, frame.SpeedsWhole) ↔
      knotToKmh * (after i).speedKnot < 999.95 := by
    intro i
    obtain ⟨-, -, -, -, hspeed⟩ := after_nonneg i
    rw [← Frame.speedsWhole_vtg_iff (after i).courseReal (after i).courseMagn hspeed]
    simp [framesAt, Frame.SpeedsWhole]
  simp only [forall_mem_main, hframes]
  refine forall_lt_iff_le (fun i j hij h => ?_) ?_ ?_ n
  · obtain ⟨-, -, -, -, hspeed⟩ := after_mono hij
    exact (mul_le_mul_of_nonneg_left hspeed (by norm_num [knotToKmh])).trans_lt h
  · norm_num [after, initial, knotToKmh]
  · norm_num [after, initial, knotToKmh]

/-- **Range of the simulator.** Over the first `n` iterations all positions are on
the globe exactly up to 41392 iterations, all courses are below 360.0 exactly up to
30525, and no speed is cut exactly up to 53443. -/
theorem main_inRange_iff :
    ((∀ frame ∈ (main clock n).1, frame.PositionInRange) ↔ n ≤ 41392) ∧
      ((∀ frame ∈ (main clock n).1, frame.CoursesInRange) ↔ n ≤ 30525) ∧
      ((∀ frame ∈ (main clock n).1, frame.SpeedsWhole) ↔ n ≤ 53443) :=
  ⟨positionInRange_iff clock n, coursesInRange_iff clock n, speedsWhole_iff clock n⟩

/-- After 30526 iterations a course has been written that reads 360.0. -/
theorem not_forall_main_inRange :
    ¬ ∀ (clock : ℕ → Tm) (n : ℕ), ∀ frame ∈ (main clock n).1, frame.InRange := by
  intro h
  have hcourses := (coursesInRange_iff (fun _ => firstTime) 30526).mp fun frame hframe =>
    (h _ _ frame hframe).2.1
  exact absurd hcourses (by decide)

end Simulator

end Embsys.Gps
