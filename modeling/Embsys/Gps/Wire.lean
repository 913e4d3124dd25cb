/-
# The byte stream of the simulator

Every `write` of the simulator hands one whole frame to the serial line, so the
stream is the concatenation of frames. What the readers rely on is proved here
once: a frame starts with `$`, terminators occur only in the last two places of
a VTG frame, and the letter `L` occurs only in the name of a GLL frame, at the
offsets 4 and 5.
-/

import Embsys.Math.Cut
import Embsys.Gps.Nmea

namespace Embsys.Gps

open Embsys.Math Embsys.C

/-- One frame, with the values it is built from. -/
inductive Frame
  | gll (latitude longitude : ℚ) (timeinfo : Tm)
  | vtg (courseReal courseMagn speedKnot : ℚ)

/-- The bytes that `write_gll` and `write_vtg` send. -/
def Frame.bytes : Frame → List Char
  | .gll latitude longitude timeinfo => nmeaGll latitude longitude timeinfo
  | .vtg courseReal courseMagn speedKnot => nmeaVtg courseReal courseMagn speedKnot

/-- The stream of a sequence of frames. -/
def wire (frames : List Frame) : List Char :=
  (frames.map Frame.bytes).flatten

@[simp]
theorem wire_append (first second : List Frame) :
    wire (first ++ second) = wire first ++ wire second := by
  simp [wire]

@[simp]
theorem wire_cons (frame : Frame) (frames : List Frame) :
    wire (frame :: frames) = frame.bytes ++ wire frames := by
  simp [wire]

/-- Every byte of the stream belongs to one frame, at an offset inside it. -/
theorem exists_frame_of_getElem?_wire {frames : List Frame} {k : ℕ} {c : Char}
    (h : (wire frames)[k]? = some c) :
    ∃ before frame after offset, frames = before ++ frame :: after ∧
      k = (wire before).length + offset ∧ frame.bytes[offset]? = some c := by
  obtain ⟨before, block, after, offset, hblocks, rfl, hbyte⟩ :=
    exists_block_of_getElem?_flatten h
  obtain ⟨before, rest, rfl, rfl, hrest⟩ := List.map_eq_append_iff.mp hblocks
  obtain ⟨frame, after, rfl, rfl, -⟩ := List.map_eq_cons_iff.mp hrest
  exact ⟨before, frame, after, offset, rfl, rfl, hbyte⟩

/-- The characters that occur in frames after the frame name. -/
def IsBody (c : Char) : Prop :=
  c.isDigit ∨ c ∈ [',', '.', '-', 'N', 'S', 'E', 'W', 'A', 'T', 'M', 'K']

instance : DecidablePred IsBody := fun c => by
  unfold IsBody
  infer_instance

theorem IsBody.ne_nul {c : Char} (hc : IsBody c) : c ≠ nul := by
  rintro rfl
  exact absurd hc (by decide)

theorem IsBody.ne_L {c : Char} (hc : IsBody c) : c ≠ 'L' := by
  rintro rfl
  exact absurd hc (by decide)

theorem isBody_field (width : ℕ) {precision : ℕ} (hprecision : 0 < precision) (x : ℚ) :
    ∀ c ∈ field width precision x, IsBody c := by
  intro c hc
  rcases mem_field hprecision hc with hdigit | rfl | rfl
  · exact Or.inl hdigit
  · decide
  · decide

theorem isBody_dateText (timeinfo : Tm) : ∀ c ∈ dateText timeinfo, IsBody c :=
  fun c hc => Or.inl (allDigits_dateText timeinfo c hc)

theorem isBody_northSouth (latitude : ℚ) : IsBody (northSouth latitude) := by
  unfold northSouth
  split_ifs <;> decide

theorem isBody_eastWest (longitude : ℚ) : IsBody (eastWest longitude) := by
  unfold eastWest
  split_ifs <;> decide

/-- A GLL frame is its name and 30 body characters. -/
theorem gll_bytes (latitude longitude : ℚ) (timeinfo : Tm) :
    ∃ body, (Frame.gll latitude longitude timeinfo).bytes =
        ['$', 'G', 'P', 'G', 'L', 'L'] ++ body ∧
      body.length = 30 ∧ ∀ c ∈ body, IsBody c := by
  refine ⟨[','] ++ field 7 2 (coordinate latitude) ++ [',', northSouth latitude, ','] ++
    field 8 2 (coordinate longitude) ++ [',', eastWest longitude, ','] ++
    dateText timeinfo ++ [',', 'A'], ?_, ?_, ?_⟩
  · simp [Frame.bytes, nmeaGll_eq, gllText]
  · simp [length_field, length_dateText]
  · have hlat := isBody_field 7 (show 0 < 2 by decide) (coordinate latitude)
    have hlon := isBody_field 8 (show 0 < 2 by decide) (coordinate longitude)
    have hcomma : IsBody ',' := by decide
    have hvalid : IsBody 'A' := by decide
    simp only [List.forall_mem_append, List.forall_mem_cons, isBody_northSouth, isBody_eastWest,
      hcomma, hvalid, List.not_mem_nil, false_implies, implies_true, true_and, and_true]
    exact ⟨⟨hlat, hlon⟩, isBody_dateText timeinfo⟩

/-- A VTG frame is its name, 30 body characters and two terminators. -/
theorem vtg_bytes (courseReal courseMagn speedKnot : ℚ) :
    ∃ body, (Frame.vtg courseReal courseMagn speedKnot).bytes =
        ['$', 'G', 'P', 'V', 'T', 'G'] ++ body ++ [nul, nul] ∧
      body.length = 30 ∧ ∀ c ∈ body, IsBody c := by
  refine ⟨[','] ++ field 5 1 courseReal ++ [',', 'T', ','] ++ field 5 1 courseMagn ++
    [',', 'M', ','] ++ field 5 1 speedKnot ++ [','] ++
    field 5 1 (knotToKmh * speedKnot) ++ [',', 'K'], ?_, ?_, ?_⟩
  · simp [Frame.bytes, nmeaVtg_eq, vtgText]
  · simp [length_field]
  · have hfield : ∀ x, ∀ c ∈ field 5 1 x, IsBody c :=
      fun x => isBody_field _ (show 0 < 1 by decide) x
    have hcomma : IsBody ',' := by decide
    have htrue : IsBody 'T' := by decide
    have hmagn : IsBody 'M' := by decide
    have hkmh : IsBody 'K' := by decide
    simp only [List.forall_mem_append, List.forall_mem_cons, hcomma, htrue, hmagn, hkmh,
      List.not_mem_nil, false_implies, implies_true, true_and, and_true]
    exact ⟨⟨⟨hfield _, hfield _⟩, hfield _⟩, hfield _⟩

theorem Frame.length_bytes_gll (latitude longitude : ℚ) (timeinfo : Tm) :
    (Frame.gll latitude longitude timeinfo).bytes.length = nmeaGllSize := by
  obtain ⟨body, hbytes, hlength, -⟩ := gll_bytes latitude longitude timeinfo
  simp [hbytes, hlength, nmeaGllSize]

theorem Frame.length_bytes_vtg (courseReal courseMagn speedKnot : ℚ) :
    (Frame.vtg courseReal courseMagn speedKnot).bytes.length = nmeaVtgSize := by
  obtain ⟨body, hbytes, hlength, -⟩ := vtg_bytes courseReal courseMagn speedKnot
  simp [hbytes, hlength, nmeaVtgSize]

theorem Frame.bytes_ne_nil (frame : Frame) : frame.bytes ≠ [] := by
  cases frame with
  | gll latitude longitude timeinfo =>
      obtain ⟨body, hbytes, -⟩ := gll_bytes latitude longitude timeinfo
      simp [hbytes]
  | vtg courseReal courseMagn speedKnot =>
      obtain ⟨body, hbytes, -⟩ := vtg_bytes courseReal courseMagn speedKnot
      simp [hbytes]

/-- A stream that is not empty starts with the mark of a frame. -/
theorem wire_head {frames : List Frame} {c : Char} (h : (wire frames)[0]? = some c) : c = '$' := by
  cases frames with
  | nil => simp [wire] at h
  | cons frame frames =>
      cases frame with
      | gll latitude longitude timeinfo =>
          obtain ⟨body, hbytes, -⟩ := gll_bytes latitude longitude timeinfo
          simpa [wire, hbytes, eq_comm] using h
      | vtg courseReal courseMagn speedKnot =>
          obtain ⟨body, hbytes, -⟩ := vtg_bytes courseReal courseMagn speedKnot
          simpa [wire, hbytes, eq_comm] using h

/-- The letter `L` marks the name of a GLL frame. -/
theorem Frame.eq_gll_of_getElem?_eq_L {frame : Frame} {offset : ℕ}
    (h : frame.bytes[offset]? = some 'L') :
    (∃ latitude longitude timeinfo, frame = .gll latitude longitude timeinfo) ∧
      (offset = 4 ∨ offset = 5) := by
  cases frame with
  | gll latitude longitude timeinfo =>
      refine ⟨⟨latitude, longitude, timeinfo, rfl⟩, ?_⟩
      obtain ⟨body, hbytes, -, hbody⟩ := gll_bytes latitude longitude timeinfo
      rw [hbytes] at h
      by_cases hoffset : offset < 6
      · match offset, hoffset with
        | 0, _ | 1, _ | 2, _ | 3, _ => simp at h
        | 4, _ => exact Or.inl rfl
        | 5, _ => exact Or.inr rfl
      · rw [List.getElem?_append_right (by simpa using hoffset)] at h
        exact absurd rfl (hbody 'L' (List.mem_of_getElem? h)).ne_L
  | vtg courseReal courseMagn speedKnot =>
      obtain ⟨body, hbytes, -, hbody⟩ := vtg_bytes courseReal courseMagn speedKnot
      rw [hbytes] at h
      have hmem := List.mem_of_getElem? h
      simp only [List.mem_append, List.mem_cons, List.not_mem_nil, or_false] at hmem
      rcases hmem with (hname | hmem) | hnul
      · exact absurd hname (by decide)
      · exact absurd rfl (hbody 'L' hmem).ne_L
      · exact absurd hnul (by decide)

end Embsys.Gps
