/-
# What gps_reader prints

Each read is printed as a string with a line end behind it, so of a read that holds a
terminator only what stands in front of it is seen, and of one that fills the buffer
without a terminator also what happens to lie behind the buffer. The terminators of the
line are the two at the end of each VTG frame. Hence the lines give the frames back
exactly when no read fills the buffer without a terminator and none goes on behind the end of a VTG
frame, wherever else the stream is cut.
-/

import Embsys.GpsReader.Time
import Embsys.Pipeline.Scanner

namespace Embsys.GpsReader

open Embsys.C Embsys.Gps Embsys.Math Embsys.ShmWriter Embsys.Pipeline

/-! ## reader.c -/

/-- The end of a line on the terminal. -/
def newline : Char := '\n'

/-- One iteration of the main loop: the buffer it leaves and what it prints. -/
def readerStep (buff : Buffer buffSize) (arrival : Arrival) : Buffer buffSize × List Char :=
  let buff := buff.bzero.read arrival.result
  if 0 < arrival.result.bytes.length then
    (buff, cstr (buff.bytes ++ arrival.beyond) ++ [newline])
  else (buff, [])

/-- What the main loop prints over the results of successive reads. -/
def readerLoop : Buffer buffSize → List Arrival → List Char
  | _, [] => []
  | buff, arrival :: arrivals =>
      let (buff, printed) := readerStep buff arrival
      printed ++ readerLoop buff arrivals

/-! ## The lines -/

/-- The string one read shows. -/
def line (arrival : Arrival) : List Char :=
  cstr (fill arrival.result.bytes ++ arrival.beyond)

/-- What is printed apart from the ends of the lines. -/
def shown (printed : List Char) : List Char :=
  printed.filter (· ≠ newline)

/-- The bytes of a stream apart from the terminators. -/
def text (stream : List Char) : List Char :=
  stream.filter (· ≠ nul)

theorem bytes_read_bzero (buff : Buffer buffSize) (result : ReadResult buffSize) :
    (buff.bzero.read result).bytes = fill result.bytes :=
  rfl

/-- One iteration shows its line, whatever the buffer held before. -/
theorem shown_readerStep (buff : Buffer buffSize) (arrival : Arrival) :
    shown (readerStep buff arrival).2 = shown (line arrival) := by
  unfold readerStep line
  split
  · simp [shown, bytes_read_bzero]
  · next hnone =>
      have hbytes : arrival.result.bytes = [] :=
        List.eq_nil_of_length_eq_zero (Nat.eq_zero_of_not_pos hnone)
      rw [hbytes]
      rfl

/-- The loop keeps nothing between two reads: it shows one line a read. -/
theorem shown_readerLoop (buff : Buffer buffSize) (arrivals : List Arrival) :
    shown (readerLoop buff arrivals) =
      (arrivals.map fun arrival => shown (line arrival)).flatten := by
  induction arrivals generalizing buff with
  | nil => rfl
  | cons arrival arrivals ih =>
      have hstep := shown_readerStep buff arrival
      simp only [readerLoop, List.map_cons, List.flatten_cons, ← hstep,
        ← ih (readerStep buff arrival).1]
      exact List.filter_append _ _

/-- What a read leaves of a zeroed buffer holds a terminator. -/
def Terminated (result : ReadResult buffSize) : Prop :=
  result.bytes.length < buffSize ∨ nul ∈ result.bytes

/-- Whatever lies behind the buffer, a terminated read shows its string. -/
theorem line_of_terminated {arrival : Arrival} (hterminated : Terminated arrival.result) :
    line arrival = cstr arrival.result.bytes := by
  by_cases hnul : nul ∈ arrival.result.bytes
  · rw [line, fill_eq, List.append_assoc, cstr_append_of_mem hnul]
  · have hroom := hterminated.resolve_right hnul
    obtain ⟨n, hn⟩ := Nat.exists_eq_add_of_lt hroom
    have hzero : buffSize - arrival.result.bytes.length = n + 1 := by omega
    rw [line, fill_eq, hzero, zeroed, List.replicate_succ, List.append_assoc, List.cons_append,
      cstr_append_nul hnul, ← List.append_nil arrival.result.bytes, cstr_append hnul]
    rfl

/-- A read that is not terminated shows what lies behind the buffer too. -/
theorem line_of_not_terminated {arrival : Arrival} (hfull : ¬ Terminated arrival.result) :
    line arrival = arrival.result.bytes ++ cstr arrival.beyond := by
  obtain ⟨hlength, hnul⟩ := not_or.mp hfull
  have hzero : buffSize - arrival.result.bytes.length = 0 := by omega
  rw [line, fill_eq, hzero, zeroed, List.replicate_zero, List.append_nil, cstr_append hnul]

theorem shown_eq_self {printed : List Char} (hnewline : newline ∉ printed) :
    shown printed = printed := by
  apply List.filter_eq_self.mpr
  intro c hc
  simpa using fun heq : c = newline => hnewline (heq ▸ hc)

/-- With nothing behind the buffer every read shows its string. -/
theorem line_nil (result : ReadResult buffSize) : line ⟨result, []⟩ = cstr result.bytes := by
  by_cases hterminated : Terminated result
  · exact line_of_terminated hterminated
  · have hnul := (not_or.mp hterminated).2
    have hline := @line_of_not_terminated ⟨result, []⟩ hterminated
    rw [hline]
    exact (cstr_append hnul []).symm.trans (congrArg cstr (List.append_nil _))

/-- A line shows at least the string of its read. -/
theorem cstr_prefix_line (arrival : Arrival) : cstr arrival.result.bytes <+: line arrival := by
  by_cases hterminated : Terminated arrival.result
  · rw [line_of_terminated hterminated]
  · rw [line_of_not_terminated hterminated]
    exact (List.takeWhile_prefix _).trans (List.prefix_append _ _)

/-- **What the lines show.** For bytes without line ends, whatever lies behind the buffer, the
lines show the stream less its terminators exactly when every read is terminated and
holds nothing but terminators behind its first one. -/
theorem shown_eq_text_iff {reads : List (ReadResult buffSize)}
    (hnewline : ∀ result ∈ reads, newline ∉ result.bytes) (buff : Buffer buffSize) :
    (∀ arrivals : List Arrival, arrivals.map Arrival.result = reads →
        shown (readerLoop buff arrivals) = text (reads.map ReadResult.bytes).flatten) ↔
      ∀ result ∈ reads, Terminated result ∧ cstr result.bytes = text result.bytes := by
  have htext : text (reads.map ReadResult.bytes).flatten =
      (reads.map fun result => text result.bytes).flatten := by
    rw [text, List.filter_flatten, List.map_map]
    rfl
  have hshown : ∀ result ∈ reads, shown (cstr result.bytes) = cstr result.bytes := by
    intro result hresult
    apply shown_eq_self
    exact fun hmem => hnewline result hresult (List.takeWhile_subset _ hmem)
  rw [htext]
  constructor
  · intro hlines
    have hbehind : ∀ beyond : List Char,
        (reads.map fun result => shown (line ⟨result, beyond⟩)).flatten =
          (reads.map fun result => text result.bytes).flatten := by
      intro beyond
      have hline := hlines (reads.map fun result => ⟨result, beyond⟩)
        (by simp [Function.comp_def])
      rwa [shown_readerLoop, List.map_map] at hline
    -- With nothing behind the buffer no line can make up for what another one loses.
    have hkept : ∀ result ∈ reads, cstr result.bytes = text result.bytes := by
      apply (flatten_map_eq_iff fun result _ => takeWhile_prefix_filter _ _).mp
      have hnothing := hbehind []
      rw [List.map_congr_left fun result hresult =>
        (congrArg shown (line_nil result)).trans (hshown result hresult)] at hnothing
      exact hnothing
    -- A letter behind the buffer would show after a read that is not terminated.
    have hletter : ∀ result ∈ reads, cstr result.bytes = shown (line ⟨result, ['A']⟩) := by
      apply (flatten_map_eq_iff ?_).mp
      · rw [hbehind ['A'], List.map_congr_left hkept]
      · intro result hresult
        rw [← hshown result hresult]
        exact (cstr_prefix_line ⟨result, ['A']⟩).filter _
    intro result hresult
    refine ⟨?_, hkept result hresult⟩
    by_contra hfull
    have hlonger : shown (line ⟨result, ['A']⟩) = result.bytes ++ ['A'] := by
      have hbytes := shown_eq_self (hnewline result hresult)
      have hline := @line_of_not_terminated ⟨result, ['A']⟩ hfull
      rw [hline, shown, List.filter_append]
      exact congrArg (· ++ ['A']) hbytes
    have hlength := congrArg List.length (hletter result hresult)
    have hle : (cstr result.bytes).length ≤ result.bytes.length :=
      (List.takeWhile_prefix _).length_le
    rw [hlonger, List.length_append, List.length_singleton] at hlength
    omega
  · intro hreads arrivals harrivals
    subst harrivals
    rw [shown_readerLoop, List.map_map]
    congr 1
    apply List.map_congr_left
    intro arrival harrival
    obtain ⟨hterminated, hkept⟩ := hreads _ (List.mem_map_of_mem harrival)
    rw [line_of_terminated hterminated, hshown _ (List.mem_map_of_mem harrival), hkept]
    rfl

/-! ## The line of the simulator -/

/-- The place right behind a VTG frame of the stream. -/
def IsVtgEnd (frames : List Frame) (edge : ℕ) : Prop :=
  ∃ before courseReal courseMagn speedKnot after,
    frames = before ++ .vtg courseReal courseMagn speedKnot :: after ∧
      edge = (wire before).length + nmeaVtgSize

/-- A span has bytes on both sides of an edge. -/
def Crosses (span : ℕ × ℕ) (edge : ℕ) : Prop :=
  span.1 < edge ∧ edge < span.1 + span.2

theorem newline_notMem_bytes (frame : Frame) : newline ∉ frame.bytes := by
  have hbody : ¬ IsBody newline := by decide
  cases frame with
  | gll latitude longitude timeinfo =>
      obtain ⟨body, hbytes, -, hall⟩ := gll_bytes latitude longitude timeinfo
      rw [hbytes, List.mem_append, not_or]
      exact ⟨by decide, fun hmem => hbody (hall _ hmem)⟩
  | vtg courseReal courseMagn speedKnot =>
      obtain ⟨body, hbytes, -, hall⟩ := vtg_bytes courseReal courseMagn speedKnot
      rw [hbytes, List.mem_append, List.mem_append, not_or, not_or]
      exact ⟨⟨by decide, fun hmem => hbody (hall _ hmem)⟩, by decide⟩

theorem newline_notMem_wire (frames : List Frame) : newline ∉ wire frames := by
  rw [wire, List.mem_flatten]
  rintro ⟨block, hblock, hmem⟩
  obtain ⟨frame, -, rfl⟩ := List.mem_map.mp hblock
  exact newline_notMem_bytes frame hmem

/-- The terminators of a frame are the last two bytes of a VTG frame. -/
theorem getElem?_bytes_eq_nul_iff (frame : Frame) (offset : ℕ) :
    frame.bytes[offset]? = some nul ↔
      (∃ courseReal courseMagn speedKnot, frame = .vtg courseReal courseMagn speedKnot) ∧
        nmeaGllSize ≤ offset ∧ offset < nmeaVtgSize := by
  cases frame with
  | gll latitude longitude timeinfo =>
      have hnul := nul_notMem_gll_bytes latitude longitude timeinfo
      constructor
      · intro hoffset
        exact absurd (List.mem_of_getElem? hoffset) hnul
      · rintro ⟨⟨_, _, _, hframe⟩, -⟩
        exact Frame.noConfusion hframe
  | vtg courseReal courseMagn speedKnot =>
      obtain ⟨body, hbytes, hlength, hbody⟩ := vtg_bytes courseReal courseMagn speedKnot
      have hfront : nul ∉ ['$', 'G', 'P', 'V', 'T', 'G'] ++ body := by
        rw [List.mem_append, not_or]
        exact ⟨by decide, fun hmem => (hbody nul hmem).ne_nul rfl⟩
      have hsize : (['$', 'G', 'P', 'V', 'T', 'G'] ++ body).length = nmeaGllSize := by
        simp [hlength, nmeaGllSize]
      rw [hbytes]
      by_cases hoffset : offset < nmeaGllSize
      · rw [List.getElem?_append_left (hsize ▸ hoffset)]
        constructor
        · intro hnul
          exact absurd (List.mem_of_getElem? hnul) hfront
        · rintro ⟨-, hlast, -⟩
          exact absurd hoffset (Nat.not_lt.mpr hlast)
      · have hlast := Nat.le_of_not_lt hoffset
        obtain ⟨k, rfl⟩ := Nat.exists_eq_add_of_le hlast
        rw [List.getElem?_append_right (hsize ▸ hlast), hsize, Nat.add_sub_cancel_left]
        rcases k with _ | _ | k
        · simp [nmeaGllSize, nmeaVtgSize]
        · simp [nmeaGllSize, nmeaVtgSize]
        · simp only [nmeaGllSize, nmeaVtgSize, List.getElem?_cons_succ, List.getElem?_nil]
          constructor
          · intro hnone
            cases hnone
          · intro hin
            omega

/-- Behind a terminator, up to the end of its VTG frame, there are terminators only. -/
theorem exists_end_of_nul {frames : List Frame} {i j : ℕ} {c : Char} (hij : i < j)
    (hnul : (wire frames)[i]? = some nul) (hbyte : (wire frames)[j]? = some c) (hc : c ≠ nul) :
    ∃ edge, IsVtgEnd frames edge ∧ i < edge ∧ edge ≤ j := by
  obtain ⟨before, frame, after, offset, rfl, rfl, hoffset⟩ := exists_frame_of_getElem?_wire hnul
  obtain ⟨⟨courseReal, courseMagn, speedKnot, rfl⟩, hlast, hin⟩ :=
    (getElem?_bytes_eq_nul_iff frame offset).mp hoffset
  refine ⟨_, ⟨before, _, _, _, after, rfl, rfl⟩, Nat.add_lt_add_left hin _, ?_⟩
  by_contra hinside
  -- The later byte would be in the same frame, behind its first terminator.
  obtain ⟨k, rfl⟩ :=
    Nat.exists_eq_add_of_le (Nat.le_trans (Nat.le_add_right _ offset) (Nat.le_of_lt hij))
  have hk : k < nmeaVtgSize := by omega
  rw [wire_append, wire_cons, List.getElem?_append_right (Nat.le_add_right _ _),
    Nat.add_sub_cancel_left, List.getElem?_append_left (Frame.length_bytes_vtg _ _ _ ▸ hk)] at hbyte
  have hsame := (getElem?_bytes_eq_nul_iff _ k).mpr
    ⟨⟨courseReal, courseMagn, speedKnot, rfl⟩, by omega, hk⟩
  rw [hsame] at hbyte
  exact hc (Option.some.inj hbyte).symm

/-- At the end of a VTG frame stand a terminator and, if anything, the mark of the next frame. -/
theorem IsVtgEnd.bytes {frames : List Frame} {edge : ℕ} (hedge : IsVtgEnd frames edge) :
    (∃ last, edge = last + 1 ∧ (wire frames)[last]? = some nul) ∧
      ∀ c, (wire frames)[edge]? = some c → c = '$' := by
  obtain ⟨before, courseReal, courseMagn, speedKnot, after, rfl, rfl⟩ := hedge
  have hlength := Frame.length_bytes_vtg courseReal courseMagn speedKnot
  constructor
  · refine ⟨(wire before).length + 37, rfl, ?_⟩
    rw [wire_append, wire_cons, List.getElem?_append_right (Nat.le_add_right _ _),
      Nat.add_sub_cancel_left, List.getElem?_append_left (by rw [hlength]; decide)]
    exact (getElem?_bytes_eq_nul_iff _ _).mpr ⟨⟨_, _, _, rfl⟩, by decide, by decide⟩
  · intro c hc
    rw [wire_append, wire_cons, List.getElem?_append_right (Nat.le_add_right _ _),
      Nat.add_sub_cancel_left, List.getElem?_append_right (hlength ▸ Nat.le_refl _), hlength,
      Nat.sub_self] at hc
    exact wire_head hc

/-- A read shows all its text exactly when it does not go on behind the end of a VTG frame. -/
theorem cstr_eq_text_iff {frames : List Frame} {bytes : List Char} {start : ℕ}
    (hslice : slice (wire frames) (start, bytes.length) = bytes) :
    cstr bytes = text bytes ↔
      ∀ edge, IsVtgEnd frames edge → ¬ Crosses (start, bytes.length) edge := by
  have hindex : ∀ i < bytes.length, (wire frames)[start + i]? = bytes[i]? := by
    intro i hi
    rw [← hslice]
    simp [slice, hi]
  rw [cstr, text, takeWhile_eq_filter_iff]
  constructor
  · rintro hmarks edge hedge ⟨hstart, hstop⟩
    obtain ⟨⟨last, rfl, hnul⟩, hmark⟩ := hedge.bytes
    obtain ⟨i, rfl⟩ := Nat.exists_eq_add_of_le (Nat.le_of_lt_succ hstart)
    have hi : i + 1 < bytes.length := Nat.lt_of_add_lt_add_left hstop
    obtain ⟨c, hc⟩ : ∃ c, bytes[i + 1]? = some c := ⟨_, List.getElem?_eq_getElem hi⟩
    have hdollar : c = '$' := hmark c ((hindex (i + 1) hi).trans hc)
    have hlast : bytes[i]? = some nul := (hindex i (Nat.lt_of_succ_lt hi)).symm.trans hnul
    have hkept := hmarks i (i + 1) nul c (Nat.lt_succ_self i) hlast hc
    rw [hdollar] at hkept
    exact absurd (hkept (by decide)) (by decide)
  · intro hedges i j a b hij ha hb hpb
    by_contra hpa
    have hnul : a = nul := by simpa using hpa
    have hc : b ≠ nul := by simpa using hpb
    have hj := (List.getElem?_eq_some_iff.mp hb).1
    have hi := Nat.lt_trans hij hj
    obtain ⟨edge, hedge, hbefore, hafter⟩ := exists_end_of_nul (Nat.add_lt_add_left hij start)
      ((hindex i hi).trans (hnul ▸ ha)) ((hindex j hj).trans hb) hc
    apply hedges edge hedge
    exact ⟨Nat.lt_of_le_of_lt (Nat.le_add_right start i) hbefore,
      Nat.lt_of_le_of_lt hafter (Nat.add_lt_add_left hj start)⟩

/-- **The lines of the simulator.** Over every sequence of reads from the line of any frames
and whatever lies behind the buffer, the lines show the frames less their terminators
exactly when every read is terminated and none goes on behind the end of a VTG frame. -/
theorem shown_eq_text_wire_iff {frames : List Frame} {reads : List (ReadResult buffSize)}
    (hreads : (reads.map ReadResult.bytes).flatten <+: wire frames) (buff : Buffer buffSize) :
    (∀ arrivals : List Arrival, arrivals.map Arrival.result = reads →
        shown (readerLoop buff arrivals) = text (reads.map ReadResult.bytes).flatten) ↔
      (∀ result ∈ reads, Terminated result) ∧
        ∀ span ∈ spans (reads.map ReadResult.bytes), ∀ edge, IsVtgEnd frames edge →
          ¬ Crosses span edge := by
  have hnewline : ∀ result ∈ reads, newline ∉ result.bytes := by
    intro result hresult hmem
    apply newline_notMem_wire frames
    apply hreads.subset
    exact List.mem_flatten_of_mem (List.mem_map_of_mem hresult) hmem
  rw [shown_eq_text_iff hnewline, forall₂_and]
  apply and_congr_right
  intro _
  constructor
  · intro hkept span hspan
    obtain ⟨before, block, after, hblocks, rfl⟩ := mem_spans.mp hspan
    have hblock : block ∈ reads.map ReadResult.bytes := by
      rw [hblocks]
      exact List.mem_append_right _ (List.mem_cons_self ..)
    obtain ⟨result, hresult, rfl⟩ := List.mem_map.mp hblock
    exact (cstr_eq_text_iff (slice_block (hblocks ▸ hreads))).mp (hkept result hresult)
  · intro hedges result hresult
    obtain ⟨before, after, hblocks⟩ := List.append_of_mem
      (List.mem_map_of_mem (f := ReadResult.bytes) hresult)
    apply (cstr_eq_text_iff (slice_block (hblocks ▸ hreads))).mpr
    exact hedges _ (mem_spans.mpr ⟨before, result.bytes, after, hblocks, rfl⟩)

theorem length_bytes_gll_le (latitude longitude : ℚ) (timeinfo : Tm) :
    (Frame.gll latitude longitude timeinfo).bytes.length ≤ buffSize := by
  rw [Frame.length_bytes_gll]
  decide

/-- One frame, cut in its middle. -/
def twoPieces : List (ReadResult buffSize) :=
  [⟨(Frame.gll 0 0 firstTime).bytes.take 20,
      Nat.le_trans (List.take_sublist _ _).length_le (length_bytes_gll_le 0 0 firstTime)⟩,
    ⟨(Frame.gll 0 0 firstTime).bytes.drop 20,
      Nat.le_trans (List.drop_sublist _ _).length_le (length_bytes_gll_le 0 0 firstTime)⟩]

theorem flatten_twoPieces :
    (twoPieces.map ReadResult.bytes).flatten = wire [.gll 0 0 firstTime] := by
  simp [twoPieces, wire]

/-- Whatever lies behind the buffer, here a letter, the frame is shown whole. -/
theorem shown_eq_text_wire_iff_twoPieces :
    shown (readerLoop ⟨zeroed buffSize, List.length_replicate⟩
        (twoPieces.map fun result => ⟨result, ['A']⟩)) =
      text (twoPieces.map ReadResult.bytes).flatten := by
  apply (@shown_eq_text_wire_iff [.gll 0 0 firstTime] _ (by rw [flatten_twoPieces])
    ⟨zeroed buffSize, List.length_replicate⟩).mpr
  · constructor
    · intro result hresult
      left
      rcases List.mem_cons.mp hresult with rfl | hresult
      · exact Nat.lt_of_le_of_lt (List.length_take_le _ _) (by decide)
      · obtain rfl := List.mem_singleton.mp hresult
        rw [List.length_drop, Frame.length_bytes_gll]
        decide
    · rintro span - edge ⟨before, courseReal, courseMagn, speedKnot, after, hframes, -⟩
      cases before with
      | nil => simp at hframes
      | cons frame before => simp at hframes
  · rw [List.map_map]
    exact List.map_id twoPieces

end Embsys.GpsReader
