/-
# What the reader publishes under arbitrary read boundaries

The simulator cuts its stream into frames, the serial line cuts it into read
results. A read makes the loop store a record exactly when both cuts agree on
its span and the frame there is a GLL frame. Nothing else can look like one: the
letters of the name pin the start of a frame, and the 36 characters then end at
the next frame's mark.

The successive records are therefore those of the frames that some read returned
alone and whole, in the order of the stream. A frame that is split between reads
or arrives together with its neighbour is dropped, since the loop keeps no bytes
between two reads.
-/

import Embsys.Gps.Coordinate
import Embsys.Gps.Wire
import Embsys.ShmWriter.Decoder

namespace Embsys.ShmWriter

open Embsys.Math Embsys.C Embsys.Gps

/-- The record a frame decodes to: for a GLL frame its three field texts read
back, unless one of them reads as the error value. -/
def decoded : Frame → Option Shdata
  | .gll latitude longitude timeinfo =>
      fixOf (field 7 2 (coordinate latitude)) (field 8 2 (coordinate longitude))
        (dateText timeinfo)
  | .vtg _ _ _ => none

/-- Consecutive read results of 1 to 50 bytes from the stream of these frames. -/
structure IsReading (frames : List Frame) (reads : List (List Char)) : Prop where
  isPrefix : reads.flatten <+: wire frames
  size : ∀ bytes ∈ reads, 1 ≤ bytes.length ∧ bytes.length ≤ buffSize

/-- The span of a GLL frame of the sequence. -/
def IsGllSpan (frames : List Frame) (span : ℕ × ℕ) : Prop :=
  ∃ before latitude longitude timeinfo after,
    frames = before ++ .gll latitude longitude timeinfo :: after ∧
      span = ((wire before).length, nmeaGllSize)

/-- The frames whose span is the span of a read, in the order of the stream. -/
def returnedAlone (frames : List Frame) (reads : List (List Char)) : List Frame :=
  ((frames.zip (spans (frames.map Frame.bytes))).filter
    (fun x => x.2 ∈ spans reads)).map Prod.fst

/-! ## Frames delivered whole -/

/-- The error values are never reached by the simulator's frames. -/
theorem decoded_gll (latitude longitude : ℚ) (timeinfo : Tm) :
    decoded (.gll latitude longitude timeinfo) =
      some ⟨atof (field 7 2 (coordinate latitude)), atof (field 8 2 (coordinate longitude)),
        atoi (dateText timeinfo)⟩ := by
  have hlat : atof (field 7 2 (coordinate latitude)) ≠ -1 :=
    atof_field_coordinate_ne_neg_one (by decide) (by decide) latitude
  have hlon : atof (field 8 2 (coordinate longitude)) ≠ -1 :=
    atof_field_coordinate_ne_neg_one (by decide) (by decide) longitude
  have htime : atoi (dateText timeinfo) ≠ -1 := by
    rw [atoi_digits (allDigits_dateText timeinfo)]
    omega
  rw [decoded, fixOf, if_pos ⟨htime, hlat, hlon⟩]

theorem nul_notMem_gll_bytes (latitude longitude : ℚ) (timeinfo : Tm) :
    nul ∉ (Frame.gll latitude longitude timeinfo).bytes := by
  obtain ⟨body, hbytes, -, hbody⟩ := gll_bytes latitude longitude timeinfo
  rw [hbytes, List.mem_append]
  rintro (hname | hmem)
  · exact absurd hname (by decide)
  · exact (hbody nul hmem).ne_nul rfl

theorem decodeFrame_fill_nmeaGll (latitude longitude : ℚ) (timeinfo : Tm) :
    decodeFrame (fill (nmeaGll latitude longitude timeinfo)) =
      decoded (.gll latitude longitude timeinfo) := by
  have hnul := nul_notMem_gll_bytes latitude longitude timeinfo
  rw [Frame.bytes, nmeaGll_eq] at hnul
  rw [nmeaGll_eq]
  exact decodeFrame_fill_gllText (length_field _ _ _) (length_field _ _ _)
    (length_dateText timeinfo) hnul

/-- A frame alone in the buffer decodes to its record; a VTG frame to none. -/
theorem storedBy_bytes (frame : Frame) : storedBy frame.bytes = decoded frame := by
  have hpos : 0 < frame.bytes.length := List.length_pos_of_ne_nil frame.bytes_ne_nil
  rw [storedBy, if_pos hpos]
  cases frame with
  | gll latitude longitude timeinfo => exact decodeFrame_fill_nmeaGll latitude longitude timeinfo
  | vtg courseReal courseMagn speedKnot =>
      obtain ⟨body, hbytes, -⟩ := vtg_bytes courseReal courseMagn speedKnot
      have hgll : isGll (fill (Frame.vtg courseReal courseMagn speedKnot).bytes) ≠ 0 := by
        intro hgll
        have hname := (shape_of_isGll_fill hgll).2.1
        simp [hbytes] at hname
      simp [decodeFrame, hgll, decoded]

/-! ## Nothing else is accepted -/

/-- **No misaligned read looks like a GLL frame.** An accepted read result is one
whole GLL frame of the sequence. -/
theorem isGllSpan_of_isGll_fill {frames : List Frame} {reads before after : List (List Char)}
    {bytes : List Char} (hreading : IsReading frames reads)
    (hreads : reads = before ++ bytes :: after) (h : isGll (fill bytes) = 0) :
    IsGllSpan frames (before.flatten.length, bytes.length) := by
  obtain ⟨hlong, hfour, hfive, hstop⟩ := shape_of_isGll_fill h
  have hslice := slice_block (hreads ▸ hreading.isPrefix)
  have hindex : ∀ i < bytes.length, (wire frames)[before.flatten.length + i]? = bytes[i]? := by
    intro i hi
    rw [← hslice]
    simp [slice, hi]
  have hfour' : 4 < bytes.length := lt_of_lt_of_le (by decide) hlong
  have hfive' : 5 < bytes.length := lt_of_lt_of_le (by decide) hlong
  -- The two letters `L` are those of one frame name, which fixes where it starts.
  obtain ⟨front, frame, back, offset, rfl, hpos, hbyte⟩ :=
    exists_frame_of_getElem?_wire ((hindex 4 hfour').trans hfour)
  have hframe : ∀ i < frame.bytes.length,
      (wire (front ++ frame :: back))[(wire front).length + i]? = frame.bytes[i]? := by
    intro i hi
    simp [List.getElem?_append_right, List.getElem?_append_left hi]
  obtain ⟨⟨latitude, longitude, timeinfo, rfl⟩, hoffset⟩ := Frame.eq_gll_of_getElem?_eq_L hbyte
  have hsize := Frame.length_bytes_gll latitude longitude timeinfo
  rcases hoffset with rfl | rfl
  · have hstart : before.flatten.length = (wire front).length := by omega
    suffices hlen : bytes.length = nmeaGllSize by
      exact ⟨front, latitude, longitude, timeinfo, back, rfl, Prod.ext hstart hlen⟩
    by_contra hne
    have hlonger : nmeaGllSize < bytes.length := lt_of_le_of_ne hlong (Ne.symm hne)
    obtain ⟨c, hc⟩ : ∃ c, bytes[nmeaGllSize]? = some c :=
      ⟨_, List.getElem?_eq_getElem hlonger⟩
    have hmark : (wire back)[0]? = some c := by
      rw [← hc, ← hindex _ hlonger, hstart]
      simp [List.getElem?_append_right, hsize]
    rw [hstop c hc] at hmark
    exact absurd (wire_head hmark) (by decide)
  · have hsix : 6 < (Frame.gll latitude longitude timeinfo).bytes.length := by
      rw [hsize]
      decide
    have hshift : (wire front).length + 6 = before.flatten.length + 5 := by omega
    have hnext := hframe 6 hsix
    rw [hshift, hindex 5 hfive', hfive] at hnext
    exact absurd (Frame.eq_gll_of_getElem?_eq_L hnext.symm).2 (by decide)

theorem isGll_fill_of_storedBy {bytes : List Char} (h : (storedBy bytes).isSome) :
    isGll (fill bytes) = 0 := by
  by_contra hgll
  simp [storedBy, decodeFrame, hgll] at h

theorem IsGllSpan.mem_spans {frames : List Frame} {span : ℕ × ℕ} (h : IsGllSpan frames span) :
    span ∈ spans (frames.map Frame.bytes) := by
  obtain ⟨before, latitude, longitude, timeinfo, after, rfl, rfl⟩ := h
  rw [Embsys.Math.mem_spans]
  refine ⟨before.map Frame.bytes, (Frame.gll latitude longitude timeinfo).bytes,
    after.map Frame.bytes, by simp, ?_⟩
  rw [Frame.length_bytes_gll, wire]

/-! ## The published sequence -/

/-- Reading a frame off the stream at its span. -/
theorem storedBy_slice {frames : List Frame} {x : Frame × (ℕ × ℕ)}
    (hx : x ∈ frames.zip (spans (frames.map Frame.bytes))) :
    storedBy (slice (wire frames) x.2) = decoded x.1 := by
  rw [← storedBy_bytes]
  congr 1
  have hslices : (spans (frames.map Frame.bytes)).map (slice (wire frames)) =
      frames.map Frame.bytes := map_slice_spans (List.prefix_rfl)
  obtain ⟨i, hi, rfl⟩ := List.getElem_of_mem hx
  have hentry := congrArg (·[i]?) hslices
  simp only [List.length_zip, spans_length, List.length_map, min_self] at hi
  simpa [hi] using hentry

/-- The records of the frames returned alone, read off the stream. -/
theorem filterMap_returnedAlone (frames : List Frame) (reads : List (List Char)) :
    (returnedAlone frames reads).filterMap decoded =
      ((spans (frames.map Frame.bytes)).filter (· ∈ spans reads)).filterMap
        (fun span => storedBy (slice (wire frames) span)) := by
  have hsnd : (frames.zip (spans (frames.map Frame.bytes))).map Prod.snd =
      spans (frames.map Frame.bytes) := List.map_snd_zip (by simp)
  rw [returnedAlone, List.filterMap_map]
  conv_rhs => rw [← hsnd, List.filter_map, List.filterMap_map]
  apply List.filterMap_congr
  intro x hx
  exact (storedBy_slice (List.mem_of_mem_filter hx)).symm

/-- What the loop stores, read off the stream. -/
theorem filterMap_storedBy {frames : List Frame} {reads : List (List Char)}
    (hreading : IsReading frames reads) :
    reads.filterMap storedBy =
      ((spans reads).filter (· ∈ spans (frames.map Frame.bytes))).filterMap
        (fun span => storedBy (slice (wire frames) span)) := by
  conv_lhs => rw [← map_slice_spans hreading.isPrefix, List.filterMap_map]
  refine (filterMap_filter_of_isSome ?_).symm
  intro span hspan hsome
  obtain ⟨before, bytes, after, hreads, rfl⟩ := Embsys.Math.mem_spans.mp hspan
  rw [Function.comp_apply, slice_block (hreads ▸ hreading.isPrefix)] at hsome
  simpa using (isGllSpan_of_isGll_fill hreading hreads
    (isGll_fill_of_storedBy hsome)).mem_spans

/-- The records stored are those of the frames returned alone and whole. -/
theorem filterMap_storedBy_eq_returnedAlone {frames : List Frame} {reads : List (List Char)}
    (hreading : IsReading frames reads) :
    reads.filterMap storedBy = (returnedAlone frames reads).filterMap decoded := by
  rw [filterMap_storedBy hreading, filterMap_returnedAlone]
  congr 1
  refine filter_spans_comm ?_ ?_
  · intro bytes hbytes
    exact List.ne_nil_of_length_pos (hreading.size bytes hbytes).1
  · intro block hblock
    obtain ⟨frame, -, rfl⟩ := List.mem_map.mp hblock
    exact frame.bytes_ne_nil

/-- A read that is not the span of a GLL frame leaves the published record alone. -/
theorem readStep_of_not_isGllSpan {frames : List Frame} {reads before after : List (List Char)}
    {bytes : List Char} (hreading : IsReading frames reads)
    (hreads : reads = before ++ bytes :: after)
    (hspan : ¬ IsGllSpan frames (before.flatten.length, bytes.length)) (published : Published) :
    readStep published bytes = published := by
  have hnone : storedBy bytes = none := by
    by_contra hsome
    exact hspan (isGllSpan_of_isGll_fill hreading hreads
      (isGll_fill_of_storedBy (Option.isSome_iff_ne_none.mpr hsome)))
  simp [readStep_eq, hnone]

/-- **Reader soundness.** Under any read boundaries the records stored are, in
order and without repetition, those of the GLL frames that some read returned
alone and whole, and no other read changes the published record. -/
theorem readLoop_stores_eq_returnedAlone {frames : List Frame} {reads : List (List Char)}
    (hreading : IsReading frames reads) (published : Published) :
    (readLoop published reads).stores =
        published.stores ++ (returnedAlone frames reads).filterMap decoded ∧
      ∀ before bytes after, reads = before ++ bytes :: after →
        ¬ IsGllSpan frames (before.flatten.length, bytes.length) →
        ∀ current, readStep current bytes = current := by
  refine ⟨?_, fun before bytes after hreads hspan =>
    readStep_of_not_isGllSpan hreading hreads hspan⟩
  rw [readLoop_stores, filterMap_storedBy_eq_returnedAlone hreading]

/-- A stream of two fixes, the second of which the reads cut in two. -/
def twoFixes : List Frame :=
  [.gll (481 / 10) (-45 / 10) firstTime, .gll (482 / 10) (-45 / 10) secondTime]

def cutReads : List (List Char) :=
  [(wire twoFixes).take nmeaGllSize, ((wire twoFixes).drop nmeaGllSize).take 20,
    ((wire twoFixes).drop nmeaGllSize).drop 20]

theorem isReading_cutReads : IsReading twoFixes cutReads where
  isPrefix := by simp [cutReads]
  size := by decide +kernel

theorem readLoop_stores_cutReads :
    ((readLoop ⟨⟨0, 0, 0⟩, []⟩ cutReads).stores =
        [] ++ (returnedAlone twoFixes cutReads).filterMap decoded ∧
      ∀ before bytes after, cutReads = before ++ bytes :: after →
        ¬ IsGllSpan twoFixes (before.flatten.length, bytes.length) →
        ∀ current, readStep current bytes = current) ∧
      (readLoop ⟨⟨0, 0, 0⟩, []⟩ cutReads).stores = [⟨4806, -470, 123519⟩] :=
  ⟨readLoop_stores_eq_returnedAlone isReading_cutReads ⟨⟨0, 0, 0⟩, []⟩, by decide +kernel⟩

/-! ## Frames that reads cut apart -/

/-- A read that overlaps a frame without being its span stores nothing: it is not
the span of another frame either, since frames do not overlap. -/
theorem readStep_of_overlap {frames : List Frame} {reads before after : List (List Char)}
    {bytes : List Char} {span : ℕ × ℕ} (hreading : IsReading frames reads)
    (hreads : reads = before ++ bytes :: after)
    (hspan : span ∈ spans (frames.map Frame.bytes)) (halone : span ∉ spans reads)
    (hbefore : before.flatten.length < span.1 + span.2)
    (hafter : span.1 < before.flatten.length + bytes.length) (published : Published) :
    readStep published bytes = published := by
  apply readStep_of_not_isGllSpan hreading hreads
  intro hgll
  have hsame := eq_of_overlap hgll.mem_spans hspan hbefore hafter
  apply halone
  rw [← hsame, Embsys.Math.mem_spans]
  exact ⟨before, bytes, after, hreads, rfl⟩

/-- The read at the place of a frame returns the frame. -/
theorem eq_gll_of_isReading {before after : List Frame} {latitude longitude : ℚ} {timeinfo : Tm}
    {reads readsBefore readsAfter : List (List Char)} {bytes : List Char}
    (hreading : IsReading (before ++ .gll latitude longitude timeinfo :: after) reads)
    (hreads : reads = readsBefore ++ bytes :: readsAfter)
    (hstart : readsBefore.flatten.length = (wire before).length)
    (hlength : bytes.length = nmeaGllSize) : bytes = nmeaGll latitude longitude timeinfo := by
  have hread := slice_block (hreads ▸ hreading.isPrefix)
  have hframe := slice_append_append (wire before)
    (Frame.gll latitude longitude timeinfo).bytes (wire after)
  rw [Frame.length_bytes_gll] at hframe
  rw [hstart, hlength] at hread
  simp only [wire_append, wire_cons, ← List.append_assoc] at hread
  exact hread.symm.trans hframe

/-- **Fixes and read boundaries.** A GLL frame that one read returns alone and
whole is stored; when no read does, none of the reads that return its bytes
stores anything. -/
theorem gll_stored_or_dropped {before after : List Frame} {latitude longitude : ℚ}
    {timeinfo : Tm} {reads : List (List Char)}
    (hreading : IsReading (before ++ .gll latitude longitude timeinfo :: after) reads)
    (published : Published) :
    (((wire before).length, nmeaGllSize) ∈ spans reads →
        ∃ readsBefore readsAfter,
          reads = readsBefore ++ nmeaGll latitude longitude timeinfo :: readsAfter ∧
            readsBefore.flatten = wire before ∧
            some (readLoop published
              (readsBefore ++ [nmeaGll latitude longitude timeinfo])).shdata =
                decoded (.gll latitude longitude timeinfo)) ∧
      (((wire before).length, nmeaGllSize) ∉ spans reads →
        ∀ readsBefore bytes readsAfter, reads = readsBefore ++ bytes :: readsAfter →
          readsBefore.flatten.length < (wire before).length + nmeaGllSize →
          (wire before).length < readsBefore.flatten.length + bytes.length →
          ∀ current, readStep current bytes = current) := by
  have hframe : ((wire before).length, nmeaGllSize) ∈
      spans ((before ++ .gll latitude longitude timeinfo :: after).map Frame.bytes) :=
    IsGllSpan.mem_spans ⟨before, latitude, longitude, timeinfo, after, rfl, rfl⟩
  constructor
  · intro halone
    obtain ⟨readsBefore, bytes, readsAfter, hreads, hspan⟩ := Embsys.Math.mem_spans.mp halone
    obtain ⟨hstart, hlength⟩ := Prod.mk.inj hspan
    have hbytes : bytes = nmeaGll latitude longitude timeinfo :=
      eq_gll_of_isReading hreading hreads hstart.symm hlength.symm
    rw [hbytes] at hreads
    refine ⟨readsBefore, readsAfter, hreads, ?_, ?_⟩
    · have hhead : readsBefore.flatten <+: wire before := by
        have hread : readsBefore.flatten <+: reads.flatten := by
          simp [hreads]
        exact List.prefix_of_prefix_length_le (hread.trans hreading.isPrefix) (by simp) hstart.ge
      exact hhead.eq_of_length hstart.symm
    · have hstored := storedBy_bytes (.gll latitude longitude timeinfo)
      rw [decoded_gll] at hstored ⊢
      simp only [Frame.bytes] at hstored
      rw [readLoop, List.foldl_concat, readStep_eq, hstored, Option.getD_some]
  · intro hsplit readsBefore bytes readsAfter hreads hbefore hafter
    exact readStep_of_overlap hreading hreads hframe hsplit hbefore hafter

/-- The second fix of the stream is read completely and never stored. -/
theorem not_forall_gll_stored :
    ¬ ∀ frames reads, IsReading frames reads → reads.flatten = wire frames →
      ∀ latitude longitude timeinfo, .gll latitude longitude timeinfo ∈ frames →
        ∃ record, decoded (.gll latitude longitude timeinfo) = some record ∧
          record ∈ (readLoop ⟨⟨0, 0, 0⟩, []⟩ reads).stores := by
  intro h
  have hwhole : cutReads.flatten = wire twoFixes := by
    simp [cutReads]
  obtain ⟨record, hrecord, hstored⟩ := h twoFixes cutReads isReading_cutReads hwhole
    (482 / 10) (-45 / 10) secondTime (by simp [twoFixes])
  have hvalue : decoded (.gll (482 / 10) (-45 / 10) secondTime) =
      some ⟨4812, -470, 123520⟩ := by decide +kernel
  have hrun : (readLoop ⟨⟨0, 0, 0⟩, []⟩ cutReads).stores = [⟨4806, -470, 123519⟩] := by
    decide +kernel
  rw [hvalue] at hrecord
  rw [hrun, ← Option.some.inj hrecord] at hstored
  exact absurd hstored (by decide +kernel)

theorem gll_stored_or_dropped_cutReads :
    (((wire []).length, nmeaGllSize) ∈ spans cutReads →
        ∃ readsBefore readsAfter,
          cutReads = readsBefore ++ nmeaGll (481 / 10) (-45 / 10) firstTime :: readsAfter ∧
            readsBefore.flatten = wire [] ∧
            some (readLoop ⟨⟨0, 0, 0⟩, []⟩
              (readsBefore ++ [nmeaGll (481 / 10) (-45 / 10) firstTime])).shdata =
                decoded (.gll (481 / 10) (-45 / 10) firstTime)) ∧
      (((wire []).length, nmeaGllSize) ∉ spans cutReads →
        ∀ readsBefore bytes readsAfter, cutReads = readsBefore ++ bytes :: readsAfter →
          readsBefore.flatten.length < (wire []).length + nmeaGllSize →
          (wire []).length < readsBefore.flatten.length + bytes.length →
          ∀ current, readStep current bytes = current) :=
  @gll_stored_or_dropped [] _ _ _ _ _ isReading_cutReads ⟨⟨0, 0, 0⟩, []⟩

end Embsys.ShmWriter
