/-
# The scanners of the serial line

shm_writer and gps_reader run the same loop: zero the buffer, read as many bytes as
it has, and hand it to string functions. The string functions see the memory after
the buffer too, so what they read is stated on the buffer with arbitrary memory
behind it; one iteration leaves the buffer and the bytes that were read of it.
-/

import Embsys.C.Buffer
import Embsys.ShmWriter.Decoder

namespace Embsys.Pipeline

open Embsys.C Embsys.Gps Embsys.ShmWriter

/-! ## Bytes read of a frame -/

def isGllReads (frame : List Char) : List Extent :=
  scanned frame :: if strlen frame = nmeaGllSize then [⟨3, 3⟩] else []

/-- A field is copied from a frame that `is_gll` accepts. -/
def fieldReads (offset n : ℕ) (frame : List Char) : List Extent :=
  isGllReads frame ++ if isGll frame = 0 then [⟨offset, n⟩] else []

def getTimeReads : List Char → List Extent :=
  fieldReads 28 6

def getLatitudeReads : List Char → List Extent :=
  fieldReads 7 7

def getLongitudeReads : List Char → List Extent :=
  fieldReads 17 8

def decodeFrameReads (frame : List Char) : List Extent :=
  isGllReads frame ++
    if isGll frame = 0 then getTimeReads frame ++ getLatitudeReads frame ++ getLongitudeReads frame
    else []

/-- `printf("%s\n", buff)`. -/
def printfReads (buff : List Char) : List Extent :=
  [scanned buff]

/-! ## The loop -/

/-- The bytes one `read` returned and the memory after the buffer at that time. -/
structure Arrival where
  result : ReadResult buffSize
  beyond : List Char

/-- What an iteration leaves: the buffer, and the bytes read from its start on. -/
structure Iteration where
  buff : Buffer buffSize
  extents : List Extent

/-- One iteration of the main loop. -/
def scanStep (reads : List Char → List Extent) (buff : Buffer buffSize) (arrival : Arrival) :
    Iteration :=
  let buff := buff.bzero.read arrival.result
  if 0 < arrival.result.bytes.length then ⟨buff, reads (buff.bytes ++ arrival.beyond)⟩
  else ⟨buff, []⟩

def scan (reads : List Char → List Extent) : Buffer buffSize → List Arrival → List Iteration
  | _, [] => []
  | buff, arrival :: arrivals =>
      let iteration := scanStep reads buff arrival
      iteration :: scan reads iteration.buff arrivals

/-- The main loop of shm_writer. -/
def shmWriterScan : Buffer buffSize → List Arrival → List Iteration :=
  scan decodeFrameReads

/-- The main loop of gps_reader. -/
def readerScan : Buffer buffSize → List Arrival → List Iteration :=
  scan printfReads

/-- The buffer holds a terminator and only bytes of the buffer were read. -/
def Iteration.Safe (iteration : Iteration) : Prop :=
  nul ∈ iteration.buff.bytes ∧ ∀ extent ∈ iteration.extents, extent.Inside buffSize

/-! ## Bytes inside the buffer -/

/-- Every copy that is executed lies in the buffer, terminator or not. -/
theorem inside_of_mem_fieldReads {offset n : ℕ} (hfield : offset + n ≤ buffSize)
    {frame : List Char} {extent : Extent} (hmem : extent ∈ fieldReads offset n frame) :
    extent = scanned frame ∨ extent.Inside buffSize := by
  simp only [fieldReads, isGllReads, List.mem_append, List.mem_cons] at hmem
  rcases hmem with (hscan | hname) | hcopy
  · exact Or.inl hscan
  · right
    split_ifs at hname
    · obtain rfl := List.mem_singleton.mp hname
      decide
    · simp at hname
  · right
    split_ifs at hcopy
    · obtain rfl := List.mem_singleton.mp hcopy
      exact hfield
    · simp at hcopy

/-- The decoder reads the string and copies from inside the buffer. -/
theorem inside_of_mem_decodeFrameReads {frame : List Char} {extent : Extent}
    (hmem : extent ∈ decodeFrameReads frame) :
    extent = scanned frame ∨ extent.Inside buffSize := by
  rw [decodeFrameReads, List.mem_append] at hmem
  rcases hmem with hname | hfields
  · exact inside_of_mem_fieldReads (by decide : 28 + 6 ≤ buffSize) (List.mem_append_left _ hname)
  · split_ifs at hfields
    · simp only [List.mem_append] at hfields
      rcases hfields with (htime | hlat) | hlon
      · exact inside_of_mem_fieldReads (by decide) htime
      · exact inside_of_mem_fieldReads (by decide) hlat
      · exact inside_of_mem_fieldReads (by decide) hlon
    · simp at hfields

/-- One iteration is safe exactly when its read leaves a terminator in the buffer. -/
theorem scanStep_safe_iff {reads : List Char → List Extent}
    (hreads : ∀ frame, ∀ extent ∈ reads frame, extent = scanned frame ∨ extent.Inside buffSize)
    (buff : Buffer buffSize) (arrival : Arrival) :
    (scanStep reads buff arrival).Safe ↔
      arrival.result.bytes.length < buffSize ∨ nul ∈ arrival.result.bytes := by
  rw [← buff.nul_mem_read_bzero arrival.result]
  unfold scanStep Iteration.Safe
  split_ifs with hbytes
  · apply and_iff_left_of_imp
    intro hnul extent hmem
    rcases hreads _ extent hmem with rfl | hinside
    · exact (Buffer.scanned_inside_iff _ _).mpr hnul
    · exact hinside
  · simp

theorem scan_safe_iff {reads : List Char → List Extent}
    (hreads : ∀ frame, ∀ extent ∈ reads frame, extent = scanned frame ∨ extent.Inside buffSize)
    (buff : Buffer buffSize) (arrivals : List Arrival) :
    (∀ iteration ∈ scan reads buff arrivals, iteration.Safe) ↔
      ∀ arrival ∈ arrivals,
        arrival.result.bytes.length < buffSize ∨ nul ∈ arrival.result.bytes := by
  induction arrivals generalizing buff with
  | nil => simp [scan]
  | cons arrival arrivals ih =>
      rw [scan, List.forall_mem_cons, List.forall_mem_cons, scanStep_safe_iff hreads, ih]

/-- **Reads that stay inside.** Along every sequence of reads, both loops look at bytes
of their buffer only, and find a terminator in it after every read, exactly when no read
fills the buffer with bytes other than the terminator. -/
theorem scanners_safe_iff (buff : Buffer buffSize) (arrivals : List Arrival) :
    ((∀ iteration ∈ shmWriterScan buff arrivals, iteration.Safe) ↔
        ∀ arrival ∈ arrivals,
          arrival.result.bytes.length < buffSize ∨ nul ∈ arrival.result.bytes) ∧
      ((∀ iteration ∈ readerScan buff arrivals, iteration.Safe) ↔
        ∀ arrival ∈ arrivals,
          arrival.result.bytes.length < buffSize ∨ nul ∈ arrival.result.bytes) := by
  constructor
  · exact scan_safe_iff (fun _ _ => inside_of_mem_decodeFrameReads) buff arrivals
  · exact scan_safe_iff (fun _ _ hmem => Or.inl (List.mem_singleton.mp hmem)) buff arrivals

/-- Fifty bytes at once leave no terminator. -/
def fullRead : Arrival where
  result := ⟨List.replicate buffSize 'A', by simp⟩
  beyond := []

theorem not_forall_scanners_safe :
    ¬ ∀ (buff : Buffer buffSize) (arrivals : List Arrival),
      (∀ arrival ∈ arrivals, 0 < arrival.result.bytes.length) →
      (∀ iteration ∈ shmWriterScan buff arrivals, iteration.Safe) ∧
        ∀ iteration ∈ readerScan buff arrivals, iteration.Safe := by
  intro h
  have hsafe := (h ⟨zeroed buffSize, List.length_replicate⟩ [fullRead] (by decide)).1
  have hnul := (hsafe _ (List.mem_singleton_self _)).1
  exact absurd hnul (by decide)

end Embsys.Pipeline
