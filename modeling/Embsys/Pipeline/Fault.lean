/-
# The library without GPS_OK

Compiled without GPS_OK, `knot_to_kmh_str` counts its calls and hands a null pointer to
`puts` in the second one, which ends the simulator before its second VTG frame is
written. Up to there both builds write the same bytes, so the line carries the frames of
one iteration and the position of the next one, however long the simulator is left to run,
and a shm_writer that reads it stores at most two records.
-/

import Embsys.Pipeline.Journey

namespace Embsys.Pipeline

open Embsys.Math Embsys.C Embsys.Gps Embsys.ShmWriter

/-- `knot_to_kmh_str` without GPS_OK, with the counter it leaves in `iteration`; none where
`puts(NULL)` ends the process. -/
def knotToKmhStrFault (iteration : ℕ) (knot : ℚ) (size : ℕ) (format : ℚ → List Char) :
    Option ((List Char × ℤ) × ℕ) :=
  let kmh := knotToKmhStr knot size format
  let iteration := iteration + 1
  if iteration = 2 then none else some (kmh, iteration)

/-- `write_vtg` on this library: nothing is written where the library faults. -/
def writeVtgFault (iteration : ℕ) (simulator : Simulator) : Option (Frame × Simulator × ℕ) :=
  match knotToKmhStrFault iteration simulator.speedKnot nmeaSpeedSize (formatFixed 5 1) with
  | none => none
  | some (_, iteration) =>
      let (vtg, simulator) := simulator.writeVtg
      some (vtg, simulator, iteration)

/-- The frames written in at most `n` iterations of the main loop, and the globals after them
with the counter of the library, or none where the process has ended. -/
def mainFault (clock : ℕ → Tm) : ℕ → List Frame × Option (Simulator × ℕ)
  | 0 => ([], some (Simulator.initial, 0))
  | n + 1 =>
      match mainFault clock n with
      | (frames, none) => (frames, none)
      | (frames, some (simulator, iteration)) =>
          let (gll, simulator) := simulator.writeGll (clock n)
          match writeVtgFault iteration simulator with
          | none => (frames ++ [gll], none)
          | some (vtg, simulator, iteration) =>
              (frames ++ [gll, vtg], some (simulator, iteration))

/-- The second iteration is the last one, and is cut short. -/
theorem mainFault_add_two (clock : ℕ → Tm) (n : ℕ) :
    mainFault clock (n + 2) =
      ((Simulator.framesAt clock 0 ++ Simulator.framesAt clock 1).take 3, none) := by
  induction n with
  | zero =>
      simp [mainFault, writeVtgFault, knotToKmhStrFault, Simulator.framesAt, Simulator.writeGll,
        Simulator.writeVtg, Simulator.after]
  | succ n ih => rw [mainFault, ih]

/-- **The two builds agree up to the fault**, on the first three frames. -/
theorem mainFault_frames (clock : ℕ → Tm) (n : ℕ) :
    (mainFault clock n).1 = (Simulator.main clock n).1.take 3 := by
  match n with
  | 0 => rfl
  | 1 => rfl
  | n + 2 =>
      have hsplit : List.range (n + 2) = [0, 1] ++ (List.range n).map (2 + ·) := by
        rw [Nat.add_comm, List.range_add]
        rfl
      have hfirst : [0, 1].flatMap (Simulator.framesAt clock) =
          Simulator.framesAt clock 0 ++ Simulator.framesAt clock 1 := by
        simp
      rw [mainFault_add_two, Simulator.main_frames, hsplit, List.flatMap_append, hfirst]
      exact (List.take_append_of_le_length (by simp [Simulator.framesAt])).symm

/-- What the line carries are the bytes of at most two iterations of the other build. -/
theorem wire_mainFault_front (clock : ℕ → Tm) (n : ℕ) :
    wire (mainFault clock n).1 <+: wire (Simulator.main clock 2).1 := by
  have hframes : (mainFault clock n).1 <+: (Simulator.main clock 2).1 := by
    match n with
    | 0 => exact List.nil_prefix
    | 1 => exact List.prefix_append _ _
    | n + 2 =>
        rw [mainFault_add_two, Simulator.main_frames]
        have htwo : (List.range 2).flatMap (Simulator.framesAt clock) =
            Simulator.framesAt clock 0 ++ Simulator.framesAt clock 1 := by
          simp [List.range_succ]
        rw [htwo]
        exact List.take_prefix _ _
  obtain ⟨rest, hrest⟩ := hframes
  rw [← hrest, wire_append]
  exact List.prefix_append _ _

/-- **At most two fixes.** A shm_writer that reads from this build's line, however long it runs
and however the line cuts the stream, stores the records of some of the first two
iterations in their order and nothing else. -/
theorem stores_mainFault {clock : ℕ → Tm} {n : ℕ} {reads : List (List Char)}
    (hreading : IsReading (mainFault clock n).1 reads) (published : Published) :
    ∃ iterations : List ℕ, iterations.Sublist [0, 1] ∧
      (readLoop published reads).stores =
        published.stores ++ iterations.map fun i => recordAt clock (i + 1) := by
  have htwo : IsReading (Simulator.main clock 2).1 reads :=
    ⟨hreading.isPrefix.trans (wire_mainFault_front clock n), hreading.size⟩
  obtain ⟨iterations, hiterations, hrecords⟩ := exists_iterations htwo
  refine ⟨iterations, hiterations, ?_⟩
  rw [readLoop_stores, filterMap_storedBy_eq_decodeFrame hreading, hrecords]

/-- The three frames of the line, each read by itself. -/
def threeReads : List (List Char) :=
  ((Simulator.framesAt (fun _ => firstTime) 0 ++
    Simulator.framesAt (fun _ => firstTime) 1).take 3).map Frame.bytes

theorem stores_mainFault_threeReads :
    ∃ iterations : List ℕ, iterations.Sublist [0, 1] ∧
      (readLoop ⟨⟨0, 0, 0⟩, []⟩ threeReads).stores =
        [] ++ iterations.map fun i => recordAt (fun _ => firstTime) (i + 1) := by
  apply @stores_mainFault (fun _ => firstTime) 2
  rw [mainFault_add_two]
  constructor
  · exact List.prefix_rfl
  · intro bytes hbytes
    obtain ⟨frame, -, rfl⟩ := List.mem_map.mp hbytes
    refine ⟨List.length_pos_of_ne_nil frame.bytes_ne_nil, ?_⟩
    cases frame with
    | gll latitude longitude timeinfo =>
        rw [Frame.length_bytes_gll]
        decide
    | vtg courseReal courseMagn speedKnot =>
        rw [Frame.length_bytes_vtg]
        decide

end Embsys.Pipeline
