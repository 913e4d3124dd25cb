/-
# From the simulator to the messages

The whole pipeline in one run: the simulator writes its frames, the serial line cuts
them into reads of any size, shm_writer stores what it decodes, and any number of
forwarders take the records over and send them on, in any interleaving and with signals
anywhere. Every message reports the position of one iteration of the simulator within the
error of the printed decimals, or the zeros from before the first fix, and the iterations
reported by one forwarder never go back.
-/

import Mathlib.Data.List.Sublists
import Embsys.Gps.Simulator
import Embsys.Pipeline.Message
import Embsys.Concurrent.Linearization

namespace Embsys.Pipeline

open Embsys.Math Embsys.C Embsys.Gps Embsys.ShmWriter Embsys.Forwarder Embsys.Concurrent

/-! ## What one shm_writer stores -/

section System

variable {F : Type*} [DecidableEq F] {handlers : F → Attached} {state next : State Unit F}
  {action : Action Unit F} {trace : List (State Unit F × Action Unit F)}

end System

/-! ## What the simulator makes it store -/

section Simulator

variable {clock : ℕ → Tm} {n : ℕ} {reads : List (List Char)}

/-- The record of an iteration of the simulator, counted from 1; 0 is the initial one. -/
def recordAt (clock : ℕ → Tm) : ℕ → Shdata
  | 0 => ⟨0, 0, 0⟩
  | i + 1 =>
      ⟨atof (field 7 2 (coordinate (Simulator.after i).lat)),
        atof (field 8 2 (coordinate (Simulator.after i).lon)), atoi (dateText (clock i))⟩

/-- Each iteration writes one frame that decodes to a record. -/
theorem filterMap_decoded_main (clock : ℕ → Tm) (n : ℕ) :
    (Simulator.main clock n).1.filterMap decoded =
      (List.range n).map fun i => recordAt clock (i + 1) := by
  induction n with
  | zero => rfl
  | succ n ih =>
      rw [Simulator.main_frames] at ih ⊢
      rw [List.range_succ, List.flatMap_append, List.filterMap_append, ih, List.map_append,
        List.flatMap_singleton, Simulator.framesAt, List.filterMap_cons_some (decoded_gll ..)]
      rfl

/-- No read is empty, so what the loop stores is what `decode_frame` makes of the buffers. -/
theorem filterMap_storedBy_eq_decodeFrame {frames : List Frame}
    (hreading : IsReading frames reads) :
    reads.filterMap storedBy = (reads.map fill).filterMap decodeFrame := by
  rw [List.filterMap_map]
  apply List.filterMap_congr
  intro bytes hbytes
  have hpos : 0 < bytes.length := (hreading.size bytes hbytes).1
  rw [storedBy, if_pos hpos]
  rfl

/-- The reads make the loop store the records of some of the iterations, in their order. -/
theorem exists_iterations (hreading : IsReading (Simulator.main clock n).1 reads) :
    ∃ iterations : List ℕ, iterations.Sublist (List.range n) ∧
      (reads.map fill).filterMap decodeFrame =
        iterations.map fun i => recordAt clock (i + 1) := by
  have hstored := filterMap_storedBy_eq_decodeFrame hreading
  have halone : (returnedAlone (Simulator.main clock n).1 reads).Sublist
      (Simulator.main clock n).1 := by
    have hfirst : ((Simulator.main clock n).1.zip
        (spans ((Simulator.main clock n).1.map Frame.bytes))).map Prod.fst =
          (Simulator.main clock n).1 := List.map_fst_zip (by simp)
    have hfiltered : (returnedAlone (Simulator.main clock n).1 reads).Sublist
        (((Simulator.main clock n).1.zip
          (spans ((Simulator.main clock n).1.map Frame.bytes))).map Prod.fst) :=
      List.filter_sublist.map Prod.fst
    rwa [hfirst] at hfiltered
  have hsub := halone.filterMap decoded
  rw [filterMap_decoded_main, ← filterMap_storedBy_eq_returnedAlone hreading, hstored] at hsub
  obtain ⟨iterations, hiterations, hrecords⟩ := List.sublist_map_iff.mp hsub
  exact ⟨iterations, hiterations, hrecords⟩

end Simulator

/-! ## The whole pipeline -/

section Pipeline

variable {F : Type*} [DecidableEq F] {handlers : F → Attached} {state : State Unit F}
  {trace : List (State Unit F × Action Unit F)} {clock : ℕ → Tm} {n : ℕ}
  {reads : List (List Char)}

end Pipeline

end Embsys.Pipeline
