/-
# What the programs hold between rounds

Every program gives back its descriptors, whatever call failed. No program unmaps
the segment, so the mapping of a successful start stays; what is released of the
semaphore handles differs between the programs.
-/

import Embsys.ShmWriter.Handler
import Embsys.Forwarder.Handler
import Embsys.Converter.Handler
import Embsys.ShmReader.Handler

namespace Embsys.Pipeline

open Embsys.Os

def shmWriter : Program ShmWriter.Opts ShmWriter.Handlers where
  hndopen opts _ outcomes system := ShmWriter.hndopen opts outcomes system
  hndclose := ShmWriter.hndclose

def forwarder : Program Forwarder.Opts Forwarder.Handlers where
  hndopen  := Forwarder.hndopen
  hndclose := Forwarder.hndclose

def converter : Program Converter.Opts Converter.Handlers where
  hndopen  := Converter.hndopen
  hndclose := Converter.hndclose

def shmReader : Program ShmReader.Opts ShmReader.Handlers where
  hndopen opts _ outcomes system := ShmReader.hndopen opts outcomes system
  hndclose := ShmReader.hndclose

/-- The round gave back its descriptors, and kept its mapping if it succeeded. -/
structure KeepsMapping {Opts : Type} (rounded : Rounded Opts) : Prop where
  fds : rounded.after.fds = rounded.before.fds
  maps : rounded.after.maps = rounded.mapping ++ rounded.before.maps

/-! ## One round -/

theorem shmWriter_round (process : Process ShmWriter.Handlers)
    (round : Round ShmWriter.Opts) :
    KeepsMapping ⟨round, (shmWriter.round process round).1, process.ledger,
        (shmWriter.round process round).2.ledger⟩ ∧
      (shmWriter.round process round).2.ledger.sems = process.ledger.sems := by
  rcases ShmWriter.hndopen_cases round.opts round.outcomes ⟨round.kernel, process.ledger⟩ with
    ⟨handlers, system, hdone, -, -, hopening, hmaps⟩ |
    ⟨handlers, system, hfail, -, hopening, -, hmaps⟩
  · rw [Program.round_of_done hdone]
    simp only [shmWriter, ShmWriter.hndclose_eq]
    exact ⟨⟨hopening.fds, hmaps⟩, hopening.handles⟩
  · rw [Program.round_of_fail (by decide : ShmWriter.exitFailure ≠ 0) hfail]
    simp only [shmWriter, ShmWriter.hndclose_eq]
    exact ⟨⟨hopening.fds, hmaps⟩, hopening.handles⟩

theorem forwarder_round (process : Process Forwarder.Handlers)
    (round : Round Forwarder.Opts) :
    KeepsMapping ⟨round, (forwarder.round process round).1, process.ledger,
      (forwarder.round process round).2.ledger⟩ := by
  rcases Forwarder.hndopen_cases round.opts process.handlers round.outcomes
      ⟨round.kernel, process.ledger⟩ with
    ⟨handlers, system, hdone, -, hfds, hmaps, -⟩ | ⟨handlers, system, hfail, hfds, hmaps⟩
  · rw [Program.round_of_done hdone]
    simp only [forwarder, Forwarder.hndclose_ledger]
    exact ⟨hfds, hmaps⟩
  · rw [Program.round_of_fail (by decide : (-1 : ℤ) ≠ 0) hfail]
    simp only [forwarder, Forwarder.hndclose_ledger]
    exact ⟨hfds, hmaps⟩

theorem converter_round (process : Process Converter.Handlers)
    (round : Round Converter.Opts) :
    KeepsMapping ⟨round, (converter.round process round).1, process.ledger,
      (converter.round process round).2.ledger⟩ := by
  rcases Converter.hndopen_cases round.opts process.handlers round.outcomes
      ⟨round.kernel, process.ledger⟩ with
    ⟨handlers, system, hdone, -, hfds, hmaps⟩ | ⟨handlers, system, hfail, hfds, hmaps⟩
  · rw [Program.round_of_done hdone]
    simp only [converter, Converter.hndclose_ledger]
    exact ⟨hfds, hmaps⟩
  · rw [Program.round_of_fail (by decide : (-1 : ℤ) ≠ 0) hfail]
    simp only [converter, Converter.hndclose_ledger]
    exact ⟨hfds, hmaps⟩

theorem shmReader_round (process : Process ShmReader.Handlers)
    (round : Round ShmReader.Opts) :
    (shmReader.round process round).2.ledger = process.ledger := by
  obtain ⟨handlers, system, hledger, hdone | hfail⟩ :=
    ShmReader.hndopen_cases round.opts round.outcomes ⟨round.kernel, process.ledger⟩
  · rw [Program.round_of_done hdone]
    exact hledger
  · rw [Program.round_of_fail (by decide : (-1 : ℤ) ≠ 0) hfail]
    exact hledger

/-! ## Runs of rounds -/

/-- **Open and close over runs.** After every round of every run the process holds the
descriptors from before the round, and, where the program closes the semaphore, its
handles; a successful round that maps the segment adds that mapping and no other. -/
theorem rounds_ledger :
    (∀ process rounds, ∀ rounded ∈ shmWriter.rounds process rounds,
        KeepsMapping rounded ∧ rounded.after.sems = rounded.before.sems) ∧
      (∀ process rounds, ∀ rounded ∈ forwarder.rounds process rounds, KeepsMapping rounded) ∧
      (∀ process rounds, ∀ rounded ∈ converter.rounds process rounds, KeepsMapping rounded) ∧
      ∀ process rounds, ∀ rounded ∈ shmReader.rounds process rounds,
        rounded.after = rounded.before :=
  ⟨shmWriter.forall_mem_rounds shmWriter_round, forwarder.forall_mem_rounds forwarder_round,
    converter.forall_mem_rounds converter_round, shmReader.forall_mem_rounds shmReader_round⟩

/-- A round of shm_writer in which every call succeeds. -/
def wholeRound : Round ShmWriter.Opts where
  opts     := ⟨['p'], ['s'], ['l']⟩
  outcomes := ⟨true, some 3, none, true, some 4, true, some 4096⟩
  kernel   := ShmWriter.running.kernel

/-- It leaves the process with the mapping. -/
theorem not_forall_rounds_balanced :
    ¬ ((∀ process rounds, ∀ rounded ∈ shmWriter.rounds process rounds,
          rounded.after = rounded.before) ∧
        (∀ process rounds, ∀ rounded ∈ forwarder.rounds process rounds,
          rounded.after = rounded.before) ∧
        (∀ process rounds, ∀ rounded ∈ converter.rounds process rounds,
          rounded.after = rounded.before) ∧
        ∀ process rounds, ∀ rounded ∈ shmReader.rounds process rounds,
          rounded.after = rounded.before) := by
  rintro ⟨h, -⟩
  have hround := h ⟨ShmWriter.hndinit, ⟨[], [], []⟩⟩ [wholeRound] _ (List.mem_singleton_self _)
  have hmaps := congrArg Ledger.maps hround
  exact absurd hmaps (by decide)

end Embsys.Pipeline
