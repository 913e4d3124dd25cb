/-
# Start and stop of shm_reader

shm_reader opens the semaphore only; the shared memory is left to be done. Its
`hndinit` clears the semaphore too, and its `hndclose` closes it.
-/

import Embsys.Os.Rounds

namespace Embsys.ShmReader

open Embsys.Os

structure Handlers where
  sem : Option ℕ
  shm : Option Name
  shmfd : ℤ
  shdata : Pointer

structure Opts where
  sem : Name
  shm : Name

/-- The record `hndinit` leaves: every field is assigned. -/
def hndinit : Handlers where
  sem    := none
  shm    := none
  shmfd  := -1
  shdata := .null

def hndclose (handlers : Handlers) (system : System) : Handlers × System :=
  let system := if handlers.shmfd ≠ -1 then system.close handlers.shmfd else system
  let system := match handlers.sem with
    | some sem => system.semClose sem
    | none => system
  (hndinit, system)

/-- The error exit of `hndopen`. -/
def hndfail (handlers : Handlers) (system : System) : ℤ × Handlers × System :=
  let (handlers, system) := hndclose handlers system
  (-1, handlers, system)

def hndopen (opts : Opts) (outcomes : Outcomes) (system : System) : ℤ × Handlers × System :=
  let handlers := hndinit
  let (sem, system) := system.semOpen opts.sem false outcomes.semOpen
  let handlers := { handlers with sem := sem }
  if sem = none then hndfail handlers system else (0, handlers, system)

/-- What `hndclose` leaves of the ledger. -/
theorem hndclose_ledger (handlers : Handlers) (system : System) :
    (hndclose handlers system).2.ledger =
      { system.ledger with
        fds := release handlers.shmfd system.ledger.fds
        sems := handlers.sem.elim system.ledger.sems system.ledger.sems.erase } := by
  obtain ⟨sem, shm, shmfd, shdata⟩ := handlers
  cases sem <;> by_cases hshmfd : shmfd = -1 <;>
    simp [hndclose, release, hshmfd, System.close, System.semClose]

/-- **Ways out of a start.** Closing gives back all that was acquired. -/
theorem hndopen_cases (opts : Opts) (outcomes : Outcomes) (before : System) :
    ∃ opened system, (hndclose opened system).2.ledger = before.ledger ∧
      (hndopen opts outcomes before = (0, opened, system) ∨
        hndopen opts outcomes before = hndfail opened system) := by
  refine ⟨{ hndinit with sem := (before.semOpen opts.sem false outcomes.semOpen).1 },
    (before.semOpen opts.sem false outcomes.semOpen).2, ?_, ?_⟩
  · rw [hndclose_ledger]
    simp [hndinit, System.erase_semOpen]
  · unfold hndopen
    dsimp only
    split_ifs
    · exact Or.inr rfl
    · exact Or.inl rfl

/-- One iteration of `shmreader`: the time it prints, if any, when the record it would look at
has this time. -/
def shmreader (handlers : Handlers) (time : ℤ) : Option ℤ :=
  match handlers.shdata with
  | .null => none
  | _ => some time

/-- A reader that has started never prints: nothing sets its pointer to the record. -/
theorem shmreader_hndopen (opts : Opts) (outcomes : Outcomes) (before : System) (time : ℤ) :
    shmreader (hndopen opts outcomes before).2.1 time = none := by
  unfold hndopen
  dsimp only
  split_ifs
  · rfl
  · rfl

end Embsys.ShmReader
