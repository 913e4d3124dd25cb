/-
# Start and stop of the converter

The same as for the forwarder without its socket: the semaphore, then the segment
with the same `ftruncate`.
-/

import Embsys.Os.Rounds

namespace Embsys.Converter

open Embsys.Os

structure Handlers where
  shm : Option Name
  sem : Option ℕ
  shmfd : ℤ
  shdata : Pointer

structure Opts where
  sem : Name
  shm : Name

/-- The program's global before `hndopen`: zero-initialised. -/
def Handlers.static : Handlers := ⟨none, none, 0, .null⟩

def hndinit (handlers : Handlers) : Handlers :=
  { handlers with shm := none, shmfd := -1, shdata := .null }

def hndclose (handlers : Handlers) (system : System) : Handlers × System :=
  let system := if handlers.shmfd ≠ -1 then system.close handlers.shmfd else system
  (hndinit handlers, system)

/-- The error exit of `hndopen`. -/
def hndfail (handlers : Handlers) (system : System) : ℤ × Handlers × System :=
  let (handlers, system) := hndclose handlers system
  (-1, handlers, system)

def hndopen (opts : Opts) (handlers : Handlers) (outcomes : Outcomes) (system : System) :
    ℤ × Handlers × System :=
  let handlers := hndinit handlers
  let (sem, system) := system.semOpen opts.sem false outcomes.semOpen
  let handlers := { handlers with sem := sem }
  if sem = none then hndfail handlers system
  else
    let handlers := { handlers with shm := some opts.shm }
    let (attachment, system) := system.attach opts.shm outcomes
    let handlers := { handlers with
      shmfd := attachment.shmfd
      shdata := attachment.shdata }
    if attachment.done then (0, handlers, system) else hndfail handlers system

/-- Whether a start gets as far as a successful `ftruncate`. -/
def truncates (opts : Opts) (outcomes : Outcomes) (kernel : Kernel) : Bool :=
  (outcomes.semOpen && (kernel.sems opts.sem).isSome) &&
    (outcomes.shmOpen.isSome && outcomes.ftruncate)

@[simp]
theorem hndfail_kernel (handlers : Handlers) (system : System) :
    (hndfail handlers system).2.2.kernel = system.kernel := by
  simp only [hndfail, hndclose]
  split_ifs <;> rfl

/-- **Effect of a start on the kernel.** -/
theorem hndopen_kernel (opts : Opts) (handlers : Handlers) (outcomes : Outcomes)
    (system : System) {entry : Entry} (hbound : system.kernel.shms opts.shm = some entry) :
    (hndopen opts handlers outcomes system).2.2.kernel =
      if truncates opts outcomes system.kernel then
        system.kernel.truncate entry.object sizeofPointer
      else system.kernel := by
  obtain ⟨hkernel, hfound⟩ := system.semOpen_lookup opts.sem outcomes.semOpen
  unfold hndopen
  dsimp only
  by_cases hsem : (system.semOpen opts.sem false outcomes.semOpen).1 = none
  · rw [if_pos hsem, hndfail_kernel, hkernel]
    rw [hfound] at hsem
    simp [truncates, hsem]
  rw [if_neg hsem]
  rw [hfound, Bool.not_eq_false] at hsem
  have hbound' : (system.semOpen opts.sem false outcomes.semOpen).2.kernel.shms opts.shm =
      some entry := by rw [hkernel, hbound]
  have hattach := System.attach_kernel _ hbound' outcomes
  rw [hkernel] at hattach
  simp only [truncates, hsem, Bool.true_and]
  rw [← hattach]
  split_ifs <;> simp

/-- What `hndclose` leaves of the descriptors and mappings. -/
theorem hndclose_ledger (handlers : Handlers) (system : System) :
    (hndclose handlers system).2.ledger =
      { system.ledger with fds := release handlers.shmfd system.ledger.fds } := by
  by_cases hshmfd : handlers.shmfd = -1 <;> simp [hndclose, release, hshmfd, System.close]

/-- **Ways out of a start.** -/
theorem hndopen_cases (opts : Opts) (handlers : Handlers) (outcomes : Outcomes)
    (before : System) :
    (∃ opened system, hndopen opts handlers outcomes before = (0, opened, system) ∧
        ValidHandles outcomes (before.semOpen opts.sem false outcomes.semOpen).1
          [opened.shmfd] opened.sem opened.shdata ∧
        release opened.shmfd system.ledger.fds = before.ledger.fds ∧
        system.ledger.maps = outcomes.mmap.toList ++ before.ledger.maps) ∨
      ∃ opened system, hndopen opts handlers outcomes before = hndfail opened system ∧
        release opened.shmfd system.ledger.fds = before.ledger.fds ∧
        system.ledger.maps = before.ledger.maps := by
  have hrelease := (before.semOpen opts.sem false outcomes.semOpen).2.release_attach
    opts.shm outcomes (-1)
  rw [release_neg_one, release_neg_one, System.semOpen_fds] at hrelease
  unfold hndopen
  dsimp only
  split_ifs with hsem hattached
  · exact Or.inr ⟨_, _, rfl, by simp [hndinit], by simp⟩
  · obtain ⟨hshmfd, hmapped⟩ := System.attach_mapped hattached
    refine Or.inl ⟨_, _, rfl, ⟨by simpa using hshmfd, rfl, hsem, hmapped⟩, hrelease, ?_⟩
    simp [System.attach_maps, hattached]
  · refine Or.inr ⟨_, _, rfl, hrelease, ?_⟩
    simp [System.attach_maps, hattached]

end Embsys.Converter
