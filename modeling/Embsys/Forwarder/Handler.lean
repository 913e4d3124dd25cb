/-
# Start and stop of the forwarder

A forwarder opens the semaphore and a socket and attaches to the segment. Only
`ftruncate` on the way changes the kernel. `hndinit` keeps the semaphore field:
`hndclose` clears the pointer to the segment and leaves the semaphore in place.
-/

import Embsys.Os.Rounds

namespace Embsys.Forwarder

open Embsys.Os

/-- `struct sockaddr_in`. -/
structure SockaddrIn where
  sinFamily : ℕ
  sinPort : BitVec 16
  sinAddr : BitVec 32
  deriving DecidableEq

structure Handlers where
  sockfd : ℤ
  infoMe : SockaddrIn
  shm : Option Name
  sem : Option ℕ
  shmfd : ℤ
  shdata : Pointer
  deriving DecidableEq

structure Opts where
  sem : Name
  shm : Name
  port : ℤ

/-- `AF_INET`. -/
def afInet : ℕ := 2

/-- `htons` on a little-endian machine: the two bytes exchanged. -/
def htons (port : ℤ) : BitVec 16 :=
  (BitVec.ofInt 16 port).extractLsb' 0 8 ++ (BitVec.ofInt 16 port).extractLsb' 8 8

/-- The address 127.0.0.1 as `inet_aton` stores it, in network order. -/
def loopback : BitVec 32 := 0x0100007f

/-- The structure after `bzero`. -/
def SockaddrIn.zero : SockaddrIn := ⟨0, 0, 0⟩

/-- The program's global before `hndopen`: zero-initialised. -/
def Handlers.static : Handlers := ⟨0, .zero, none, none, 0, .null⟩

def hndinit (handlers : Handlers) : Handlers :=
  { handlers with sockfd := -1, infoMe := .zero, shm := none, shmfd := -1, shdata := .null }

def hndclose (handlers : Handlers) (system : System) : Handlers × System :=
  let system := if handlers.sockfd ≠ -1 then system.close handlers.sockfd else system
  let system := if handlers.shmfd ≠ -1 then system.close handlers.shmfd else system
  (hndinit handlers, system)

/-- The error exit of `hndopen`. -/
def hndfail (handlers : Handlers) (system : System) : ℤ × Handlers × System :=
  let (handlers, system) := hndclose handlers system
  (-1, handlers, system)

def hndopen (opts : Opts) (handlers : Handlers) (outcomes : Outcomes) (system : System) :
    ℤ × Handlers × System :=
  let handlers := hndinit handlers
  let (sem, system) := system.semOpen opts.sem false outcomes.semOpen
  let handlers := { handlers with sem := sem }
  if sem = none then hndfail handlers system
  else
    let (sockfd, system) := system.openFd .socket outcomes.socket
    let handlers := { handlers with sockfd := sockfd }
    if sockfd = -1 then hndfail handlers system
    else
      let handlers := { handlers with
        infoMe := { SockaddrIn.zero with sinFamily := afInet, sinPort := htons opts.port } }
      if outcomes.inetAton = false then hndfail handlers system
      else
        let handlers := { handlers with
          infoMe := { handlers.infoMe with sinAddr := loopback }
          shm := some opts.shm }
        let (attachment, system) := system.attach opts.shm outcomes
        let handlers := { handlers with
          shmfd := attachment.shmfd
          shdata := attachment.shdata }
        if attachment.done then (0, handlers, system) else hndfail handlers system

/-- Whether a start gets as far as a successful `ftruncate`. -/
def truncates (opts : Opts) (outcomes : Outcomes) (kernel : Kernel) : Bool :=
  (outcomes.semOpen && (kernel.sems opts.sem).isSome) && outcomes.socket.isSome &&
    outcomes.inetAton && (outcomes.shmOpen.isSome && outcomes.ftruncate)

@[simp]
theorem hndfail_kernel (handlers : Handlers) (system : System) :
    (hndfail handlers system).2.2.kernel = system.kernel := by
  simp only [hndfail, hndclose]
  split_ifs <;> rfl

theorem hndfail_ne_zero (handlers : Handlers) (system : System) :
    (hndfail handlers system).1 ≠ 0 := by
  change (-1 : ℤ) ≠ 0
  decide

/-- **Effect of a start on the kernel.** -/
theorem hndopen_kernel (opts : Opts) (handlers : Handlers) (outcomes : Outcomes)
    (system : System) {entry : Entry} (hbound : system.kernel.shms opts.shm = some entry) :
    (hndopen opts handlers outcomes system).2.2.kernel =
      if truncates opts outcomes system.kernel then
        system.kernel.truncate entry.object sizeofPointer
      else system.kernel := by
  obtain ⟨hkernel, hfound⟩ := system.semOpen_lookup opts.sem outcomes.semOpen
  unfold hndopen
  dsimp only
  by_cases hsem : (system.semOpen opts.sem false outcomes.semOpen).1 = none
  · rw [if_pos hsem, hndfail_kernel, hkernel]
    rw [hfound] at hsem
    simp [truncates, hsem]
  rw [if_neg hsem]
  rw [hfound, Bool.not_eq_false] at hsem
  generalize (system.semOpen opts.sem false outcomes.semOpen).2 = afterSem at hkernel ⊢
  by_cases hsocket : (afterSem.openFd .socket outcomes.socket).1 = -1
  · rw [if_pos hsocket, hndfail_kernel, System.openFd_kernel, hkernel]
    rw [System.openFd_eq_neg_one_iff] at hsocket
    simp [truncates, hsocket]
  rw [if_neg hsocket]
  rw [System.openFd_eq_neg_one_iff, ← ne_eq, ← Option.isSome_iff_ne_none] at hsocket
  cases hinet : outcomes.inetAton with
  | false => simp [truncates, hinet, hkernel]
  | true =>
      have hbound' : (afterSem.openFd .socket outcomes.socket).2.kernel.shms opts.shm =
          some entry := by rw [System.openFd_kernel, hkernel, hbound]
      have hattach := System.attach_kernel _ hbound' outcomes
      rw [System.openFd_kernel, hkernel] at hattach
      simp only [truncates, hsem, hsocket, hinet, Bool.true_and, Bool.true_eq_false, if_false]
      rw [← hattach]
      split_ifs <;> simp

/-- What `hndclose` leaves of the descriptors and mappings. -/
theorem hndclose_ledger (handlers : Handlers) (system : System) :
    (hndclose handlers system).2.ledger =
      { system.ledger with
        fds := release handlers.shmfd (release handlers.sockfd system.ledger.fds) } := by
  by_cases hsockfd : handlers.sockfd = -1 <;> by_cases hshmfd : handlers.shmfd = -1 <;>
    simp [hndclose, release, hsockfd, hshmfd, System.close]

/-- **Ways out of a start.** A start that succeeds leaves valid handles and its address;
closing gives back the descriptors on every way out. -/
theorem hndopen_cases (opts : Opts) (handlers : Handlers) (outcomes : Outcomes)
    (before : System) :
    (∃ opened system, hndopen opts handlers outcomes before = (0, opened, system) ∧
        ValidHandles outcomes (before.semOpen opts.sem false outcomes.semOpen).1
          [opened.sockfd, opened.shmfd] opened.sem opened.shdata ∧
        release opened.shmfd (release opened.sockfd system.ledger.fds) = before.ledger.fds ∧
        system.ledger.maps = outcomes.mmap.toList ++ before.ledger.maps ∧
        opened.infoMe = ⟨afInet, htons opts.port, loopback⟩) ∨
      ∃ opened system, hndopen opts handlers outcomes before = hndfail opened system ∧
        release opened.shmfd (release opened.sockfd system.ledger.fds) = before.ledger.fds ∧
        system.ledger.maps = before.ledger.maps := by
  unfold hndopen
  dsimp only
  split_ifs with hsem hsocket hinet hattached
  · exact Or.inr ⟨_, _, rfl, by simp [hndinit], by simp⟩
  · exact Or.inr ⟨_, _, rfl, by simp [hndinit, System.release_openFd], by simp⟩
  · exact Or.inr ⟨_, _, rfl, by simp [hndinit, System.release_openFd], by simp⟩
  · obtain ⟨hshmfd, hmapped⟩ := System.attach_mapped hattached
    refine Or.inl ⟨_, _, rfl, ⟨?_, rfl, hsem, hmapped⟩, ?_, ?_, rfl⟩
    · simpa using ⟨System.openFd_nonneg hsocket, hshmfd⟩
    · simp [System.release_attach, System.release_openFd]
    · simp [System.attach_maps, hattached]
  · refine Or.inr ⟨_, _, rfl, ?_, ?_⟩
    · simp [System.release_attach, System.release_openFd]
    · simp [System.attach_maps, hattached]

/-- A start that succeeds leaves the pointer to a mapping. -/
theorem hndopen_mapped {opts : Opts} {handlers : Handlers} {outcomes : Outcomes}
    {system : System} (hdone : (hndopen opts handlers outcomes system).1 = 0) :
    ∃ address, (hndopen opts handlers outcomes system).2.1.shdata = .mapped address := by
  rcases hndopen_cases opts handlers outcomes system with
    ⟨opened, after, hopen, hvalid, -, -⟩ | ⟨opened, after, hfail, -, -⟩
  · obtain ⟨address, -, hmapped⟩ := hvalid.mapped
    exact ⟨address, by rw [hopen, hmapped]⟩
  · rw [hfail] at hdone
    exact absurd hdone (hndfail_ne_zero _ _)

end Embsys.Forwarder
