/-
# Start and stop of shm_writer

`hndopen` acquires a semaphore, the port, a shared-memory object and a mapping,
and leaves through one error exit that runs `hndclose`. That exit unlinks both
names whatever the call found under them, so a failed start takes away names that
another process created.
-/

import Embsys.Os.Rounds

namespace Embsys.ShmWriter

open Embsys.Os

structure Handlers where
  gpsfd : ℤ
  sem : Option ℕ
  semname : Option Name
  shmfd : ℤ
  shm : Option Name
  shdata : Pointer

structure Opts where
  port : Name
  shm : Name
  sem : Name

def exitSuccess : ℤ := 0
def exitFailure : ℤ := 1

/-- The record `hndinit` leaves: every field is assigned. -/
def hndinit : Handlers where
  gpsfd := -1
  sem := none
  semname := none
  shmfd := -1
  shm := none
  shdata := .null

def hndclose (handlers : Handlers) (system : System) : Handlers × System :=
  let system := if handlers.gpsfd ≠ -1 then system.close handlers.gpsfd else system
  let system := match handlers.sem with
    | some sem => system.semClose sem
    | none => system
  let system := match handlers.semname with
    | some semname => system.semUnlink semname
    | none => system
  let system := if handlers.shmfd ≠ -1 then system.close handlers.shmfd else system
  let system := match handlers.shm with
    | some shm => system.shmUnlink shm
    | none => system
  (hndinit, system)

/-- The error exit of `hndopen`. -/
def hndfail (handlers : Handlers) (system : System) : ℤ × Handlers × System :=
  let (handlers, system) := hndclose handlers system
  (exitFailure, handlers, system)

def hndopen (opts : Opts) (outcomes : Outcomes) (system : System) : ℤ × Handlers × System :=
  let handlers := { hndinit with semname := some opts.sem }
  let (sem, system) := system.semOpen opts.sem true outcomes.semOpen
  let handlers := { handlers with sem := sem }
  if sem = none then hndfail handlers system
  else
    let (gpsfd, system) := system.openFd .device outcomes.openPort
    let handlers := { handlers with gpsfd := gpsfd }
    if gpsfd = -1 then hndfail handlers system
    else
      let handlers := { handlers with shm := some opts.shm }
      let (shmfd, system) := system.shmOpen opts.shm true outcomes.shmOpen
      let handlers := { handlers with shmfd := shmfd }
      if shmfd = -1 then hndfail handlers system
      else
        let (result, system) := system.ftruncate shmfd sizeofPointer outcomes.ftruncate
        if result ≠ 0 then hndfail handlers system
        else
          let (shdata, system) := system.mmap outcomes.mmap
          let handlers := { handlers with shdata := shdata }
          if shdata = .failed then hndfail handlers system
          else (exitSuccess, handlers, system)

/-! ## What a failed start leaves -/

/-- What `hndclose` gives back: each call of it undoes one acquisition. -/
theorem hndclose_eq (handlers : Handlers) (system : System) :
    (hndclose handlers system).2 =
      { kernel := { system.kernel with
          sems := handlers.semname.elim system.kernel.sems system.kernel.sems.unlink
          shms := handlers.shm.elim system.kernel.shms system.kernel.shms.unlink }
        ledger := { system.ledger with
          fds := release handlers.shmfd (release handlers.gpsfd system.ledger.fds)
          sems := handlers.sem.elim system.ledger.sems system.ledger.sems.erase } } := by
  obtain ⟨gpsfd, sem, semname, shmfd, shm, shdata⟩ := handlers
  cases sem <;> cases semname <;> cases shm <;> by_cases hgpsfd : gpsfd = -1 <;>
    by_cases hshmfd : shmfd = -1 <;>
    simp [hndclose, release, hgpsfd, hshmfd, System.close, System.semClose, System.semUnlink,
      System.shmUnlink]

/-- A state inside `hndopen` from which `hndclose` gives back all that was
acquired since `before`. -/
structure Opening (opts : Opts) (before : System) (handlers : Handlers) (system : System) :
    Prop where
  semname : handlers.semname = some opts.sem
  sems : system.kernel.sems.unlink opts.sem = before.kernel.sems.unlink opts.sem
  handles : handlers.sem.elim system.ledger.sems system.ledger.sems.erase = before.ledger.sems
  fds : release handlers.shmfd (release handlers.gpsfd system.ledger.fds) = before.ledger.fds
  shms : handlers.shm.elim system.kernel.shms system.kernel.shms.unlink =
    handlers.shm.elim before.kernel.shms before.kernel.shms.unlink

section Acquire

variable {opts : Opts} {before system : System} {handlers : Handlers}

theorem Opening.init (opts : Opts) (before : System) :
    Opening opts before { hndinit with semname := some opts.sem } before :=
  ⟨rfl, rfl, rfl, by simp [hndinit], rfl⟩

theorem Opening.semOpen (h : Opening opts before handlers system) (hsem : handlers.sem = none)
    (succeeds : Bool) :
    Opening opts before
      { handlers with sem := (system.semOpen opts.sem true succeeds).1 }
      (system.semOpen opts.sem true succeeds).2 := by
  have hheld := h.handles
  rw [hsem, Option.elim_none] at hheld
  cases succeeds with
  | false => exact ⟨h.semname, h.sems, hheld, h.fds, h.shms⟩
  | true =>
      obtain ⟨sem, next, hopen⟩ := System.semOpen_create system opts.sem
      rw [hopen]
      exact ⟨h.semname, (Names.unlink_create _ _ _).trans h.sems,
        (List.erase_cons_head _ _).trans hheld, h.fds, h.shms⟩

theorem Opening.openFd (h : Opening opts before handlers system) (hgpsfd : handlers.gpsfd = -1)
    (hshmfd : handlers.shmfd = -1) (outcome : Option ℕ) :
    Opening opts before
      { handlers with gpsfd := (system.openFd .device outcome).1 }
      (system.openFd .device outcome).2 := by
  have hheld := h.fds
  rw [hgpsfd, hshmfd, release_neg_one, release_neg_one] at hheld
  cases outcome with
  | none => exact ⟨h.semname, h.sems, h.handles, by simpa [System.openFd, hshmfd], h.shms⟩
  | some fd => exact ⟨h.semname, h.sems, h.handles, by simpa [System.openFd, hshmfd], h.shms⟩

theorem Opening.shmOpen (h : Opening opts before handlers system) (hshm : handlers.shm = none)
    (hshmfd : handlers.shmfd = -1) (outcome : Option ℕ) :
    Opening opts before
      { handlers with shm := some opts.shm, shmfd := (system.shmOpen opts.shm true outcome).1 }
      (system.shmOpen opts.shm true outcome).2 := by
  have hheld := h.fds
  have hbound := h.shms
  rw [hshmfd, release_neg_one] at hheld
  rw [hshm, Option.elim_none, Option.elim_none] at hbound
  cases outcome with
  | none =>
      refine ⟨h.semname, h.sems, h.handles, by simpa [System.shmOpen], ?_⟩
      simp [System.shmOpen, hbound]
  | some fd =>
      obtain ⟨object, objects, next, hopen⟩ := System.shmOpen_create system opts.shm fd
      rw [hopen]
      refine ⟨h.semname, h.sems, h.handles, (release_release_cons _ _ _ _).trans hheld, ?_⟩
      simp [hbound, Names.unlink_create]

theorem Opening.ftruncate (h : Opening opts before handlers system) (fd : ℤ) (size : ℕ)
    (succeeds : Bool) :
    Opening opts before handlers (system.ftruncate fd size succeeds).2 := by
  obtain ⟨objects, hframe⟩ := system.ftruncate_frame fd size succeeds
  rw [hframe]
  exact ⟨h.semname, h.sems, h.handles, h.fds, h.shms⟩

theorem Opening.mmap (h : Opening opts before handlers system) (outcome : Option ℕ) :
    Opening opts before { handlers with shdata := (system.mmap outcome).1 }
      (system.mmap outcome).2 := by
  cases outcome with
  | none => exact ⟨h.semname, h.sems, h.handles, h.fds, h.shms⟩
  | some address => exact ⟨h.semname, h.sems, h.handles, h.fds, h.shms⟩

end Acquire

/-- Whether `hndopen` gets as far as `shm_open`, where it sets the name to unlink. -/
def reachesShm (outcomes : Outcomes) : Bool :=
  outcomes.semOpen && outcomes.openPort.isSome

/-- All five calls of `hndopen` succeed. -/
def succeeds (outcomes : Outcomes) : Bool :=
  outcomes.semOpen && outcomes.openPort.isSome && outcomes.shmOpen.isSome && outcomes.ftruncate &&
    outcomes.mmap.isSome

/-- **Ways out of a start.** Every way out of `hndopen` leaves a state that `hndclose`
can undo. The last is taken when all calls succeed, with valid handles; every other is
the error exit, before anything is mapped. -/
theorem hndopen_cases (opts : Opts) (outcomes : Outcomes) (before : System) :
    (∃ handlers system, hndopen opts outcomes before = (exitSuccess, handlers, system) ∧
        succeeds outcomes = true ∧
        ValidHandles outcomes (before.semOpen opts.sem true outcomes.semOpen).1
          [handlers.gpsfd, handlers.shmfd] handlers.sem handlers.shdata ∧
        Opening opts before handlers system ∧
        system.ledger.maps = outcomes.mmap.toList ++ before.ledger.maps) ∨
      ∃ handlers system, hndopen opts outcomes before = hndfail handlers system ∧
        succeeds outcomes = false ∧ Opening opts before handlers system ∧
        handlers.shm = (if reachesShm outcomes then some opts.shm else none) ∧
        system.ledger.maps = before.ledger.maps := by
  have hsem := (Opening.init opts before).semOpen rfl outcomes.semOpen
  have hport := hsem.openFd rfl rfl outcomes.openPort
  have hshm := hport.shmOpen rfl rfl outcomes.shmOpen
  unfold hndopen
  dsimp only
  by_cases hsemFailed : (before.semOpen opts.sem true outcomes.semOpen).1 = none
  · rw [if_pos hsemFailed]
    rw [System.semOpen_create_eq_none_iff] at hsemFailed
    exact Or.inr ⟨_, _, rfl, by simp [succeeds, hsemFailed], hsem,
      by simp [hndinit, reachesShm, hsemFailed], by simp⟩
  rw [if_neg hsemFailed]
  have hsemOpen := (System.semOpen_create_eq_none_iff _ _ _).not.mp hsemFailed
  rw [Bool.not_eq_false] at hsemOpen
  by_cases hportFailed :
      ((before.semOpen opts.sem true outcomes.semOpen).2.openFd .device outcomes.openPort).1 = -1
  · rw [if_pos hportFailed]
    rw [System.openFd_eq_neg_one_iff] at hportFailed
    exact Or.inr ⟨_, _, rfl, by simp [succeeds, hportFailed], hport,
      by simp [hndinit, reachesShm, hportFailed], by simp⟩
  rw [if_neg hportFailed]
  have hopenPort := (System.openFd_eq_neg_one_iff _ _ _).not.mp hportFailed
  rw [← ne_eq, ← Option.isSome_iff_ne_none] at hopenPort
  have hreached : reachesShm outcomes = true := by simp [reachesShm, hsemOpen, hopenPort]
  rw [hreached, if_pos rfl]
  split_ifs with hshmFailed htruncateFailed hmmapFailed
  · rw [System.shmOpen_create_eq_neg_one_iff] at hshmFailed
    exact Or.inr ⟨_, _, rfl, by simp [succeeds, hshmFailed], hshm, rfl, by simp⟩
  · rw [ne_eq, System.ftruncate_shmOpen_create hshmFailed, Bool.not_eq_true] at htruncateFailed
    exact Or.inr ⟨_, _, rfl, by simp [succeeds, htruncateFailed], hshm.ftruncate _ _ _, rfl,
      by simp⟩
  · rw [System.mmap_eq_failed_iff] at hmmapFailed
    exact Or.inr ⟨_, _, rfl, by simp [succeeds, hmmapFailed], (hshm.ftruncate _ _ _).mmap _, rfl,
      by simp [System.mmap_maps, hmmapFailed]⟩
  · obtain ⟨address, haddress, hmapped⟩ := System.mmap_mapped hmmapFailed
    have hshmOpen := (System.shmOpen_create_eq_neg_one_iff _ _ _).not.mp hshmFailed
    rw [← ne_eq, ← Option.isSome_iff_ne_none] at hshmOpen
    rw [not_ne_iff, System.ftruncate_shmOpen_create hshmFailed] at htruncateFailed
    refine Or.inl ⟨_, _, rfl, ?_, ⟨?_, rfl, hsemFailed, address, haddress, hmapped⟩,
      (hshm.ftruncate _ _ _).mmap _, by simp [System.mmap_maps]⟩
    · simp [succeeds, hsemOpen, hopenPort, hshmOpen, htruncateFailed, haddress]
    · simpa using ⟨System.openFd_nonneg hportFailed, System.shmOpen_nonneg hshmFailed⟩

/-- The names are bound as before and nothing acquired in between is still held. -/
structure Restored (before after : System) : Prop where
  sems : after.kernel.sems = before.kernel.sems
  shms : after.kernel.shms = before.kernel.shms
  fds : after.ledger.fds = before.ledger.fds
  handles : after.ledger.sems = before.ledger.sems

/-- A failed start gives back every descriptor and handle, and unlinks the names it
has reached. -/
theorem hndopen_failed {opts : Opts} {outcomes : Outcomes} {before : System}
    (hfailed : (hndopen opts outcomes before).1 = exitFailure) :
    (hndopen opts outcomes before).2.2.kernel.sems = before.kernel.sems.unlink opts.sem ∧
      (hndopen opts outcomes before).2.2.kernel.shms =
        (if reachesShm outcomes then before.kernel.shms.unlink opts.shm
          else before.kernel.shms) ∧
      (hndopen opts outcomes before).2.2.ledger.fds = before.ledger.fds ∧
      (hndopen opts outcomes before).2.2.ledger.sems = before.ledger.sems := by
  rcases hndopen_cases opts outcomes before with
    ⟨handlers, system, hdone, -⟩ | ⟨handlers, system, hfail, -, hopening, hshm, -⟩
  · rw [hdone] at hfailed
    exact absurd hfailed (by decide : exitSuccess ≠ exitFailure)
  · have hclosed : (hndopen opts outcomes before).2.2 = (hndclose handlers system).2 := by
      rw [hfail, hndfail]
    rw [hclosed, hndclose_eq, hopening.semname, hopening.shms, hopening.fds, hopening.handles, hshm]
    refine ⟨hopening.sems, ?_, rfl, rfl⟩
    split_ifs <;> rfl

/-- **Failed starts.** A start that fails leaves the system as it was exactly when
neither name it unlinks was bound to something the process may remove: the
semaphore name always, the shared-memory name once `shm_open` is reached. -/
theorem hndopen_restored_iff {opts : Opts} {outcomes : Outcomes} {before : System}
    (hfailed : (hndopen opts outcomes before).1 = exitFailure) :
    Restored before (hndopen opts outcomes before).2.2 ↔
      (∀ entry, before.kernel.sems opts.sem = some entry → entry.removable = false) ∧
        (reachesShm outcomes = true →
          ∀ entry, before.kernel.shms opts.shm = some entry → entry.removable = false) := by
  obtain ⟨hsems, hshms, hfds, hhandles⟩ := hndopen_failed hfailed
  rw [← Names.unlink_eq_self_iff, ← Names.unlink_eq_self_iff, ← hsems]
  constructor
  · intro hrestored
    refine ⟨hrestored.sems, fun hreached => ?_⟩
    rw [hreached, if_pos rfl] at hshms
    rw [← hshms, hrestored.shms]
  · rintro ⟨hsem, hshm⟩
    refine ⟨hsem, ?_, hfds, hhandles⟩
    rw [hshms]
    split_ifs with hreached
    · exact hshm hreached
    · rfl

/-- The kernel while a shm_writer runs: both names bound to its objects. -/
def running : System where
  kernel :=
    { sems := fun name => if name = ['l'] then some ⟨0, true⟩ else none
      shms := fun name => if name = ['s'] then some ⟨1, true⟩ else none
      objects := fun _ => ⟨8, fun _ => 0⟩
      next := 2 }
  ledger := ⟨[], [], []⟩

/-- The second start under the same names whose port cannot be opened. -/
def portMissing : Outcomes where
  semOpen := true
  openPort := none
  socket := none
  inetAton := true
  shmOpen := some 4
  ftruncate := true
  mmap := some 4096

theorem hndopen_restored_iff_portMissing :
    Restored running (hndopen ⟨['p'], ['s'], ['m']⟩ portMissing running).2.2 ↔
      (∀ entry, running.kernel.sems ['m'] = some entry → entry.removable = false) ∧
        (reachesShm portMissing = true →
          ∀ entry, running.kernel.shms ['s'] = some entry → entry.removable = false) :=
  hndopen_restored_iff (by decide)

/-- The second start takes the semaphore name of the first away. -/
theorem not_forall_hndopen_restored :
    ¬ ∀ opts outcomes before, (hndopen opts outcomes before).1 = exitFailure →
      Restored before (hndopen opts outcomes before).2.2 := by
  intro h
  have hsems := (h ⟨['p'], ['s'], ['l']⟩ portMissing running (by decide)).sems
  have hname := congrFun hsems ['l']
  exact absurd hname (by decide)

end Embsys.ShmWriter
