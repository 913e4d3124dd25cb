/-
# Rounds of open and close

A round is `hndopen`, followed by `hndclose` when it succeeded. What the process
holds between rounds is its ledger; what the names are bound to by then is up to the
other processes, so every round brings the kernel it finds. The first part says what
each system call leaves alone in the ledger, the second records a sequence of rounds
with the ledger before and after each.
-/

import Embsys.Os.Kernel

namespace Embsys.Os

/-! ## What the calls leave alone -/

namespace System

variable (system : System)

@[simp]
theorem semOpen_fds (name : Name) (create succeeds : Bool) :
    (system.semOpen name create succeeds).2.ledger.fds = system.ledger.fds := by
  unfold semOpen
  split_ifs
  · cases system.kernel.sems name <;> rfl
  · cases system.kernel.sems name <;> rfl
  · rfl

@[simp]
theorem semOpen_maps (name : Name) (create succeeds : Bool) :
    (system.semOpen name create succeeds).2.ledger.maps = system.ledger.maps := by
  unfold semOpen
  split_ifs
  · cases system.kernel.sems name <;> rfl
  · cases system.kernel.sems name <;> rfl
  · rfl

@[simp]
theorem openFd_sems (target : Target) (outcome : Option ℕ) :
    (system.openFd target outcome).2.ledger.sems = system.ledger.sems := by
  cases outcome <;> rfl

@[simp]
theorem openFd_maps (target : Target) (outcome : Option ℕ) :
    (system.openFd target outcome).2.ledger.maps = system.ledger.maps := by
  cases outcome <;> rfl

@[simp]
theorem shmOpen_sems (name : Name) (create : Bool) (outcome : Option ℕ) :
    (system.shmOpen name create outcome).2.ledger.sems = system.ledger.sems := by
  cases outcome with
  | none => rfl
  | some fd => cases hname : system.kernel.shms name <;> cases create <;> simp [shmOpen, hname]

@[simp]
theorem shmOpen_maps (name : Name) (create : Bool) (outcome : Option ℕ) :
    (system.shmOpen name create outcome).2.ledger.maps = system.ledger.maps := by
  cases outcome with
  | none => rfl
  | some fd => cases hname : system.kernel.shms name <;> cases create <;> simp [shmOpen, hname]

@[simp]
theorem ftruncate_ledger (fd : ℤ) (size : ℕ) (succeeds : Bool) :
    (system.ftruncate fd size succeeds).2.ledger = system.ledger := by
  obtain ⟨objects, hframe⟩ := system.ftruncate_frame fd size succeeds
  rw [hframe]

@[simp]
theorem mmap_fds (outcome : Option ℕ) :
    (system.mmap outcome).2.ledger.fds = system.ledger.fds := by
  cases outcome <;> rfl

@[simp]
theorem mmap_eq_failed_iff (outcome : Option ℕ) :
    (system.mmap outcome).1 = .failed ↔ outcome = none := by
  cases outcome <;> simp [mmap]

/-- A failed `mmap` maps nothing. -/
theorem mmap_maps (outcome : Option ℕ) :
    (system.mmap outcome).2.ledger.maps = outcome.toList ++ system.ledger.maps := by
  cases outcome <;> rfl

/-- Closing a new handle leaves the handles from before. -/
theorem erase_semOpen (name : Name) (create succeeds : Bool) :
    (system.semOpen name create succeeds).1.elim
        (system.semOpen name create succeeds).2.ledger.sems
        (system.semOpen name create succeeds).2.ledger.sems.erase =
      system.ledger.sems := by
  unfold semOpen
  split_ifs
  · cases system.kernel.sems name <;> simp
  · cases system.kernel.sems name <;> simp
  · simp

/-- Closing a new descriptor leaves the descriptors from before. -/
theorem release_openFd (target : Target) (outcome : Option ℕ) :
    release (system.openFd target outcome).1 (system.openFd target outcome).2.ledger.fds =
      system.ledger.fds := by
  cases outcome with
  | none => simp [openFd]
  | some fd => exact release_cons_self fd target _

theorem release_shmOpen (name : Name) (create : Bool) (outcome : Option ℕ) (other : ℤ) :
    release (system.shmOpen name create outcome).1
        (release other (system.shmOpen name create outcome).2.ledger.fds) =
      release other system.ledger.fds := by
  cases outcome with
  | none => simp [shmOpen]
  | some fd =>
      cases hname : system.kernel.shms name with
      | some entry =>
          simp only [shmOpen, hname]
          exact release_release_cons fd other _ _
      | none =>
          cases create with
          | false => simp [shmOpen, hname]
          | true =>
              simp only [shmOpen, hname, if_true]
              exact release_release_cons fd other _ _

/-- Closing what attaching opened leaves the descriptors from before. -/
theorem release_attach (shm : Name) (outcomes : Outcomes) (other : ℤ) :
    release (system.attach shm outcomes).1.shmfd
        (release other (system.attach shm outcomes).2.ledger.fds) =
      release other system.ledger.fds := by
  rw [← system.release_shmOpen shm false outcomes.shmOpen other]
  unfold attach
  dsimp only
  split_ifs <;> simp

/-- Attaching holds a mapping exactly when it gets to its end. -/
theorem attach_maps (shm : Name) (outcomes : Outcomes) :
    (system.attach shm outcomes).2.ledger.maps =
      (if (system.attach shm outcomes).1.done then outcomes.mmap.toList else []) ++
        system.ledger.maps := by
  unfold attach
  dsimp only
  by_cases hopen : (system.shmOpen shm false outcomes.shmOpen).1 = -1
  · simp [hopen]
  by_cases htruncate : ((system.shmOpen shm false outcomes.shmOpen).2.ftruncate
      (system.shmOpen shm false outcomes.shmOpen).1 sizeofPointer outcomes.ftruncate).1 = 0
  · cases outcomes.mmap <;> simp [hopen, htruncate, mmap]
  · simp [hopen, htruncate]

end System

/-! ## Rounds -/

/-- The two functions a program has for its handlers. -/
structure Program (Opts Handlers : Type) where
  hndopen : Opts → Handlers → Outcomes → System → ℤ × Handlers × System
  hndclose : Handlers → System → Handlers × System

/-- What one round starts from: the arguments, how the calls will end, and the kernel
as earlier rounds and other processes have left it. -/
structure Round (Opts : Type) where
  opts : Opts
  outcomes : Outcomes
  kernel : Kernel

/-- What the process keeps between rounds. -/
structure Process (Handlers : Type) where
  handlers : Handlers
  ledger : Ledger

/-- A round that has run. -/
structure Rounded (Opts : Type) where
  round : Round Opts
  /-- The value `hndopen` returned. -/
  result : ℤ
  before : Ledger
  after : Ledger

namespace Program

variable {Opts Handlers : Type}

/-- `hndopen`, followed by `hndclose` when it succeeded. -/
def round (program : Program Opts Handlers) (process : Process Handlers) (round : Round Opts) :
    ℤ × Process Handlers :=
  let (result, handlers, system) :=
    program.hndopen round.opts process.handlers round.outcomes ⟨round.kernel, process.ledger⟩
  if result = 0 then
    let (handlers, system) := program.hndclose handlers system
    (result, ⟨handlers, system.ledger⟩)
  else (result, ⟨handlers, system.ledger⟩)

section

variable {program : Program Opts Handlers} {process : Process Handlers} {round : Round Opts}
  {handlers : Handlers} {system : System}

/-- A round whose start succeeds closes what it opened. -/
theorem round_of_done
    (hdone : program.hndopen round.opts process.handlers round.outcomes
      ⟨round.kernel, process.ledger⟩ = (0, handlers, system)) :
    program.round process round =
      (0, ⟨(program.hndclose handlers system).1, (program.hndclose handlers system).2.ledger⟩) := by
  simp [Program.round, hdone]

/-- A round whose start fails has closed on its error exit. -/
theorem round_of_fail {result : ℤ} (hresult : result ≠ 0)
    (hfail : program.hndopen round.opts process.handlers round.outcomes
      ⟨round.kernel, process.ledger⟩ = (result, program.hndclose handlers system)) :
    program.round process round =
      (result,
        ⟨(program.hndclose handlers system).1, (program.hndclose handlers system).2.ledger⟩) := by
  simp [Program.round, hfail, hresult]

end

def rounds (program : Program Opts Handlers) :
    Process Handlers → List (Round Opts) → List (Rounded Opts)
  | _, [] => []
  | process, round :: rest =>
      let (result, after) := program.round process round
      ⟨round, result, process.ledger, after.ledger⟩ :: program.rounds after rest

/-- What every round guarantees holds of all rounds of a run. -/
theorem forall_mem_rounds (program : Program Opts Handlers) {P : Rounded Opts → Prop}
    (hround : ∀ process round, P ⟨round, (program.round process round).1, process.ledger,
      (program.round process round).2.ledger⟩)
    (process : Process Handlers) (rounds : List (Round Opts)) :
    ∀ rounded ∈ program.rounds process rounds, P rounded := by
  induction rounds generalizing process with
  | nil => simp [Program.rounds]
  | cons round rest ih =>
      rw [Program.rounds, List.forall_mem_cons]
      exact ⟨hround process round, ih _⟩

end Program

/-- The mapping a successful round made. -/
def Rounded.mapping {Opts : Type} (rounded : Rounded Opts) : List ℕ :=
  if rounded.result = 0 then rounded.round.outcomes.mmap.toList else []

end Embsys.Os
