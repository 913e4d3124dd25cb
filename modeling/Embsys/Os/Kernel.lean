/-
# Named objects and what a process holds of them

The system calls of the `hndopen` and `hndclose` functions, over the state they
act on: the names of semaphores and of shared-memory objects, the objects behind
them, and the ledger of one process, which records the descriptors, semaphore
handles and mappings it holds. Whether a call succeeds, and which descriptor or
address it returns, is chosen outside: `Outcomes` collects the choices for one
run of `hndopen`.
-/

import Mathlib.Data.Int.Notation
import Mathlib.Data.Nat.Notation
import Mathlib.Logic.Function.Basic
import Embsys.Os.Page

namespace Embsys.Os

/-- The name of a semaphore or of a shared-memory object. -/
abbrev Name := List Char

/-- A shared-memory object: its length and the page that backs it. -/
structure ShmObject where
  size : ℕ
  page : Page

/-- What a name is bound to, and whether this process may unlink the name. -/
structure Entry where
  object : ℕ
  removable : Bool
  deriving DecidableEq

/-- A table of names. -/
abbrev Names := Name → Option Entry

structure Kernel where
  sems : Names
  shms : Names
  objects : ℕ → ShmObject
  next : ℕ

/-- What a descriptor refers to. -/
inductive Target
  | device
  | socket
  | shm (object : ℕ)
  deriving DecidableEq

/-- What one process holds, the last acquired first. -/
structure Ledger where
  fds : List (ℕ × Target)
  sems : List ℕ
  maps : List ℕ

/-- The kernel and the ledger of the calling process. -/
structure System where
  kernel : Kernel
  ledger : Ledger

/-- A pointer returned by `mmap`, or none yet. -/
inductive Pointer
  | null
  | failed
  | mapped (address : ℕ)
  deriving DecidableEq

/-- How the system calls of one `hndopen` end: success, and the descriptor or
address returned. -/
structure Outcomes where
  semOpen : Bool
  openPort : Option ℕ
  socket : Option ℕ
  inetAton : Bool
  shmOpen : Option ℕ
  ftruncate : Bool
  mmap : Option ℕ

/-! ## Names -/

/-- The entry an open with `O_CREAT` leaves the name with. -/
def Names.create (names : Names) (name : Name) (object : ℕ) : Names :=
  match names name with
  | some _ => names
  | none => Function.update names name (some ⟨object, true⟩)

/-- `unlink`, which needs the name and the permission. -/
def Names.unlink (names : Names) (name : Name) : Names :=
  match names name with
  | some entry => if entry.removable then Function.update names name none else names
  | none => names

/-- Unlinking changes nothing exactly when there is nothing it may remove. -/
theorem Names.unlink_eq_self_iff {names : Names} {name : Name} :
    names.unlink name = names ↔ ∀ entry, names name = some entry → entry.removable = false := by
  unfold Names.unlink
  cases hname : names name with
  | none => simp
  | some entry =>
      cases hremovable : entry.removable with
      | false => simp [hremovable]
      | true =>
          simp only [if_true, Option.some.injEq, forall_eq', hremovable, Bool.true_eq_false,
            iff_false]
          intro hsame
          have hentry := congrFun hsame name
          simp [hname] at hentry

/-- A name that the process created itself is removed again. -/
theorem Names.unlink_create (names : Names) (name : Name) (object : ℕ) :
    (names.create name object).unlink name = names.unlink name := by
  cases hname : names name with
  | some entry => simp [Names.create, hname]
  | none =>
      have hback : Function.update names name none = names := by
        rw [← hname, Function.update_eq_self]
      simp [Names.create, Names.unlink, hname, hback]

/-! ## System calls -/

/-- `sem_open`, with the handle or NULL. -/
def System.semOpen (system : System) (name : Name) (create succeeds : Bool) :
    Option ℕ × System :=
  if succeeds then
    match system.kernel.sems name with
    | some entry =>
        (some entry.object,
          { system with ledger.sems := entry.object :: system.ledger.sems })
    | none =>
        if create then
          (some system.kernel.next,
            { kernel := { system.kernel with
                sems := system.kernel.sems.create name system.kernel.next
                next := system.kernel.next + 1 }
              ledger := { system.ledger with
                sems := system.kernel.next :: system.ledger.sems } })
        else (none, system)
  else (none, system)

def System.semClose (system : System) (sem : ℕ) : System :=
  { system with ledger.sems := system.ledger.sems.erase sem }

def System.semUnlink (system : System) (name : Name) : System :=
  { system with kernel.sems := system.kernel.sems.unlink name }

/-- A new descriptor for this target, or -1. -/
def System.openFd (system : System) (target : Target) (outcome : Option ℕ) : ℤ × System :=
  match outcome with
  | some fd => (fd, { system with ledger.fds := (fd, target) :: system.ledger.fds })
  | none => (-1, system)

def System.close (system : System) (fd : ℤ) : System :=
  { system with ledger.fds := system.ledger.fds.eraseP (fun held => (held.1 : ℤ) = fd) }

/-- What closing a descriptor leaves of a list of them; -1 is none. -/
def release (fd : ℤ) (fds : List (ℕ × Target)) : List (ℕ × Target) :=
  if fd ≠ -1 then fds.eraseP (fun held => (held.1 : ℤ) = fd) else fds

@[simp]
theorem release_neg_one (fds : List (ℕ × Target)) : release (-1) fds = fds := by
  simp [release]

@[simp]
theorem release_cons_self (fd : ℕ) (target : Target) (fds : List (ℕ × Target)) :
    release fd ((fd, target) :: fds) = fds := by
  simp [release]

/-- Closing a further descriptor last gives back what closing the others leaves,
whatever number it has. -/
theorem release_release_cons (fd : ℕ) (other : ℤ) (target : Target) (fds : List (ℕ × Target)) :
    release fd (release other ((fd, target) :: fds)) = release other fds := by
  by_cases hother : other = -1
  · simp [hother]
  · by_cases hsame : (fd : ℤ) = other
    · subst hsame
      rw [release_cons_self]
    · have hkeep : release other ((fd, target) :: fds) = (fd, target) :: release other fds := by
        simp [release, hother, hsame]
      rw [hkeep, release_cons_self]

/-- `shm_open`; a new object has length 0. -/
def System.shmOpen (system : System) (name : Name) (create : Bool) (outcome : Option ℕ) :
    ℤ × System :=
  match outcome with
  | some fd =>
      match system.kernel.shms name with
      | some entry => system.openFd (.shm entry.object) (some fd)
      | none =>
          if create then
            System.openFd
              { system with
                kernel := { system.kernel with
                  shms := system.kernel.shms.create name system.kernel.next
                  objects := Function.update system.kernel.objects system.kernel.next
                    ⟨0, fun _ => 0⟩
                  next := system.kernel.next + 1 } }
              (.shm system.kernel.next) (some fd)
          else (-1, system)
  | none => (-1, system)

def System.shmUnlink (system : System) (name : Name) : System :=
  { system with kernel.shms := system.kernel.shms.unlink name }

/-- The object `size` bytes long: bytes below are kept, those from there on are zero. -/
def ShmObject.truncate (object : ShmObject) (size : ℕ) : ShmObject where
  size := size
  page := clearFrom object.page size

/-- The kernel with one object truncated. -/
def Kernel.truncate (kernel : Kernel) (object size : ℕ) : Kernel :=
  { kernel with
    objects := Function.update kernel.objects object ((kernel.objects object).truncate size) }

def System.ftruncate (system : System) (fd : ℤ) (size : ℕ) (succeeds : Bool) : ℤ × System :=
  match system.ledger.fds.find? (fun held => (held.1 : ℤ) = fd) with
  | some (_, .shm object) =>
      if succeeds then (0, { system with kernel := system.kernel.truncate object size })
      else (-1, system)
  | _ => (-1, system)

/-- `sizeof` of a pointer. -/
def sizeofPointer : ℕ := 8

def System.mmap (system : System) (outcome : Option ℕ) : Pointer × System :=
  match outcome with
  | some address => (.mapped address, { system with ledger.maps := address :: system.ledger.maps })
  | none => (.failed, system)

/-! ## What the calls change -/

/-- A creating `sem_open` that succeeds holds a handle, and binds the name if it
was not bound. -/
theorem System.semOpen_create (system : System) (name : Name) :
    ∃ object next, system.semOpen name true true =
      (some object,
        { kernel := { system.kernel with
            sems := system.kernel.sems.create name system.kernel.next
            next := next }
          ledger := { system.ledger with sems := object :: system.ledger.sems } }) := by
  cases hname : system.kernel.sems name with
  | some entry =>
      refine ⟨entry.object, system.kernel.next, ?_⟩
      simp [System.semOpen, hname, Names.create]
  | none => exact ⟨system.kernel.next, system.kernel.next + 1, by simp [System.semOpen, hname]⟩

@[simp]
theorem System.semOpen_create_eq_none_iff (system : System) (name : Name) (succeeds : Bool) :
    (system.semOpen name true succeeds).1 = none ↔ succeeds = false := by
  cases succeeds with
  | false => simp [System.semOpen]
  | true =>
      obtain ⟨object, next, hopen⟩ := system.semOpen_create name
      simp [hopen]

@[simp]
theorem System.openFd_eq_neg_one_iff (system : System) (target : Target) (outcome : Option ℕ) :
    (system.openFd target outcome).1 = -1 ↔ outcome = none := by
  cases outcome <;> simp [System.openFd]

/-- A creating `shm_open` that succeeds holds a descriptor of the object, and binds
the name if it was not bound. -/
theorem System.shmOpen_create (system : System) (name : Name) (fd : ℕ) :
    ∃ object objects next, system.shmOpen name true (some fd) =
      ((fd : ℤ),
        { kernel := { system.kernel with
            shms := system.kernel.shms.create name system.kernel.next
            objects := objects
            next := next }
          ledger := { system.ledger with fds := (fd, .shm object) :: system.ledger.fds } }) := by
  cases hname : system.kernel.shms name with
  | some entry =>
      refine ⟨entry.object, system.kernel.objects, system.kernel.next, ?_⟩
      simp [System.shmOpen, System.openFd, hname, Names.create]
  | none =>
      refine ⟨system.kernel.next,
        Function.update system.kernel.objects system.kernel.next ⟨0, fun _ => 0⟩,
        system.kernel.next + 1, ?_⟩
      simp only [System.shmOpen, System.openFd, hname, if_true]

@[simp]
theorem System.shmOpen_create_eq_neg_one_iff (system : System) (name : Name)
    (outcome : Option ℕ) : (system.shmOpen name true outcome).1 = -1 ↔ outcome = none := by
  cases outcome with
  | none => simp [System.shmOpen]
  | some fd =>
      obtain ⟨object, objects, next, hopen⟩ := system.shmOpen_create name fd
      simp [hopen]

/-- A descriptor just opened refers to an object, so truncating it fails only if the
call does. -/
theorem System.ftruncate_shmOpen_create {system : System} {name : Name} {outcome : Option ℕ}
    (hopened : (system.shmOpen name true outcome).1 ≠ -1) (size : ℕ) (succeeds : Bool) :
    ((system.shmOpen name true outcome).2.ftruncate
        (system.shmOpen name true outcome).1 size succeeds).1 = 0 ↔ succeeds = true := by
  cases outcome with
  | none => exact absurd rfl hopened
  | some fd =>
      obtain ⟨object, objects, next, hopen⟩ := system.shmOpen_create name fd
      cases succeeds <;> simp [hopen, System.ftruncate]

/-- `ftruncate` changes objects only. -/
theorem System.ftruncate_frame (system : System) (fd : ℤ) (size : ℕ) (succeeds : Bool) :
    ∃ objects, (system.ftruncate fd size succeeds).2 =
      { system with kernel.objects := objects } := by
  unfold System.ftruncate
  split
  · split_ifs
    · exact ⟨_, rfl⟩
    · exact ⟨system.kernel.objects, rfl⟩
  · exact ⟨system.kernel.objects, rfl⟩

/-! ## Attaching to an existing segment -/

/-- How far the shared tail of the readers' `hndopen` came. -/
structure Attachment where
  done : Bool
  shmfd : ℤ
  shdata : Pointer

/-- `shm_open` without `O_CREAT`, `ftruncate` to the size of a pointer, `mmap`. -/
def System.attach (system : System) (shm : Name) (outcomes : Outcomes) : Attachment × System :=
  let (shmfd, system) := system.shmOpen shm false outcomes.shmOpen
  if shmfd = -1 then (⟨false, shmfd, .null⟩, system)
  else
    let (result, system) := system.ftruncate shmfd sizeofPointer outcomes.ftruncate
    if result ≠ 0 then (⟨false, shmfd, .null⟩, system)
    else
      let (shdata, system) := system.mmap outcomes.mmap
      (⟨shdata ≠ .failed, shmfd, shdata⟩, system)

@[simp]
theorem System.openFd_kernel (system : System) (target : Target) (outcome : Option ℕ) :
    (system.openFd target outcome).2.kernel = system.kernel := by
  cases outcome <;> rfl

@[simp]
theorem System.mmap_kernel (system : System) (outcome : Option ℕ) :
    (system.mmap outcome).2.kernel = system.kernel := by
  cases outcome <;> rfl

/-- Without `O_CREAT` a name is only looked up. -/
theorem System.semOpen_lookup (system : System) (name : Name) (succeeds : Bool) :
    (system.semOpen name false succeeds).2.kernel = system.kernel ∧
      ((system.semOpen name false succeeds).1 = none ↔
        (succeeds && (system.kernel.sems name).isSome) = false) := by
  cases succeeds with
  | false => simp [System.semOpen]
  | true => cases hname : system.kernel.sems name <;> simp [System.semOpen, hname]

/-- The only effect of attaching on the kernel is the truncation of the object,
once `ftruncate` is reached and succeeds. -/
theorem System.attach_kernel (system : System) {shm : Name} {entry : Entry}
    (hbound : system.kernel.shms shm = some entry) (outcomes : Outcomes) :
    (system.attach shm outcomes).2.kernel =
      if outcomes.shmOpen.isSome && outcomes.ftruncate then
        system.kernel.truncate entry.object sizeofPointer
      else system.kernel := by
  unfold System.attach
  cases hopen : outcomes.shmOpen with
  | none => simp [System.shmOpen]
  | some fd =>
      cases htruncate : outcomes.ftruncate with
      | false => simp [System.shmOpen, hbound, System.openFd, System.ftruncate]
      | true => simp [System.shmOpen, hbound, System.openFd, System.ftruncate]

/-- A descriptor that is not -1 is not negative. -/
theorem System.openFd_nonneg {system : System} {target : Target} {outcome : Option ℕ}
    (hfd : (system.openFd target outcome).1 ≠ -1) : 0 ≤ (system.openFd target outcome).1 := by
  cases outcome with
  | none => exact absurd rfl hfd
  | some fd => exact Int.natCast_nonneg fd

theorem System.shmOpen_nonneg {system : System} {name : Name} {create : Bool}
    {outcome : Option ℕ} (hfd : (system.shmOpen name create outcome).1 ≠ -1) :
    0 ≤ (system.shmOpen name create outcome).1 := by
  revert hfd
  unfold System.shmOpen
  cases outcome with
  | none => exact fun hfd => absurd rfl hfd
  | some fd =>
      cases system.kernel.shms name with
      | some entry => exact System.openFd_nonneg
      | none =>
          dsimp only
          split_ifs
          · exact System.openFd_nonneg
          · exact fun hfd => absurd rfl hfd

/-- A pointer that is not the error value is the mapping. -/
theorem System.mmap_mapped {system : System} {outcome : Option ℕ}
    (hdone : (system.mmap outcome).1 ≠ .failed) :
    ∃ address, outcome = some address ∧ (system.mmap outcome).1 = .mapped address := by
  cases outcome with
  | none => exact absurd rfl hdone
  | some address => exact ⟨address, rfl, rfl⟩

theorem System.attach_mapped {system : System} {shm : Name} {outcomes : Outcomes}
    (hdone : (system.attach shm outcomes).1.done = true) :
    0 ≤ (system.attach shm outcomes).1.shmfd ∧
      ∃ address, outcomes.mmap = some address ∧
        (system.attach shm outcomes).1.shdata = .mapped address := by
  unfold System.attach at hdone ⊢
  dsimp only at hdone ⊢
  split_ifs at hdone ⊢ with hopen htruncate
  exact ⟨System.shmOpen_nonneg hopen, System.mmap_mapped (of_decide_eq_true hdone)⟩

/-- Handles a program can work with: descriptors that are not negative, the handle
`sem_open` returned, and the address `mmap` returned. -/
structure ValidHandles (outcomes : Outcomes) (opened : Option ℕ) (fds : List ℤ) (sem : Option ℕ)
    (shdata : Pointer) : Prop where
  nonneg : ∀ fd ∈ fds, 0 ≤ fd
  sem_eq : sem = opened
  sem_ne : sem ≠ none
  mapped : ∃ address, outcomes.mmap = some address ∧ shdata = .mapped address

end Embsys.Os
