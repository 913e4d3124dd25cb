/-
# Processes that share two names

Writers, forwarders and converters are started with one semaphore name and one segment
name. A writer creates what is missing under them and removes both when it stops or
fails; a reader takes what it finds. The state keeps the names the kernel knows and, for
each process, the handlers and the ledger its `hndopen` has left. Starts and stops are
taken one after the other, in any order.
-/

import Embsys.Pipeline.Attach
import Embsys.ShmWriter.Handler

namespace Embsys.Naming

open Embsys.Os Embsys.Pipeline

/-- The arguments of `-l` and `-s`, the same for all processes. -/
structure Options where
  sem : Name
  shm : Name

/-- A process whose `hndopen` has returned. -/
inductive Member
  | writer (process : Process ShmWriter.Handlers)
  | forwarder (process : Process Forwarder.Handlers)
  | converter (process : Process Converter.Handlers)

/-- The object a descriptor refers to. -/
def segmentOf (ledger : Ledger) (shmfd : ℤ) : Option ℕ :=
  match ledger.fds.find? (fun held => (held.1 : ℤ) = shmfd) with
  | some (_, .shm object) => some object
  | _ => none

/-- The semaphore and the segment behind these handlers. -/
def pairOf (sem : Option ℕ) (shmfd : ℤ) (ledger : Ledger) : Option (ℕ × ℕ) :=
  sem.bind fun sem => (segmentOf ledger shmfd).map fun shm => (sem, shm)

/-- The semaphore and the segment a process is attached to. -/
def Member.pair : Member → Option (ℕ × ℕ)
  | .writer ⟨handlers, ledger⟩ => pairOf handlers.sem handlers.shmfd ledger
  | .forwarder ⟨handlers, ledger⟩ => pairOf handlers.sem handlers.shmfd ledger
  | .converter ⟨handlers, ledger⟩ => pairOf handlers.sem handlers.shmfd ledger

/-- A writer that will remove both names. -/
def Member.Owns (opts : Options) : Member → Prop
  | .writer ⟨handlers, _⟩ => handlers.semname = some opts.sem ∧ handlers.shm = some opts.shm
  | _ => False

/-- A process that will remove no name. -/
def Member.Inert : Member → Prop
  | .writer ⟨handlers, _⟩ => handlers.semname = none ∧ handlers.shm = none
  | _ => True

/-- What is started, with its own arguments. -/
inductive Launch
  | writer (port : Name)
  | forwarder (port : ℤ)
  | converter

/-- `hndopen` in a process that holds nothing yet. -/
def Launch.hndopen (opts : Options) (outcomes : Outcomes) (kernel : Kernel) :
    Launch → Kernel × Member
  | .writer port =>
      let (_, handlers, system) :=
        ShmWriter.hndopen ⟨port, opts.shm, opts.sem⟩ outcomes ⟨kernel, Ledger.empty⟩
      (system.kernel, .writer ⟨handlers, system.ledger⟩)
  | .forwarder port =>
      let (_, handlers, system) :=
        Forwarder.hndopen ⟨opts.sem, opts.shm, port⟩ .static outcomes ⟨kernel, Ledger.empty⟩
      (system.kernel, .forwarder ⟨handlers, system.ledger⟩)
  | .converter =>
      let (_, handlers, system) :=
        Converter.hndopen ⟨opts.sem, opts.shm⟩ .static outcomes ⟨kernel, Ledger.empty⟩
      (system.kernel, .converter ⟨handlers, system.ledger⟩)

/-- `hndclose` of a process that ends. -/
def Member.hndclose (kernel : Kernel) : Member → Kernel
  | .writer process => (ShmWriter.hndclose process.handlers ⟨kernel, process.ledger⟩).2.kernel
  | .forwarder process => (Forwarder.hndclose process.handlers ⟨kernel, process.ledger⟩).2.kernel
  | .converter process => (Converter.hndclose process.handlers ⟨kernel, process.ledger⟩).2.kernel

structure State (P : Type*) where
  kernel : Kernel
  member : P → Option Member

inductive Action (P : Type*)
  | start (p : P) (launch : Launch) (outcomes : Outcomes)
  | stop (p : P)

variable {P : Type*} [DecidableEq P]

/-- One start or one stop. -/
def step (opts : Options) (state : State P) : Action P → Option (State P)
  | .start p launch outcomes =>
      match state.member p with
      | some _ => none
      | none =>
          let (kernel, member) := launch.hndopen opts outcomes state.kernel
          some ⟨kernel, Function.update state.member p (some member)⟩
  | .stop p =>
      match state.member p with
      | some member =>
          some ⟨member.hndclose state.kernel, Function.update state.member p none⟩
      | none => none

/-- Nobody runs yet. -/
def initial (P : Type*) (kernel : Kernel) : State P := ⟨kernel, fun _ => none⟩

/-- Whether all calls of a start succeed, the names it needs being bound. -/
def Launch.succeeds (opts : Options) (outcomes : Outcomes) (kernel : Kernel) : Launch → Bool
  | .writer _ => ShmWriter.succeeds outcomes
  | .forwarder _ =>
      outcomes.semOpen && (kernel.sems opts.sem).isSome && outcomes.socket.isSome &&
        outcomes.inetAton && outcomes.shmOpen.isSome && (kernel.shms opts.shm).isSome &&
        outcomes.ftruncate && outcomes.mmap.isSome
  | .converter =>
      outcomes.semOpen && (kernel.sems opts.sem).isSome && outcomes.shmOpen.isSome &&
        (kernel.shms opts.shm).isSome && outcomes.ftruncate && outcomes.mmap.isSome

/-- What an `open` with `O_CREAT` finds or makes under a name: this object. -/
inductive Opened (name : Name) (names names' : Names) (first last : ℕ) : ℕ → Prop
  | found {entry : Entry} (hbefore : names name = some entry) (hafter : names' name = some entry) :
      Opened name names names' first last entry.object
  | made {object : ℕ} (hbefore : names name = none) (hafter : names' name = some ⟨object, true⟩)
      (hfirst : first ≤ object) (hlast : object < last) :
      Opened name names names' first last object

/-! ## A start -/

/-- A creating `sem_open` that succeeds opens what the name is bound to from then on. -/
theorem semOpen_opened (kernel : Kernel) (name : Name) (fds : List (ℕ × Target))
    (sems maps : List ℕ) :
    ∃ object after, System.semOpen ⟨kernel, ⟨fds, sems, maps⟩⟩ name true true =
        (some object, ⟨after, ⟨fds, object :: sems, maps⟩⟩) ∧
      Opened name kernel.sems after.sems kernel.next after.next object ∧
      after.shms = kernel.shms ∧ kernel.next ≤ after.next := by
  cases hname : kernel.sems name with
  | some entry =>
      exact ⟨entry.object, kernel, by simp [System.semOpen, hname], .found hname hname, rfl,
        Nat.le_refl _⟩
  | none =>
      refine ⟨kernel.next,
        { kernel with sems := kernel.sems.create name kernel.next, next := kernel.next + 1 },
        by simp [System.semOpen, hname], .made hname ?_ (Nat.le_refl _) (Nat.lt_succ_self _), rfl,
        Nat.le_succ _⟩
      simp [Names.create, hname]

/-- So does a creating `shm_open`, and its descriptor refers to the object. -/
theorem shmOpen_opened (kernel : Kernel) (name : Name) (fd : ℕ) (fds : List (ℕ × Target))
    (sems maps : List ℕ) :
    ∃ object after, System.shmOpen ⟨kernel, ⟨fds, sems, maps⟩⟩ name true (some fd) =
        ((fd : ℤ), ⟨after, ⟨(fd, .shm object) :: fds, sems, maps⟩⟩) ∧
      Opened name kernel.shms after.shms kernel.next after.next object ∧
      after.sems = kernel.sems ∧ kernel.next ≤ after.next := by
  cases hname : kernel.shms name with
  | some entry =>
      exact ⟨entry.object, kernel, by simp [System.shmOpen, System.openFd, hname],
        .found hname hname, rfl, Nat.le_refl _⟩
  | none =>
      refine ⟨kernel.next,
        { kernel with
          shms := kernel.shms.create name kernel.next
          objects := Function.update kernel.objects kernel.next ⟨0, fun _ => 0⟩
          next := kernel.next + 1 },
        by simp [System.shmOpen, System.openFd, hname],
        .made hname ?_ (Nat.le_refl _) (Nat.lt_succ_self _), rfl, Nat.le_succ _⟩
      simp [Names.create, hname]

/-- Between wider bounds and with the same names around, the same object is opened. -/
theorem Opened.mono {name : Name} {names names' after after' : Names}
    {first last first' last' object : ℕ} (hopened : Opened name names names' first last object)
    (hbefore : after name = names name) (hafter : after' name = names' name)
    (hfirst : first' ≤ first) (hlast : last ≤ last') :
    Opened name after after' first' last' object := by
  cases hopened with
  | found hname hname' => exact .found (hbefore.trans hname) (hafter.trans hname')
  | made hname hname' hlow hhigh =>
      exact .made (hbefore.trans hname) (hafter.trans hname') (Nat.le_trans hfirst hlow)
        (Nat.lt_of_lt_of_le hhigh hlast)

/-- What a start does to the names, and what it leaves of the process. -/
inductive Started (opts : Options) (outcomes : Outcomes) (kernel kernel' : Kernel)
    (member : Member) : Launch → Prop
  | joined {port : Name} {sem shm : ℕ} (hdone : ShmWriter.succeeds outcomes = true)
      (hpair : member.pair = some (sem, shm)) (howns : member.Owns opts)
      (hnext : kernel.next ≤ kernel'.next)
      (hsem : Opened opts.sem kernel.sems kernel'.sems kernel.next kernel'.next sem)
      (hshm : Opened opts.shm kernel.shms kernel'.shms kernel.next kernel'.next shm) :
      Started opts outcomes kernel kernel' member (.writer port)
  | dropped {port : Name} (hfailed : ShmWriter.succeeds outcomes = false)
      (hpair : member.pair = none) (hinert : member.Inert) (hnext : kernel.next ≤ kernel'.next)
      (hsems : kernel'.sems = kernel.sems.unlink opts.sem)
      (hshms : kernel'.shms = if ShmWriter.reachesShm outcomes then kernel.shms.unlink opts.shm
        else kernel.shms) :
      Started opts outcomes kernel kernel' member (.writer port)
  | found {launch : Launch} {semEntry shmEntry : Entry} (hlaunch : ∀ port, launch ≠ .writer port)
      (hdone : launch.succeeds opts outcomes kernel = true)
      (hsem : kernel.sems opts.sem = some semEntry) (hshm : kernel.shms opts.shm = some shmEntry)
      (hpair : member.pair = some (semEntry.object, shmEntry.object)) (hinert : member.Inert)
      (hsems : kernel'.sems = kernel.sems) (hshms : kernel'.shms = kernel.shms)
      (hnext : kernel'.next = kernel.next) :
      Started opts outcomes kernel kernel' member launch
  | refused {launch : Launch} (hlaunch : ∀ port, launch ≠ .writer port)
      (hfailed : launch.succeeds opts outcomes kernel = false)
      (hpair : member.pair = none) (hinert : member.Inert)
      (hsems : kernel'.sems = kernel.sems) (hshms : kernel'.shms = kernel.shms)
      (hnext : kernel'.next = kernel.next) :
      Started opts outcomes kernel kernel' member launch

/-- **A writer that starts** is attached to what both names are bound to from then on. -/
theorem writer_joined (opts : Options) (port : Name) {outcomes : Outcomes} (kernel : Kernel)
    (hdone : ShmWriter.succeeds outcomes = true) :
    Started opts outcomes kernel ((Launch.writer port).hndopen opts outcomes kernel).1
      ((Launch.writer port).hndopen opts outcomes kernel).2 (.writer port) := by
  have hall := hdone
  obtain ⟨semOpen, openPort, socket, inetAton, shmOpen, ftruncate, mmap⟩ := outcomes
  simp only [ShmWriter.succeeds, Bool.and_eq_true, Option.isSome_iff_exists] at hall
  obtain ⟨⟨⟨⟨rfl, gpsfd, rfl⟩, shmfd, rfl⟩, rfl⟩, address, rfl⟩ := hall
  obtain ⟨sem, afterSem, hsemOpen, hsem, hshms, hle⟩ :=
    semOpen_opened kernel opts.sem [] [] []
  obtain ⟨shm, afterShm, hshmOpen, hshm, hsems, hle'⟩ :=
    shmOpen_opened afterSem opts.shm shmfd [(gpsfd, .device)] [sem] []
  have hopen : (Launch.writer port).hndopen opts
      ⟨true, some gpsfd, socket, inetAton, some shmfd, true, some address⟩ kernel =
        (afterShm.truncate shm sizeofPointer,
          .writer ⟨⟨gpsfd, some sem, some opts.sem, shmfd, some opts.shm, .mapped address⟩,
            ⟨[(shmfd, .shm shm), (gpsfd, .device)], [sem], [address]⟩⟩) := by
    simp [Launch.hndopen, ShmWriter.hndopen, hsemOpen, System.openFd,
      Ledger.empty, hshmOpen, System.ftruncate, System.mmap, ShmWriter.exitSuccess]
  rw [hopen]
  have hsems' : (afterShm.truncate shm sizeofPointer).sems = afterSem.sems := hsems
  refine .joined hdone (?_ : _ = some (sem, shm)) ⟨rfl, rfl⟩ (Nat.le_trans hle hle') ?_ ?_
  · simp [Member.pair, pairOf, segmentOf]
  · exact hsem.mono rfl (congrFun hsems' _) (Nat.le_refl _) hle'
  · exact hshm.mono (congrFun hshms _).symm rfl hle (Nat.le_refl _)

@[simp]
theorem segmentOf_neg_one (ledger : Ledger) : segmentOf ledger (-1) = none := by
  have hnone : ledger.fds.find? (fun held => (held.1 : ℤ) = -1) = none := by
    rw [List.find?_eq_none]
    intro held _
    simp only [decide_eq_true_eq]
    omega
  rw [segmentOf, hnone]

theorem pairOf_neg_one (sem : Option ℕ) (ledger : Ledger) : pairOf sem (-1) ledger = none := by
  cases sem <;> simp [pairOf]

theorem semOpen_next_le (system : System) (name : Name) (create succeeds : Bool) :
    system.kernel.next ≤ (system.semOpen name create succeeds).2.kernel.next := by
  unfold System.semOpen
  split_ifs
  · cases system.kernel.sems name with
    | some entry => exact Nat.le_refl _
    | none => exact Nat.le_succ _
  · cases system.kernel.sems name <;> exact Nat.le_refl _
  · exact Nat.le_refl _

theorem shmOpen_next_le (system : System) (name : Name) (create : Bool) (outcome : Option ℕ) :
    system.kernel.next ≤ (system.shmOpen name create outcome).2.kernel.next := by
  cases outcome with
  | none => exact Nat.le_refl _
  | some fd =>
      unfold System.shmOpen
      cases system.kernel.shms name with
      | some entry => exact Nat.le_refl _
      | none =>
          cases create with
          | false => exact Nat.le_refl _
          | true => exact Nat.le_succ _

theorem ftruncate_next (system : System) (fd : ℤ) (size : ℕ) (succeeds : Bool) :
    (system.ftruncate fd size succeeds).2.kernel.next = system.kernel.next := by
  obtain ⟨objects, hframe⟩ := system.ftruncate_frame fd size succeeds
  rw [hframe]

theorem hndfail_next (handlers : ShmWriter.Handlers) (system : System) :
    (ShmWriter.hndfail handlers system).2.2.kernel.next = system.kernel.next := by
  have hclosed : (ShmWriter.hndfail handlers system).2.2 = (ShmWriter.hndclose handlers system).2 :=
    rfl
  rw [hclosed, ShmWriter.hndclose_eq]

/-- A start of a writer makes objects and takes none away. -/
theorem hndopen_next_le (opts : ShmWriter.Opts) (outcomes : Outcomes) (system : System) :
    system.kernel.next ≤ (ShmWriter.hndopen opts outcomes system).2.2.kernel.next := by
  have hsem := semOpen_next_le system opts.sem true outcomes.semOpen
  have hshm := shmOpen_next_le
    ((system.semOpen opts.sem true outcomes.semOpen).2.openFd .device outcomes.openPort).2
    opts.shm true outcomes.shmOpen
  rw [System.openFd_kernel] at hshm
  unfold ShmWriter.hndopen
  dsimp only
  split_ifs <;> simp only [hndfail_next, System.openFd_kernel, System.mmap_kernel, ftruncate_next]
  all_goals omega

/-- **A writer that fails** holds nothing, and has removed the names it reached. -/
theorem writer_dropped (opts : Options) (port : Name) {outcomes : Outcomes} (kernel : Kernel)
    (hfailed : ShmWriter.succeeds outcomes = false) :
    Started opts outcomes kernel ((Launch.writer port).hndopen opts outcomes kernel).1
      ((Launch.writer port).hndopen opts outcomes kernel).2 (.writer port) := by
  rcases ShmWriter.hndopen_cases ⟨port, opts.shm, opts.sem⟩ outcomes ⟨kernel, Ledger.empty⟩ with
    ⟨_, _, _, hdone, _⟩ | ⟨handlers, system, hfail, -⟩
  · rw [hfailed] at hdone
    exact absurd hdone Bool.false_ne_true
  · have hresult : (ShmWriter.hndopen ⟨port, opts.shm, opts.sem⟩ outcomes
        ⟨kernel, Ledger.empty⟩).1 = ShmWriter.exitFailure := by
      rw [hfail]
      rfl
    obtain ⟨hsems, hshms, -⟩ := ShmWriter.hndopen_failed hresult
    have hnext := hndopen_next_le ⟨port, opts.shm, opts.sem⟩ outcomes ⟨kernel, Ledger.empty⟩
    have hhandlers : (ShmWriter.hndopen ⟨port, opts.shm, opts.sem⟩ outcomes
        ⟨kernel, Ledger.empty⟩).2.1 = ShmWriter.hndinit := by
      rw [hfail]
      rfl
    refine .dropped hfailed ?_ ?_ hnext hsems hshms
    · simp only [Launch.hndopen, Member.pair, hhandlers]
      exact pairOf_neg_one _ _
    · simp only [Launch.hndopen, Member.Inert, hhandlers]
      exact ⟨rfl, rfl⟩

/-! ## A reader that starts -/

theorem semOpen_kernel_false (system : System) (name : Name) (succeeds : Bool) :
    (system.semOpen name false succeeds).2.kernel = system.kernel :=
  (system.semOpen_lookup name succeeds).1

/-- Attaching gets to its end when its three calls succeed and the name is bound. -/
theorem attach_done (system : System) (shm : Name) (outcomes : Outcomes) :
    (system.attach shm outcomes).1.done =
      (outcomes.shmOpen.isSome && (system.kernel.shms shm).isSome && outcomes.ftruncate &&
        outcomes.mmap.isSome) := by
  unfold System.attach
  cases hopen : outcomes.shmOpen with
  | none => simp [System.shmOpen]
  | some fd =>
      cases hname : system.kernel.shms shm with
      | none => simp [System.shmOpen, hname]
      | some entry =>
          cases htruncate : outcomes.ftruncate <;> cases hmmap : outcomes.mmap <;>
            simp [System.shmOpen, hname, System.openFd, System.ftruncate, System.mmap]

/-- Attaching changes objects only. -/
theorem attach_frame (system : System) (shm : Name) (outcomes : Outcomes) :
    ∃ objects,
      (system.attach shm outcomes).2.kernel = { system.kernel with objects := objects } := by
  cases hname : system.kernel.shms shm with
  | some entry =>
      rw [System.attach_kernel system hname]
      split_ifs
      · exact ⟨_, rfl⟩
      · exact ⟨system.kernel.objects, rfl⟩
  | none =>
      refine ⟨system.kernel.objects, ?_⟩
      unfold System.attach
      cases outcomes.shmOpen <;> simp [System.shmOpen, hname]

/-- A reader changes objects only. -/
theorem forwarder_frame (opts : Forwarder.Opts) (handlers : Forwarder.Handlers)
    (outcomes : Outcomes) (system : System) :
    ∃ objects, (Forwarder.hndopen opts handlers outcomes system).2.2.kernel =
      { system.kernel with objects := objects } := by
  obtain ⟨objects, hattach⟩ := attach_frame
    ((system.semOpen opts.sem false outcomes.semOpen).2.openFd .socket outcomes.socket).2
    opts.shm outcomes
  rw [System.openFd_kernel, semOpen_kernel_false] at hattach
  unfold Forwarder.hndopen
  dsimp only
  split_ifs
  · exact ⟨system.kernel.objects, by simp [semOpen_kernel_false]⟩
  · exact ⟨system.kernel.objects, by simp [semOpen_kernel_false]⟩
  · exact ⟨system.kernel.objects, by simp [semOpen_kernel_false]⟩
  · exact ⟨objects, hattach⟩
  · exact ⟨objects, by rw [Forwarder.hndfail_kernel, hattach]⟩

theorem converter_frame (opts : Converter.Opts) (handlers : Converter.Handlers)
    (outcomes : Outcomes) (system : System) :
    ∃ objects, (Converter.hndopen opts handlers outcomes system).2.2.kernel =
      { system.kernel with objects := objects } := by
  obtain ⟨objects, hattach⟩ := attach_frame
    (system.semOpen opts.sem false outcomes.semOpen).2 opts.shm outcomes
  rw [semOpen_kernel_false] at hattach
  unfold Converter.hndopen
  dsimp only
  split_ifs
  · exact ⟨system.kernel.objects, by simp [semOpen_kernel_false]⟩
  · exact ⟨objects, hattach⟩
  · exact ⟨objects, by rw [Converter.hndfail_kernel, hattach]⟩

/-- A forwarder whose `hndopen` returns 0 has had all calls succeed. -/
theorem forwarder_succeeds {opts : Options} {port : ℤ} {outcomes : Outcomes} {kernel : Kernel}
    (hdone : (Forwarder.hndopen ⟨opts.sem, opts.shm, port⟩ .static outcomes
      ⟨kernel, Ledger.empty⟩).1 = 0) :
    (Launch.forwarder port).succeeds opts outcomes kernel = true := by
  unfold Forwarder.hndopen at hdone
  dsimp only at hdone
  split_ifs at hdone with hsem hsocket hinet hattached
  · exact absurd hdone (Forwarder.hndfail_ne_zero _ _)
  · exact absurd hdone (Forwarder.hndfail_ne_zero _ _)
  · exact absurd hdone (Forwarder.hndfail_ne_zero _ _)
  · rw [(System.semOpen_lookup _ _ _).2, Bool.not_eq_false] at hsem
    rw [System.openFd_eq_neg_one_iff, ← ne_eq, ← Option.isSome_iff_ne_none] at hsocket
    rw [attach_done, System.openFd_kernel, semOpen_kernel_false] at hattached
    simp only [Bool.and_eq_true] at hsem hattached
    simp [Launch.succeeds, hsem, hsocket, hinet, hattached]
  · exact absurd hdone (Forwarder.hndfail_ne_zero _ _)

theorem converter_succeeds {opts : Options} {outcomes : Outcomes} {kernel : Kernel}
    (hdone : (Converter.hndopen ⟨opts.sem, opts.shm⟩ .static outcomes
      ⟨kernel, Ledger.empty⟩).1 = 0) :
    Launch.converter.succeeds opts outcomes kernel = true := by
  have hfail : ∀ handlers system, (Converter.hndfail handlers system).1 ≠ 0 :=
    fun _ _ => show (-1 : ℤ) ≠ 0 by decide
  unfold Converter.hndopen at hdone
  dsimp only at hdone
  split_ifs at hdone with hsem hattached
  · exact absurd hdone (hfail _ _)
  · rw [(System.semOpen_lookup _ _ _).2, Bool.not_eq_false] at hsem
    rw [attach_done, semOpen_kernel_false] at hattached
    simp only [Bool.and_eq_true] at hsem hattached
    simp [Launch.succeeds, hsem, hattached]
  · exact absurd hdone (hfail _ _)

/-- What every reader does, from the two ways its `hndopen` can end. -/
theorem Started.reader {opts : Options} {outcomes : Outcomes} {kernel kernel' : Kernel}
    {member : Member} {launch : Launch} (hlaunch : ∀ port, launch ≠ .writer port)
    (hinert : member.Inert) (hframe : ∃ objects, kernel' = { kernel with objects := objects })
    (hfound : launch.succeeds opts outcomes kernel = true → ∃ semEntry shmEntry,
      kernel.sems opts.sem = some semEntry ∧ kernel.shms opts.shm = some shmEntry ∧
        member.pair = some (semEntry.object, shmEntry.object))
    (hrefused : launch.succeeds opts outcomes kernel = false → member.pair = none) :
    Started opts outcomes kernel kernel' member launch := by
  obtain ⟨objects, rfl⟩ := hframe
  cases hall : launch.succeeds opts outcomes kernel with
  | true =>
      obtain ⟨semEntry, shmEntry, hsem, hshm, hpair⟩ := hfound hall
      exact .found hlaunch hall hsem hshm hpair hinert rfl rfl rfl
  | false => exact .refused hlaunch hall (hrefused hall) hinert rfl rfl rfl

/-- **A forwarder that starts** is attached to what both names are bound to, or to nothing. -/
theorem forwarder_started (opts : Options) (port : ℤ) (outcomes : Outcomes) (kernel : Kernel) :
    Started opts outcomes kernel ((Launch.forwarder port).hndopen opts outcomes kernel).1
      ((Launch.forwarder port).hndopen opts outcomes kernel).2 (.forwarder port) := by
  refine .reader (by simp) trivial (forwarder_frame _ _ _ _) ?_ ?_
  · intro hdone
    obtain ⟨semOpen, openPort, socket, inetAton, shmOpen, ftruncate, mmap⟩ := outcomes
    simp only [Launch.succeeds, Bool.and_eq_true, Option.isSome_iff_exists] at hdone
    obtain ⟨⟨⟨⟨⟨⟨⟨rfl, semEntry, hsem⟩, sockfd, rfl⟩, rfl⟩, shmfd, rfl⟩, shmEntry, hshm⟩, rfl⟩,
      address, rfl⟩ := hdone
    refine ⟨semEntry, shmEntry, hsem, hshm, ?_⟩
    simp [Launch.hndopen, Forwarder.hndopen, Ledger.empty, System.semOpen, hsem, System.openFd,
      System.attach, System.shmOpen, hshm, System.ftruncate, System.mmap, Member.pair, pairOf,
      segmentOf]
  · intro hfailed
    rcases Forwarder.hndopen_cases ⟨opts.sem, opts.shm, port⟩ .static outcomes
      ⟨kernel, Ledger.empty⟩ with ⟨opened, system, hdone, -⟩ | ⟨opened, system, hfail, -⟩
    · rw [forwarder_succeeds (by rw [hdone])] at hfailed
      exact absurd hfailed.symm Bool.false_ne_true
    · simp only [Launch.hndopen, hfail]
      exact pairOf_neg_one _ _

theorem converter_started (opts : Options) (outcomes : Outcomes) (kernel : Kernel) :
    Started opts outcomes kernel (Launch.converter.hndopen opts outcomes kernel).1
      (Launch.converter.hndopen opts outcomes kernel).2 .converter := by
  refine .reader (by simp) trivial (converter_frame _ _ _ _) ?_ ?_
  · intro hdone
    obtain ⟨semOpen, openPort, socket, inetAton, shmOpen, ftruncate, mmap⟩ := outcomes
    simp only [Launch.succeeds, Bool.and_eq_true, Option.isSome_iff_exists] at hdone
    obtain ⟨⟨⟨⟨⟨rfl, semEntry, hsem⟩, shmfd, rfl⟩, shmEntry, hshm⟩, rfl⟩, address, rfl⟩ := hdone
    refine ⟨semEntry, shmEntry, hsem, hshm, ?_⟩
    simp [Launch.hndopen, Converter.hndopen, Ledger.empty, System.semOpen, hsem, System.openFd,
      System.attach, System.shmOpen, hshm, System.ftruncate, System.mmap, Member.pair, pairOf,
      segmentOf]
  · intro hfailed
    rcases Converter.hndopen_cases ⟨opts.sem, opts.shm⟩ .static outcomes
      ⟨kernel, Ledger.empty⟩ with ⟨opened, system, hdone, -⟩ | ⟨opened, system, hfail, -⟩
    · rw [converter_succeeds (by rw [hdone])] at hfailed
      exact absurd hfailed.symm Bool.false_ne_true
    · simp only [Launch.hndopen, hfail]
      exact pairOf_neg_one _ _

/-- **A start**, of whichever program. -/
theorem hndopen_started (opts : Options) (outcomes : Outcomes) (kernel : Kernel)
    (launch : Launch) :
    Started opts outcomes kernel (launch.hndopen opts outcomes kernel).1
      (launch.hndopen opts outcomes kernel).2 launch := by
  cases launch with
  | writer port =>
      cases hdone : ShmWriter.succeeds outcomes with
      | true => exact writer_joined opts port kernel hdone
      | false => exact writer_dropped opts port kernel hdone
  | forwarder port => exact forwarder_started opts port outcomes kernel
  | converter => exact converter_started opts outcomes kernel

/-! ## A stop -/

/-- A writer that owns the names removes both. -/
theorem hndclose_of_owns {opts : Options} {member : Member} (howns : member.Owns opts)
    (kernel : Kernel) :
    member.hndclose kernel =
      { kernel with sems := kernel.sems.unlink opts.sem, shms := kernel.shms.unlink opts.shm } := by
  cases member with
  | writer process =>
      obtain ⟨hsemname, hshm⟩ := howns
      simp only [Member.hndclose, ShmWriter.hndclose_eq]
      rw [hsemname, hshm]
      rfl
  | forwarder process => exact absurd howns id
  | converter process => exact absurd howns id

/-- Any other process removes none. -/
theorem hndclose_of_inert {member : Member} (hinert : member.Inert) (kernel : Kernel) :
    member.hndclose kernel = kernel := by
  cases member with
  | writer process =>
      obtain ⟨hsemname, hshm⟩ := hinert
      simp only [Member.hndclose, ShmWriter.hndclose_eq]
      rw [hsemname, hshm]
      rfl
  | forwarder process =>
      simp only [Member.hndclose, Forwarder.hndclose]
      split_ifs <;> rfl
  | converter process =>
      simp only [Member.hndclose, Converter.hndclose]
      split_ifs <;> rfl

end Embsys.Naming
