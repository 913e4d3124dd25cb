/-
# Handles in the main loops

Each main calls `hndopen` and goes on unless it returned -1. The loops never touch
the handlers, so what holds of them after that check holds in every later state,
whatever is read and however the other processes use the segment. The `hndopen` of
the forwarder and of the converter returns -1 when it fails; the one of shm_writer
returns `EXIT_FAILURE`, and its main goes on with the handlers `hndclose` has reset.
-/

import Embsys.Math.Transition
import Embsys.ShmWriter.Handler
import Embsys.Converter.Handler
import Embsys.Concurrent.Moves

namespace Embsys.Concurrent

open Embsys.Math Embsys.Os Embsys.ShmWriter Embsys.Forwarder

/-- What a step of a loop hands to the kernel or goes through. -/
inductive Operand
  | descriptor (fd : ℤ)
  | semaphore (sem : Option ℕ)
  | pointer (shdata : Pointer)

def Operand.Valid : Operand → Prop
  | .descriptor fd => 0 ≤ fd
  | .semaphore sem => sem ≠ none
  | .pointer shdata => ∃ address, shdata = .mapped address

/-! ## shm_writer -/

/-- shm_writer in its main loop. -/
structure WriterMain where
  hnd : ShmWriter.Handlers
  writer : Writer

/-- main of shm_writer up to its loop, none when it exits. -/
def WriterMain.start (opts : ShmWriter.Opts) (outcomes : Outcomes) (system : System) :
    Option WriterMain :=
  let (result, hnd, _) := ShmWriter.hndopen opts outcomes system
  if result = -1 then none else some ⟨hnd, .initial⟩

/-- What happens while the loop runs: a `read` returns these bytes, the next step of
`decode_frame`, or the other processes change the segment. -/
inductive WriterAction
  | receive (bytes : List Char)
  | decode
  | others (segment : Segment)

def WriterMain.step (state : WriterMain × Segment) :
    WriterAction → Option (WriterMain × Segment)
  | .receive bytes =>
      match state.1.writer.pc with
      | .read =>
          if 0 < bytes.length then
            (state.1.writer.receive (fill bytes)).map fun writer =>
              ({ state.1 with writer := writer }, state.2)
          else some state
      | _ => none
  | .decode =>
      (state.1.writer.step state.2).map fun next => ({ state.1 with writer := next.1 }, next.2)
  | .others segment => some (state.1, segment)

/-- What the next step of the loop uses: `FD_SET`, `select` and `read` the port,
`sem_wait` and `sem_post` the semaphore, the stores the pointer. -/
def WriterMain.operand (main : WriterMain) : Operand :=
  match main.writer.pc with
  | .read => .descriptor main.hnd.gpsfd
  | .wait _ | .post => .semaphore main.hnd.sem
  | .storeTime _ | .storeLatitude _ | .storeLongitude _ => .pointer main.hnd.shdata

/-- The handlers are valid, and so is what the next step uses. -/
def WriterMain.Safe (opts : ShmWriter.Opts) (outcomes : Outcomes) (system : System)
    (main : WriterMain) : Prop :=
  ValidHandles outcomes (system.semOpen opts.sem true outcomes.semOpen).1
      [main.hnd.gpsfd, main.hnd.shmfd] main.hnd.sem main.hnd.shdata ∧
    main.operand.Valid

/-! ## forwarder -/

/-- main of the forwarder up to its threads, none when it exits. -/
def Forwarder.start (opts : Forwarder.Opts) (outcomes : Outcomes) (system : System) :
    Option Forwarder :=
  let (result, handlers, _) := Forwarder.hndopen opts .static outcomes system
  if result = -1 then none
  else some ⟨true, handlers, none, ⟨0, 0, 0⟩, .wait, .lock, fun _ => none, []⟩

/-- A step of either thread, or a change of the segment by the other processes. -/
inductive ForwarderAction
  | convert
  | forward
  | others (segment : Segment)

def Forwarder.threads (state : Forwarder × Segment) :
    ForwarderAction → Option (Forwarder × Segment)
  | .convert => state.1.convertStep state.2
  | .forward => state.1.forwardStep.map fun forwarder => (forwarder, state.2)
  | .others segment => some (state.1, segment)

/-- What the next step of `convert` uses of the handlers; `forward` uses none. -/
def Forwarder.operand (forwarder : Forwarder) : Option Operand :=
  match forwarder.convertPc with
  | .wait | .post _ => some (.semaphore forwarder.handlers.sem)
  | .loadTime | .loadLatitude _ | .loadLongitude _ _ =>
      some (.pointer forwarder.handlers.shdata)
  | _ => none

def Forwarder.Safe (opts : Forwarder.Opts) (outcomes : Outcomes) (system : System)
    (forwarder : Forwarder) : Prop :=
  ValidHandles outcomes (system.semOpen opts.sem false outcomes.semOpen).1
      [forwarder.handlers.sockfd, forwarder.handlers.shmfd] forwarder.handlers.sem
      forwarder.handlers.shdata ∧
    ∀ operand ∈ forwarder.operand, operand.Valid

/-! ## converter -/

/-- The converter while `display`, the only thread its main creates, runs. -/
structure ConverterMain where
  handlers : Converter.Handlers
  decimalCoord : DecimalCoord
  shown : List DecimalCoord

/-- main of the converter up to its thread, none when it exits. -/
def ConverterMain.start (opts : Converter.Opts) (outcomes : Outcomes) (system : System) :
    Option ConverterMain :=
  let (result, handlers, _) := Converter.hndopen opts .static outcomes system
  if result = -1 then none else some ⟨handlers, ⟨0, 0, 0⟩, []⟩

/-- One iteration of `display`. -/
def ConverterMain.step (main : ConverterMain) (_ : Unit) : Option ConverterMain :=
  some { main with shown := main.shown ++ [main.decimalCoord] }

/-- The handlers are valid; `display` uses none of them. -/
def ConverterMain.Safe (opts : Converter.Opts) (outcomes : Outcomes) (system : System)
    (main : ConverterMain) : Prop :=
  ValidHandles outcomes (system.semOpen opts.sem false outcomes.semOpen).1
    [main.handlers.shmfd] main.handlers.sem main.handlers.shdata

/-! ## What the loops keep -/

theorem WriterMain.step_hnd {state next : WriterMain × Segment} {action : WriterAction}
    (hstep : WriterMain.step state action = some next) : next.1.hnd = state.1.hnd := by
  cases action with
  | receive bytes =>
      simp only [WriterMain.step] at hstep
      split at hstep
      · split_ifs at hstep
        · obtain ⟨writer, -, rfl⟩ := Option.map_eq_some_iff.mp hstep
          rfl
        · rw [Option.some.inj hstep]
      · simp at hstep
  | decode =>
      obtain ⟨writer, -, rfl⟩ := Option.map_eq_some_iff.mp hstep
      rfl
  | others segment => rw [← Option.some.inj hstep]

theorem Forwarder.threads_handlers {state next : Forwarder × Segment} {action : ForwarderAction}
    (hstep : Forwarder.threads state action = some next) :
    next.1.handlers = state.1.handlers := by
  obtain ⟨forwarder', segment'⟩ := next
  cases action with
  | convert => cases Forwarder.convertStep_move hstep <;> rfl
  | forward =>
      obtain ⟨forwarder, hforward, hnext⟩ := Option.map_eq_some_iff.mp hstep
      obtain ⟨rfl, rfl⟩ := Prod.mk.inj hnext
      cases Forwarder.forwardStep_move hforward <;> rfl
  | others segment => rw [← Option.some.inj hstep]

theorem ConverterMain.step_handlers {main next : ConverterMain} {action : Unit}
    (hstep : ConverterMain.step main action = some next) : next.handlers = main.handlers := by
  rw [← Option.some.inj hstep]

/-- Valid handles are all a step of the loop of shm_writer needs. -/
theorem WriterMain.operand_valid {outcomes : Outcomes} {opened : Option ℕ} {main : WriterMain}
    (hvalid : ValidHandles outcomes opened [main.hnd.gpsfd, main.hnd.shmfd] main.hnd.sem
      main.hnd.shdata) : main.operand.Valid := by
  obtain ⟨address, -, hmapped⟩ := hvalid.mapped
  unfold WriterMain.operand
  cases main.writer.pc with
  | read => exact hvalid.nonneg _ List.mem_cons_self
  | wait record => exact hvalid.sem_ne
  | post => exact hvalid.sem_ne
  | storeTime record => exact ⟨address, hmapped⟩
  | storeLatitude record => exact ⟨address, hmapped⟩
  | storeLongitude record => exact ⟨address, hmapped⟩

theorem Forwarder.operand_valid {outcomes : Outcomes} {opened : Option ℕ} {forwarder : Forwarder}
    (hvalid : ValidHandles outcomes opened [forwarder.handlers.sockfd, forwarder.handlers.shmfd]
      forwarder.handlers.sem forwarder.handlers.shdata) :
    ∀ operand ∈ forwarder.operand, operand.Valid := by
  obtain ⟨address, -, hmapped⟩ := hvalid.mapped
  have hpointer : Operand.Valid (.pointer forwarder.handlers.shdata) := ⟨address, hmapped⟩
  have hsemaphore : Operand.Valid (.semaphore forwarder.handlers.sem) := hvalid.sem_ne
  unfold Forwarder.operand
  cases forwarder.convertPc <;> simp [hpointer, hsemaphore]

/-! ## Runs -/

/-- shm_writer reaches its loop whatever `hndopen` returned; its handles are the opened
ones or the reset ones. -/
theorem WriterMain.safe_iff (opts : ShmWriter.Opts) (outcomes : Outcomes) (system : System)
    (segment : Segment) :
    (∀ start ∈ WriterMain.start opts outcomes system, ∀ trace state,
        Run WriterMain.step (start, segment) trace state → state.1.Safe opts outcomes system) ↔
      ShmWriter.succeeds outcomes = true := by
  rcases ShmWriter.hndopen_cases opts outcomes system with
    ⟨handlers, after, hdone, hsucceeds, hvalid, -⟩ | ⟨handlers, after, hfail, hsucceeds, -⟩
  · have hstart : WriterMain.start opts outcomes system = some ⟨handlers, .initial⟩ := by
      simp [WriterMain.start, hdone, exitSuccess]
    rw [hstart, hsucceeds]
    refine iff_of_true ?_ rfl
    intro start hmem trace state hrun
    obtain rfl := Option.some.inj hmem
    have hkept : state.1.hnd = handlers :=
      hrun.kept (fun state => state.1.hnd) fun _ _ _ => WriterMain.step_hnd
    rw [← hkept] at hvalid
    exact ⟨hvalid, WriterMain.operand_valid hvalid⟩
  · have hstart : WriterMain.start opts outcomes system = some ⟨ShmWriter.hndinit, .initial⟩ := by
      simp [WriterMain.start, hfail, ShmWriter.hndfail, ShmWriter.hndclose, exitFailure]
    rw [hstart, hsucceeds]
    refine iff_of_false ?_ (by decide)
    intro hsafe
    exact (hsafe _ rfl _ _ Run.nil).1.sem_ne rfl

theorem Forwarder.safe {opts : Forwarder.Opts} {outcomes : Outcomes} {system : System}
    {start : Forwarder} (hstart : start ∈ Forwarder.start opts outcomes system)
    {segment : Segment} {trace : List ((Forwarder × Segment) × ForwarderAction)}
    {state : Forwarder × Segment} (hrun : Run Forwarder.threads (start, segment) trace state) :
    state.1.Safe opts outcomes system := by
  rcases Forwarder.hndopen_cases opts .static outcomes system with
    ⟨opened, after, hdone, hvalid, -⟩ | ⟨opened, after, hfail, -⟩
  · have hopened : start.handlers = opened := by
      simp only [Forwarder.start, hdone] at hstart
      rw [← Option.some.inj hstart]
    have hkept : state.1.handlers = start.handlers :=
      hrun.kept (fun state => state.1.handlers) fun _ _ _ => Forwarder.threads_handlers
    rw [← hopened, ← hkept] at hvalid
    exact ⟨hvalid, Forwarder.operand_valid hvalid⟩
  · simp [Forwarder.start, hfail, Forwarder.hndfail] at hstart

theorem ConverterMain.safe {opts : Converter.Opts} {outcomes : Outcomes} {system : System}
    {start state : ConverterMain} (hstart : start ∈ ConverterMain.start opts outcomes system)
    {trace : List (ConverterMain × Unit)} (hrun : Run ConverterMain.step start trace state) :
    state.Safe opts outcomes system := by
  rcases Converter.hndopen_cases opts .static outcomes system with
    ⟨opened, after, hdone, hvalid, -⟩ | ⟨opened, after, hfail, -⟩
  · have hopened : start.handlers = opened := by
      simp only [ConverterMain.start, hdone] at hstart
      rw [← Option.some.inj hstart]
    have hkept : state.handlers = start.handlers :=
      hrun.kept ConverterMain.handlers fun _ _ _ => ConverterMain.step_handlers
    rw [← hopened, ← hkept] at hvalid
    exact hvalid
  · simp [ConverterMain.start, hfail, Converter.hndfail] at hstart

/-- **Handles after the check.** In every state of every run the handles of the forwarder
and the converter are valid, as is what their next step uses. For shm_writer this holds
exactly when every call of its `hndopen` succeeded. -/
theorem handles_valid_iff (outcomes : Outcomes) (system : System) (segment : Segment) :
    (∀ opts,
        ((∀ start ∈ WriterMain.start opts outcomes system, ∀ trace state,
            Run WriterMain.step (start, segment) trace state →
              state.1.Safe opts outcomes system) ↔
          ShmWriter.succeeds outcomes = true)) ∧
      (∀ opts, ∀ start ∈ Forwarder.start opts outcomes system, ∀ trace state,
          Run Forwarder.threads (start, segment) trace state →
            state.1.Safe opts outcomes system) ∧
      ∀ opts, ∀ start ∈ ConverterMain.start opts outcomes system, ∀ trace state,
          Run ConverterMain.step start trace state → state.Safe opts outcomes system := by
  refine ⟨?_, ?_, ?_⟩
  · intro opts
    exact WriterMain.safe_iff opts outcomes system segment
  · intro opts start hstart trace state hrun
    exact Forwarder.safe hstart hrun
  · intro opts start hstart trace state hrun
    exact ConverterMain.safe hstart hrun

/-- A shm_writer whose port cannot be opened goes on with descriptor -1. -/
theorem not_forall_handles_valid :
    ¬ ((∀ opts outcomes system segment,
          ∀ start ∈ WriterMain.start opts outcomes system, ∀ trace state,
            Run WriterMain.step (start, segment) trace state →
              state.1.Safe opts outcomes system) ∧
        (∀ opts outcomes system segment,
          ∀ start ∈ Forwarder.start opts outcomes system, ∀ trace state,
            Run Forwarder.threads (start, segment) trace state →
              state.1.Safe opts outcomes system) ∧
        ∀ opts outcomes system,
          ∀ start ∈ ConverterMain.start opts outcomes system, ∀ trace state,
            Run ConverterMain.step start trace state → state.Safe opts outcomes system) := by
  rintro ⟨h, -⟩
  have hsafe := h ⟨['p'], ['s'], ['m']⟩ portMissing running ⟨1, ⟨0, 0, 0⟩, []⟩
    ⟨ShmWriter.hndinit, .initial⟩ rfl [] _ Run.nil
  have hport : (0 : ℤ) ≤ -1 := hsafe.2
  exact absurd hport (by decide)

end Embsys.Concurrent
