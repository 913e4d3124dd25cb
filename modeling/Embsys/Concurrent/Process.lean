/-
# The processes as step machines

The atomic steps of shm_writer and of the two threads of a forwarder: each
semaphore and mutex operation and each load or store of one field is one step. A
signal handler freezes the thread it runs on and takes its own steps, for the
forwarder each assignment of `hndinit` by itself. The segment carries, beside the
record, the list of all records stored so far; no step reads it.
-/

import Embsys.Forwarder.Convert
import Embsys.Forwarder.Handler

namespace Embsys.Concurrent

open Embsys.Os Embsys.ShmWriter Embsys.Forwarder

/-- The semaphore and the record in shared memory, with the records stored so far,
the initial one first. -/
structure Segment where
  sem : ℕ
  shdata : Shdata
  stores : List Shdata

/-! ## shm_writer -/

/-- Where the main loop stands: about to read, or before a step of `decode_frame`. -/
inductive WriterPc
  | read
  | wait (record : Shdata)
  | storeTime (record : Shdata)
  | storeLatitude (record : Shdata)
  | storeLongitude (record : Shdata)
  | post

/-- Where the handler stands: before `hndclose`, which acts on names and
descriptors only, or before `exit`. -/
inductive WriterHandlerPc
  | hndclose
  | exit

structure Writer where
  alive : Bool
  pc : WriterPc
  handler : Option WriterHandlerPc

/-- The program runs unless it has ended or its handler has interrupted it. -/
def Writer.Running (writer : Writer) : Prop :=
  writer.alive = true ∧ writer.handler = none

instance (writer : Writer) : Decidable writer.Running :=
  inferInstanceAs (Decidable (_ ∧ _))

/-- A read that filled the buffer and handed it to `decode_frame`. -/
def Writer.receive (writer : Writer) (buff : List Char) : Option Writer :=
  match writer.pc with
  | .read =>
      match decodeFrame buff with
      | some record => some { writer with pc := .wait record }
      | none => some writer
  | _ => none

/-- The next step of `decode_frame`; a wait on a semaphore at 0 is none. -/
def Writer.step (writer : Writer) (segment : Segment) : Option (Writer × Segment) :=
  match writer.pc with
  | .read => none
  | .wait record =>
      match segment.sem with
      | 0 => none
      | sem + 1 => some ({ writer with pc := .storeTime record }, { segment with sem := sem })
  | .storeTime record =>
      some ({ writer with pc := .storeLatitude record },
        { segment with shdata := { segment.shdata with time := record.time } })
  | .storeLatitude record =>
      some ({ writer with pc := .storeLongitude record },
        { segment with shdata := { segment.shdata with latitude := record.latitude } })
  | .storeLongitude record =>
      some ({ writer with pc := .post },
        { segment with
          shdata := { segment.shdata with longitude := record.longitude }
          stores := segment.stores ++ [record] })
  | .post => some ({ writer with pc := .read }, { segment with sem := segment.sem + 1 })

def Writer.interrupt (writer : Writer) : Writer :=
  { writer with handler := some .hndclose }

/-- The next step of the handler. -/
def Writer.handle (writer : Writer) : Option Writer :=
  match writer.handler with
  | none => none
  | some .hndclose => some { writer with handler := some .exit }
  | some .exit => some { writer with alive := false }

/-- Between `sem_wait` and `sem_post`. -/
def WriterPc.Inside : WriterPc → Prop
  | .read | .wait _ => False
  | .storeTime _ | .storeLatitude _ | .storeLongitude _ | .post => True

instance : DecidablePred WriterPc.Inside
  | .read | .wait _ => .isFalse id
  | .storeTime _ | .storeLatitude _ | .storeLongitude _ | .post => .isTrue trivial

def Writer.Inside (writer : Writer) : Prop :=
  writer.alive = true ∧ writer.pc.Inside

instance (writer : Writer) : Decidable writer.Inside :=
  inferInstanceAs (Decidable (_ ∧ _))

/-! ## forwarder -/

inductive Thread
  | main
  | convert
  | forward
  deriving DecidableEq

/-- Where `convert` stands, with its locals. -/
inductive ConvertPc
  | wait
  | loadTime
  | loadLatitude (time : ℤ)
  | loadLongitude (time : ℤ) (latitude : ℚ)
  | post (coord : DecimalCoord)
  | lock (coord : DecimalCoord)
  | storeTime (coord : DecimalCoord)
  | storeLatitude (coord : DecimalCoord)
  | storeLongitude (coord : DecimalCoord)
  | unlock
  deriving DecidableEq

/-- Where `forward` stands, with its locals. -/
inductive ForwardPc
  | lock
  | loadTime
  | loadLatitude (time : ℤ)
  | loadLongitude (time : ℤ) (latitude : ℚ)
  | unlock (coord : DecimalCoord)
  | send (coord : DecimalCoord)

/-- Where the handler stands: the closes of `hndclose`, each assignment of
`hndinit`, `exit`. -/
inductive HandlerPc
  | closeSockfd
  | closeShmfd
  | setSockfd
  | zeroInfoMe
  | setShm
  | setShmfd
  | setShdata
  | exit
  deriving DecidableEq

structure Forwarder where
  alive : Bool
  handlers : Handlers
  mutex : Option Thread
  decimalCoord : DecimalCoord
  convertPc : ConvertPc
  forwardPc : ForwardPc
  handler : Thread → Option HandlerPc
  messages : List (List Char)

/-- A thread runs its program unless the process has ended or a handler has
interrupted the thread. -/
def Forwarder.Running (forwarder : Forwarder) (thread : Thread) : Prop :=
  forwarder.alive = true ∧ forwarder.handler thread = none

instance (forwarder : Forwarder) (thread : Thread) : Decidable (forwarder.Running thread) :=
  inferInstanceAs (Decidable (_ ∧ _))

/-- A load through `handlers.shdata`: without a mapping the process faults. -/
def Forwarder.load (forwarder : Forwarder) (next : ConvertPc) : Forwarder :=
  match forwarder.handlers.shdata with
  | .mapped _ => { forwarder with convertPc := next }
  | _ => { forwarder with alive := false }

/-- The next step of `convert`. -/
def Forwarder.convertStep (forwarder : Forwarder) (segment : Segment) :
    Option (Forwarder × Segment) :=
  match forwarder.convertPc with
  | .wait =>
      match segment.sem with
      | 0 => none
      | sem + 1 => some ({ forwarder with convertPc := .loadTime }, { segment with sem := sem })
  | .loadTime => some (forwarder.load (.loadLatitude segment.shdata.time), segment)
  | .loadLatitude time =>
      some (forwarder.load (.loadLongitude time (toDecimal segment.shdata.latitude)), segment)
  | .loadLongitude time latitude =>
      some (forwarder.load (.post ⟨time, latitude, toDecimal segment.shdata.longitude⟩), segment)
  | .post coord =>
      some ({ forwarder with convertPc := .lock coord }, { segment with sem := segment.sem + 1 })
  | .lock coord =>
      match forwarder.mutex with
      | none =>
          some ({ forwarder with mutex := some .convert, convertPc := .storeTime coord }, segment)
      | some _ => none
  | .storeTime coord =>
      some ({ forwarder with
        decimalCoord := { forwarder.decimalCoord with time := coord.time }
        convertPc := .storeLatitude coord }, segment)
  | .storeLatitude coord =>
      some ({ forwarder with
        decimalCoord := { forwarder.decimalCoord with latitude := coord.latitude }
        convertPc := .storeLongitude coord }, segment)
  | .storeLongitude coord =>
      some ({ forwarder with
        decimalCoord := { forwarder.decimalCoord with longitude := coord.longitude }
        convertPc := .unlock }, segment)
  | .unlock => some ({ forwarder with mutex := none, convertPc := .wait }, segment)

/-- The next step of `forward`. -/
def Forwarder.forwardStep (forwarder : Forwarder) : Option Forwarder :=
  match forwarder.forwardPc with
  | .lock =>
      match forwarder.mutex with
      | none => some { forwarder with mutex := some .forward, forwardPc := .loadTime }
      | some _ => none
  | .loadTime =>
      some { forwarder with forwardPc := .loadLatitude forwarder.decimalCoord.time }
  | .loadLatitude time =>
      some { forwarder with forwardPc := .loadLongitude time forwarder.decimalCoord.latitude }
  | .loadLongitude time latitude =>
      some { forwarder with
        forwardPc := .unlock ⟨time, latitude, forwarder.decimalCoord.longitude⟩ }
  | .unlock coord => some { forwarder with mutex := none, forwardPc := .send coord }
  | .send coord =>
      some { forwarder with
        forwardPc := .lock
        messages := forwarder.messages ++ [Embsys.Forwarder.forward coord] }

def Forwarder.interrupt (forwarder : Forwarder) (thread : Thread) : Forwarder :=
  { forwarder with handler := Function.update forwarder.handler thread (some .closeSockfd) }

/-- The next step of the handler on this thread. -/
def Forwarder.handle (forwarder : Forwarder) (thread : Thread) : Option Forwarder :=
  let goto := fun pc => Function.update forwarder.handler thread (some pc)
  match forwarder.handler thread with
  | none => none
  | some .closeSockfd => some { forwarder with handler := goto .closeShmfd }
  | some .closeShmfd => some { forwarder with handler := goto .setSockfd }
  | some .setSockfd =>
      some { forwarder with handlers.sockfd := -1, handler := goto .zeroInfoMe }
  | some .zeroInfoMe =>
      some { forwarder with handlers.infoMe := .zero, handler := goto .setShm }
  | some .setShm => some { forwarder with handlers.shm := none, handler := goto .setShmfd }
  | some .setShmfd => some { forwarder with handlers.shmfd := -1, handler := goto .setShdata }
  | some .setShdata => some { forwarder with handlers.shdata := .null, handler := goto .exit }
  | some .exit => some { forwarder with alive := false }

/-- Between `sem_wait` and `sem_post`, with a field still to load or not. -/
def ConvertPc.Inside : ConvertPc → Prop
  | .loadTime | .loadLatitude _ | .loadLongitude _ _ | .post _ => True
  | _ => False

instance : DecidablePred ConvertPc.Inside
  | .loadTime | .loadLatitude _ | .loadLongitude _ _ | .post _ => .isTrue trivial
  | .wait | .lock _ | .storeTime _ | .storeLatitude _ | .storeLongitude _ | .unlock => .isFalse id

/-- Before a load through `handlers.shdata`. -/
def ConvertPc.AtLoad : ConvertPc → Prop
  | .loadTime | .loadLatitude _ | .loadLongitude _ _ => True
  | _ => False

instance : DecidablePred ConvertPc.AtLoad
  | .loadTime | .loadLatitude _ | .loadLongitude _ _ => .isTrue trivial
  | .wait | .post _ | .lock _ | .storeTime _ | .storeLatitude _ | .storeLongitude _ | .unlock =>
      .isFalse id

def Forwarder.Inside (forwarder : Forwarder) : Prop :=
  forwarder.alive = true ∧ forwarder.convertPc.Inside

instance (forwarder : Forwarder) : Decidable forwarder.Inside :=
  inferInstanceAs (Decidable (_ ∧ _))

/-! ## All processes -/

/-- Any number of writers and forwarders on one segment. -/
structure State (W F : Type*) where
  segment : Segment
  writers : W → Writer
  forwarders : F → Forwarder

/-- What can happen next: a read of a writer, a step of a program, the delivery of
SIGINT to a process and a step of a handler. -/
inductive Action (W F : Type*)
  | receive (writer : W) (buff : List Char)
  | write (writer : W)
  | interruptWriter (writer : W)
  | handleWriter (writer : W)
  | convert (forwarder : F)
  | forward (forwarder : F)
  | interrupt (forwarder : F) (thread : Thread)
  | handle (forwarder : F) (thread : Thread)

variable {W F : Type*} [DecidableEq W] [DecidableEq F]

def State.setWriter (state : State W F) (w : W) (writer : Writer) : State W F :=
  { state with writers := Function.update state.writers w writer }

def State.setForwarder (state : State W F) (f : F) (forwarder : Forwarder) : State W F :=
  { state with forwarders := Function.update state.forwarders f forwarder }

/-- One step of the whole system. -/
def step (state : State W F) : Action W F → Option (State W F)
  | .receive w buff =>
      if (state.writers w).Running then
        ((state.writers w).receive buff).map (state.setWriter w)
      else none
  | .write w =>
      if (state.writers w).Running then
        ((state.writers w).step state.segment).map fun next =>
          { state.setWriter w next.1 with segment := next.2 }
      else none
  | .interruptWriter w =>
      if (state.writers w).Running then some (state.setWriter w (state.writers w).interrupt)
      else none
  | .handleWriter w =>
      if (state.writers w).alive then (state.writers w).handle.map (state.setWriter w) else none
  | .convert f =>
      if (state.forwarders f).Running .convert then
        ((state.forwarders f).convertStep state.segment).map fun next =>
          { state.setForwarder f next.1 with segment := next.2 }
      else none
  | .forward f =>
      if (state.forwarders f).Running .forward then
        (state.forwarders f).forwardStep.map (state.setForwarder f)
      else none
  | .interrupt f thread =>
      if (state.forwarders f).Running thread then
        some (state.setForwarder f ((state.forwarders f).interrupt thread))
      else none
  | .handle f thread =>
      if (state.forwarders f).alive then
        ((state.forwarders f).handle thread).map (state.setForwarder f)
      else none

/-- The handlers record of a forwarder that has started. -/
abbrev Attached := { handlers : Handlers // ∃ address, handlers.shdata = .mapped address }

/-- A successful `hndopen` gives such a record. -/
def attached {opts : Opts} {handlers : Handlers} {outcomes : Outcomes} {system : System}
    (hdone : (hndopen opts handlers outcomes system).1 = 0) : Attached :=
  ⟨(hndopen opts handlers outcomes system).2.1, hndopen_mapped hdone⟩

def Writer.initial : Writer := ⟨true, .read, none⟩

def Forwarder.initial (handlers : Attached) : Forwarder :=
  ⟨true, handlers.val, none, ⟨0, 0, 0⟩, .wait, .lock, fun _ => none, []⟩

/-- All processes started, the semaphore at 1, the segment zero-filled. -/
def initial (W : Type*) {F : Type*} (handlers : F → Attached) : State W F where
  segment := ⟨1, ⟨0, 0, 0⟩, [⟨0, 0, 0⟩]⟩
  writers := fun _ => .initial
  forwarders := fun f => .initial (handlers f)

end Embsys.Concurrent
