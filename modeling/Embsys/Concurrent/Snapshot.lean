/-
# Whole fixes in order

Two locks guard two copies of a record of three fields. Under the semaphore the
segment holds the last stored record but for the fields the one writer inside has
already replaced; under the mutex `decimal_coord` holds the last committed view
but for the fields `convert` has already replaced. Each forwarder is therefore a
relay of snapshots: its locals, its copy and its messages are views of whole
stored records, at positions of the history that never go back.
-/

import Embsys.Math.Relay
import Embsys.Concurrent.Semaphore

namespace Embsys.Concurrent

open Embsys.Math Embsys.C Embsys.Os Embsys.ShmWriter Embsys.Forwarder

/-! ## One forwarder as a relay -/

/-- The decimal coordinates of a stored record. -/
def viewAt (stores : List Shdata) (i : ℕ) : DecimalCoord :=
  Embsys.Forwarder.convert (stores.getD i ⟨0, 0, 0⟩)

theorem viewAt_append {stores : List Shdata} {i : ℕ} (hi : i < stores.length)
    (record : Shdata) : viewAt (stores ++ [record]) i = viewAt stores i := by
  simp [viewAt, List.getD, List.getElem?_append_left hi]

/-- While inside, the locals of `convert` are those of the latest record; after it,
those of the record fetched. -/
def ConvertPc.Agrees (latest fetched : DecimalCoord) : ConvertPc → Prop
  | .loadLatitude time => time = latest.time
  | .loadLongitude time latitude => time = latest.time ∧ latitude = latest.latitude
  | .post coord => coord = latest
  | .lock coord | .storeTime coord | .storeLatitude coord | .storeLongitude coord =>
      coord = fetched
  | _ => True

/-- The committed view with the fields that `convert` has already replaced. -/
def ConvertPc.written (committed : DecimalCoord) : ConvertPc → DecimalCoord
  | .storeLatitude coord => { committed with time := coord.time }
  | .storeLongitude coord => { committed with time := coord.time, latitude := coord.latitude }
  | _ => committed

/-- Between lock and unlock of the mutex. -/
def ConvertPc.Locked : ConvertPc → Prop
  | .storeTime _ | .storeLatitude _ | .storeLongitude _ | .unlock => True
  | _ => False

/-- While it holds the mutex, the locals of `forward` are those of the committed
view; after it, those of the view taken. -/
def ForwardPc.Agrees (committed taken : DecimalCoord) : ForwardPc → Prop
  | .loadLatitude time => time = committed.time
  | .loadLongitude time latitude => time = committed.time ∧ latitude = committed.latitude
  | .unlock coord => coord = committed
  | .send coord => coord = taken
  | _ => True

def ForwardPc.Locked : ForwardPc → Prop
  | .loadTime | .loadLatitude _ | .loadLongitude _ _ | .unlock _ => True
  | _ => False

/-- The stage of the relay that this step of `convert` moves. -/
def ConvertPc.stage : ConvertPc → Option Stage
  | .post _ => some .fetch
  | .storeLongitude _ => some .commit
  | _ => none

/-- The stage of the relay that this step of `forward` moves. -/
def ForwardPc.stage : ForwardPc → Option Stage
  | .unlock _ => some .take
  | .send _ => some .send
  | _ => none

/-- The relay that a forwarder implements on this history. -/
structure Tracks (stores : List Shdata) (forwarder : Forwarder) {n : ℕ} (relay : Relay n) :
    Prop where
  length : stores.length = n
  converts : forwarder.convertPc.Agrees (viewAt stores (n - 1)) (viewAt stores relay.fetched)
  coord : forwarder.decimalCoord =
    forwarder.convertPc.written (viewAt stores relay.committed)
  forwards : forwarder.forwardPc.Agrees (viewAt stores relay.committed)
    (viewAt stores relay.taken)
  messages : forwarder.messages =
    relay.sent.map fun i => Embsys.Forwarder.forward (viewAt stores i)
  convertLock : forwarder.mutex = some .convert ↔ forwarder.convertPc.Locked
  forwardLock : forwarder.mutex = some .forward ↔ forwarder.forwardPc.Locked

/-- The initial record is the initial value of `decimal_coord`. -/
theorem convert_zero : Embsys.Forwarder.convert ⟨0, 0, 0⟩ = ⟨0, 0, 0⟩ := by
  decide +kernel

theorem ConvertPc.written_of_not_locked {pc : ConvertPc} (hpc : ¬ pc.Locked)
    (committed : DecimalCoord) : pc.written committed = committed := by
  cases pc with
  | storeLatitude coord => exact absurd trivial hpc
  | storeLongitude coord => exact absurd trivial hpc
  | _ => rfl

theorem ConvertPc.not_locked_of_atLoad {pc : ConvertPc} (hpc : pc.AtLoad) : ¬ pc.Locked := by
  cases pc <;> first | exact not_false | exact hpc.elim

theorem ConvertPc.not_locked_loaded {pc : ConvertPc} (hpc : pc.AtLoad) {shdata : Shdata} :
    ¬ (pc.loaded shdata).Locked := by
  cases pc <;> first | exact not_false | exact hpc.elim

theorem ConvertPc.stage_of_atLoad {pc : ConvertPc} (hpc : pc.AtLoad) : pc.stage = none := by
  cases pc <;> first | rfl | exact hpc.elim

theorem ForwardPc.agrees_of_not_locked {pc : ForwardPc} (hpc : ¬ pc.Locked)
    {committed taken : DecimalCoord} (h : pc.Agrees committed taken) (committed' : DecimalCoord) :
    pc.Agrees committed' taken := by
  cases pc with
  | lock => trivial
  | send coord => exact h
  | loadTime => trivial
  | loadLatitude time => exact absurd trivial hpc
  | loadLongitude time latitude => exact absurd trivial hpc
  | unlock coord => exact absurd trivial hpc

theorem ConvertPc.agrees_of_not_inside {pc : ConvertPc} (hpc : ¬ pc.Inside)
    {latest fetched : DecimalCoord} (h : pc.Agrees latest fetched) (latest' : DecimalCoord) :
    pc.Agrees latest' fetched := by
  cases pc with
  | loadTime => trivial
  | loadLatitude time => exact absurd trivial hpc
  | loadLongitude time latitude => exact absurd trivial hpc
  | post coord => exact absurd trivial hpc
  | _ => exact h

section Simulation

variable {stores : List Shdata} {forwarder forwarder' : Forwarder} {n : ℕ} {relay : Relay n}

/-- At the start every stage is at the initial record, the zeros of `decimal_coord`. -/
theorem Tracks.start (handlers : Attached) :
    Tracks [⟨0, 0, 0⟩] (Forwarder.initial handlers) (Relay.start (n := 1) (by decide)) where
  length := rfl
  converts := trivial
  coord := convert_zero.symm
  forwards := trivial
  messages := rfl
  convertLock := ⟨nofun, False.elim⟩
  forwardLock := ⟨nofun, False.elim⟩

theorem Tracks.viewAt_publish (h : Tracks stores forwarder relay) {i : ℕ} (hi : i < n)
    (record : Shdata) : viewAt (stores ++ [record]) i = viewAt stores i :=
  viewAt_append (h.length ▸ hi) record

/-- A store made while `convert` is outside only lengthens the history. -/
theorem Tracks.publish (h : Tracks stores forwarder relay)
    (houtside : ¬ forwarder.convertPc.Inside) (record : Shdata) :
    Tracks (stores ++ [record]) forwarder relay.publish where
  length := by simp [h.length]
  converts := by
    rw [Relay.publish_fetched, h.viewAt_publish relay.fetched_lt]
    exact ConvertPc.agrees_of_not_inside houtside h.converts _
  coord := by
    rw [Relay.publish_committed, h.viewAt_publish relay.committed_lt]
    exact h.coord
  forwards := by
    rw [Relay.publish_committed, Relay.publish_taken, h.viewAt_publish relay.committed_lt,
      h.viewAt_publish relay.taken_lt]
    exact h.forwards
  messages := by
    rw [h.messages]
    apply List.map_congr_left
    intro i hi
    rw [h.viewAt_publish (relay.sent_lt i hi)]
  convertLock := h.convertLock
  forwardLock := h.forwardLock

/-- A load while the record is the last one keeps the locals of `convert` views of it. -/
theorem Tracks.load (h : Tracks stores forwarder relay) {shdata : Shdata}
    (hpc : forwarder.convertPc.AtLoad)
    (hlatest : Embsys.Forwarder.convert shdata = viewAt stores (n - 1)) :
    Tracks stores { forwarder with convertPc := forwarder.convertPc.loaded shdata } relay where
  length := h.length
  converts := by
    have hconverts := h.converts
    cases hcase : forwarder.convertPc with
    | loadTime => exact congrArg DecimalCoord.time hlatest
    | loadLatitude time =>
        rw [hcase] at hconverts
        exact ⟨hconverts, congrArg DecimalCoord.latitude hlatest⟩
    | loadLongitude time latitude =>
        rw [hcase] at hconverts
        obtain ⟨rfl, rfl⟩ := hconverts
        rw [← hlatest]
        rfl
    | _ => rw [hcase] at hpc; exact hpc.elim
  coord := by
    rw [ConvertPc.written_of_not_locked (ConvertPc.not_locked_loaded hpc), h.coord,
      ConvertPc.written_of_not_locked (ConvertPc.not_locked_of_atLoad hpc)]
  forwards := h.forwards
  messages := h.messages
  convertLock := h.convertLock.trans
    (iff_of_false (ConvertPc.not_locked_of_atLoad hpc) (ConvertPc.not_locked_loaded hpc))
  forwardLock := h.forwardLock

/-- **Simulation, `convert`.** A step of `convert` moves the relay at `sem_post`, which
fetches, and at the store of the last field, which commits. -/
theorem Tracks.convert_advance (h : Tracks stores forwarder relay) {segment segment' : Segment}
    (hlatest : forwarder.convertPc.AtLoad →
      Embsys.Forwarder.convert segment.shdata = viewAt stores (n - 1))
    (hmove : ConvertMove forwarder segment forwarder' segment') :
    Tracks stores forwarder' (relay.advance forwarder.convertPc.stage) := by
  have ⟨hlength, hconverts, hcoord, hforwards, hmessages, hconvertLock, hforwardLock⟩ := h
  cases hmove with
  | wait hpc hsem =>
      rw [hpc] at hcoord hconvertLock ⊢
      exact ⟨hlength, trivial, hcoord, hforwards, hmessages, hconvertLock, hforwardLock⟩
  | load hpc hpointer =>
      rw [ConvertPc.stage_of_atLoad hpc]
      exact h.load hpc (hlatest hpc)
  | fault hpc hfault =>
      rw [ConvertPc.stage_of_atLoad hpc]
      exact ⟨hlength, hconverts, hcoord, hforwards, hmessages, hconvertLock, hforwardLock⟩
  | post hpc =>
      rw [hpc] at hconverts hcoord hconvertLock ⊢
      exact ⟨hlength, hconverts, hcoord, hforwards, hmessages, hconvertLock, hforwardLock⟩
  | lock hpc hmutex =>
      rw [hpc] at hconverts hcoord ⊢
      rw [hmutex] at hforwardLock
      refine ⟨hlength, hconverts, hcoord, hforwards, hmessages, iff_of_true rfl trivial, ?_⟩
      exact iff_of_false nofun fun hlocked => nomatch hforwardLock.mpr hlocked
  | storeTime hpc =>
      rw [hpc] at hconverts hcoord hconvertLock ⊢
      refine ⟨hlength, hconverts, ?_, hforwards, hmessages, hconvertLock, hforwardLock⟩
      rw [hcoord]
      rfl
  | storeLatitude hpc =>
      rw [hpc] at hconverts hcoord hconvertLock ⊢
      refine ⟨hlength, hconverts, ?_, hforwards, hmessages, hconvertLock, hforwardLock⟩
      rw [hcoord]
      rfl
  | storeLongitude hpc =>
      rw [hpc] at hconverts hcoord hconvertLock ⊢
      have hmutex := hconvertLock.mpr trivial
      have houtside : ¬ forwarder.forwardPc.Locked := fun hlocked => by
        simpa [hmutex] using hforwardLock.mpr hlocked
      refine ⟨hlength, trivial, ?_, ForwardPc.agrees_of_not_locked houtside hforwards _,
        hmessages, hconvertLock, hforwardLock⟩
      rw [hcoord, hconverts]
      rfl
  | unlock hpc =>
      rw [hpc] at hcoord hconvertLock ⊢
      have hmutex := hconvertLock.mpr trivial
      refine ⟨hlength, trivial, hcoord, hforwards, hmessages, iff_of_false nofun False.elim,
        iff_of_false nofun fun hlocked => ?_⟩
      simpa [hmutex] using hforwardLock.mpr hlocked

/-- **Simulation, `forward`.** It takes with the unlock and sends with the message. -/
theorem Tracks.forward_advance (h : Tracks stores forwarder relay)
    (hmove : ForwardMove forwarder forwarder') :
    Tracks stores forwarder' (relay.advance forwarder.forwardPc.stage) := by
  obtain ⟨hlength, hconverts, hcoord, hforwards, hmessages, hconvertLock, hforwardLock⟩ := h
  have hwhole : forwarder.forwardPc.Locked →
      forwarder.decimalCoord = viewAt stores relay.committed := by
    intro hlocked
    have hmutex := hforwardLock.mpr hlocked
    rw [hcoord, ConvertPc.written_of_not_locked]
    intro hconverting
    simpa [hmutex] using hconvertLock.mpr hconverting
  cases hmove with
  | lock hpc hmutex =>
      rw [hmutex] at hconvertLock
      rw [hpc]
      refine ⟨hlength, hconverts, hcoord, trivial, hmessages, ?_, iff_of_true rfl trivial⟩
      exact iff_of_false nofun fun hlocked => nomatch hconvertLock.mpr hlocked
  | loadTime hpc =>
      rw [hpc] at hwhole hforwardLock ⊢
      exact ⟨hlength, hconverts, hcoord, congrArg DecimalCoord.time (hwhole trivial), hmessages,
        hconvertLock, hforwardLock⟩
  | loadLatitude hpc =>
      rw [hpc] at hwhole hforwards hforwardLock ⊢
      exact ⟨hlength, hconverts, hcoord,
        ⟨hforwards, congrArg DecimalCoord.latitude (hwhole trivial)⟩, hmessages, hconvertLock,
        hforwardLock⟩
  | loadLongitude hpc =>
      rw [hpc] at hwhole hforwards hforwardLock ⊢
      obtain ⟨rfl, rfl⟩ := hforwards
      refine ⟨hlength, hconverts, hcoord, ?_, hmessages, hconvertLock, hforwardLock⟩
      rw [hwhole trivial]
      rfl
  | unlock hpc =>
      rw [hpc] at hforwards hforwardLock ⊢
      have hmutex := hforwardLock.mpr trivial
      refine ⟨hlength, hconverts, hcoord, hforwards, hmessages,
        iff_of_false nofun fun hlocked => ?_, iff_of_false nofun False.elim⟩
      simpa [hmutex] using hconvertLock.mpr hlocked
  | send hpc =>
      rw [hpc] at hforwards hforwardLock ⊢
      refine ⟨hlength, hconverts, hcoord, trivial, ?_, hconvertLock, hforwardLock⟩
      rw [hmessages, hforwards]
      simp [ForwardPc.stage, Relay.advance]

/-- So each step of a forwarder is an operation of its relay, or none. -/
theorem Tracks.convert (h : Tracks stores forwarder relay) {segment segment' : Segment}
    (hlatest : forwarder.convertPc.AtLoad →
      Embsys.Forwarder.convert segment.shdata = viewAt stores (n - 1))
    (hmove : ConvertMove forwarder segment forwarder' segment') :
    ∃ relay', Relay.Step relay relay' ∧ Tracks stores forwarder' relay' :=
  ⟨_, relay.step_advance _, h.convert_advance hlatest hmove⟩

theorem Tracks.forward (h : Tracks stores forwarder relay)
    (hmove : ForwardMove forwarder forwarder') :
    ∃ relay', Relay.Step relay relay' ∧ Tracks stores forwarder' relay' :=
  ⟨_, relay.step_advance _, h.forward_advance hmove⟩

end Simulation

/-! ## The record in the segment -/

/-- The last record with the fields that the writer has already replaced. -/
def WriterPc.written (last : Shdata) : WriterPc → Shdata
  | .storeLatitude record => { last with time := record.time }
  | .storeLongitude record => { last with time := record.time, latitude := record.latitude }
  | _ => last

/-- The last record stored. -/
def Segment.last (segment : Segment) : Shdata :=
  segment.stores.getD (segment.stores.length - 1) ⟨0, 0, 0⟩

theorem Segment.last_append (segment : Segment) (record : Shdata) :
    ({ segment with stores := segment.stores ++ [record] } : Segment).last = record := by
  simp [Segment.last]

/-- The writer alone takes the segment from one record to the next. -/
theorem WriterMove.written {writer writer' : Writer} {segment segment' : Segment}
    (hwritten : segment.shdata = writer.pc.written segment.last)
    (hmove : WriterMove writer segment writer' segment') :
    segment'.shdata = writer'.pc.written segment'.last := by
  cases hmove with
  | wait hpc hsem =>
      rw [hpc] at hwritten
      exact hwritten
  | @storeTime record hpc =>
      rw [hpc] at hwritten
      exact congrArg (fun shdata : Shdata => { shdata with time := record.time }) hwritten
  | @storeLatitude record hpc =>
      rw [hpc] at hwritten
      exact congrArg (fun shdata : Shdata => { shdata with latitude := record.latitude }) hwritten
  | @storeLongitude record hpc =>
      rw [hpc] at hwritten
      have hwhole := congrArg (fun shdata : Shdata => { shdata with longitude := record.longitude })
        hwritten
      exact hwhole.trans (segment.last_append record).symm
  | post hpc =>
      rw [hpc] at hwritten
      exact hwritten

theorem WriterMove.alive {writer writer' : Writer} {segment segment' : Segment}
    (hmove : WriterMove writer segment writer' segment') : writer'.alive = writer.alive := by
  cases hmove <;> rfl

/-- Only the last field of a record lengthens the history. -/
theorem WriterMove.stores {writer writer' : Writer} {segment segment' : Segment}
    (hmove : WriterMove writer segment writer' segment') :
    segment'.stores = segment.stores ∨
      writer.pc.Inside ∧ ∃ record, segment'.stores = segment.stores ++ [record] := by
  cases hmove with
  | @storeLongitude record hpc => exact Or.inr ⟨by rw [hpc]; trivial, record, rfl⟩
  | _ => exact Or.inl rfl

/-- A writer that steps is inside or takes a free semaphore. -/
theorem WriterMove.before {writer writer' : Writer} {segment segment' : Segment}
    (hmove : WriterMove writer segment writer' segment') :
    writer.pc.Inside ∨ segment.sem ≠ 0 ∧ ∀ last, writer.pc.written last = last := by
  cases hmove with
  | wait hpc hsem =>
      rw [hpc, hsem]
      exact Or.inr ⟨Nat.succ_ne_zero _, fun _ => rfl⟩
  | storeTime hpc => exact Or.inl (by rw [hpc]; trivial)
  | storeLatitude hpc => exact Or.inl (by rw [hpc]; trivial)
  | storeLongitude hpc => exact Or.inl (by rw [hpc]; trivial)
  | post hpc => exact Or.inl (by rw [hpc]; trivial)

/-- And is inside then or has freed it. -/
theorem WriterMove.after {writer writer' : Writer} {segment segment' : Segment}
    (hmove : WriterMove writer segment writer' segment') :
    writer'.pc.Inside ∨ segment'.sem ≠ 0 ∧ ∀ last, writer'.pc.written last = last := by
  cases hmove with
  | post hpc => exact Or.inr ⟨Nat.succ_ne_zero _, fun _ => rfl⟩
  | _ => exact Or.inl trivial

/-- A reader changes nothing but the semaphore. -/
theorem ConvertMove.segment {forwarder forwarder' : Forwarder} {segment segment' : Segment}
    (hmove : ConvertMove forwarder segment forwarder' segment') :
    segment'.shdata = segment.shdata ∧ segment'.stores = segment.stores := by
  cases hmove <;> exact ⟨rfl, rfl⟩

/-! ## The system without signals -/

section System

variable {W F : Type*} [DecidableEq W] [DecidableEq F] {handlers : F → Attached}
  {state next : State W F} {action : Action W F}

/-- The delivery of SIGINT. -/
def Action.IsSignal : Action W F → Prop
  | .interruptWriter _ | .interrupt _ _ => True
  | _ => False

/-- No process has met a signal or ended. -/
structure Quiet (state : State W F) : Prop where
  writers : ∀ w, (state.writers w).Running
  forwarders : ∀ f, (state.forwarders f).alive = true ∧
    ∀ thread, (state.forwarders f).handler thread = none

/-- The segment holds the last record, but for what the writer inside has replaced. -/
structure Holds (state : State W F) : Prop where
  inside : ∀ w, (state.writers w).Inside →
    state.segment.shdata = (state.writers w).pc.written state.segment.last
  outside : (∀ w, ¬ (state.writers w).Inside) → state.segment.shdata = state.segment.last

/-- What holds of every state reached without signals. -/
structure SnapshotInvariant (handlers : F → Attached) (state : State W F) : Prop where
  token : TokenInvariant handlers state
  quiet : Quiet state
  holds : Holds state
  relays : ∀ f, ∃ (n : ℕ) (relay : Relay n),
    Tracks state.segment.stores (state.forwarders f) relay

omit [DecidableEq W] [DecidableEq F] in
theorem SnapshotInvariant.initial (handlers : F → Attached) :
    SnapshotInvariant handlers (initial W handlers) where
  token := .initial handlers
  quiet := ⟨fun _ => ⟨rfl, rfl⟩, fun _ => ⟨rfl, fun _ => rfl⟩⟩
  holds := ⟨fun _ hinside => hinside.2.elim, fun _ => rfl⟩
  relays := fun f => ⟨1, _, Tracks.start (handlers f)⟩

omit [DecidableEq W] [DecidableEq F] in
/-- Without signals no handler runs, so every step keeps the token. -/
theorem Quiet.keepsToken (h : Quiet state) (htoken : TokenInvariant handlers state)
    (hsignal : ¬ action.IsSignal) : KeepsToken state action := by
  cases action with
  | interruptWriter w => exact absurd trivial hsignal
  | interrupt f thread => exact absurd trivial hsignal
  | handle f thread =>
      obtain ⟨-, hhandler⟩ := h.forwarders f
      simp [KeepsToken, SparesPointer, hhandler thread]
  | convert f =>
      obtain ⟨halive, hhandler⟩ := h.forwarders f
      obtain ⟨address, haddress⟩ := (handlers f).property
      refine ⟨fun _ => ?_, trivial⟩
      have hpointer := htoken.pointers f halive fun thread => by simp [hhandler thread]
      simp [hpointer, haddress]
  | _ => exact ⟨trivial, trivial⟩

theorem Quiet.step (h : Quiet state) (htoken : TokenInvariant handlers state)
    (hsignal : ¬ action.IsSignal) (hmove : Move state action next) : Quiet next where
  writers := by
    intro w
    have hchange := hmove.writerChange w
    generalize next.writers w = writer at hchange ⊢
    cases hchange with
    | none => exact h.writers w
    | receive hrunning hstep =>
        obtain ⟨-, pc, -, rfl⟩ := Writer.receive_cases hstep
        exact hrunning
    | write hrunning hmove => cases hmove <;> exact hrunning
    | interrupt hrunning => exact absurd trivial hsignal
    | handle halive hstep => simp [Writer.handle, (h.writers w).2] at hstep
  forwarders := by
    intro f
    have hquiet := h.forwarders f
    have hchange := hmove.forwarderChange f
    generalize next.forwarders f = forwarder at hchange ⊢
    cases hchange with
    | none => exact hquiet
    | convert hrunning hmove =>
        cases hmove with
        | fault hpc hfault =>
            obtain ⟨address, haddress⟩ := htoken.mapped ⟨hrunning, hpc⟩
            exact absurd haddress (hfault address)
        | _ => exact hquiet
    | forward hrunning hmove => cases hmove <;> exact hquiet
    | interrupt hrunning => exact absurd trivial hsignal
    | @handle thread forwarder halive hmove =>
        have hhandler := hquiet.2 thread
        cases hmove with
        | exit hpc => simp [hhandler] at hpc
        | clear hpc => simp [hhandler] at hpc
        | earlier hpc => simp [hhandler] at hpc

omit [DecidableEq W] [DecidableEq F] in
/-- No writer is inside while `convert` is or the semaphore is free. -/
theorem TokenInvariant.writer_outside (h : TokenInvariant handlers state)
    (hfree : state.segment.sem ≠ 0 ∨ ∃ f, (state.forwarders f).Inside) (w : W) :
    ¬ (state.writers w).Inside := by
  intro hinside
  have hmem : Sum.inl w ∈ holders state := hinside
  rcases hfree with hsem | ⟨f, hf⟩
  · rcases oneToken_iff.mp h.token with ⟨-, hempty⟩ | ⟨hzero, -⟩
    · exact absurd hmem (hempty ▸ Set.notMem_empty _)
    · exact hsem hzero
  · have hsame := h.token.eq_of_mem hmem (show Sum.inr f ∈ holders state from hf)
    exact absurd hsame Sum.inl_ne_inr

omit [DecidableEq F] in
/-- **One step of a writer.** -/
theorem Holds.write (h : Holds state) (htoken : TokenInvariant handlers state) {w : W}
    {writer : Writer} {segment : Segment} (hrunning : (state.writers w).Running)
    (hmove : WriterMove (state.writers w) state.segment writer segment)
    (hnext : TokenInvariant handlers { state.setWriter w writer with segment := segment }) :
    Holds { state.setWriter w writer with segment := segment } := by
  have hbefore : state.segment.shdata = (state.writers w).pc.written state.segment.last := by
    rcases hmove.before with hinside | ⟨hsem, hlast⟩
    · exact h.inside w ⟨hrunning.1, hinside⟩
    · rw [hlast]
      exact h.outside (htoken.writer_outside (Or.inl hsem))
  have hafter := hmove.written hbefore
  rcases hmove.after with hinside | ⟨hsem, hlast⟩
  · have hself : (state.setWriter w writer).writers w = writer := State.setWriter_self ..
    have hw : ((state.setWriter w writer).writers w).Inside := by
      rw [hself]
      exact ⟨hmove.alive.trans hrunning.1, hinside⟩
    refine ⟨fun v hv => ?_, fun houtside => absurd hw (houtside w)⟩
    have hmem : Sum.inl w ∈ holders { state.setWriter w writer with segment := segment } := hw
    obtain rfl := Sum.inl.inj (hnext.token.eq_of_mem hmem (show Sum.inl v ∈ holders _ from hv))
    exact hafter.trans (by rw [hself])
  · rw [hlast] at hafter
    exact ⟨fun v hv => absurd hv (hnext.writer_outside (Or.inl hsem) v), fun _ => hafter⟩

/-- **One step, the segment.** -/
theorem Holds.step (h : Holds state) (htoken : TokenInvariant handlers state)
    (hquiet : Quiet state) (hsignal : ¬ action.IsSignal) (hmove : Move state action next)
    (hnext : TokenInvariant handlers next) : Holds next := by
  cases hmove with
  | @receive w buff writer hrunning hstep =>
      obtain ⟨hpc, pc, houtside, rfl⟩ := Writer.receive_cases hstep
      refine ⟨fun v hv => ?_, fun hall => h.outside fun v hv => ?_⟩
      · have hne : v ≠ w := by
          rintro rfl
          rw [State.setWriter_self] at hv
          exact houtside hv.2
        rw [State.setWriter_of_ne _ hne] at hv ⊢
        exact h.inside v hv
      · have hne : v ≠ w := by
          rintro rfl
          exact (hpc ▸ hv.2 : WriterPc.Inside .read).elim
        exact hall v (by rwa [State.setWriter_of_ne _ hne])
  | write hrunning hstep => exact h.write htoken hrunning (Writer.step_move hstep) hnext
  | interruptWriter hrunning => exact absurd trivial hsignal
  | handleWriter halive hstep => simp [Writer.handle, (hquiet.writers _).2] at hstep
  | @convert f forwarder segment hrunning hstep =>
      obtain ⟨hshdata, hstores⟩ := (Forwarder.convertStep_move hstep).segment
      have hlast : segment.last = state.segment.last := by rw [Segment.last, hstores, Segment.last]
      refine ⟨fun w hw => ?_, fun hall => ?_⟩
      · calc segment.shdata = state.segment.shdata := hshdata
          _ = (state.writers w).pc.written state.segment.last := h.inside w hw
          _ = (state.writers w).pc.written segment.last := by rw [hlast]
      · exact (hshdata.trans (h.outside hall)).trans hlast.symm
  | forward hrunning hstep => exact ⟨h.inside, h.outside⟩
  | interrupt hrunning => exact absurd trivial hsignal
  | handle halive hstep => simp [Forwarder.handle, (hquiet.forwarders _).2] at hstep

/-- **One step, the forwarders.** -/
theorem SnapshotInvariant.relays_step (h : SnapshotInvariant handlers state)
    (hsignal : ¬ action.IsSignal) (hmove : Move state action next) (f : F) :
    ∃ (n : ℕ) (relay : Relay n), Tracks next.segment.stores (next.forwarders f) relay := by
  obtain ⟨n, relay, htracks⟩ := h.relays f
  cases hmove with
  | receive hrunning hstep => exact ⟨n, relay, htracks⟩
  | @write w writer segment hrunning hstep =>
      rcases (Writer.step_move hstep).stores with hsame | ⟨hinside, record, happend⟩
      · exact ⟨n, relay, hsame ▸ htracks⟩
      · refine ⟨n + 1, relay.publish, happend ▸ htracks.publish (fun hconvert => ?_) record⟩
        refine h.token.writer_outside (Or.inr ⟨f, ?_, hconvert⟩) w ⟨hrunning.1, hinside⟩
        exact (h.quiet.forwarders f).1
  | interruptWriter hrunning => exact absurd trivial hsignal
  | handleWriter halive hstep => exact ⟨n, relay, htracks⟩
  | @convert g forwarder segment hrunning hstep =>
      have hmove := Forwarder.convertStep_move hstep
      simp only [hmove.segment.2]
      by_cases hf : f = g
      · subst hf
        rw [State.setForwarder_self]
        have hlatest : (state.forwarders f).convertPc.AtLoad →
            Embsys.Forwarder.convert state.segment.shdata =
              viewAt state.segment.stores (n - 1) := by
          intro hload
          have houtside := h.token.writer_outside
            (Or.inr ⟨f, hrunning.1, ConvertPc.inside_of_atLoad hload⟩)
          rw [h.holds.outside houtside, ← htracks.length, viewAt, Segment.last]
        obtain ⟨relay', -, hnext⟩ := htracks.convert hlatest hmove
        exact ⟨n, relay', hnext⟩
      · rw [State.setForwarder_of_ne _ hf]
        exact ⟨n, relay, htracks⟩
  | @forward g forwarder hrunning hstep =>
      by_cases hf : f = g
      · subst hf
        rw [State.setForwarder_self]
        obtain ⟨relay', -, hnext⟩ := htracks.forward (Forwarder.forwardStep_move hstep)
        exact ⟨n, relay', hnext⟩
      · rw [State.setForwarder_of_ne _ hf]
        exact ⟨n, relay, htracks⟩
  | interrupt hrunning => exact absurd trivial hsignal
  | handle halive hstep => simp [Forwarder.handle, (h.quiet.forwarders _).2] at hstep

/-- **One step.** -/
theorem SnapshotInvariant.step (h : SnapshotInvariant handlers state)
    (hsignal : ¬ action.IsSignal) (hmove : Move state action next) :
    SnapshotInvariant handlers next :=
  have htoken := h.token.preserved (h.quiet.keepsToken h.token hsignal) hmove
  { token := htoken
    quiet := h.quiet.step h.token hsignal hmove
    holds := h.holds.step h.token h.quiet hsignal hmove htoken
    relays := h.relays_step hsignal hmove }

/-- **Whole fixes in order.** Without signals, each message of a forwarder is the text of
the time and the two decimal degrees of one record stored whole, the initial one or that
of one `decode_frame`, and the positions of these records in the order of the stores never
go back. -/
theorem messages_snapshots {trace : List (State W F × Action W F)}
    (hrun : Run step (Concurrent.initial W handlers) trace state)
    (hsignals : ∀ entry ∈ trace, ¬ entry.2.IsSignal) (f : F) :
    ∃ indices : List ℕ, indices.Pairwise (· ≤ ·) ∧
      List.Forall₂ (fun message i => ∃ record, state.segment.stores[i]? = some record ∧
          message = formatInt 6 record.time ++ ['/'] ++
            formatFixed 0 4 (toDecimal record.latitude) ++ ['/'] ++
              formatFixed 0 4 (toDecimal record.longitude))
        (state.forwarders f).messages indices := by
  have hinvariant : SnapshotInvariant handlers state :=
    hrun.invariant hsignals (SnapshotInvariant.initial handlers) fun _ _ _ h hsignal hstep =>
      h.step hsignal (step_move hstep)
  obtain ⟨n, relay, htracks⟩ := hinvariant.relays f
  refine ⟨relay.sent, relay.sorted, ?_⟩
  rw [htracks.messages, List.forall₂_map_left_iff, List.forall₂_same]
  intro i hi
  have hlt : i < state.segment.stores.length := htracks.length ▸ relay.sent_lt i hi
  refine ⟨state.segment.stores[i], List.getElem?_eq_getElem hlt, ?_⟩
  rw [← forward_convert, viewAt, List.getD_eq_getElem?_getD, List.getElem?_eq_getElem hlt,
    Option.getD_some]

end System

/-- A writer reads and stores one frame, `convert` takes it over, `forward` sends it. -/
def oneFix : List (Action Unit Unit) :=
  List.replicate 5 (.write ()) ++ List.replicate 10 (.convert ()) ++ List.replicate 6 (.forward ())

theorem not_isSignal_of_mem_oneFix {action : Action Unit Unit} (haction : action ∈ oneFix) :
    ¬ action.IsSignal := by
  simp only [oneFix, List.mem_append, List.mem_replicate] at haction
  rcases haction with (⟨-, rfl⟩ | ⟨-, rfl⟩) | ⟨-, rfl⟩ <;> exact not_false

theorem messages_snapshots_oneFix :
    ∃ trace state, Run step (initial Unit oneForwarder) trace state ∧
      (state.forwarders ()).messages ≠ [] ∧ ∃ indices : List ℕ, indices.Pairwise (· ≤ ·) ∧
        List.Forall₂ (fun message i => ∃ record, state.segment.stores[i]? = some record ∧
            message = formatInt 6 record.time ++ ['/'] ++
              formatFixed 0 4 (toDecimal record.latitude) ++ ['/'] ++
                formatFixed 0 4 (toDecimal record.longitude))
          (state.forwarders ()).messages indices := by
  have hdecoded : decodeFrame (fill "$GPGLL,4836.50,N,00430.00,W,123519,A".toList) =
      some ⟨9673 / 2, 430, 123519⟩ := by decide +kernel
  have hread : ∃ state, step (initial Unit oneForwarder)
      (.receive () (fill "$GPGLL,4836.50,N,00430.00,W,123519,A".toList)) = some state ∧
      ∃ next, exec step state oneFix = some next ∧ (next.forwarders ()).messages ≠ [] := by
    simp only [step, Writer.receive, initial, Writer.initial, hdecoded]
    exact ⟨_, rfl, _, rfl, List.cons_ne_nil _ _⟩
  obtain ⟨state, hstep, next, hexec, hsent⟩ := hread
  obtain ⟨trace, hrun, hactions⟩ := exists_run_of_exec hexec
  have hwhole := (Run.single hstep).append hrun
  refine ⟨_, next, hwhole, hsent, messages_snapshots hwhole ?_ ()⟩
  rw [List.forall_mem_append, List.forall_mem_singleton]
  refine ⟨not_false, fun entry hentry => not_isSignal_of_mem_oneFix ?_⟩
  rw [← hactions]
  exact List.mem_map_of_mem hentry

end Embsys.Concurrent
