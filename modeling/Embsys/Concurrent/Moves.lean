/-
# What one step can do

The step functions read as relations, once for each kind of step: guards and
effects of the system step, of `convert`, and of the handler of a forwarder. The
invariants are proved from these and do not unfold the step functions again.
-/

import Embsys.Concurrent.Process

namespace Embsys.Concurrent

open Embsys.Os Embsys.ShmWriter Embsys.Forwarder

/-! ## The system -/

section System

variable {W F : Type*} [DecidableEq W] [DecidableEq F]

/-- A step of the system is a step of one process, under its guard. -/
inductive Move (state : State W F) : Action W F → State W F → Prop
  | receive {w : W} {buff : List Char} {writer : Writer}
      (hrunning : (state.writers w).Running)
      (hstep : (state.writers w).receive buff = some writer) :
      Move state (.receive w buff) (state.setWriter w writer)
  | write {w : W} {writer : Writer} {segment : Segment}
      (hrunning : (state.writers w).Running)
      (hstep : (state.writers w).step state.segment = some (writer, segment)) :
      Move state (.write w) { state.setWriter w writer with segment := segment }
  | interruptWriter {w : W} (hrunning : (state.writers w).Running) :
      Move state (.interruptWriter w) (state.setWriter w (state.writers w).interrupt)
  | handleWriter {w : W} {writer : Writer} (halive : (state.writers w).alive = true)
      (hstep : (state.writers w).handle = some writer) :
      Move state (.handleWriter w) (state.setWriter w writer)
  | convert {f : F} {forwarder : Forwarder} {segment : Segment}
      (hrunning : (state.forwarders f).Running .convert)
      (hstep : (state.forwarders f).convertStep state.segment = some (forwarder, segment)) :
      Move state (.convert f) { state.setForwarder f forwarder with segment := segment }
  | forward {f : F} {forwarder : Forwarder}
      (hrunning : (state.forwarders f).Running .forward)
      (hstep : (state.forwarders f).forwardStep = some forwarder) :
      Move state (.forward f) (state.setForwarder f forwarder)
  | interrupt {f : F} {thread : Thread} (hrunning : (state.forwarders f).Running thread) :
      Move state (.interrupt f thread)
        (state.setForwarder f ((state.forwarders f).interrupt thread))
  | handle {f : F} {thread : Thread} {forwarder : Forwarder}
      (halive : (state.forwarders f).alive = true)
      (hstep : (state.forwarders f).handle thread = some forwarder) :
      Move state (.handle f thread) (state.setForwarder f forwarder)

theorem step_move {state next : State W F} {action : Action W F}
    (h : step state action = some next) : Move state action next := by
  cases action with
  | receive w buff =>
      rw [step, Option.ite_none_right_eq_some, Option.map_eq_some_iff] at h
      obtain ⟨hrunning, writer, hstep, rfl⟩ := h
      exact .receive hrunning hstep
  | write w =>
      rw [step, Option.ite_none_right_eq_some, Option.map_eq_some_iff] at h
      obtain ⟨hrunning, writer, hstep, rfl⟩ := h
      exact .write hrunning hstep
  | interruptWriter w =>
      rw [step, Option.ite_none_right_eq_some, Option.some.injEq] at h
      obtain ⟨hrunning, rfl⟩ := h
      exact .interruptWriter hrunning
  | handleWriter w =>
      rw [step, Option.ite_none_right_eq_some, Option.map_eq_some_iff] at h
      obtain ⟨halive, writer, hstep, rfl⟩ := h
      exact .handleWriter halive hstep
  | convert f =>
      rw [step, Option.ite_none_right_eq_some, Option.map_eq_some_iff] at h
      obtain ⟨hrunning, forwarder, hstep, rfl⟩ := h
      exact .convert hrunning hstep
  | forward f =>
      rw [step, Option.ite_none_right_eq_some, Option.map_eq_some_iff] at h
      obtain ⟨hrunning, forwarder, hstep, rfl⟩ := h
      exact .forward hrunning hstep
  | interrupt f thread =>
      rw [step, Option.ite_none_right_eq_some, Option.some.injEq] at h
      obtain ⟨hrunning, rfl⟩ := h
      exact .interrupt hrunning
  | handle f thread =>
      rw [step, Option.ite_none_right_eq_some, Option.map_eq_some_iff] at h
      obtain ⟨halive, forwarder, hstep, rfl⟩ := h
      exact .handle halive hstep

end System

/-! ## shm_writer -/

/-- A step of `decode_frame`. -/
inductive WriterMove (writer : Writer) (segment : Segment) : Writer → Segment → Prop
  | wait {record : Shdata} {sem : ℕ} (hpc : writer.pc = .wait record)
      (hsem : segment.sem = sem + 1) :
      WriterMove writer segment { writer with pc := .storeTime record }
        { segment with sem := sem }
  | storeTime {record : Shdata} (hpc : writer.pc = .storeTime record) :
      WriterMove writer segment { writer with pc := .storeLatitude record }
        { segment with shdata := { segment.shdata with time := record.time } }
  | storeLatitude {record : Shdata} (hpc : writer.pc = .storeLatitude record) :
      WriterMove writer segment { writer with pc := .storeLongitude record }
        { segment with shdata := { segment.shdata with latitude := record.latitude } }
  | storeLongitude {record : Shdata} (hpc : writer.pc = .storeLongitude record) :
      WriterMove writer segment { writer with pc := .post }
        { segment with
          shdata := { segment.shdata with longitude := record.longitude }
          stores := segment.stores ++ [record] }
  | post (hpc : writer.pc = .post) :
      WriterMove writer segment { writer with pc := .read }
        { segment with sem := segment.sem + 1 }

theorem Writer.step_move {writer writer' : Writer} {segment segment' : Segment}
    (h : writer.step segment = some (writer', segment')) :
    WriterMove writer segment writer' segment' := by
  cases hpc : writer.pc with
  | read => simp [Writer.step, hpc] at h
  | wait record =>
      cases hsem : segment.sem with
      | zero => simp [Writer.step, hpc, hsem] at h
      | succ sem =>
          simp only [Writer.step, hpc, hsem, Option.some.injEq, Prod.mk.injEq] at h
          obtain ⟨rfl, rfl⟩ := h
          exact .wait hpc hsem
  | storeTime record =>
      simp only [Writer.step, hpc, Option.some.injEq, Prod.mk.injEq] at h
      obtain ⟨rfl, rfl⟩ := h
      exact .storeTime hpc
  | storeLatitude record =>
      simp only [Writer.step, hpc, Option.some.injEq, Prod.mk.injEq] at h
      obtain ⟨rfl, rfl⟩ := h
      exact .storeLatitude hpc
  | storeLongitude record =>
      simp only [Writer.step, hpc, Option.some.injEq, Prod.mk.injEq] at h
      obtain ⟨rfl, rfl⟩ := h
      exact .storeLongitude hpc
  | post =>
      simp only [Writer.step, hpc, Option.some.injEq, Prod.mk.injEq] at h
      obtain ⟨rfl, rfl⟩ := h
      exact .post hpc

/-- A read leads to another read or to the wait of `decode_frame`. -/
theorem Writer.receive_cases {writer writer' : Writer} {buff : List Char}
    (h : writer.receive buff = some writer') :
    writer.pc = .read ∧ ∃ pc, ¬ pc.Inside ∧ writer' = { writer with pc := pc } := by
  cases hpc : writer.pc with
  | read =>
      refine ⟨rfl, ?_⟩
      cases hrecord : decodeFrame buff with
      | none =>
          simp only [Writer.receive, hpc, hrecord, Option.some.injEq] at h
          exact ⟨.read, not_false, by rw [← hpc, h]⟩
      | some record =>
          simp only [Writer.receive, hpc, hrecord, Option.some.injEq] at h
          exact ⟨.wait record, not_false, h.symm⟩
  | wait record => simp [Writer.receive, hpc] at h
  | storeTime record => simp [Writer.receive, hpc] at h
  | storeLatitude record => simp [Writer.receive, hpc] at h
  | storeLongitude record => simp [Writer.receive, hpc] at h
  | post => simp [Writer.receive, hpc] at h

/-! ## forwarder -/

/-- Where `convert` stands after a load of this record. -/
def ConvertPc.loaded (shdata : Shdata) : ConvertPc → ConvertPc
  | .loadTime => .loadLatitude shdata.time
  | .loadLatitude time => .loadLongitude time (toDecimal shdata.latitude)
  | .loadLongitude time latitude => .post ⟨time, latitude, toDecimal shdata.longitude⟩
  | pc => pc

/-- A step of `convert`. -/
inductive ConvertMove (forwarder : Forwarder) (segment : Segment) : Forwarder → Segment → Prop
  | wait {sem : ℕ} (hpc : forwarder.convertPc = .wait) (hsem : segment.sem = sem + 1) :
      ConvertMove forwarder segment { forwarder with convertPc := .loadTime }
        { segment with sem := sem }
  | load {address : ℕ} (hpc : forwarder.convertPc.AtLoad)
      (hmapped : forwarder.handlers.shdata = .mapped address) :
      ConvertMove forwarder segment
        { forwarder with convertPc := forwarder.convertPc.loaded segment.shdata } segment
  | fault (hpc : forwarder.convertPc.AtLoad)
      (hfault : ∀ address, forwarder.handlers.shdata ≠ .mapped address) :
      ConvertMove forwarder segment { forwarder with alive := false } segment
  | post {coord : DecimalCoord} (hpc : forwarder.convertPc = .post coord) :
      ConvertMove forwarder segment { forwarder with convertPc := .lock coord }
        { segment with sem := segment.sem + 1 }
  | lock {coord : DecimalCoord} (hpc : forwarder.convertPc = .lock coord)
      (hmutex : forwarder.mutex = none) :
      ConvertMove forwarder segment
        { forwarder with mutex := some .convert, convertPc := .storeTime coord } segment
  | storeTime {coord : DecimalCoord} (hpc : forwarder.convertPc = .storeTime coord) :
      ConvertMove forwarder segment
        { forwarder with
          decimalCoord := { forwarder.decimalCoord with time := coord.time }
          convertPc := .storeLatitude coord } segment
  | storeLatitude {coord : DecimalCoord} (hpc : forwarder.convertPc = .storeLatitude coord) :
      ConvertMove forwarder segment
        { forwarder with
          decimalCoord := { forwarder.decimalCoord with latitude := coord.latitude }
          convertPc := .storeLongitude coord } segment
  | storeLongitude {coord : DecimalCoord} (hpc : forwarder.convertPc = .storeLongitude coord) :
      ConvertMove forwarder segment
        { forwarder with
          decimalCoord := { forwarder.decimalCoord with longitude := coord.longitude }
          convertPc := .unlock } segment
  | unlock (hpc : forwarder.convertPc = .unlock) :
      ConvertMove forwarder segment { forwarder with mutex := none, convertPc := .wait } segment

/-- A load goes on with the loaded value or ends the process. -/
theorem Forwarder.load_move {forwarder : Forwarder} (segment : Segment)
    (hpc : forwarder.convertPc.AtLoad) :
    ConvertMove forwarder segment
      (forwarder.load (forwarder.convertPc.loaded segment.shdata)) segment := by
  unfold Forwarder.load
  split
  · exact .load hpc ‹_›
  · rename_i hfault
    exact .fault hpc hfault

theorem Forwarder.convertStep_move {forwarder forwarder' : Forwarder}
    {segment segment' : Segment}
    (h : forwarder.convertStep segment = some (forwarder', segment')) :
    ConvertMove forwarder segment forwarder' segment' := by
  cases hpc : forwarder.convertPc with
  | wait =>
      cases hsem : segment.sem with
      | zero => simp [Forwarder.convertStep, hpc, hsem] at h
      | succ sem =>
          simp only [Forwarder.convertStep, hpc, hsem, Option.some.injEq, Prod.mk.injEq] at h
          obtain ⟨rfl, rfl⟩ := h
          exact .wait hpc hsem
  | loadTime =>
      have hload := Forwarder.load_move segment (by rw [hpc]; trivial)
      simp only [Forwarder.convertStep, hpc, Option.some.injEq, Prod.mk.injEq] at h
      rw [hpc] at hload
      obtain ⟨rfl, rfl⟩ := h
      exact hload
  | loadLatitude time =>
      have hload := Forwarder.load_move segment (by rw [hpc]; trivial)
      simp only [Forwarder.convertStep, hpc, Option.some.injEq, Prod.mk.injEq] at h
      rw [hpc] at hload
      obtain ⟨rfl, rfl⟩ := h
      exact hload
  | loadLongitude time latitude =>
      have hload := Forwarder.load_move segment (by rw [hpc]; trivial)
      simp only [Forwarder.convertStep, hpc, Option.some.injEq, Prod.mk.injEq] at h
      rw [hpc] at hload
      obtain ⟨rfl, rfl⟩ := h
      exact hload
  | post coord =>
      simp only [Forwarder.convertStep, hpc, Option.some.injEq, Prod.mk.injEq] at h
      obtain ⟨rfl, rfl⟩ := h
      exact .post hpc
  | lock coord =>
      cases hmutex : forwarder.mutex with
      | some thread => simp [Forwarder.convertStep, hpc, hmutex] at h
      | none =>
          simp only [Forwarder.convertStep, hpc, hmutex, Option.some.injEq, Prod.mk.injEq] at h
          obtain ⟨rfl, rfl⟩ := h
          exact .lock hpc hmutex
  | storeTime coord =>
      simp only [Forwarder.convertStep, hpc, Option.some.injEq, Prod.mk.injEq] at h
      obtain ⟨rfl, rfl⟩ := h
      exact .storeTime hpc
  | storeLatitude coord =>
      simp only [Forwarder.convertStep, hpc, Option.some.injEq, Prod.mk.injEq] at h
      obtain ⟨rfl, rfl⟩ := h
      exact .storeLatitude hpc
  | storeLongitude coord =>
      simp only [Forwarder.convertStep, hpc, Option.some.injEq, Prod.mk.injEq] at h
      obtain ⟨rfl, rfl⟩ := h
      exact .storeLongitude hpc
  | unlock =>
      simp only [Forwarder.convertStep, hpc, Option.some.injEq, Prod.mk.injEq] at h
      obtain ⟨rfl, rfl⟩ := h
      exact .unlock hpc

/-- A step of `forward`. -/
inductive ForwardMove (forwarder : Forwarder) : Forwarder → Prop
  | lock (hpc : forwarder.forwardPc = .lock) (hmutex : forwarder.mutex = none) :
      ForwardMove forwarder { forwarder with mutex := some .forward, forwardPc := .loadTime }
  | loadTime (hpc : forwarder.forwardPc = .loadTime) :
      ForwardMove forwarder
        { forwarder with forwardPc := .loadLatitude forwarder.decimalCoord.time }
  | loadLatitude {time : ℤ} (hpc : forwarder.forwardPc = .loadLatitude time) :
      ForwardMove forwarder
        { forwarder with forwardPc := .loadLongitude time forwarder.decimalCoord.latitude }
  | loadLongitude {time : ℤ} {latitude : ℚ}
      (hpc : forwarder.forwardPc = .loadLongitude time latitude) :
      ForwardMove forwarder
        { forwarder with
          forwardPc := .unlock ⟨time, latitude, forwarder.decimalCoord.longitude⟩ }
  | unlock {coord : DecimalCoord} (hpc : forwarder.forwardPc = .unlock coord) :
      ForwardMove forwarder { forwarder with mutex := none, forwardPc := .send coord }
  | send {coord : DecimalCoord} (hpc : forwarder.forwardPc = .send coord) :
      ForwardMove forwarder
        { forwarder with
          forwardPc := .lock
          messages := forwarder.messages ++ [Embsys.Forwarder.forward coord] }

theorem Forwarder.forwardStep_move {forwarder forwarder' : Forwarder}
    (h : forwarder.forwardStep = some forwarder') : ForwardMove forwarder forwarder' := by
  cases hpc : forwarder.forwardPc with
  | lock =>
      cases hmutex : forwarder.mutex with
      | some thread => simp [Forwarder.forwardStep, hpc, hmutex] at h
      | none =>
          simp only [Forwarder.forwardStep, hpc, hmutex, Option.some.injEq] at h
          subst h
          exact .lock hpc hmutex
  | loadTime =>
      simp only [Forwarder.forwardStep, hpc, Option.some.injEq] at h
      subst h
      exact .loadTime hpc
  | loadLatitude time =>
      simp only [Forwarder.forwardStep, hpc, Option.some.injEq] at h
      subst h
      exact .loadLatitude hpc
  | loadLongitude time latitude =>
      simp only [Forwarder.forwardStep, hpc, Option.some.injEq] at h
      subst h
      exact .loadLongitude hpc
  | unlock coord =>
      simp only [Forwarder.forwardStep, hpc, Option.some.injEq] at h
      subst h
      exact .unlock hpc
  | send coord =>
      simp only [Forwarder.forwardStep, hpc, Option.some.injEq] at h
      subst h
      exact .send hpc

/-- A step of a forwarder's handler: the end of the process, the assignment that
clears the pointer to the segment, or one of the steps before it. -/
inductive HandleMove (forwarder : Forwarder) (thread : Thread) : Forwarder → Prop
  | exit (hpc : forwarder.handler thread = some .exit) :
      HandleMove forwarder thread { forwarder with alive := false }
  | clear (hpc : forwarder.handler thread = some .setShdata) :
      HandleMove forwarder thread
        { forwarder with
          handlers := { forwarder.handlers with shdata := .null }
          handler := Function.update forwarder.handler thread (some .exit) }
  | earlier {pc next : HandlerPc} {handlers : Handlers}
      (hpc : forwarder.handler thread = some pc) (hexit : pc ≠ .exit) (hclear : pc ≠ .setShdata)
      (hnext : next ≠ .exit) (hshdata : handlers.shdata = forwarder.handlers.shdata) :
      HandleMove forwarder thread
        { forwarder with
          handlers := handlers
          handler := Function.update forwarder.handler thread (some next) }

theorem Forwarder.handle_move {forwarder forwarder' : Forwarder} {thread : Thread}
    (h : forwarder.handle thread = some forwarder') :
    HandleMove forwarder thread forwarder' := by
  cases hhandler : forwarder.handler thread with
  | none => simp [Forwarder.handle, hhandler] at h
  | some pc =>
      have hstep := h
      simp only [Forwarder.handle, hhandler] at hstep
      cases pc <;> obtain rfl := Option.some.inj hstep
      case exit => exact .exit hhandler
      case setShdata => exact .clear hhandler
      all_goals exact .earlier hhandler (by decide) (by decide) (by decide) rfl

/-! ## One process of the system -/

section Process

variable {W F : Type*} [DecidableEq W] [DecidableEq F] {state next : State W F}
  {action : Action W F}

/-- What a step of the system does to one writer. -/
inductive WriterChange (state : State W F) (w : W) : Action W F → Writer → Prop
  | none {action : Action W F} : WriterChange state w action (state.writers w)
  | receive {buff : List Char} {writer : Writer} (hrunning : (state.writers w).Running)
      (hstep : (state.writers w).receive buff = some writer) :
      WriterChange state w (.receive w buff) writer
  | write {writer : Writer} {segment : Segment} (hrunning : (state.writers w).Running)
      (hmove : WriterMove (state.writers w) state.segment writer segment) :
      WriterChange state w (.write w) writer
  | interrupt (hrunning : (state.writers w).Running) :
      WriterChange state w (.interruptWriter w) (state.writers w).interrupt
  | handle {writer : Writer} (halive : (state.writers w).alive = true)
      (hstep : (state.writers w).handle = some writer) :
      WriterChange state w (.handleWriter w) writer

/-- What a step of the system does to one forwarder. -/
inductive ForwarderChange (state : State W F) (f : F) : Action W F → Forwarder → Prop
  | none {action : Action W F} : ForwarderChange state f action (state.forwarders f)
  | convert {forwarder : Forwarder} {segment : Segment}
      (hrunning : (state.forwarders f).Running .convert)
      (hmove : ConvertMove (state.forwarders f) state.segment forwarder segment) :
      ForwarderChange state f (.convert f) forwarder
  | forward {forwarder : Forwarder} (hrunning : (state.forwarders f).Running .forward)
      (hmove : ForwardMove (state.forwarders f) forwarder) :
      ForwarderChange state f (.forward f) forwarder
  | interrupt {thread : Thread} (hrunning : (state.forwarders f).Running thread) :
      ForwarderChange state f (.interrupt f thread) ((state.forwarders f).interrupt thread)
  | handle {thread : Thread} {forwarder : Forwarder} (halive : (state.forwarders f).alive = true)
      (hmove : HandleMove (state.forwarders f) thread forwarder) :
      ForwarderChange state f (.handle f thread) forwarder

omit [DecidableEq F] in
theorem State.setWriter_self (state : State W F) (w : W) (writer : Writer) :
    (state.setWriter w writer).writers w = writer :=
  Function.update_self ..

omit [DecidableEq F] in
theorem State.setWriter_of_ne (state : State W F) {w other : W} (hne : other ≠ w)
    (writer : Writer) : (state.setWriter w writer).writers other = state.writers other :=
  Function.update_of_ne hne ..

omit [DecidableEq W] in
theorem State.setForwarder_self (state : State W F) (f : F) (forwarder : Forwarder) :
    (state.setForwarder f forwarder).forwarders f = forwarder :=
  Function.update_self ..

omit [DecidableEq W] in
theorem State.setForwarder_of_ne (state : State W F) {f other : F} (hne : other ≠ f)
    (forwarder : Forwarder) :
    (state.setForwarder f forwarder).forwarders other = state.forwarders other :=
  Function.update_of_ne hne ..

theorem Move.writerChange (h : Move state action next) (w : W) :
    WriterChange state w action (next.writers w) := by
  cases h with
  | @receive v buff writer hrunning hstep =>
      by_cases hw : w = v
      · subst hw
        rw [State.setWriter_self]
        exact .receive hrunning hstep
      · rw [State.setWriter_of_ne _ hw]
        exact .none
  | @write v writer segment hrunning hstep =>
      by_cases hw : w = v
      · subst hw
        simp only [State.setWriter_self]
        exact .write hrunning (Writer.step_move hstep)
      · simp only [State.setWriter_of_ne _ hw]
        exact .none
  | @interruptWriter v hrunning =>
      by_cases hw : w = v
      · subst hw
        rw [State.setWriter_self]
        exact .interrupt hrunning
      · rw [State.setWriter_of_ne _ hw]
        exact .none
  | @handleWriter v writer halive hstep =>
      by_cases hw : w = v
      · subst hw
        rw [State.setWriter_self]
        exact .handle halive hstep
      · rw [State.setWriter_of_ne _ hw]
        exact .none
  | convert => exact .none
  | forward => exact .none
  | interrupt => exact .none
  | handle => exact .none

theorem Move.forwarderChange (h : Move state action next) (f : F) :
    ForwarderChange state f action (next.forwarders f) := by
  cases h with
  | receive => exact .none
  | write => exact .none
  | interruptWriter => exact .none
  | handleWriter => exact .none
  | @convert g forwarder segment hrunning hstep =>
      by_cases hf : f = g
      · subst hf
        simp only [State.setForwarder_self]
        exact .convert hrunning (Forwarder.convertStep_move hstep)
      · simp only [State.setForwarder_of_ne _ hf]
        exact .none
  | @forward g forwarder hrunning hstep =>
      by_cases hf : f = g
      · subst hf
        rw [State.setForwarder_self]
        exact .forward hrunning (Forwarder.forwardStep_move hstep)
      · rw [State.setForwarder_of_ne _ hf]
        exact .none
  | @interrupt g thread hrunning =>
      by_cases hf : f = g
      · subst hf
        rw [State.setForwarder_self]
        exact .interrupt hrunning
      · rw [State.setForwarder_of_ne _ hf]
        exact .none
  | @handle g thread forwarder halive hstep =>
      by_cases hf : f = g
      · subst hf
        rw [State.setForwarder_self]
        exact .handle halive (Forwarder.handle_move hstep)
      · rw [State.setForwarder_of_ne _ hf]
        exact .none

end Process

end Embsys.Concurrent
