/-
# The pipeline is a board

Every step of the processes is one atomic operation of a board, or none. A writer
publishes with the store of the last field, a forwarder fetches with `sem_post`,
commits with the last field of `decimal_coord`, takes with the unlock of the mutex and
sends. Nothing else is an operation, no delivery of a signal, no step of a handler and
no end of a process, so in every run each forwarder has sent views of whole records in
the order of the board: signals can stop the pipeline, not tear or reorder a message.
-/

import Embsys.Math.Board
import Embsys.Concurrent.Snapshot
import Embsys.Concurrent.Occupants

namespace Embsys.Concurrent

open Embsys.Math Embsys.C Embsys.Os Embsys.ShmWriter Embsys.Forwarder

variable {W F : Type*}

/-- The record that this step of `decode_frame` completes. -/
def WriterPc.stored : WriterPc → Option Shdata
  | .storeLongitude record => some record
  | _ => none

/-- The operation that a step performs, or none. -/
def point (state : State W F) : Action W F → Option (Operation Shdata F)
  | .write w => (state.writers w).pc.stored.map .publish
  | .convert f => (state.forwarders f).convertPc.stage.map (.move f)
  | .forward f => (state.forwarders f).forwardPc.stage.map (.move f)
  | _ => none

theorem WriterMove.stored {writer writer' : Writer} {segment segment' : Segment}
    (hmove : WriterMove writer segment writer' segment') :
    segment'.stores = segment.stores ++ writer.pc.stored.toList := by
  cases hmove with
  | wait hpc => simp [hpc, WriterPc.stored]
  | storeTime hpc => simp [hpc, WriterPc.stored]
  | storeLatitude hpc => simp [hpc, WriterPc.stored]
  | storeLongitude hpc => simp [hpc, WriterPc.stored]
  | post hpc => simp [hpc, WriterPc.stored]

/-- A store is made inside. -/
theorem WriterPc.inside_of_stored {pc : WriterPc} {record : Shdata}
    (hstored : pc.stored = some record) : pc.Inside := by
  cases pc with
  | storeLongitude record => trivial
  | _ => exact absurd hstored (Option.some_ne_none _).symm

/-- The record in the segment is the last one, but for what a writer that is inside, or
has ended there, has replaced. -/
structure Contents (state : State W F) : Prop where
  inside : ∀ w, (state.writers w).pc.Inside →
    state.segment.shdata = (state.writers w).pc.written state.segment.last
  outside : (∀ w, ¬ (state.writers w).pc.Inside) → state.segment.shdata = state.segment.last

/-- The processes implement this board. -/
structure Implements (state : State W F) (board : Board Shdata F) : Prop where
  token : OneToken state.segment.sem (occupants state)
  contents : Contents state
  history : board.history = state.segment.stores
  relays : ∀ f, Tracks state.segment.stores (state.forwarders f) (board.relays f)

theorem Implements.initial (handlers : F → Attached) :
    Implements (initial W handlers) (.start F ⟨0, 0, 0⟩) where
  token := oneToken_occupants_initial handlers
  contents := ⟨fun _ hinside => hinside.elim, fun _ => rfl⟩
  history := rfl
  relays := fun f => Tracks.start (handlers f)

/-- A position of the board is one of the stores. -/
theorem Implements.getElem?_history {state : State W F} {board : Board Shdata F}
    (h : Implements state board) {i : ℕ} (hi : i < board.size) :
    board.history[i]? = some (state.segment.stores.getD i ⟨0, 0, 0⟩) := by
  have hlt : i < board.history.length := board.length_history ▸ hi
  simp [← h.history, List.getD, List.getElem?_eq_getElem hlt]

/-- No writer is inside while a `convert` is or the semaphore is free. -/
theorem writer_outside {state : State W F} (htoken : OneToken state.segment.sem (occupants state))
    (hfree : state.segment.sem ≠ 0 ∨ ∃ f, (state.forwarders f).convertPc.Inside) (w : W) :
    ¬ (state.writers w).pc.Inside := by
  intro hinside
  have hmem : Sum.inl w ∈ occupants state := hinside
  rcases hfree with hsem | ⟨f, hf⟩
  · rcases oneToken_iff.mp htoken with ⟨-, hempty⟩ | ⟨hzero, -⟩
    · exact absurd hmem (hempty ▸ Set.notMem_empty _)
    · exact hsem hzero
  · have hsame := htoken.eq_of_mem hmem (show Sum.inr f ∈ occupants state from hf)
    exact absurd hsame Sum.inl_ne_inr

/-- Signals and handlers leave the relay of a forwarder where it is. -/
theorem Tracks.interrupt {stores : List Shdata} {forwarder : Forwarder} {n : ℕ} {relay : Relay n}
    (h : Tracks stores forwarder relay) (thread : Thread) :
    Tracks stores (forwarder.interrupt thread) relay :=
  ⟨h.length, h.converts, h.coord, h.forwards, h.messages, h.convertLock, h.forwardLock⟩

theorem Tracks.handle {stores : List Shdata} {forwarder forwarder' : Forwarder} {thread : Thread}
    {n : ℕ} {relay : Relay n} (h : Tracks stores forwarder relay)
    (hmove : HandleMove forwarder thread forwarder') : Tracks stores forwarder' relay := by
  cases hmove <;>
    exact ⟨h.length, h.converts, h.coord, h.forwards, h.messages, h.convertLock, h.forwardLock⟩

section System

variable [DecidableEq W] [DecidableEq F] {state next : State W F} {action : Action W F}
  {board : Board Shdata F}

omit [DecidableEq W] [DecidableEq F] in
/-- Steps that change neither the writers nor the record keep the contents. -/
theorem Contents.same (h : Contents state) (hwriters : next.writers = state.writers)
    (hshdata : next.segment.shdata = state.segment.shdata)
    (hstores : next.segment.stores = state.segment.stores) : Contents next := by
  have hlast : next.segment.last = state.segment.last := by
    rw [Segment.last, hstores, Segment.last]
  constructor
  · intro w hinside
    rw [hwriters] at hinside ⊢
    rw [hshdata, hlast]
    exact h.inside w hinside
  · intro hall
    rw [hwriters] at hall
    rw [hshdata, hlast]
    exact h.outside hall

omit [DecidableEq F] in
/-- So does a writer that stays where it is or stays outside. -/
theorem Contents.setWriter (h : Contents state) {w : W} {writer : Writer}
    (hpc : writer.pc = (state.writers w).pc ∨
      ¬ writer.pc.Inside ∧ ¬ (state.writers w).pc.Inside) :
    Contents (state.setWriter w writer) := by
  have hsame : ∀ v, ((state.setWriter w writer).writers v).pc = (state.writers v).pc ∨
      ¬ ((state.setWriter w writer).writers v).pc.Inside ∧ ¬ (state.writers v).pc.Inside := by
    intro v
    by_cases hv : v = w
    · subst hv
      rwa [State.setWriter_self]
    · rw [State.setWriter_of_ne _ hv]
      exact Or.inl rfl
  constructor
  · intro v hinside
    rcases hsame v with heq | ⟨houtside, -⟩
    · rw [heq] at hinside ⊢
      exact h.inside v hinside
    · exact absurd hinside houtside
  · intro hall
    apply h.outside
    intro v hinside
    rcases hsame v with heq | ⟨-, houtside⟩
    · exact hall v (heq ▸ hinside)
    · exact houtside hinside

omit [DecidableEq F] in
/-- **One step of a writer.** -/
theorem Contents.write (h : Contents state)
    (htoken : OneToken state.segment.sem (occupants state)) {w : W} {writer : Writer}
    {segment : Segment}
    (hmove : WriterMove (state.writers w) state.segment writer segment)
    (hnext : OneToken segment.sem
      (occupants { state.setWriter w writer with segment := segment })) :
    Contents { state.setWriter w writer with segment := segment } := by
  have hbefore : state.segment.shdata = (state.writers w).pc.written state.segment.last := by
    rcases hmove.before with hinside | ⟨hsem, hlast⟩
    · exact h.inside w hinside
    · rw [hlast]
      exact h.outside (writer_outside htoken (Or.inl hsem))
  have hafter := hmove.written hbefore
  have hself : (state.setWriter w writer).writers w = writer := State.setWriter_self ..
  rcases hmove.after with hinside | ⟨hsem, hlast⟩
  · have hw : Sum.inl w ∈ occupants { state.setWriter w writer with segment := segment } := by
      show ((state.setWriter w writer).writers w).pc.Inside
      rwa [hself]
    refine ⟨fun v hv => ?_, fun houtside => absurd hw (houtside w)⟩
    obtain rfl := Sum.inl.inj (hnext.eq_of_mem hw (show Sum.inl v ∈ occupants _ from hv))
    exact hafter.trans (by rw [hself])
  · rw [hlast] at hafter
    exact ⟨fun v hv => absurd hv (writer_outside hnext (Or.inl hsem) v), fun _ => hafter⟩

omit [DecidableEq W] in
/-- A step of one forwarder moves its relay alone. -/
theorem Implements.setForwarder (h : Implements state board) {f : F} {forwarder : Forwarder}
    {segment : Segment} {stage : Option Stage}
    (htoken : OneToken segment.sem
      (occupants { state.setForwarder f forwarder with segment := segment }))
    (hshdata : segment.shdata = state.segment.shdata)
    (hstores : segment.stores = state.segment.stores)
    (htracks : Tracks state.segment.stores forwarder ((board.relays f).advance stage)) :
    Implements { state.setForwarder f forwarder with segment := segment }
      (board.advance f stage) where
  token := htoken
  contents := h.contents.same rfl hshdata hstores
  history := h.history.trans hstores.symm
  relays := by
    intro g
    simp only [hstores]
    show Tracks _ _ (Function.update board.relays f ((board.relays f).advance stage) g)
    by_cases hg : g = f
    · subst hg
      rw [State.setForwarder_self, Function.update_self]
      exact htracks
    · rw [State.setForwarder_of_ne _ hg, Function.update_of_ne hg]
      exact h.relays g

omit [DecidableEq W] in
theorem Implements.stay (h : Implements state board) {f : F} {forwarder : Forwarder}
    (htoken : OneToken state.segment.sem (occupants (state.setForwarder f forwarder)))
    (htracks : Tracks state.segment.stores forwarder (board.relays f)) :
    Implements (state.setForwarder f forwarder) board := by
  have hsame := h.setForwarder htoken rfl rfl
    (show Tracks _ _ ((board.relays f).advance none) from htracks)
  rwa [Board.advance_none] at hsame

omit [DecidableEq W] [DecidableEq F] in
/-- What `convert` loads while inside is the last record. -/
theorem Implements.latest (h : Implements state board) {f : F}
    (hload : (state.forwarders f).convertPc.AtLoad) :
    Embsys.Forwarder.convert state.segment.shdata =
      viewAt state.segment.stores (board.size - 1) := by
  have houtside := writer_outside h.token (Or.inr ⟨f, ConvertPc.inside_of_atLoad hload⟩)
  rw [h.contents.outside houtside, ← (h.relays f).length, viewAt, Segment.last]

/-- **One step.** -/
theorem Implements.step (h : Implements state board) (hmove : Move state action next) :
    Implements next ((point state action).elim board board.perform) := by
  have htoken := oneToken_occupants_step h.token hmove
  cases hmove with
  | receive hrunning hstep =>
      obtain ⟨hpc, pc, houtside, rfl⟩ := Writer.receive_cases hstep
      refine ⟨htoken, h.contents.setWriter (Or.inr ⟨houtside, ?_⟩), h.history, h.relays⟩
      rw [hpc]
      exact not_false
  | @write w writer segment hrunning hstep =>
      have hmove := Writer.step_move hstep
      have hcontents := h.contents.write h.token hmove htoken
      have hstores := hmove.stored
      cases hstored : (state.writers w).pc.stored with
      | none =>
          rw [hstored, Option.toList_none, List.append_nil] at hstores
          simp only [point, hstored]
          exact ⟨htoken, hcontents, h.history.trans hstores.symm, fun f => hstores ▸ h.relays f⟩
      | some record =>
          rw [hstored, Option.toList_some] at hstores
          simp only [point, hstored]
          refine ⟨htoken, hcontents, ?_, fun f => ?_⟩
          · show board.history ++ [record] = segment.stores
            rw [h.history, hstores]
          · simp only [hstores]
            refine (h.relays f).publish (fun hconvert => ?_) record
            exact writer_outside h.token (Or.inr ⟨f, hconvert⟩) w
              (WriterPc.inside_of_stored hstored)
  | interruptWriter hrunning =>
      exact ⟨htoken, h.contents.setWriter (Or.inl rfl), h.history, h.relays⟩
  | handleWriter halive hstep =>
      exact ⟨htoken, h.contents.setWriter (Or.inl (Writer.handle_pc hstep)), h.history, h.relays⟩
  | @convert f forwarder segment hrunning hstep =>
      have hmove := Forwarder.convertStep_move hstep
      rw [point, Board.elim_map_move]
      exact h.setForwarder htoken hmove.segment.1 hmove.segment.2
        ((h.relays f).convert_advance h.latest hmove)
  | @forward f forwarder hrunning hstep =>
      rw [point, Board.elim_map_move]
      exact h.setForwarder htoken rfl rfl
        ((h.relays f).forward_advance (Forwarder.forwardStep_move hstep))
  | @interrupt f thread hrunning => exact h.stay htoken ((h.relays f).interrupt thread)
  | @handle f thread forwarder halive hstep =>
      exact h.stay htoken ((h.relays f).handle (Forwarder.handle_move hstep))

/-- Every run is a run of the board. -/
theorem implements_replay {handlers : F → Attached} {trace : List (State W F × Action W F)}
    (hrun : Run step (initial W handlers) trace state) :
    Implements state (replay Board.perform point (.start F ⟨0, 0, 0⟩) trace) :=
  hrun.simulates (Implements.initial handlers) fun _ _ _ _ h hstep => h.step (step_move hstep)

/-- **Refinement.** The stores of every run are the history of its board, and the messages
of each forwarder are the texts of the entries its relay has sent, whole records at
positions that never go back. No condition is put on signals. -/
theorem run_refines_board {handlers : F → Attached} {trace : List (State W F × Action W F)}
    (hrun : Run step (initial W handlers) trace state) :
    let board := replay Board.perform point (.start F ⟨0, 0, 0⟩) trace
    state.segment.stores = board.history ∧
      ∀ f, (board.relays f).sent.Pairwise (· ≤ ·) ∧
        List.Forall₂ (fun message i => ∃ record, board.history[i]? = some record ∧
            message = formatInt 6 record.time ++ ['/'] ++
              formatFixed 0 4 (toDecimal record.latitude) ++ ['/'] ++
                formatFixed 0 4 (toDecimal record.longitude))
          (state.forwarders f).messages (board.relays f).sent := by
  intro board
  have h : Implements state board := implements_replay hrun
  refine ⟨h.history.symm, fun f => ⟨(board.relays f).sorted, ?_⟩⟩
  rw [(h.relays f).messages, List.forall₂_map_left_iff, List.forall₂_same]
  intro i hi
  exact ⟨_, h.getElem?_history ((board.relays f).sent_lt i hi), forward_convert _⟩

end System

/-- A message is sent, and then SIGINT reaches the main thread. -/
def sendThenInterrupt : List (Action Unit Unit) :=
  List.replicate 10 (.convert ()) ++ List.replicate 6 (.forward ()) ++ [.interrupt () .main]

theorem run_refines_board_sendThenInterrupt :
    ∃ trace state, Run step (initial Unit oneForwarder) trace state ∧
      (state.forwarders ()).messages ≠ [] ∧
      let board := replay Board.perform point (.start Unit ⟨0, 0, 0⟩) trace
      state.segment.stores = board.history ∧
        ∀ f, (board.relays f).sent.Pairwise (· ≤ ·) ∧
          List.Forall₂ (fun message i => ∃ record, board.history[i]? = some record ∧
              message = formatInt 6 record.time ++ ['/'] ++
                formatFixed 0 4 (toDecimal record.latitude) ++ ['/'] ++
                  formatFixed 0 4 (toDecimal record.longitude))
            (state.forwarders f).messages (board.relays f).sent := by
  have hexec : ∃ state, exec step (initial Unit oneForwarder) sendThenInterrupt = some state ∧
      (state.forwarders ()).messages ≠ [] :=
    ⟨_, rfl, List.cons_ne_nil _ _⟩
  obtain ⟨state, hstate, hsent⟩ := hexec
  obtain ⟨trace, hrun, -⟩ := exists_run_of_exec hstate
  exact ⟨trace, state, hrun, hsent, run_refines_board hrun⟩

end Embsys.Concurrent
