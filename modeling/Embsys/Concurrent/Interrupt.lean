/-
# The pointer to the segment under signals

The handler of a forwarder clears `handlers.shdata` while the other threads of the
process still run, and exits only after that. Between the two steps `convert` can
stand before a load through the cleared pointer, in two ways: the handler clears
it when `convert` is already past `sem_wait`, or `convert` passes `sem_wait` after
it is cleared. These two steps and no others lose the pointer.
-/

import Embsys.Math.Transition
import Embsys.Concurrent.Moves

namespace Embsys.Concurrent

open Embsys.Math Embsys.Os Embsys.ShmWriter Embsys.Forwarder

/-- The handler alone, from its first step to the one before `exit`, does what
`hndinit` does to the record. -/
theorem exec_handle_handlers (forwarder : Forwarder) (thread : Thread)
    (hstart : forwarder.handler thread = some .closeSockfd) :
    ∃ forwarder', exec (fun forwarder thread => Forwarder.handle forwarder thread) forwarder
        (List.replicate 7 thread) = some forwarder' ∧
      forwarder'.handlers = hndinit forwarder.handlers ∧
      forwarder'.handler thread = some .exit := by
  simp [exec, Forwarder.handle, hstart, hndinit, List.replicate]

/-- A thread without a handler had none before a handler moved on. -/
theorem handler_of_update {handler : Thread → Option HandlerPc} {thread other : Thread}
    {pc : HandlerPc} (h : Function.update handler thread (some pc) other = none) :
    other ≠ thread ∧ handler other = none := by
  by_cases hother : other = thread
  · subst hother
    simp at h
  · exact ⟨hother, by rwa [Function.update_of_ne hother] at h⟩

/-- A handler that moves on does not touch a thread without one. -/
theorem update_of_handler {handler : Thread → Option HandlerPc} {thread other : Thread}
    {pc old : HandlerPc} (hold : handler thread = some old) (hother : handler other = none) :
    Function.update handler thread (some pc) other = none := by
  have hne : other ≠ thread := by
    rintro rfl
    simp [hother] at hold
  rw [Function.update_of_ne hne, hother]

/-- No handler stood before `exit` if none does after one of them moved. -/
theorem ne_exit_of_update {handler : Thread → Option HandlerPc} {thread other : Thread}
    {pc : HandlerPc} (hbefore : handler thread ≠ some .exit)
    (h : Function.update handler thread (some pc) other ≠ some .exit) :
    handler other ≠ some .exit := by
  by_cases hother : other = thread
  · rwa [hother]
  · rwa [Function.update_of_ne hother] at h

/-- `convert` runs, and its next step is a load through `handlers.shdata`. -/
def Forwarder.AtLoad (forwarder : Forwarder) : Prop :=
  forwarder.Running .convert ∧ forwarder.convertPc.AtLoad

instance (forwarder : Forwarder) : Decidable forwarder.AtLoad :=
  inferInstanceAs (Decidable (_ ∧ _))

section

variable {W F : Type*} [DecidableEq W] [DecidableEq F] {handlers : F → Attached}

/-- Whenever `convert` is about to dereference the pointer, it is the mapping that
`hndopen` made. -/
def LoadsMapped (handlers : F → Attached) (state : State W F) : Prop :=
  ∀ f, (state.forwarders f).AtLoad →
    (state.forwarders f).handlers.shdata = (handlers f).val.shdata

/-- The step neither clears the pointer of a `convert` that is about to load, nor
takes a `convert` with a cleared pointer past `sem_wait`. -/
def SparesPointer (state : State W F) : Action W F → Prop
  | .handle f thread =>
      (state.forwarders f).handler thread = some .setShdata → ¬ (state.forwarders f).AtLoad
  | .convert f =>
      (state.forwarders f).convertPc = .wait → (state.forwarders f).handlers.shdata ≠ .null
  | _ => True

/-- The pointer is never anything but the mapping or NULL. -/
def PointerKept (handlers : F → Attached) (state : State W F) : Prop :=
  ∀ f, (state.forwarders f).handlers.shdata = .null ∨
    (state.forwarders f).handlers.shdata = (handlers f).val.shdata

theorem ConvertPc.inside_of_atLoad {pc : ConvertPc} (hpc : pc.AtLoad) : pc.Inside := by
  cases pc <;> first | exact trivial | exact hpc.elim

theorem inside_loaded {pc : ConvertPc} {shdata : Shdata} (hpc : pc.AtLoad) :
    (pc.loaded shdata).Inside := by
  cases pc <;> first | exact trivial | exact hpc.elim

theorem PointerKept.step {state next : State W F} {action : Action W F}
    (h : PointerKept handlers state) (hmove : Move state action next) :
    PointerKept handlers next := by
  intro f
  have hkept := h f
  have hchange := hmove.forwarderChange f
  generalize next.forwarders f = forwarder at hchange ⊢
  cases hchange with
  | none => exact hkept
  | convert hrunning hmove => cases hmove <;> exact hkept
  | forward hrunning hmove => cases hmove <;> exact hkept
  | interrupt hrunning => exact hkept
  | handle halive hmove =>
      cases hmove with
      | exit hpc => exact hkept
      | clear hpc => exact Or.inl rfl
      | earlier hpc hexit hclear hnext hshdata =>
          rw [← hshdata] at hkept
          exact hkept

/-- **One step.** A step that spares the pointer keeps it for every `convert` that
is about to load. -/
theorem LoadsMapped.step {state next : State W F} {action : Action W F}
    (hkept : PointerKept handlers state) (h : LoadsMapped handlers state)
    (hspares : SparesPointer state action) (hmove : Move state action next) :
    LoadsMapped handlers next := by
  intro f
  have hchange := hmove.forwarderChange f
  generalize next.forwarders f = forwarder at hchange ⊢
  intro hload
  cases hchange with
  | none => exact h f hload
  | convert hrunning hmove =>
      cases hmove with
      | wait hpc hsem => exact (hkept f).resolve_left (hspares hpc)
      | load hpc hmapped => exact h f ⟨hrunning, hpc⟩
      | fault hpc hfault => exact absurd hload.1.1 Bool.false_ne_true
      | post => exact hload.2.elim
      | lock => exact hload.2.elim
      | storeTime => exact hload.2.elim
      | storeLatitude => exact hload.2.elim
      | storeLongitude => exact hload.2.elim
      | unlock => exact hload.2.elim
  | forward hrunning hmove => cases hmove <;> exact h f hload
  | @interrupt thread hrunning =>
      obtain ⟨-, hnone⟩ := handler_of_update hload.1.2
      exact h f ⟨⟨hload.1.1, hnone⟩, hload.2⟩
  | @handle thread forwarder halive hmove =>
      cases hmove with
      | exit hpc => exact absurd hload.1.1 Bool.false_ne_true
      | clear hpc =>
          obtain ⟨-, hnone⟩ := handler_of_update hload.1.2
          exact absurd ⟨⟨halive, hnone⟩, hload.2⟩ (hspares hpc)
      | earlier hpc hexit hclear hnext hshdata =>
          obtain ⟨-, hnone⟩ := handler_of_update hload.1.2
          exact hshdata.trans (h f ⟨⟨halive, hnone⟩, hload.2⟩)

/-- A step that does not spare the pointer leaves a `convert` before a load without
the mapping. -/
theorem not_loadsMapped_of_not_sparesPointer {state next : State W F} {action : Action W F}
    (hbad : ¬ SparesPointer state action) (hmove : Move state action next) :
    ¬ LoadsMapped handlers next := by
  intro h
  have hmapped : ∀ f, (handlers f).val.shdata ≠ .null := by
    intro f hnull
    obtain ⟨address, haddress⟩ := (handlers f).property
    rw [hnull] at haddress
    exact Pointer.noConfusion haddress
  cases hmove with
  | @convert f forwarder segment hrunning hstep =>
      simp only [SparesPointer, Classical.not_imp, not_not] at hbad
      obtain ⟨hwait, hnull⟩ := hbad
      have hnext := h f
      simp only [State.setForwarder_self] at hnext
      have hmove := Forwarder.convertStep_move hstep
      cases hmove with
      | wait hpc hsem => exact hmapped f ((hnext ⟨hrunning, trivial⟩).symm.trans hnull)
      | load hpc => exact (hwait ▸ hpc : ConvertPc.AtLoad .wait).elim
      | fault hpc => exact (hwait ▸ hpc : ConvertPc.AtLoad .wait).elim
      | post hpc => simp [hwait] at hpc
      | lock hpc => simp [hwait] at hpc
      | storeTime hpc => simp [hwait] at hpc
      | storeLatitude hpc => simp [hwait] at hpc
      | storeLongitude hpc => simp [hwait] at hpc
      | unlock hpc => simp [hwait] at hpc
  | @handle f thread forwarder halive hstep =>
      simp only [SparesPointer, Classical.not_imp, not_not] at hbad
      obtain ⟨hclear, hload⟩ := hbad
      have hnext := h f
      rw [State.setForwarder_self] at hnext
      have hmove := Forwarder.handle_move hstep
      cases hmove with
      | exit hpc => simp [hclear] at hpc
      | earlier hpc hexit hnot => exact hnot (Option.some.inj (hpc.symm.trans hclear))
      | clear hpc =>
          exact hmapped f (hnext ⟨⟨halive, update_of_handler hclear hload.1.2⟩, hload.2⟩).symm
  | receive => exact hbad trivial
  | write => exact hbad trivial
  | interruptWriter => exact hbad trivial
  | handleWriter => exact hbad trivial
  | forward => exact hbad trivial
  | interrupt => exact hbad trivial

/-- **Signals and the pointer.** Along a run, whenever a `convert` is about to
dereference the pointer it is the mapping made by `hndopen`, exactly when every
step of the run spares the pointer. -/
theorem loadsMapped_iff {trace : List (State W F × Action W F)} {state : State W F}
    (hrun : Run step (initial W handlers) trace state) :
    ((∀ entry ∈ trace, LoadsMapped handlers entry.1) ∧ LoadsMapped handlers state) ↔
      ∀ entry ∈ trace, SparesPointer entry.1 entry.2 := by
  refine hrun.safe_iff (I := PointerKept handlers) (fun f => Or.inr rfl) (fun f _ => rfl) ?_ ?_ ?_
  · intro state action next hkept hstep
    exact hkept.step (step_move hstep)
  · intro state action next hkept hloads hspares hstep
    exact hloads.step hkept hspares (step_move hstep)
  · intro state action next hkept hbad hstep
    exact not_loadsMapped_of_not_sparesPointer hbad (step_move hstep)

end

/-- One forwarder with a mapping. -/
def oneForwarder : Unit → Attached :=
  fun _ => ⟨{ Handlers.static with shdata := .mapped 4096 }, 4096, rfl⟩

/-- SIGINT reaches the main thread, its handler clears the record up to `exit`, and
then `convert` passes `sem_wait`. -/
def clearThenWait : List (Action Unit Unit) :=
  [.interrupt () .main] ++ List.replicate 7 (.handle () .main) ++ [.convert ()]

theorem exists_run_clearThenWait :
    ∃ trace state, Run step (initial Unit oneForwarder) trace state ∧
      (state.forwarders ()).AtLoad ∧ (state.forwarders ()).handlers.shdata = .null := by
  have hexec : ∃ state, exec step (initial Unit oneForwarder) clearThenWait = some state ∧
      (state.forwarders ()).AtLoad ∧ (state.forwarders ()).handlers.shdata = .null :=
    ⟨_, rfl, ⟨⟨rfl, rfl⟩, trivial⟩, rfl⟩
  obtain ⟨state, hstate, hload, hnull⟩ := hexec
  obtain ⟨trace, hrun, -⟩ := exists_run_of_exec hstate
  exact ⟨trace, state, hrun, hload, hnull⟩

theorem loadsMapped_iff_clearThenWait :
    ∃ trace state, Run step (initial Unit oneForwarder) trace state ∧
      (((∀ entry ∈ trace, LoadsMapped oneForwarder entry.1) ∧ LoadsMapped oneForwarder state) ↔
        ∀ entry ∈ trace, SparesPointer entry.1 entry.2) := by
  obtain ⟨trace, state, hrun, -⟩ := exists_run_clearThenWait
  exact ⟨trace, state, hrun, loadsMapped_iff hrun⟩

/-- `convert` stands before a load through NULL. -/
theorem not_forall_loadsMapped :
    ¬ ∀ trace state, Run step (initial Unit oneForwarder) trace state →
      LoadsMapped oneForwarder state := by
  intro h
  obtain ⟨trace, state, hrun, hload, hnull⟩ := exists_run_clearThenWait
  exact absurd (hnull.symm.trans (h trace state hrun () hload)) (by decide)

end Embsys.Concurrent
