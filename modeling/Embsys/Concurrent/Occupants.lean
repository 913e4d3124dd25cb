/-
# The token of the semaphore, whoever holds it

A process that ends between `sem_wait` and `sem_post` takes the token with it. Counted
with the processes that have ended, the token is never gone: every step of every run,
signals and handlers included, keeps it in the semaphore, with one live thread or with
one ended process. Two threads are therefore never inside at once, and once a process
has ended inside nothing in the segment moves again.
-/

import Embsys.Concurrent.Semaphore

namespace Embsys.Concurrent

open Embsys.Math Embsys.Os Embsys.ShmWriter Embsys.Forwarder

variable {W F : Type*}

/-- The threads between their `sem_wait` and their `sem_post`, whether or not their
process still runs. -/
def occupants (state : State W F) : Set (W ⊕ F) :=
  { thread | match thread with
    | .inl w => (state.writers w).pc.Inside
    | .inr f => (state.forwarders f).convertPc.Inside }

/-- The occupants whose process has ended. -/
def lost (state : State W F) : Set (W ⊕ F) :=
  { thread | match thread with
    | .inl w => (state.writers w).alive = false ∧ (state.writers w).pc.Inside
    | .inr f => (state.forwarders f).alive = false ∧ (state.forwarders f).convertPc.Inside }

/-- The step ends the process of a thread that is inside: the `exit` of a handler, or a
load through a pointer that is no mapping. -/
def Loses (state : State W F) (action : Action W F) : W ⊕ F → Prop
  | .inl w =>
      action = .handleWriter w ∧ (state.writers w).handler = some .exit ∧
        (state.writers w).pc.Inside
  | .inr f =>
      (∃ thread, action = .handle f thread ∧
          (state.forwarders f).handler thread = some .exit ∧
          (state.forwarders f).convertPc.Inside) ∨
        action = .convert f ∧ (state.forwarders f).convertPc.AtLoad ∧
          ∀ address, (state.forwarders f).handlers.shdata ≠ .mapped address

theorem mem_lost_inl {state : State W F} {w : W} :
    .inl w ∈ lost state ↔ (state.writers w).alive = false ∧ (state.writers w).pc.Inside :=
  Iff.rfl

theorem mem_lost_inr {state : State W F} {f : F} :
    .inr f ∈ lost state ↔
      (state.forwarders f).alive = false ∧ (state.forwarders f).convertPc.Inside :=
  Iff.rfl

theorem occupants_eq (state : State W F) : occupants state = holders state ∪ lost state := by
  ext thread
  cases thread with
  | inl w =>
      show (state.writers w).pc.Inside ↔ (_ ∧ _) ∨ (_ ∧ _)
      cases (state.writers w).alive <;> simp
  | inr f =>
      show (state.forwarders f).convertPc.Inside ↔ (_ ∧ _) ∨ (_ ∧ _)
      cases (state.forwarders f).alive <;> simp

theorem notMem_lost_of_mem_holders {state : State W F} {thread : W ⊕ F}
    (hholds : thread ∈ holders state) : thread ∉ lost state := by
  intro hlost
  cases thread with
  | inl w => exact Bool.false_ne_true (hlost.1.symm.trans hholds.1)
  | inr f => exact Bool.false_ne_true (hlost.1.symm.trans hholds.1)

/-! ## Steps of one process -/

theorem WriterMove.occupies {writer writer' : Writer} {segment segment' : Segment}
    (hmove : WriterMove writer segment writer' segment') :
    TokenStep segment.sem segment'.sem writer.pc.Inside writer'.pc.Inside := by
  cases hmove with
  | wait hpc hsem =>
      rw [hsem, hpc]
      exact .acquire not_false trivial
  | storeTime hpc => exact .silent (by rw [hpc]; exact Iff.rfl)
  | storeLatitude hpc => exact .silent (by rw [hpc]; exact Iff.rfl)
  | storeLongitude hpc => exact .silent (by rw [hpc]; exact Iff.rfl)
  | post hpc =>
      rw [hpc]
      exact .release trivial not_false

/-- A load that faults ends the process where it stands. -/
theorem ConvertMove.occupies {forwarder forwarder' : Forwarder} {segment segment' : Segment}
    (hmove : ConvertMove forwarder segment forwarder' segment') :
    TokenStep segment.sem segment'.sem forwarder.convertPc.Inside forwarder'.convertPc.Inside := by
  cases hmove with
  | wait hpc hsem =>
      rw [hsem, hpc]
      exact .acquire not_false trivial
  | load hpc =>
      exact .silent (iff_of_true (inside_loaded hpc) (ConvertPc.inside_of_atLoad hpc))
  | fault => exact .silent Iff.rfl
  | post hpc =>
      rw [hpc]
      exact .release trivial not_false
  | lock hpc => exact .silent (by rw [hpc]; exact Iff.rfl)
  | storeTime hpc => exact .silent (by rw [hpc]; exact Iff.rfl)
  | storeLatitude hpc => exact .silent (by rw [hpc]; exact Iff.rfl)
  | storeLongitude hpc => exact .silent (by rw [hpc]; exact Iff.rfl)
  | unlock hpc => exact .silent (by rw [hpc]; exact Iff.rfl)

/-- A handler leaves the program where it stands. -/
theorem Writer.handle_pc {writer writer' : Writer} (hstep : writer.handle = some writer') :
    writer'.pc = writer.pc := by
  cases hhandler : writer.handler with
  | none => simp [Writer.handle, hhandler] at hstep
  | some pc =>
      simp only [Writer.handle, hhandler] at hstep
      cases pc <;> obtain rfl := Option.some.inj hstep <;> rfl

theorem HandleMove.convertPc {forwarder forwarder' : Forwarder} {thread : Thread}
    (hmove : HandleMove forwarder thread forwarder') :
    forwarder'.convertPc = forwarder.convertPc := by
  cases hmove <;> rfl

theorem ForwardMove.convertPc {forwarder forwarder' : Forwarder}
    (hmove : ForwardMove forwarder forwarder') :
    forwarder'.convertPc = forwarder.convertPc := by
  cases hmove <;> rfl

/-! ## The token of the system -/

section System

variable [DecidableEq W] [DecidableEq F] {handlers : F → Attached} {state next : State W F}
  {action : Action W F}

omit [DecidableEq F] in
theorem occupants_setWriter {w : W} {writer : Writer} (segment : Segment)
    (htoken : OneToken state.segment.sem (occupants state))
    (hstep : TokenStep state.segment.sem segment.sem (state.writers w).pc.Inside
      writer.pc.Inside) :
    OneToken segment.sem (occupants { state.setWriter w writer with segment := segment }) := by
  refine htoken.step (.inl w) ?_ ?_
  · have hself : (Sum.inl w ∈ occupants { state.setWriter w writer with segment := segment }) =
        writer.pc.Inside := by
      simp [occupants, State.setWriter]
    rw [hself]
    exact hstep
  · rintro (v | f) hne
    · have hv : v ≠ w := fun heq => hne (by rw [heq])
      simp [occupants, State.setWriter, hv]
    · simp [occupants, State.setWriter]

omit [DecidableEq W] in
theorem occupants_setForwarder {f : F} {forwarder : Forwarder} (segment : Segment)
    (htoken : OneToken state.segment.sem (occupants state))
    (hstep : TokenStep state.segment.sem segment.sem (state.forwarders f).convertPc.Inside
      forwarder.convertPc.Inside) :
    OneToken segment.sem
      (occupants { state.setForwarder f forwarder with segment := segment }) := by
  refine htoken.step (.inr f) ?_ ?_
  · have hself : (Sum.inr f ∈
          occupants { state.setForwarder f forwarder with segment := segment }) =
        forwarder.convertPc.Inside := by
      simp [occupants, State.setForwarder]
    rw [hself]
    exact hstep
  · rintro (w | g) hne
    · simp [occupants, State.setForwarder]
    · have hg : g ≠ f := fun heq => hne (by rw [heq])
      simp [occupants, State.setForwarder, hg]

omit [DecidableEq W] [DecidableEq F] in
theorem oneToken_occupants_initial (handlers : F → Attached) :
    OneToken (initial W handlers).segment.sem (occupants (initial W handlers)) := by
  refine oneToken_iff.mpr (Or.inl ⟨rfl, ?_⟩)
  apply Set.eq_empty_iff_forall_notMem.mpr
  rintro (w | f) hinside
  · exact hinside
  · exact hinside

/-- **One step.** Whatever the step, signals and the end of a process included, the token
is kept. -/
theorem oneToken_occupants_step (h : OneToken state.segment.sem (occupants state))
    (hmove : Move state action next) : OneToken next.segment.sem (occupants next) := by
  cases hmove with
  | receive hrunning hstep =>
      obtain ⟨hpc, pc, houtside, rfl⟩ := Writer.receive_cases hstep
      refine occupants_setWriter state.segment h (.silent ?_)
      rw [hpc]
      exact iff_of_false houtside not_false
  | write hrunning hstep => exact occupants_setWriter _ h (Writer.step_move hstep).occupies
  | interruptWriter hrunning => exact occupants_setWriter state.segment h (.silent Iff.rfl)
  | handleWriter halive hstep =>
      refine occupants_setWriter state.segment h (.silent ?_)
      rw [Writer.handle_pc hstep]
  | convert hrunning hstep =>
      exact occupants_setForwarder _ h (Forwarder.convertStep_move hstep).occupies
  | forward hrunning hstep =>
      refine occupants_setForwarder state.segment h (.silent ?_)
      rw [(Forwarder.forwardStep_move hstep).convertPc]
  | interrupt hrunning => exact occupants_setForwarder state.segment h (.silent Iff.rfl)
  | handle halive hstep =>
      refine occupants_setForwarder state.segment h (.silent ?_)
      rw [(Forwarder.handle_move hstep).convertPc]

theorem oneToken_occupants {trace : List (State W F × Action W F)}
    (hrun : Run step (initial W handlers) trace state) :
    OneToken state.segment.sem (occupants state) :=
  hrun.preserves (I := fun state => OneToken state.segment.sem (occupants state))
    (oneToken_occupants_initial handlers) fun _ _ _ h hstep =>
      oneToken_occupants_step h (step_move hstep)

/-! ## Who takes the token along -/

/-- An ended process makes no step. -/
theorem Move.writers_of_ended (hmove : Move state action next) {w : W}
    (hended : (state.writers w).alive = false) : next.writers w = state.writers w := by
  have hchange := hmove.writerChange w
  generalize next.writers w = writer at hchange ⊢
  cases hchange with
  | none => rfl
  | receive hrunning => exact absurd (hended.symm.trans hrunning.1) Bool.false_ne_true
  | write hrunning => exact absurd (hended.symm.trans hrunning.1) Bool.false_ne_true
  | interrupt hrunning => exact absurd (hended.symm.trans hrunning.1) Bool.false_ne_true
  | handle halive => exact absurd (hended.symm.trans halive) Bool.false_ne_true

theorem Move.forwarders_of_ended (hmove : Move state action next) {f : F}
    (hended : (state.forwarders f).alive = false) : next.forwarders f = state.forwarders f := by
  have hchange := hmove.forwarderChange f
  generalize next.forwarders f = forwarder at hchange ⊢
  cases hchange with
  | none => rfl
  | convert hrunning => exact absurd (hended.symm.trans hrunning.1) Bool.false_ne_true
  | forward hrunning => exact absurd (hended.symm.trans hrunning.1) Bool.false_ne_true
  | interrupt hrunning => exact absurd (hended.symm.trans hrunning.1) Bool.false_ne_true
  | handle halive => exact absurd (hended.symm.trans halive) Bool.false_ne_true

/-- A process that ends inside does so by a step that loses the token. -/
theorem Move.writer_loses (hmove : Move state action next) {w : W}
    (halive : (state.writers w).alive = true) (hended : (next.writers w).alive = false)
    (hinside : (next.writers w).pc.Inside) : Loses state action (.inl w) := by
  have hchange := hmove.writerChange w
  generalize next.writers w = writer at hchange hended hinside
  cases hchange with
  | none => exact absurd (hended.symm.trans halive) Bool.false_ne_true
  | receive hrunning hstep =>
      obtain ⟨-, pc, -, rfl⟩ := Writer.receive_cases hstep
      exact absurd (hended.symm.trans halive) Bool.false_ne_true
  | write hrunning hmove =>
      cases hmove <;> exact absurd (hended.symm.trans halive) Bool.false_ne_true
  | interrupt hrunning => exact absurd (hended.symm.trans halive) Bool.false_ne_true
  | handle _ hstep =>
      cases hhandler : (state.writers w).handler with
      | none => simp [Writer.handle, hhandler] at hstep
      | some pc =>
          simp only [Writer.handle, hhandler] at hstep
          cases pc with
          | hndclose =>
              obtain rfl := Option.some.inj hstep
              exact absurd (hended.symm.trans halive) Bool.false_ne_true
          | exit =>
              obtain rfl := Option.some.inj hstep
              exact ⟨rfl, hhandler, hinside⟩

theorem Move.forwarder_loses (hmove : Move state action next) {f : F}
    (halive : (state.forwarders f).alive = true) (hended : (next.forwarders f).alive = false)
    (hinside : (next.forwarders f).convertPc.Inside) : Loses state action (.inr f) := by
  have hchange := hmove.forwarderChange f
  generalize next.forwarders f = forwarder at hchange hended hinside
  cases hchange with
  | none => exact absurd (hended.symm.trans halive) Bool.false_ne_true
  | convert hrunning hmove =>
      cases hmove with
      | fault hpc hfault => exact Or.inr ⟨rfl, hpc, hfault⟩
      | _ => exact absurd (hended.symm.trans halive) Bool.false_ne_true
  | forward hrunning hmove =>
      cases hmove <;> exact absurd (hended.symm.trans halive) Bool.false_ne_true
  | interrupt hrunning => exact absurd (hended.symm.trans halive) Bool.false_ne_true
  | handle _ hmove =>
      cases hmove with
      | exit hpc => exact Or.inl ⟨_, rfl, hpc, hinside⟩
      | clear hpc => exact absurd (hended.symm.trans halive) Bool.false_ne_true
      | earlier hpc => exact absurd (hended.symm.trans halive) Bool.false_ne_true

/-- And such a step leaves the process ended where it stood. -/
theorem Move.mem_lost_of_loses (hmove : Move state action next) {thread : W ⊕ F}
    (hloses : Loses state action thread) : thread ∈ lost next := by
  cases thread with
  | inl w =>
      obtain ⟨rfl, hexit, hinside⟩ := hloses
      cases hmove with
      | handleWriter halive hstep =>
          simp only [Writer.handle, hexit, Option.some.injEq] at hstep
          obtain rfl := hstep
          rw [mem_lost_inl, State.setWriter_self]
          exact ⟨rfl, hinside⟩
  | inr f =>
      rcases hloses with ⟨thread, rfl, hexit, hinside⟩ | ⟨rfl, hload, hfault⟩
      · cases hmove with
        | handle halive hstep =>
            simp only [Forwarder.handle, hexit, Option.some.injEq] at hstep
            obtain rfl := hstep
            rw [mem_lost_inr, State.setForwarder_self]
            exact ⟨rfl, hinside⟩
      · cases hmove with
        | convert hrunning hstep =>
            rw [mem_lost_inr]
            simp only [State.setForwarder_self]
            have hmove := Forwarder.convertStep_move hstep
            generalize (state.forwarders f) = forwarder at hload hfault hmove
            cases hmove with
            | fault => exact ⟨rfl, ConvertPc.inside_of_atLoad hload⟩
            | load hpc hmapped => exact absurd hmapped (hfault _)
            | wait hpc => exact absurd hload (by rw [hpc]; exact not_false)
            | post hpc => exact absurd hload (by rw [hpc]; exact not_false)
            | lock hpc => exact absurd hload (by rw [hpc]; exact not_false)
            | storeTime hpc => exact absurd hload (by rw [hpc]; exact not_false)
            | storeLatitude hpc => exact absurd hload (by rw [hpc]; exact not_false)
            | storeLongitude hpc => exact absurd hload (by rw [hpc]; exact not_false)
            | unlock hpc => exact absurd hload (by rw [hpc]; exact not_false)

/-- **One step, the lost token.** -/
theorem mem_lost_step (hmove : Move state action next) (thread : W ⊕ F) :
    thread ∈ lost next ↔ thread ∈ lost state ∨ Loses state action thread := by
  constructor
  · intro hlost
    cases thread with
    | inl w =>
        cases halive : (state.writers w).alive with
        | false =>
            left
            rwa [mem_lost_inl, hmove.writers_of_ended halive] at hlost
        | true => exact Or.inr (hmove.writer_loses halive hlost.1 hlost.2)
    | inr f =>
        cases halive : (state.forwarders f).alive with
        | false =>
            left
            rwa [mem_lost_inr, hmove.forwarders_of_ended halive] at hlost
        | true => exact Or.inr (hmove.forwarder_loses halive hlost.1 hlost.2)
  · rintro (hlost | hloses)
    · cases thread with
      | inl w => rwa [mem_lost_inl, hmove.writers_of_ended hlost.1]
      | inr f => rwa [mem_lost_inr, hmove.forwarders_of_ended hlost.1]
    · exact hmove.mem_lost_of_loses hloses

/-- **Where the token is.** In every state of every run, signals anywhere, the value of the
semaphore, the live threads between their `sem_wait` and their `sem_post` and the ended
processes between theirs add up to 1, and the latter are those that some step of the run
ended there. -/
theorem token_accounted {trace : List (State W F × Action W F)}
    (hrun : Run step (initial W handlers) trace state) :
    (state.segment.sem : ℕ∞) + (holders state).encard + (lost state).encard = 1 ∧
      ∀ thread, thread ∈ lost state ↔ ∃ entry ∈ trace, Loses entry.1 entry.2 thread := by
  constructor
  · have htoken := oneToken_occupants hrun
    have hdisjoint : Disjoint (holders state) (lost state) :=
      Set.disjoint_left.mpr fun _ hholds => notMem_lost_of_mem_holders hholds
    rwa [OneToken, occupants_eq, Set.encard_union_eq hdisjoint, ← add_assoc] at htoken
  · intro thread
    have hcause := hrun.iff_exists (I := fun _ => True) (P := fun state => thread ∈ lost state)
      (E := fun state action => Loses state action thread) trivial (fun _ _ _ _ _ => trivial)
      fun _ _ _ _ hstep => mem_lost_step (step_move hstep) thread
    have hstart : thread ∉ lost (initial W handlers) := by
      cases thread with
      | inl w => exact fun hlost => hlost.2
      | inr f => exact fun hlost => hlost.2
    rw [hcause, or_iff_right hstart]

/-! ## After a loss -/

omit [DecidableEq W] [DecidableEq F] in
/-- The ended process that holds the token keeps every other thread out. -/
theorem holders_of_lost (htoken : OneToken state.segment.sem (occupants state))
    {thread : W ⊕ F} (hlost : thread ∈ lost state) :
    state.segment.sem = 0 ∧ holders state = ∅ := by
  have hmem : thread ∈ occupants state := by
    rw [occupants_eq]
    exact Or.inr hlost
  constructor
  · rcases oneToken_iff.mp htoken with ⟨-, hempty⟩ | ⟨hzero, -⟩
    · exact absurd hmem (hempty ▸ Set.notMem_empty _)
    · exact hzero
  · apply Set.eq_empty_iff_forall_notMem.mpr
    intro other hholds
    have hother : other ∈ occupants state := by
      rw [occupants_eq]
      exact Or.inl hholds
    obtain rfl := htoken.eq_of_mem hmem hother
    exact notMem_lost_of_mem_holders hholds hlost

theorem WriterMove.segment_of_outside {writer writer' : Writer} {segment segment' : Segment}
    (hsem : segment.sem = 0) (houtside : ¬ writer.pc.Inside)
    (hmove : WriterMove writer segment writer' segment') : segment' = segment := by
  cases hmove with
  | wait hpc hfree => exact absurd (hsem.symm.trans hfree) (Nat.succ_ne_zero _).symm
  | storeTime hpc => exact absurd (by rw [hpc]; trivial) houtside
  | storeLatitude hpc => exact absurd (by rw [hpc]; trivial) houtside
  | storeLongitude hpc => exact absurd (by rw [hpc]; trivial) houtside
  | post hpc => exact absurd (by rw [hpc]; trivial) houtside

theorem ConvertMove.segment_of_outside {forwarder forwarder' : Forwarder}
    {segment segment' : Segment} (hsem : segment.sem = 0)
    (houtside : ¬ forwarder.convertPc.Inside)
    (hmove : ConvertMove forwarder segment forwarder' segment') : segment' = segment := by
  cases hmove with
  | wait hpc hfree => exact absurd (hsem.symm.trans hfree) (Nat.succ_ne_zero _).symm
  | post hpc => exact absurd (by rw [hpc]; trivial) houtside
  | _ => rfl

theorem Move.segment_of_lost (hmove : Move state action next)
    (htoken : OneToken state.segment.sem (occupants state)) {thread : W ⊕ F}
    (hlost : thread ∈ lost state) : next.segment = state.segment := by
  obtain ⟨hsem, hempty⟩ := holders_of_lost htoken hlost
  have hnone : ∀ other, other ∉ holders state := Set.eq_empty_iff_forall_notMem.mp hempty
  cases hmove with
  | @write w writer segment hrunning hstep =>
      apply (Writer.step_move hstep).segment_of_outside hsem
      intro hinside
      exact hnone (.inl w) ⟨hrunning.1, hinside⟩
  | @convert f forwarder segment hrunning hstep =>
      apply (Forwarder.convertStep_move hstep).segment_of_outside hsem
      intro hinside
      exact hnone (.inr f) ⟨hrunning.1, hinside⟩
  | _ => rfl

/-- **Nothing moves after a loss.** Once a process has ended between its `sem_wait` and its
`sem_post`, the semaphore stays at 0 and the segment as it is for ever, and no live thread
is ever inside again. -/
theorem segment_frozen {trace rest : List (State W F × Action W F)}
    (hrun : Run step (initial W handlers) trace state) (hlost : (lost state).Nonempty)
    (hrest : Run step state rest next) :
    next.segment.sem = 0 ∧ next.segment = state.segment ∧ holders next = ∅ := by
  obtain ⟨thread, hthread⟩ := hlost
  have hkept := hrest.preserves (I := fun next => next.segment = state.segment ∧
      OneToken next.segment.sem (occupants next) ∧ thread ∈ lost next)
    ⟨rfl, oneToken_occupants hrun, hthread⟩ fun middle action next h hstep =>
      have hmove := step_move hstep
      ⟨(hmove.segment_of_lost h.2.1 h.2.2).trans h.1, oneToken_occupants_step h.2.1 hmove,
        (mem_lost_step hmove thread).mpr (Or.inl h.2.2)⟩
  obtain ⟨hsame, htoken, hstill⟩ := hkept
  obtain ⟨hsem, hempty⟩ := holders_of_lost htoken hstill
  exact ⟨hsem, hsame, hempty⟩

end System

theorem token_accounted_exitInside :
    ∃ trace state, Run step (initial Unit oneForwarder) trace state ∧ .inr () ∈ lost state ∧
      (state.segment.sem : ℕ∞) + (holders state).encard + (lost state).encard = 1 ∧
        ∀ thread, thread ∈ lost state ↔ ∃ entry ∈ trace, Loses entry.1 entry.2 thread := by
  have hexec : ∃ state, exec step (initial Unit oneForwarder) exitInside = some state ∧
      .inr () ∈ lost state :=
    ⟨_, rfl, rfl, trivial⟩
  obtain ⟨state, hstate, hlost⟩ := hexec
  obtain ⟨trace, hrun, -⟩ := exists_run_of_exec hstate
  exact ⟨trace, state, hrun, hlost, token_accounted hrun⟩

/-- A forwarder ends inside, and afterwards a line is read that is no frame. -/
theorem segment_frozen_exitInside :
    ∃ trace rest state next, Run step (initial Unit oneForwarder) trace state ∧
      (lost state).Nonempty ∧ Run step state rest next ∧ rest ≠ [] ∧
        next.segment.sem = 0 ∧ next.segment = state.segment ∧ holders next = ∅ := by
  have hexec : ∃ state, exec step (initial Unit oneForwarder) exitInside = some state ∧
      Sum.inr () ∈ lost state ∧ (state.writers ()).Running ∧ (state.writers ()).pc = .read :=
    ⟨_, rfl, ⟨rfl, trivial⟩, ⟨rfl, rfl⟩, rfl⟩
  obtain ⟨state, hstate, hlost, hrunning, hpc⟩ := hexec
  have hline : decodeFrame [] = none := by decide +kernel
  have hread : step state (.receive () []) = some (state.setWriter () (state.writers ())) := by
    simp [step, hrunning, Writer.receive, hpc, hline]
  obtain ⟨trace, hrun, -⟩ := exists_run_of_exec hstate
  exact ⟨trace, _, state, _, hrun, ⟨_, hlost⟩, Run.single hread, List.cons_ne_nil _ _,
    segment_frozen hrun ⟨_, hlost⟩ (Run.single hread)⟩

end Embsys.Concurrent
