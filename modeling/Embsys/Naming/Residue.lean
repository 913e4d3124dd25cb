/-
# What is left under the names

Only writers bind and remove the two names. The segment's name is bound from the start of a
writer until the next writer that stops, or fails once it has reached it; the semaphore's
name until the next writer that stops or fails at all. So no name outlives the writers:
where no writer runs neither of the names is bound, whichever starts have failed.
-/

import Embsys.Naming.Current

namespace Embsys.Naming

open Embsys.Math Embsys.Os Embsys.Pipeline

variable {P : Type*}

/-- The start of a writer, all its calls succeeding. -/
def Binds : Action P → Prop
  | .start _ (.writer _) outcomes => ShmWriter.succeeds outcomes = true
  | _ => False

/-- A writer removes the semaphore's name: it stops or fails. -/
def UnlinksSem (opts : Options) (state : State P) : Action P → Prop
  | .start _ (.writer _) outcomes => ShmWriter.succeeds outcomes = false
  | .start _ _ _ => False
  | .stop q => ∃ member, state.member q = some member ∧ member.Owns opts

/-- Some process is a writer that will remove both names. -/
def Owned (opts : Options) (state : State P) : Prop :=
  ∃ p member, state.member p = some member ∧ member.Owns opts

theorem not_binds_of_reader {p : P} {launch : Launch} {outcomes : Outcomes}
    (hlaunch : ∀ port, launch ≠ .writer port) : ¬ Binds (.start p launch outcomes) := by
  cases launch with
  | writer port => exact absurd rfl (hlaunch port)
  | forwarder port => exact id
  | converter => exact id

theorem not_unlinksSem_of_reader {opts : Options} {state : State P} {p : P} {launch : Launch}
    {outcomes : Outcomes} (hlaunch : ∀ port, launch ≠ .writer port) :
    ¬ UnlinksSem opts state (.start p launch outcomes) := by
  cases launch with
  | writer port => exact absurd rfl (hlaunch port)
  | forwarder port => exact id
  | converter => exact id

theorem not_binds_of_failed {p : P} {port : Name} {outcomes : Outcomes}
    (hfailed : ShmWriter.succeeds outcomes = false) :
    ¬ Binds (.start p (.writer port) outcomes) :=
  Bool.eq_false_iff.mp hfailed

section

variable [DecidableEq P] {opts : Options} {state next : State P} {action : Action P}

/-- **What a step does to the segment's name.** -/
theorem shm_step (hinv : Invariant opts state)
    (hstep : Naming.step opts state action = some next) :
    next.kernel.shms opts.shm ≠ none ↔
      Binds action ∨ state.kernel.shms opts.shm ≠ none ∧ ¬ Unlinks opts state action := by
  cases step_move hstep with
  | @start p launch outcomes kernel member hfree hstarted =>
      cases hstarted with
      | joined hdone hpair howns hnext hsem hshm =>
          obtain ⟨-, entry, hbound, -⟩ := hshm.bound hinv.shm_made hnext
          apply iff_of_true _ (Or.inl hdone)
          exact hbound.symm ▸ Option.some_ne_none entry
      | dropped hfailed hpair hinert hnext hsems hshms =>
          rw [or_iff_right (not_binds_of_failed hfailed)]
          cases hreached : ShmWriter.reachesShm outcomes with
          | true =>
              rw [hreached, if_pos rfl] at hshms
              apply iff_of_false
              · exact not_not.mpr ((congrFun hshms _).trans hinv.shm_made.unlink)
              · exact fun hkept => hkept.2 ⟨hreached, hfailed⟩
          | false =>
              rw [hreached, if_neg Bool.false_ne_true] at hshms
              rw [congrFun hshms, iff_self_and]
              exact fun _ hunlinks => Bool.false_ne_true (hreached.symm.trans hunlinks.1)
      | found hlaunch hdone hsem hshm hpair hinert hsems hshms =>
          rw [congrFun hshms, or_iff_right (not_binds_of_reader hlaunch), iff_self_and]
          exact fun _ hunlinks => not_leaves_of_reader (p := p) hlaunch (Or.inr hunlinks)
      | refused hlaunch hfailed hpair hinert hsems hshms =>
          rw [congrFun hshms, or_iff_right (not_binds_of_reader hlaunch), iff_self_and]
          exact fun _ hunlinks => not_leaves_of_reader (p := p) hlaunch (Or.inr hunlinks)
  | @stop p member hmember =>
      rw [or_iff_right (id : ¬ Binds (.stop p))]
      rcases hinv.kind p member hmember with howns | hinert
      · rw [hndclose_of_owns howns]
        apply iff_of_false
        · exact not_not.mpr hinv.shm_made.unlink
        · exact fun hkept => hkept.2 ⟨member, hmember, howns⟩
      · rw [hndclose_of_inert hinert, iff_self_and]
        rintro - ⟨other, hother, howns⟩
        obtain rfl := Option.some.inj (hmember.symm.trans hother)
        exact hinert.not_owns howns

/-- **What a step does to the semaphore's name.** -/
theorem sem_step (hinv : Invariant opts state)
    (hstep : Naming.step opts state action = some next) :
    next.kernel.sems opts.sem ≠ none ↔
      Binds action ∨ state.kernel.sems opts.sem ≠ none ∧ ¬ UnlinksSem opts state action := by
  cases step_move hstep with
  | @start p launch outcomes kernel member hfree hstarted =>
      cases hstarted with
      | joined hdone hpair howns hnext hsem hshm =>
          obtain ⟨-, entry, hbound, -⟩ := hsem.bound hinv.sem_made hnext
          apply iff_of_true _ (Or.inl hdone)
          exact hbound.symm ▸ Option.some_ne_none entry
      | dropped hfailed hpair hinert hnext hsems hshms =>
          rw [or_iff_right (not_binds_of_failed hfailed)]
          apply iff_of_false
          · exact not_not.mpr ((congrFun hsems _).trans hinv.sem_made.unlink)
          · exact fun hkept => hkept.2 hfailed
      | found hlaunch hdone hsem hshm hpair hinert hsems hshms =>
          rw [congrFun hsems, or_iff_right (not_binds_of_reader hlaunch), iff_self_and]
          exact fun _ => not_unlinksSem_of_reader hlaunch
      | refused hlaunch hfailed hpair hinert hsems hshms =>
          rw [congrFun hsems, or_iff_right (not_binds_of_reader hlaunch), iff_self_and]
          exact fun _ => not_unlinksSem_of_reader hlaunch
  | @stop p member hmember =>
      rw [or_iff_right (id : ¬ Binds (.stop p))]
      rcases hinv.kind p member hmember with howns | hinert
      · rw [hndclose_of_owns howns]
        apply iff_of_false
        · exact not_not.mpr hinv.sem_made.unlink
        · exact fun hkept => hkept.2 ⟨member, hmember, howns⟩
      · rw [hndclose_of_inert hinert, iff_self_and]
        rintro - ⟨other, hother, howns⟩
        obtain rfl := Option.some.inj (hmember.symm.trans hother)
        exact hinert.not_owns howns

/-- **Which names are bound.** At the end of any history of starts and stops each name is bound
exactly when a writer has started in it and no writer has removed that name since. -/
theorem names_bound_iff {kernel : Kernel} (hsem : kernel.sems opts.sem = none)
    (hshm : kernel.shms opts.shm = none) {trace : List (State P × Action P)}
    (hrun : Run (Naming.step opts) (initial P kernel) trace state) :
    (state.kernel.sems opts.sem ≠ none ↔ ∃ before entry after, trace = before ++ entry :: after ∧
        Binds entry.2 ∧ ∀ later ∈ after, ¬ UnlinksSem opts later.1 later.2) ∧
      (state.kernel.shms opts.shm ≠ none ↔
        ∃ before entry after, trace = before ++ entry :: after ∧
          Binds entry.2 ∧ ∀ later ∈ after, ¬ Unlinks opts later.1 later.2) := by
  have hinitial : Invariant opts (initial P kernel) := Invariant.initial hsem hshm
  have hkeep : ∀ (state : State P) action next, Invariant opts state →
      Naming.step opts state action = some next → Invariant opts next :=
    fun _ _ _ hinv hstep => hinv.step hstep
  constructor
  · refine hrun.since_iff (P := fun state => state.kernel.sems opts.sem ≠ none)
      (E := fun _ action => Binds action) hinitial (not_not.mpr hsem) hkeep ?_
    exact fun _ _ _ hinv hstep => sem_step hinv hstep
  · refine hrun.since_iff (P := fun state => state.kernel.shms opts.shm ≠ none)
      (E := fun _ action => Binds action) hinitial (not_not.mpr hshm) hkeep ?_
    exact fun _ _ _ hinv hstep => shm_step hinv hstep

theorem names_bound_iff_failsLate :
    ∃ trace state, Run (Naming.step ⟨['l'], ['s']⟩) (initial ℕ bare) trace state ∧
      state.pair 0 = some (0, 1) ∧
        (state.kernel.sems ['l'] ≠ none ↔
          ∃ before entry after, trace = before ++ entry :: after ∧
            Binds entry.2 ∧ ∀ later ∈ after, ¬ UnlinksSem ⟨['l'], ['s']⟩ later.1 later.2) ∧
        (state.kernel.shms ['s'] ≠ none ↔
          ∃ before entry after, trace = before ++ entry :: after ∧
            Binds entry.2 ∧ ∀ later ∈ after, ¬ Unlinks ⟨['l'], ['s']⟩ later.1 later.2) := by
  have hexec : ∃ state, exec (Naming.step ⟨['l'], ['s']⟩) (initial ℕ bare) failsLate =
      some state ∧ state.pair 0 = some (0, 1) :=
    ⟨_, rfl, rfl⟩
  obtain ⟨state, hstate, hwriter⟩ := hexec
  obtain ⟨trace, hrun, -⟩ := exists_run_of_exec hstate
  exact ⟨trace, state, hrun, hwriter, names_bound_iff rfl rfl hrun⟩

/-- A writer that owns the names keeps owning them while another process comes or goes. -/
theorem Owned.update {p : P} (howned : Owned opts state) (kernel : Kernel)
    {member : Option Member} (hother : ∀ old, state.member p = some old → ¬ old.Owns opts) :
    Owned opts ⟨kernel, Function.update state.member p member⟩ := by
  obtain ⟨q, owner, howner, howns⟩ := howned
  have hqp : q ≠ p := by
    rintro rfl
    exact hother owner howner howns
  exact ⟨q, owner, (Function.update_of_ne hqp _ _).trans howner, howns⟩

/-- While the segment's name is bound, a writer runs that will remove it. -/
theorem owned_step (hinv : Invariant opts state)
    (howned : state.kernel.shms opts.shm ≠ none → Owned opts state)
    (hstep : Naming.step opts state action = some next)
    (hbound : next.kernel.shms opts.shm ≠ none) : Owned opts next := by
  have hcause := (shm_step hinv hstep).mp hbound
  cases step_move hstep with
  | @start p launch outcomes kernel member hfree hstarted =>
      rcases hcause with hbinds | ⟨hbefore, -⟩
      · cases hstarted with
        | joined hdone hpair howns => exact ⟨p, member, Function.update_self .., howns⟩
        | dropped hfailed => exact absurd hbinds (not_binds_of_failed hfailed)
        | found hlaunch => exact absurd hbinds (not_binds_of_reader hlaunch)
        | refused hlaunch => exact absurd hbinds (not_binds_of_reader hlaunch)
      · apply (howned hbefore).update
        intro old hold
        exact absurd (hold.symm.trans hfree) (Option.some_ne_none old)
  | @stop p member hmember =>
      obtain ⟨hbefore, hkept⟩ := hcause.resolve_left id
      apply (howned hbefore).update
      exact fun old hold howns => hkept ⟨old, hold, howns⟩

/-- **No name outlives the writers.** In every state of every history in which no writer runs
that will remove the names, neither of them is bound. -/
theorem names_unbound {kernel : Kernel} (hsem : kernel.sems opts.sem = none)
    (hshm : kernel.shms opts.shm = none) {trace : List (State P × Action P)}
    (hrun : Run (Naming.step opts) (initial P kernel) trace state) (hnone : ¬ Owned opts state) :
    state.kernel.sems opts.sem = none ∧ state.kernel.shms opts.shm = none := by
  have hinvariant : Invariant opts state ∧
      (state.kernel.shms opts.shm ≠ none → Owned opts state) := by
    apply hrun.preserves
    · exact ⟨Invariant.initial hsem hshm, fun hbound => absurd hshm hbound⟩
    · rintro state action next ⟨hinv, howned⟩ hstep
      exact ⟨hinv.step hstep, owned_step hinv howned hstep⟩
  obtain ⟨hinv, howned⟩ := hinvariant
  constructor
  · by_contra hbound
    obtain ⟨entry, hentry⟩ := Option.ne_none_iff_exists'.mp hbound
    obtain ⟨-, -, q, owner, howner, howns, -⟩ := hinv.keeper entry hentry
    exact hnone ⟨q, owner, howner, howns⟩
  · by_contra hbound
    exact hnone (howned hbound)

end

/-- A forwarder outlives the writer it has started after. -/
def writerStops : List (Action Bool) :=
  [.start false (.writer ['p']) allSucceed, .start true (.forwarder 5000) allSucceed, .stop false]

theorem names_unbound_writerStops :
    ∃ trace state, Run (Naming.step ⟨['l'], ['s']⟩) (initial Bool bare) trace state ∧
      state.pair true = some (0, 1) ∧
        state.kernel.sems ['l'] = none ∧ state.kernel.shms ['s'] = none := by
  have hexec : ∃ state, exec (Naming.step ⟨['l'], ['s']⟩) (initial Bool bare) writerStops =
      some state ∧ state.pair true = some (0, 1) ∧ state.member false = none ∧
        ∃ process, state.member true = some (.forwarder process) :=
    ⟨_, rfl, rfl, rfl, _, rfl⟩
  obtain ⟨state, hstate, hpair, hwriter, process, hforwarder⟩ := hexec
  obtain ⟨trace, hrun, -⟩ := exists_run_of_exec hstate
  have hnone : ¬ Owned ⟨['l'], ['s']⟩ state := by
    rintro ⟨p, member, hmember, howns⟩
    cases p with
    | false => exact Option.some_ne_none member (hmember.symm.trans hwriter)
    | true =>
        obtain rfl := Option.some.inj (hmember.symm.trans hforwarder)
        exact howns
  exact ⟨trace, state, hrun, hpair, names_unbound rfl rfl hrun hnone⟩

end Embsys.Naming
