/-
# Who shares with the next to start

The next process to start takes the segment its name denotes then. A running process
shares it with the next one exactly when its own start has succeeded since the name was
last removed: a writer that stops, or fails once it has reached the name, cuts every
process that still runs off from all that start later.
-/

import Embsys.Naming.Coherence

namespace Embsys.Naming

open Embsys.Math Embsys.Os Embsys.Pipeline

variable {P : Type*}

/-- The process is attached to the segment the name denotes. -/
def Current (opts : Options) (p : P) (state : State P) : Prop :=
  ∃ pair entry, state.pair p = some pair ∧ state.kernel.shms opts.shm = some entry ∧
    entry.object = pair.2

/-- The start of this process, all its calls succeeding. -/
def Joins (opts : Options) (p : P) (state : State P) : Action P → Prop
  | .start q launch outcomes => q = p ∧ launch.succeeds opts outcomes state.kernel = true
  | .stop _ => False

/-- A writer removes the segment's name: it stops, or fails once it has reached it. -/
def Unlinks (opts : Options) (state : State P) : Action P → Prop
  | .start _ (.writer _) outcomes =>
      ShmWriter.reachesShm outcomes = true ∧ ShmWriter.succeeds outcomes = false
  | .start _ _ _ => False
  | .stop q => ∃ member, state.member q = some member ∧ member.Owns opts

/-- The process stops, or the name is removed. -/
def Leaves (opts : Options) (p : P) (state : State P) (action : Action P) : Prop :=
  action = .stop p ∨ Unlinks opts state action

section

variable [DecidableEq P] {opts : Options} {state : State P} {kernel : Kernel} {p q : P}

/-- While the name stays, another process that comes or goes changes nothing. -/
theorem current_update_of_ne (hne : q ≠ p) (member : Option Member)
    (hsame : kernel.shms opts.shm = state.kernel.shms opts.shm) :
    Current opts p ⟨kernel, Function.update state.member q member⟩ ↔ Current opts p state := by
  unfold Current
  rw [pair_update_of_ne hne.symm, ← State.pair, hsame]

omit [DecidableEq P] in
theorem not_current_of_none (hnone : state.kernel.shms opts.shm = none) :
    ¬ Current opts p state := by
  rintro ⟨pair, entry, -, hbound, -⟩
  exact Option.some_ne_none entry (hbound.symm.trans hnone)

omit [DecidableEq P] in
theorem not_leaves_of_reader {launch : Launch} {outcomes : Outcomes}
    (hlaunch : ∀ port, launch ≠ .writer port) :
    ¬ Leaves opts p state (.start q launch outcomes) := by
  rintro (hstop | hunlinks)
  · cases hstop
  · cases launch with
    | writer port => exact hlaunch port rfl
    | forwarder port => exact hunlinks
    | converter => exact hunlinks

/-- The start of the process itself. -/
theorem current_start_self (hinv : Invariant opts state) {launch : Launch} {outcomes : Outcomes}
    {member : Member} (hstarted : Started opts outcomes state.kernel kernel member launch) :
    Current opts p ⟨kernel, Function.update state.member p (some member)⟩ ↔
      launch.succeeds opts outcomes state.kernel = true := by
  cases hstarted with
  | joined hdone hpair howns hnext hsem hshm =>
      obtain ⟨-, entry, hbound, hobject, -⟩ := hshm.bound hinv.shm_made hnext
      exact iff_of_true ⟨_, entry, by rw [pair_update_self]; exact hpair, hbound, hobject⟩ hdone
  | dropped hfailed hpair =>
      refine iff_of_false ?_ (Bool.eq_false_iff.mp hfailed)
      rintro ⟨pair, entry, hnew, -⟩
      rw [pair_update_self] at hnew
      exact Option.some_ne_none pair (hnew.symm.trans hpair)
  | found hlaunch hdone hsem hshm hpair hinert hsems hshms =>
      exact iff_of_true ⟨_, _, by rw [pair_update_self]; exact hpair,
        (congrFun hshms _).trans hshm, rfl⟩ hdone
  | refused hlaunch hfailed hpair =>
      refine iff_of_false ?_ (Bool.eq_false_iff.mp hfailed)
      rintro ⟨pair, entry, hnew, -⟩
      rw [pair_update_self] at hnew
      exact Option.some_ne_none pair (hnew.symm.trans hpair)

/-- The start of another process. -/
theorem current_start_of_ne (hinv : Invariant opts state) (hne : q ≠ p) {launch : Launch}
    {outcomes : Outcomes} {member : Member}
    (hstarted : Started opts outcomes state.kernel kernel member launch) :
    Current opts p ⟨kernel, Function.update state.member q (some member)⟩ ↔
      Current opts p state ∧ ¬ Leaves opts p state (.start q launch outcomes) := by
  cases hstarted with
  | joined hdone hpair howns hnext hsem hshm =>
      have hkeeps : ∀ port, ¬ Leaves opts p state (.start q (.writer port) outcomes) := by
        rintro port (hstop | ⟨-, hfailed⟩)
        · cases hstop
        · exact Bool.false_ne_true (hfailed.symm.trans hdone)
      cases hshm with
      | found hbefore hafter =>
          rw [current_update_of_ne hne _ (hafter.trans hbefore.symm), and_iff_left (hkeeps _)]
      | made hbefore hafter hfirst =>
          refine iff_of_false ?_ fun hcurrent => not_current_of_none hbefore hcurrent.1
          -- the process was attached before this object was made
          rintro ⟨pair, entry, hold, hbound, hobject⟩
          rw [pair_update_of_ne hne.symm] at hold
          obtain rfl := Option.some.inj (hafter.symm.trans hbound)
          exact Nat.ne_of_gt (Nat.lt_of_lt_of_le (hinv.pair_made p _ _ hold).2 hfirst) hobject
  | dropped hfailed hpair hinert hnext hsems hshms =>
      cases hreached : ShmWriter.reachesShm outcomes with
      | true =>
          rw [hreached, if_pos rfl] at hshms
          refine iff_of_false (not_current_of_none ?_) fun hcurrent => ?_
          · exact (congrFun hshms _).trans hinv.shm_made.unlink
          · exact hcurrent.2 (Or.inr ⟨hreached, hfailed⟩)
      | false =>
          rw [hreached, if_neg Bool.false_ne_true] at hshms
          rw [current_update_of_ne hne _ (congrFun hshms _), iff_self_and]
          rintro - (hstop | ⟨htrue, -⟩)
          · cases hstop
          · exact Bool.false_ne_true (hreached.symm.trans htrue)
  | found hlaunch _ _ _ _ _ _ hshms =>
      rw [current_update_of_ne hne _ (congrFun hshms _),
        and_iff_left (not_leaves_of_reader hlaunch)]
  | refused hlaunch _ _ _ _ hshms =>
      rw [current_update_of_ne hne _ (congrFun hshms _),
        and_iff_left (not_leaves_of_reader hlaunch)]

/-- A stop. -/
theorem current_stop (hinv : Invariant opts state) {member : Member}
    (hmember : state.member q = some member) :
    Current opts p ⟨member.hndclose state.kernel, Function.update state.member q none⟩ ↔
      Current opts p state ∧ ¬ Leaves opts p state (.stop q) := by
  by_cases hqp : q = p
  · subst hqp
    refine iff_of_false ?_ fun hcurrent => hcurrent.2 (Or.inl rfl)
    rintro ⟨pair, entry, hnew, -⟩
    simp at hnew
  · rcases hinv.kind q member hmember with howns | hinert
    · rw [hndclose_of_owns howns]
      refine iff_of_false (not_current_of_none hinv.shm_made.unlink) fun hcurrent => ?_
      exact hcurrent.2 (Or.inr ⟨member, hmember, howns⟩)
    · rw [hndclose_of_inert hinert, current_update_of_ne hqp _ rfl, iff_self_and]
      rintro - (hstop | ⟨other, hother, howns⟩)
      · exact hqp (Action.stop.inj hstop)
      · obtain rfl := Option.some.inj (hmember.symm.trans hother)
        exact hinert.not_owns howns

/-- **What a step does** to sharing with the next to start. -/
theorem current_step (hinv : Invariant opts state) {action : Action P} {next : State P}
    (hstep : Naming.step opts state action = some next) :
    Current opts p next ↔
      Joins opts p state action ∨ Current opts p state ∧ ¬ Leaves opts p state action := by
  cases step_move hstep with
  | @start q launch outcomes kernel member hfree hstarted =>
      by_cases hqp : q = p
      · subst hqp
        have hnot : ¬ Current opts q state := by
          rintro ⟨pair, entry, hpair, -⟩
          simp [State.pair, hfree] at hpair
        rw [current_start_self hinv hstarted, or_iff_left fun hcurrent => hnot hcurrent.1]
        exact (and_iff_right rfl).symm
      · rw [current_start_of_ne hinv hqp hstarted, or_iff_right fun hjoins => hqp hjoins.1]
  | stop hmember =>
      rw [current_stop hinv hmember]
      exact (or_iff_right fun hjoins : False => hjoins).symm

/-- **Sharing.** At the end of any history of starts and stops a process is attached to
the segment its name denotes, which the next one to start will take, exactly when its
start succeeded and since then it has not stopped and no writer has removed the name. -/
theorem current_iff {kernel : Kernel} (hsem : kernel.sems opts.sem = none)
    (hshm : kernel.shms opts.shm = none) {trace : List (State P × Action P)}
    (hrun : Run (Naming.step opts) (initial P kernel) trace state) (p : P) :
    Current opts p state ↔ ∃ before entry after, trace = before ++ entry :: after ∧
      Joins opts p entry.1 entry.2 ∧ ∀ later ∈ after, ¬ Leaves opts p later.1 later.2 := by
  refine hrun.since_iff (Invariant.initial hsem hshm) (not_current_of_none hshm) ?_ ?_
  · exact fun _ _ _ hinv hstep => hinv.step hstep
  · exact fun _ _ _ hinv hstep => current_step hinv hstep

end

/-- A writer and a forwarder run, and a second writer fails at `ftruncate`. -/
def failsLate : List (Action ℕ) :=
  [.start 0 (.writer ['p']) allSucceed, .start 1 (.forwarder 5000) allSucceed,
    .start 2 (.writer ['q']) { allSucceed with ftruncate := false }]

theorem current_iff_failsLate :
    ∃ trace state, Run (Naming.step ⟨['l'], ['s']⟩) (Naming.initial ℕ bare) trace state ∧
      state.pair 0 = some (0, 1) ∧ state.pair 1 = some (0, 1) ∧
        (Current ⟨['l'], ['s']⟩ 1 state ↔ ∃ before entry after, trace = before ++ entry :: after ∧
          Joins ⟨['l'], ['s']⟩ 1 entry.1 entry.2 ∧
            ∀ later ∈ after, ¬ Leaves ⟨['l'], ['s']⟩ 1 later.1 later.2) := by
  have hexec : ∃ state, exec (Naming.step ⟨['l'], ['s']⟩) (Naming.initial ℕ bare)
      failsLate = some state ∧ state.pair 0 = some (0, 1) ∧ state.pair 1 = some (0, 1) :=
    ⟨_, rfl, rfl, rfl⟩
  obtain ⟨state, hstate, hwriter, hforwarder⟩ := hexec
  obtain ⟨trace, hrun, -⟩ := exists_run_of_exec hstate
  exact ⟨trace, state, hrun, hwriter, hforwarder, current_iff rfl rfl hrun 1⟩

end Embsys.Naming
