/-
# Runs of a transition system

A transition system is a partial step function on states and actions. A run is
recorded as its list of states and the actions taken in them, so that conditions
on steps and on states can both be stated along it. The rules: an invariant that
every admitted step preserves holds at the end of every run of admitted steps, and
a safety property that admitted steps keep and all others break holds along a run
exactly when all its steps are admitted. When each step is matched by the operation
at its linearization point, or by none, the operations of a whole run match the run.
What only events bring about has one of them as its cause, and what events bring about
and others undo holds exactly since one of them. A bound on the steps left until some
event goes down with each step that is counted.
-/

import Mathlib.Data.List.Basic
import Mathlib.Data.Nat.Notation

namespace Embsys.Math

variable {σ α β ο : Type*}

/-- A run from `start`: each entry is a state and the action taken in it. -/
inductive Run (step : σ → α → Option σ) (start : σ) : List (σ × α) → σ → Prop
  | nil : Run step start [] start
  | snoc {trace : List (σ × α)} {state next : σ} {action : α} :
      Run step start trace state → step state action = some next →
        Run step start (trace ++ [(state, action)]) next

/-- All actions of a list, one after the other. -/
def exec (step : σ → α → Option σ) : σ → List α → Option σ
  | state, [] => some state
  | state, action :: actions => (step state action).bind fun next => exec step next actions

/-- The steps of the system that are admitted, and no others. -/
def guarded (admitted : σ → α → Prop) [∀ state action, Decidable (admitted state action)]
    (step : σ → α → Option σ) (state : σ) (action : α) : Option σ :=
  if admitted state action then step state action else none

/-- The operations at the linearization points of a run, one after the other. -/
def replay (operate : β → ο → β) (point : σ → α → Option ο) (abstract : β)
    (trace : List (σ × α)) : β :=
  (trace.filterMap fun entry => point entry.1 entry.2).foldl operate abstract

theorem replay_snoc (operate : β → ο → β) (point : σ → α → Option ο) (abstract : β)
    (trace : List (σ × α)) (state : σ) (action : α) :
    replay operate point abstract (trace ++ [(state, action)]) =
      (point state action).elim (replay operate point abstract trace)
        (operate (replay operate point abstract trace)) := by
  cases hpoint : point state action with
  | none => simp [replay, hpoint]
  | some operation => simp [replay, hpoint]

section

variable {step : σ → α → Option σ} {start middle state : σ} {trace : List (σ × α)}

theorem Run.single {action : α} (hstep : step start action = some state) :
    Run step start [(start, action)] state := by
  simpa using Run.snoc Run.nil hstep

theorem Run.append {rest : List (σ × α)} (hfirst : Run step start trace middle)
    (hsecond : Run step middle rest state) : Run step start (trace ++ rest) state := by
  induction hsecond with
  | nil => simpa using hfirst
  | snoc hrun hstep ih =>
      rw [← List.append_assoc]
      exact Run.snoc ih hstep

/-- Executed actions make a run. -/
theorem exists_run_of_exec {actions : List α} (hexec : exec step start actions = some state) :
    ∃ trace, Run step start trace state ∧ trace.map Prod.snd = actions := by
  induction actions generalizing start with
  | nil =>
      obtain rfl := Option.some.inj hexec
      exact ⟨[], Run.nil, rfl⟩
  | cons action actions ih =>
      cases hstep : step start action with
      | none => simp [exec, hstep] at hexec
      | some next =>
          rw [exec, hstep, Option.bind_some] at hexec
          obtain ⟨trace, hrun, hactions⟩ := ih hexec
          exact ⟨(start, action) :: trace, (Run.single hstep).append hrun, by simp [hactions]⟩

/-- A run of the guarded system is a run of admitted steps. -/
theorem Run.of_guarded {admitted : σ → α → Prop}
    [∀ state action, Decidable (admitted state action)]
    (hrun : Run (guarded admitted step) start trace state) :
    Run step start trace state ∧ ∀ entry ∈ trace, admitted entry.1 entry.2 := by
  induction hrun with
  | nil => exact ⟨.nil, by simp⟩
  | snoc hrun hnext ih =>
      unfold guarded at hnext
      split_ifs at hnext with hadmitted
      refine ⟨ih.1.snoc hnext, List.forall_mem_append.mpr ⟨ih.2, ?_⟩⟩
      exact List.forall_mem_singleton.mpr hadmitted

/-- **Invariants.** What admitted steps preserve holds in every state of a run of
admitted steps. -/
theorem Run.invariant {admitted : σ → α → Prop} {I : σ → Prop} (hrun : Run step start trace state)
    (hadmitted : ∀ entry ∈ trace, admitted entry.1 entry.2) (hstart : I start)
    (hstep : ∀ state action next, I state → admitted state action →
      step state action = some next → I next) : I state := by
  induction hrun with
  | nil => exact hstart
  | snoc hrun hnext ih =>
      refine hstep _ _ _ (ih fun entry hentry => hadmitted entry (by simp [hentry])) ?_ hnext
      exact hadmitted _ (List.mem_append_right _ (List.mem_singleton_self _))

/-- What every step preserves holds in every state of every run. -/
theorem Run.preserves {I : σ → Prop} (hrun : Run step start trace state) (hstart : I start)
    (hstep : ∀ state action next, I state → step state action = some next → I next) :
    I state :=
  @Run.invariant _ _ _ _ _ _ (fun _ _ => True) _ hrun (fun _ _ => trivial) hstart
    fun state action next hI _ => hstep state action next hI

/-- What no step changes is at the end of a run as it was at its start. -/
theorem Run.kept {β : Type*} (f : σ → β) (hrun : Run step start trace state)
    (hstep : ∀ state action next, step state action = some next → f next = f state) :
    f state = f start := by
  induction hrun with
  | nil => rfl
  | snoc _ hnext ih => exact (hstep _ _ _ hnext).trans ih

/-- **Exact conditions.** When admitted steps keep a safety property and all other
steps break it at once, it holds along a run exactly when every step is admitted. -/
theorem Run.safe_iff {admitted : σ → α → Prop} {I safe : σ → Prop}
    (hrun : Run step start trace state) (hstart : I start) (hsafe : safe start)
    (hinvariant : ∀ state action next, I state → step state action = some next → I next)
    (hkeep : ∀ state action next, I state → safe state → admitted state action →
      step state action = some next → safe next)
    (hbreak : ∀ state action next, I state → ¬ admitted state action →
      step state action = some next → ¬ safe next) :
    ((∀ entry ∈ trace, safe entry.1) ∧ safe state) ↔
      ∀ entry ∈ trace, admitted entry.1 entry.2 := by
  suffices h : I state ∧ (((∀ entry ∈ trace, safe entry.1) ∧ safe state) ↔
      ∀ entry ∈ trace, admitted entry.1 entry.2) from h.2
  induction hrun with
  | nil => simpa using ⟨hstart, hsafe⟩
  | @snoc trace state next action hrun hnext ih =>
      obtain ⟨hI, hiff⟩ := ih
      refine ⟨hinvariant _ _ _ hI hnext, ?_⟩
      simp only [List.forall_mem_append, List.forall_mem_singleton]
      rw [hiff]
      constructor
      · rintro ⟨hall, hlast⟩
        refine ⟨hall, ?_⟩
        by_contra hbad
        exact hbreak _ _ _ hI hbad hnext hlast
      · rintro ⟨hall, hlast⟩
        exact ⟨hall, hkeep _ _ _ hI (hiff.mpr hall).2 hlast hnext⟩

/-- **Causes.** What holds after a step exactly when it held before or the step is such an
event holds at the end of a run exactly when it held at its start or an event took place. -/
theorem Run.iff_exists {I P : σ → Prop} {E : σ → α → Prop} (hrun : Run step start trace state)
    (hI : I start)
    (hinvariant : ∀ state action next, I state → step state action = some next → I next)
    (hstep : ∀ state action next, I state → step state action = some next →
      (P next ↔ P state ∨ E state action)) :
    P state ↔ P start ∨ ∃ entry ∈ trace, E entry.1 entry.2 := by
  induction hrun with
  | nil => simp
  | @snoc trace state next action hrun hnext ih =>
      rw [hstep _ _ _ (hrun.preserves hI hinvariant) hnext, ih, or_assoc]
      simp only [List.mem_append, List.mem_singleton, or_and_right, exists_or, exists_eq_left]

/-- **Since.** What events bring about and other steps may undo holds at the end of a run
exactly when an event took place in it and nothing after it undid it. -/
theorem Run.since_iff {I P : σ → Prop} {E C : σ → α → Prop} (hrun : Run step start trace state)
    (hI : I start) (hstart : ¬ P start)
    (hinvariant : ∀ state action next, I state → step state action = some next → I next)
    (hstep : ∀ state action next, I state → step state action = some next →
      (P next ↔ E state action ∨ P state ∧ ¬ C state action)) :
    P state ↔ ∃ before entry after, trace = before ++ entry :: after ∧ E entry.1 entry.2 ∧
      ∀ later ∈ after, ¬ C later.1 later.2 := by
  suffices h : I state ∧ (P state ↔ ∃ before entry after, trace = before ++ entry :: after ∧
      E entry.1 entry.2 ∧ ∀ later ∈ after, ¬ C later.1 later.2) from h.2
  induction hrun with
  | nil => exact ⟨hI, by simp [hstart]⟩
  | @snoc trace state next action hrun hnext ih =>
      obtain ⟨hIstate, hiff⟩ := ih
      refine ⟨hinvariant _ _ _ hIstate hnext, ?_⟩
      rw [hstep _ _ _ hIstate hnext, hiff]
      constructor
      · rintro (hevent | ⟨⟨before, entry, after, rfl, hevent, hafter⟩, hkept⟩)
        · exact ⟨trace, (state, action), [], rfl, hevent, by simp⟩
        · refine ⟨before, entry, after ++ [(state, action)], by simp, hevent, ?_⟩
          exact List.forall_mem_append.mpr ⟨hafter, List.forall_mem_singleton.mpr hkept⟩
      · rintro ⟨before, entry, after, htrace, hevent, hafter⟩
        -- the event is the last step or stands before it
        rcases List.eq_nil_or_concat after with rfl | ⟨earlier, last, rfl⟩
        · obtain ⟨-, hlast⟩ := List.append_inj' htrace rfl
          obtain rfl := List.singleton_inj.mp hlast
          exact Or.inl hevent
        · rw [List.concat_eq_append] at htrace hafter
          rw [← List.cons_append, ← List.append_assoc] at htrace
          obtain ⟨rfl, hlast⟩ := List.append_inj' htrace rfl
          obtain rfl := List.singleton_inj.mp hlast
          obtain ⟨hearlier, hkept⟩ := List.forall_mem_append.mp hafter
          exact Or.inr ⟨⟨before, entry, earlier, rfl, hevent, hearlier⟩,
            hkept _ (List.mem_singleton_self _)⟩

/-- **Simulation.** A relation that every step keeps, when the operation at its
linearization point is performed beside it, holds after a run and all its operations. -/
theorem Run.simulates {operate : β → ο → β} {point : σ → α → Option ο} {R : σ → β → Prop}
    {abstract : β} (hrun : Run step start trace state) (hstart : R start abstract)
    (hstep : ∀ state abstract action next, R state abstract → step state action = some next →
      R next ((point state action).elim abstract (operate abstract))) :
    R state (replay operate point abstract trace) := by
  induction hrun with
  | nil => exact hstart
  | @snoc trace state next action hrun hnext ih =>
      rw [replay_snoc]
      exact hstep _ _ _ _ ih hnext

/-- **Countdown.** `Left state k` says that at most `k` counted steps are left. When a
counted step takes one off and no other step adds any, enough counted steps leave none. -/
theorem Run.countdown {counted : α → Bool} {Left : σ → ℕ → Prop} {count : ℕ}
    (hrun : Run step start trace state) (hstart : Left start count)
    (hstep : ∀ state action next k, Left state k → step state action = some next →
      Left next (k - (counted action).toNat)) :
    Left state (count - trace.countP fun entry => counted entry.2) := by
  induction hrun with
  | nil => exact hstart
  | @snoc trace state next action hrun hnext ih =>
      have hlast := hstep _ _ _ _ ih hnext
      rw [List.countP_append, ← Nat.sub_sub]
      cases hcounted : counted action with
      | false => simpa [hcounted] using hlast
      | true => simpa [hcounted] using hlast

end

end Embsys.Math
