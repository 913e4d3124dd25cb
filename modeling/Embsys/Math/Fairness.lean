/-
# Infinite runs and strong fairness

An infinite run is fair to an action when it takes it infinitely often if it can take it
infinitely often. Two rules: a fair action whose precondition only the action itself ends
is taken, once it can be taken again and again; and an action that stays possible and
comes nearer to a goal each time it is taken reaches the goal. A run that repeats one
list of actions is fair to all of them.
-/

import Mathlib.Data.Nat.Find
import Mathlib.Data.List.GetD
import Embsys.Math.Transition

namespace Embsys.Math

variable {σ α : Type*}

/-- An infinite run: its states and the actions taken in them. -/
structure Path (step : σ → α → Option σ) (start : σ) where
  state : ℕ → σ
  action : ℕ → α
  state_zero : state 0 = start
  step_eq : ∀ n, step (state n) (action n) = some (state (n + 1))

namespace Path

variable {step : σ → α → Option σ} {start : σ}

/-- The entries from position `n` on, `count` of them. -/
def trace (path : Path step start) (n : ℕ) : ℕ → List (σ × α)
  | 0 => []
  | count + 1 => path.trace n count ++ [(path.state (n + count), path.action (n + count))]

theorem run (path : Path step start) (n count : ℕ) :
    Run step (path.state n) (path.trace n count) (path.state (n + count)) := by
  induction count with
  | zero => exact Run.nil
  | succ count ih => exact Run.snoc ih (path.step_eq (n + count))

theorem run_zero (path : Path step start) (n : ℕ) :
    Run step start (path.trace 0 n) (path.state n) := by
  have hrun := path.run 0 n
  rwa [path.state_zero, Nat.zero_add] at hrun

/-- Strong fairness to one action. -/
def Fair (path : Path step start) (action : α) : Prop :=
  (∀ n, ∃ m, n ≤ m ∧ (step (path.state m) action).isSome) →
    ∀ n, ∃ m, n ≤ m ∧ path.action m = action

variable {path : Path step start} {action : α} {n : ℕ}

/-- **Taking.** If nothing but the action ends the precondition, and under a lasting
precondition the action becomes possible again and again, it is taken. -/
theorem Fair.takes (hfair : path.Fair action) {P : σ → Prop} (hstart : P (path.state n))
    (hkeep : ∀ m, P (path.state m) → path.action m ≠ action → P (path.state (m + 1)))
    (henabled : (∀ m, n ≤ m → P (path.state m)) →
      ∀ m, n ≤ m → ∃ k, m ≤ k ∧ (step (path.state k) action).isSome) :
    ∃ m, n ≤ m ∧ P (path.state m) ∧ path.action m = action := by
  by_contra hnever
  have hlasting : ∀ m, n ≤ m → P (path.state m) := by
    intro m hm
    induction m, hm using Nat.le_induction with
    | base => exact hstart
    | succ m hm ih => exact hkeep m ih fun haction => hnever ⟨m, hm, ih, haction⟩
  have hoften : ∀ m, ∃ k, m ≤ k ∧ (step (path.state k) action).isSome := by
    intro m
    obtain ⟨k, hk, hsome⟩ := henabled hlasting (max n m) (Nat.le_max_left n m)
    exact ⟨k, Nat.le_trans (Nat.le_max_right n m) hk, hsome⟩
  obtain ⟨m, hm, haction⟩ := hfair hoften n
  exact hnever ⟨m, hm, hlasting m hm, haction⟩

/-- **Reaching.** An action that is possible until the goal is reached, and comes nearer to
it each time, reaches it; the induction is on how far it is. -/
theorem Fair.reaches (hfair : path.Fair action) (P Q : σ → Prop) (rank : σ → ℕ)
    (hstart : P (path.state n))
    (henabled : ∀ m, P (path.state m) → (step (path.state m) action).isSome)
    (hown : ∀ m, P (path.state m) → path.action m = action →
      Q (path.state (m + 1)) ∨
        P (path.state (m + 1)) ∧ rank (path.state (m + 1)) < rank (path.state m))
    (hother : ∀ m, P (path.state m) → path.action m ≠ action →
      P (path.state (m + 1)) ∧ rank (path.state (m + 1)) = rank (path.state m)) :
    ∃ m, n ≤ m ∧ Q (path.state m) := by
  induction hrank : rank (path.state n) using Nat.strong_induction_on generalizing n with
  | _ bound ih =>
      obtain ⟨m, hm, ⟨hP, hsame⟩, haction⟩ :=
        hfair.takes (P := fun state => P state ∧ rank state = bound) ⟨hstart, hrank⟩
          (fun m h hne => ⟨(hother m h.1 hne).1, (hother m h.1 hne).2.trans h.2⟩)
          fun hlasting m hm => ⟨m, le_rfl, henabled m (hlasting m hm).1⟩
      rcases hown m hP haction with hQ | ⟨hnext, hless⟩
      · exact ⟨m + 1, Nat.le_succ_of_le hm, hQ⟩
      · obtain ⟨k, hk, hQ⟩ := ih _ (hsame ▸ hless) hnext rfl
        exact ⟨k, Nat.le_trans (Nat.le_succ_of_le hm) hk, hQ⟩

theorem trace_append (path : Path step start) (n first second : ℕ) :
    path.trace n (first + second) = path.trace n first ++ path.trace (n + first) second := by
  induction second with
  | zero => simp [trace]
  | succ second ih => rw [← Nat.add_assoc, trace, ih, trace, List.append_assoc, Nat.add_assoc n]

/-- An action taken infinitely often is taken any number of times after any position. -/
theorem exists_countP {counted : α → Bool}
    (hoften : ∀ n, ∃ m, n ≤ m ∧ counted (path.action m) = true) (n times : ℕ) :
    ∃ count, times ≤ (path.trace n count).countP fun entry => counted entry.2 := by
  induction times with
  | zero => exact ⟨0, Nat.zero_le _⟩
  | succ times ih =>
      obtain ⟨count, hcount⟩ := ih
      obtain ⟨m, hm, haction⟩ := hoften (n + count)
      obtain ⟨gap, rfl⟩ := Nat.exists_eq_add_of_le hm
      refine ⟨count + (gap + 1), ?_⟩
      rw [trace_append, List.countP_append, trace, List.countP_append]
      simp only [List.countP_singleton, haction, if_true]
      omega

end Path

/-! ## Repeating a list of actions -/

section Cycle

variable {step : σ → α → Option σ} {start : σ} {actions : List α} {I : σ → Prop}

/-- One step of the schedule: the first action left, and the whole list when it was the last. -/
def cycleStep (step : σ → α → Option σ) (actions : List α) : σ × List α → σ × List α
  | (state, []) => (state, actions)
  | (state, [action]) => ((step state action).getD state, actions)
  | (state, action :: next :: rest) => ((step state action).getD state, next :: rest)

/-- The state and the actions left after `n` steps of the schedule. -/
def cycle (step : σ → α → Option σ) (start : σ) (actions : List α) : ℕ → σ × List α
  | 0 => (start, actions)
  | n + 1 => cycleStep step actions (cycle step start actions n)

/-- The actions left are an end of the list, can all be taken and lead to a state of the
cycle. -/
structure Scheduled (step : σ → α → Option σ) (I : σ → Prop) (actions : List α)
    (config : σ × List α) : Prop where
  left : config.2 ≠ []
  ends : config.2 <:+ actions
  leads : ∃ next, exec step config.1 config.2 = some next ∧ I next

/-- The list leads from each state of the set back into it. -/
def Cycles (step : σ → α → Option σ) (I : σ → Prop) (actions : List α) : Prop :=
  actions ≠ [] ∧ ∀ state, I state → ∃ next, exec step state actions = some next ∧ I next

theorem Cycles.scheduled (hcycle : Cycles step I actions) {state : σ} (hstate : I state) :
    Scheduled step I actions (state, actions) :=
  ⟨hcycle.1, List.suffix_rfl, hcycle.2 state hstate⟩

/-- The first action left is taken. Then the rest is left or, after the last, the list. -/
theorem Scheduled.taken (hcycle : Cycles step I actions) {config : σ × List α}
    (h : Scheduled step I actions config) :
    Scheduled step I actions (cycleStep step actions config) ∧
      step config.1 (config.2.head h.left) = some (cycleStep step actions config).1 := by
  obtain ⟨state, left⟩ := config
  obtain ⟨last, hexec, hlast⟩ := h.leads
  match left with
  | [] => exact absurd rfl h.left
  | [action] =>
      obtain ⟨next, hstep, hrest⟩ := Option.bind_eq_some_iff.mp hexec
      obtain rfl := Option.some.inj hrest
      simp only [cycleStep, hstep, Option.getD_some]
      exact ⟨hcycle.scheduled hlast, hstep⟩
  | action :: second :: rest =>
      obtain ⟨next, hstep, hrest⟩ := Option.bind_eq_some_iff.mp hexec
      simp only [cycleStep, hstep, Option.getD_some]
      have hends := (List.suffix_cons action (second :: rest)).trans h.ends
      exact ⟨⟨List.cons_ne_nil _ _, hends, last, hrest, hlast⟩, hstep⟩

theorem scheduled_cycle (hcycle : Cycles step I actions) (hstart : I start) (n : ℕ) :
    Scheduled step I actions (cycle step start actions n) := by
  induction n with
  | zero => exact hcycle.scheduled hstart
  | succ n ih => exact (ih.taken hcycle).1

/-- The run that repeats the list. -/
def cyclePath (hcycle : Cycles step I actions) (hstart : I start) : Path step start where
  state n := (cycle step start actions n).1
  action n := (cycle step start actions n).2.head (scheduled_cycle hcycle hstart n).left
  state_zero := rfl
  step_eq := fun n => ((scheduled_cycle hcycle hstart n).taken hcycle).2

/-- What is left is taken before the list starts again. -/
theorem cyclePath_reaches (hcycle : Cycles step I actions) (hstart : I start) {action : α}
    {before after : List α} {n : ℕ}
    (hleft : (cycle step start actions n).2 = before ++ action :: after) :
    ∃ m, n ≤ m ∧ (cyclePath hcycle hstart).action m = action := by
  induction before generalizing n with
  | nil =>
      refine ⟨n, le_rfl, ?_⟩
      simp only [cyclePath, hleft, List.nil_append, List.head_cons]
  | cons first before ih =>
      have hrest : (cycle step start actions (n + 1)).2 = before ++ action :: after := by
        rw [cycle]
        generalize cycle step start actions n = config at hleft ⊢
        obtain ⟨state, left⟩ := config
        obtain rfl : left = first :: (before ++ action :: after) := hleft
        cases before <;> rfl
      obtain ⟨m, hm, haction⟩ := ih hrest
      exact ⟨m, Nat.le_of_succ_le hm, haction⟩

/-- After the last action the whole list is left again. -/
theorem exists_cycle_eq (hcycle : Cycles step I actions) (hstart : I start) (n : ℕ) :
    ∃ m, n ≤ m ∧ (cycle step start actions m).2 = actions := by
  induction hlength : (cycle step start actions n).2.length using Nat.strong_induction_on
    generalizing n with
  | _ length ih =>
      have hn := (scheduled_cycle hcycle hstart n).left
      have hnext : (cycle step start actions (n + 1)).2 = actions ∨
          (cycle step start actions (n + 1)).2.length < length := by
        rw [cycle, ← hlength]
        generalize cycle step start actions n = config at hn ⊢
        obtain ⟨state, left⟩ := config
        match left with
        | [] => exact absurd rfl hn
        | [action] => exact Or.inl rfl
        | action :: second :: rest => exact Or.inr (Nat.lt_succ_self _)
      rcases hnext with hagain | hless
      · exact ⟨n + 1, Nat.le_succ n, hagain⟩
      · obtain ⟨m, hm, hagain⟩ := ih _ hless (n + 1) rfl
        exact ⟨m, Nat.le_of_succ_le hm, hagain⟩

theorem cyclePath_mem (hcycle : Cycles step I actions) (hstart : I start) (n : ℕ) :
    (cyclePath hcycle hstart).action n ∈ actions :=
  (scheduled_cycle hcycle hstart n).ends.mem (List.head_mem _)

/-- A run that repeats a list of actions takes each of them infinitely often. -/
theorem cyclePath_often (hcycle : Cycles step I actions) (hstart : I start) {action : α}
    (haction : action ∈ actions) (n : ℕ) :
    ∃ m, n ≤ m ∧ (cyclePath hcycle hstart).action m = action := by
  obtain ⟨m, hm, hagain⟩ := exists_cycle_eq hcycle hstart n
  obtain ⟨before, after, hactions⟩ := List.append_of_mem haction
  obtain ⟨k, hk, htaken⟩ := cyclePath_reaches hcycle hstart (hagain.trans hactions)
  exact ⟨k, Nat.le_trans hm hk, htaken⟩

/-- **Cycles are fair.** -/
theorem cyclePath_fair (hcycle : Cycles step I actions) (hstart : I start) {action : α}
    (haction : action ∈ actions) : (cyclePath hcycle hstart).Fair action :=
  fun _ => cyclePath_often hcycle hstart haction

end Cycle

end Embsys.Math
