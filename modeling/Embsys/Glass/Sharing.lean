/-
# The shared glass

Servers pour into a glass in shared memory and drinkers sip from it. Nothing keeps them
apart: the test of the glass, its load and its store are three accesses, and so is each
look at it that a drinker prints. One server and one drinker are the two opposed workers on
one cell, so the glass stays between empty and one pour above full however their accesses
fall. Two drinkers can take more than there is, two servers can pour more than there is
room for.
-/

import Mathlib.Algebra.Order.Ring.Rat
import Mathlib.Data.Sum.Basic
import Mathlib.Order.Monotone.Defs
import Mathlib.Tactic.Linarith
import Embsys.Math.Cell
import Embsys.Math.Transition

namespace Embsys.Glass

open Embsys.Math

/-- What the results need of `float`: the value that an assignment stores for an exact sum
or difference, and the constants `0.1` and `0.3` as the compiler reads them. -/
structure Arithmetic where
  round : ℚ → ℚ
  tenth : ℚ
  threeTenths : ℚ
  round_mono : Monotone round
  round_round : ∀ x, round (round x) = round x
  round_zero : round 0 = 0
  tenth_nonneg : 0 ≤ tenth
  threeTenths_nonneg : 0 ≤ threeTenths

namespace Arithmetic

variable (arithmetic : Arithmetic)

/-- A value that a `float` can have. -/
abbrev Value : Type := { x : ℚ // arithmetic.round x = x }

/-- The value stored. -/
def store (x : ℚ) : arithmetic.Value := ⟨arithmetic.round x, arithmetic.round_round x⟩

/-- `(* glass) + 0.1`, stored. -/
def pour (glass : arithmetic.Value) : arithmetic.Value :=
  arithmetic.store (glass.val + arithmetic.tenth)

/-- `(*glass) - 0.3`, stored. -/
def sip (glass : arithmetic.Value) : arithmetic.Value :=
  arithmetic.store (glass.val - arithmetic.threeTenths)

/-- The glass with nothing in it. -/
def empty : arithmetic.Value := ⟨0, arithmetic.round_zero⟩

/-- One pour above full. -/
def brim : arithmetic.Value := arithmetic.store (1 + arithmetic.tenth)

end Arithmetic

/-! ## The programs -/

/-- Where a drinker stands in its loop. -/
inductive DrinkerPc (α : Type)
  | test
  | load
  | store (loaded : α)
  | print

structure State (arithmetic : Arithmetic) (S D : Type) where
  glass : arithmetic.Value
  server : S → Phase arithmetic.Value
  drinker : D → DrinkerPc arithmetic.Value
  printed : D → List arithmetic.Value

/-- The process that takes the next step. -/
inductive Action (S D : Type)
  | server (s : S)
  | drinker (d : D)

variable {arithmetic : Arithmetic} {S D : Type} [DecidableEq S] [DecidableEq D]

def step (state : State arithmetic S D) : Action S D → Option (State arithmetic S D)
  | .server s =>
      let goto := Function.update state.server s
      match state.server s with
      | .test =>
          if state.glass.val < 1 then some { state with server := goto .load } else some state
      | .load => some { state with server := goto (.store state.glass) }
      | .store loaded =>
          some { state with glass := arithmetic.pour loaded, server := goto .test }
  | .drinker d =>
      let goto := Function.update state.drinker d
      match state.drinker d with
      | .test =>
          if arithmetic.threeTenths < state.glass.val then
            some { state with drinker := goto .load }
          else some { state with drinker := goto .print }
      | .load => some { state with drinker := goto (.store state.glass) }
      | .store loaded =>
          some { state with glass := arithmetic.sip loaded, drinker := goto .print }
      | .print =>
          some { state with
            drinker := goto .test
            printed := Function.update state.printed d (state.printed d ++ [state.glass]) }

/-- All processes at the start of their loops. -/
def initial (S D : Type) (glass : arithmetic.Value) : State arithmetic S D where
  glass := glass
  server := fun _ => .test
  drinker := fun _ => .test
  printed := fun _ => []

/-! ## The glass as a cell -/

def server (arithmetic : Arithmetic) : Worker arithmetic.Value where
  guard glass := glass.val < 1
  update := arithmetic.pour

def drinker (arithmetic : Arithmetic) : Worker arithmetic.Value where
  guard glass := arithmetic.threeTenths < glass.val
  update := arithmetic.sip

/-- To the glass a drinker that is about to print is done. -/
def DrinkerPc.phase {α : Type} : DrinkerPc α → Phase α
  | .test | .print => .test
  | .load => .load
  | .store loaded => .store loaded

def State.cell (state : State arithmetic S D) : Cell (S ⊕ D) arithmetic.Value where
  value := state.glass
  phase := Sum.elim state.server (DrinkerPc.phase ∘ state.drinker)

theorem cell_updateServer (state : State arithmetic S D) (glass : arithmetic.Value) (s : S)
    (phase : Phase arithmetic.Value) :
    State.cell { state with glass := glass, server := Function.update state.server s phase } =
      ⟨glass, Function.update state.cell.phase (.inl s) phase⟩ :=
  congrArg (Cell.mk glass) Sum.update_elim_inl.symm

theorem cell_updateDrinker (state : State arithmetic S D) (glass : arithmetic.Value) (d : D)
    (pc : DrinkerPc arithmetic.Value) :
    State.cell { state with glass := glass, drinker := Function.update state.drinker d pc } =
      ⟨glass, Function.update state.cell.phase (.inr d) pc.phase⟩ := by
  apply congrArg (Cell.mk glass)
  rw [Function.comp_update]
  exact Sum.update_elim_inr.symm

/-- A drinker that only goes on to or from its print leaves the cell alone. -/
theorem cell_updateDrinker_same {state : State arithmetic S D} {d : D}
    {pc : DrinkerPc arithmetic.Value} (hpc : pc.phase = (state.drinker d).phase) :
    State.cell { state with drinker := Function.update state.drinker d pc } = state.cell := by
  rw [cell_updateDrinker, hpc]
  exact congrArg (Cell.mk state.glass) (Function.update_eq_self (.inr d) state.cell.phase)

/-- **A server works on the cell.** -/
theorem cell_server {state next : State arithmetic S D} {s : S}
    (hstep : step state (.server s) = some next) :
    next.cell = state.cell.step (workers (server arithmetic) (drinker arithmetic)) (.inl s) ∧
      next.printed = state.printed := by
  have hphase : state.cell.phase (.inl s) = state.server s := rfl
  unfold step at hstep
  unfold Cell.step
  rw [hphase]
  cases hserver : state.server s with
  | test =>
      simp only [hserver] at hstep
      by_cases hguard : state.glass.val < 1
      · obtain rfl := Option.some.inj ((if_pos hguard).symm.trans hstep)
        refine ⟨?_, rfl⟩
        rw [cell_updateServer]
        exact (if_pos (decide_eq_true hguard)).symm
      · obtain rfl := Option.some.inj ((if_neg hguard).symm.trans hstep)
        exact ⟨(if_neg fun hpass => hguard (of_decide_eq_true hpass)).symm, rfl⟩
  | load =>
      simp only [hserver] at hstep
      obtain rfl := Option.some.inj hstep
      exact ⟨cell_updateServer state _ s _, rfl⟩
  | store loaded =>
      simp only [hserver] at hstep
      obtain rfl := Option.some.inj hstep
      exact ⟨cell_updateServer state _ s _, rfl⟩

/-- **A drinker works on the cell** but for its prints, which show the cell. -/
theorem cell_drinker {state next : State arithmetic S D} {d : D}
    (hstep : step state (.drinker d) = some next) :
    (next.cell = state.cell.step (workers (server arithmetic) (drinker arithmetic)) (.inr d) ∧
        next.printed = state.printed) ∨
      (next.cell = state.cell ∧
        next.printed = Function.update state.printed d (state.printed d ++ [state.glass])) := by
  have hphase : state.cell.phase (.inr d) = (state.drinker d).phase := rfl
  unfold step at hstep
  unfold Cell.step
  rw [hphase]
  cases hdrinker : state.drinker d with
  | test =>
      simp only [hdrinker] at hstep
      left
      by_cases hguard : arithmetic.threeTenths < state.glass.val
      · obtain rfl := Option.some.inj ((if_pos hguard).symm.trans hstep)
        refine ⟨?_, rfl⟩
        rw [cell_updateDrinker]
        exact (if_pos (decide_eq_true hguard)).symm
      · obtain rfl := Option.some.inj ((if_neg hguard).symm.trans hstep)
        refine ⟨?_, rfl⟩
        rw [cell_updateDrinker_same (hdrinker ▸ rfl)]
        exact (if_neg fun hpass => hguard (of_decide_eq_true hpass)).symm
  | load =>
      simp only [hdrinker] at hstep
      obtain rfl := Option.some.inj hstep
      exact Or.inl ⟨cell_updateDrinker state _ d _, rfl⟩
  | store loaded =>
      simp only [hdrinker] at hstep
      obtain rfl := Option.some.inj hstep
      exact Or.inl ⟨cell_updateDrinker state _ d _, rfl⟩
  | print =>
      simp only [hdrinker] at hstep
      obtain rfl := Option.some.inj hstep
      exact Or.inr ⟨cell_updateDrinker_same (hdrinker ▸ rfl), rfl⟩

/-! ## Bounds -/

theorem le_pour (glass : arithmetic.Value) : glass ≤ arithmetic.pour glass := by
  change glass.val ≤ arithmetic.round (glass.val + arithmetic.tenth)
  conv_lhs => rw [← glass.property]
  apply arithmetic.round_mono
  exact le_add_of_nonneg_right arithmetic.tenth_nonneg

theorem sip_le (glass : arithmetic.Value) : arithmetic.sip glass ≤ glass := by
  change arithmetic.round (glass.val - arithmetic.threeTenths) ≤ glass.val
  conv_rhs => rw [← glass.property]
  apply arithmetic.round_mono
  exact sub_le_self _ arithmetic.threeTenths_nonneg

/-- Server and drinker pull the glass to opposite sides. -/
theorem opposed (arithmetic : Arithmetic) :
    Opposed (server arithmetic) (drinker arithmetic) arithmetic.empty arithmetic.brim where
  raise_guard := by
    intro x y hle hguard
    simp only [server, decide_eq_true_eq] at hguard ⊢
    exact lt_of_le_of_lt hle hguard
  lower_guard := by
    intro x y hle hguard
    simp only [drinker, decide_eq_true_eq] at hguard ⊢
    exact lt_of_lt_of_le hguard hle
  le_raise := le_pour
  lower_le := sip_le
  raise_le := by
    intro x hguard
    simp only [server, decide_eq_true_eq] at hguard
    apply arithmetic.round_mono
    exact add_le_add_left hguard.le _
  le_lower := by
    intro x hguard
    simp only [drinker, decide_eq_true_eq] at hguard
    change 0 ≤ arithmetic.round (x.val - arithmetic.threeTenths)
    rw [← arithmetic.round_zero]
    apply arithmetic.round_mono
    exact sub_nonneg.mpr hguard.le

/-- Between empty and one pour above full. -/
def Within (glass : arithmetic.Value) : Prop :=
  arithmetic.empty ≤ glass ∧ glass ≤ arithmetic.brim

/-- The glass is within its bounds now and was at every print. -/
def State.Within (state : State arithmetic S D) : Prop :=
  Glass.Within state.glass ∧ ∀ d, ∀ glass ∈ state.printed d, Glass.Within glass

/-- **One of each.** A server and a drinker keep the glass within its bounds however their
accesses fall. -/
theorem within_of_run [Subsingleton S] [Subsingleton D] {glass : arithmetic.Value}
    (hglass : Within glass) {trace : List (State arithmetic S D × Action S D)}
    {state : State arithmetic S D} (hrun : Run step (initial S D glass) trace state) :
    state.Within := by
  have hopposed := opposed arithmetic
  suffices h : Steady (server arithmetic) (drinker arithmetic) arithmetic.empty arithmetic.brim
      state.cell ∧ ∀ d, ∀ glass ∈ state.printed d, Within glass from
    ⟨⟨h.1.low, h.1.high⟩, h.2⟩
  apply hrun.preserves
  · exact ⟨⟨hglass.1, hglass.2, fun _ => trivial, fun _ => trivial⟩, by simp [initial]⟩
  · rintro state action next ⟨hsteady, hprinted⟩ hstep
    cases action with
    | server s =>
        obtain ⟨hcell, hsame⟩ := cell_server hstep
        rw [hcell, hsame]
        exact ⟨hsteady.raises hopposed s, hprinted⟩
    | drinker d =>
        rcases cell_drinker hstep with ⟨hcell, hsame⟩ | ⟨hcell, hprint⟩
        · rw [hcell, hsame]
          exact ⟨hsteady.lowers hopposed d, hprinted⟩
        · rw [hcell, hprint]
          refine ⟨hsteady, fun e => ?_⟩
          by_cases he : e = d
          · subst he
            rw [Function.update_self, List.forall_mem_append, List.forall_mem_singleton]
            exact ⟨hprinted e, hsteady.low, hsteady.high⟩
          · rw [Function.update_of_ne he]
            exact hprinted e

/-! ## Two of a kind -/

/-- Two drinkers that have both passed the test both sip. -/
theorem exists_sip_sip {first second : D} (hne : first ≠ second) {glass : arithmetic.Value}
    (hguard : arithmetic.threeTenths < glass.val) :
    ∃ state, exec step (initial S D glass)
        [.drinker first, .drinker second, .drinker second, .drinker second, .drinker first,
          .drinker first] = some state ∧
      state.glass = arithmetic.sip (arithmetic.sip glass) := by
  simp [exec, step, initial, hguard, hne, hne.symm]

/-- Two servers that have both passed the test both pour. -/
theorem exists_pour_pour {first second : S} (hne : first ≠ second) {glass : arithmetic.Value}
    (hguard : glass.val < 1) :
    ∃ state, exec step (initial S D glass)
        [.server first, .server second, .server second, .server second, .server first,
          .server first] = some state ∧
      state.glass = arithmetic.pour (arithmetic.pour glass) := by
  simp [exec, step, initial, hguard, hne, hne.symm]

/-- **How many may share the glass.** Where two sips can go below empty and two pours above
the bound, as with `float`, the glass and all prints stay within the bounds in every run from
every glass within them exactly when there are no two servers and no two drinkers. -/
theorem within_iff (arithmetic : Arithmetic)
    (hsip : ∃ glass : arithmetic.Value, Within glass ∧ arithmetic.threeTenths < glass.val ∧
      ¬ Within (arithmetic.sip (arithmetic.sip glass)))
    (hpour : ∃ glass : arithmetic.Value, Within glass ∧ glass.val < 1 ∧
      ¬ Within (arithmetic.pour (arithmetic.pour glass))) :
    (∀ glass : arithmetic.Value, Within glass → ∀ trace (state : State arithmetic S D),
        Run step (initial S D glass) trace state → state.Within) ↔
      Subsingleton S ∧ Subsingleton D := by
  constructor
  · intro hruns
    constructor
    · rw [subsingleton_iff]
      intro first second
      by_contra hne
      obtain ⟨glass, hglass, hguard, hover⟩ := hpour
      obtain ⟨state, hexec, hpoured⟩ := exists_pour_pour (D := D) hne hguard
      obtain ⟨trace, hrun, -⟩ := exists_run_of_exec hexec
      exact hover (hpoured ▸ (hruns glass hglass trace state hrun).1)
    · rw [subsingleton_iff]
      intro first second
      by_contra hne
      obtain ⟨glass, hglass, hguard, hunder⟩ := hsip
      obtain ⟨state, hexec, hsipped⟩ := exists_sip_sip (S := S) hne hguard
      obtain ⟨trace, hrun, -⟩ := exists_run_of_exec hexec
      exact hunder (hsipped ▸ (hruns glass hglass trace state hrun).1)
  · rintro ⟨hservers, hdrinkers⟩ glass hglass trace state hrun
    exact within_of_run hglass hrun

/-- Exact numbers. -/
def exactNumbers : Arithmetic where
  round := id
  tenth := 1 / 10
  threeTenths := 3 / 10
  round_mono := monotone_id
  round_round _ := rfl
  round_zero := rfl
  tenth_nonneg := by norm_num
  threeTenths_nonneg := by norm_num

theorem within_iff_exactNumbers :
    (∀ glass : exactNumbers.Value, Within glass → ∀ trace (state : State exactNumbers Unit Unit),
        Run step (initial Unit Unit glass) trace state → state.Within) ↔
      Subsingleton Unit ∧ Subsingleton Unit := by
  apply within_iff exactNumbers
  · refine ⟨⟨4 / 10, rfl⟩, ⟨?_, ?_⟩, ?_, ?_⟩
    · change (0 : ℚ) ≤ 4 / 10
      norm_num
    · change (4 / 10 : ℚ) ≤ 1 + 1 / 10
      norm_num
    · change (3 / 10 : ℚ) < 4 / 10
      norm_num
    · rintro ⟨hlow, -⟩
      change (0 : ℚ) ≤ 4 / 10 - 3 / 10 - 3 / 10 at hlow
      norm_num at hlow
  · refine ⟨⟨95 / 100, rfl⟩, ⟨?_, ?_⟩, ?_, ?_⟩
    · change (0 : ℚ) ≤ 95 / 100
      norm_num
    · change (95 / 100 : ℚ) ≤ 1 + 1 / 10
      norm_num
    · change (95 / 100 : ℚ) < 1
      norm_num
    · rintro ⟨-, hhigh⟩
      change (95 / 100 + 1 / 10 + 1 / 10 : ℚ) ≤ 1 + 1 / 10 at hhigh
      norm_num at hhigh

end Embsys.Glass
