/-
# One cell, updated in steps

A worker tests a guard on a shared cell, loads the cell and stores an update of what it has
loaded, each as a step of its own, so other workers may come in between and a store may
undo theirs. With one worker that raises the cell and one that lowers it this does no harm:
what the one has loaded lies on its own side of the cell until it is stored, since in
the meantime only the other has moved the cell. So the bounds that the guards are for hold
at all times.
-/

import Mathlib.Logic.Function.Basic
import Mathlib.Order.Basic

namespace Embsys.Math

/-- `if (guard(cell)) cell = update(cell);` -/
structure Worker (α : Type*) where
  guard : α → Bool
  update : α → α

/-- Where a worker stands: before its test, before its load, before its store. -/
inductive Phase (α : Type*)
  | test
  | load
  | store (loaded : α)

/-- A cell and where each of its workers stands. -/
structure Cell (ι α : Type*) where
  value : α
  phase : ι → Phase α

namespace Cell

variable {ι α : Type*} [DecidableEq ι]

/-- The next step of one worker. -/
def step (task : ι → Worker α) (cell : Cell ι α) (i : ι) : Cell ι α :=
  match cell.phase i with
  | .test =>
      if (task i).guard cell.value then { cell with phase := Function.update cell.phase i .load }
      else cell
  | .load => { cell with phase := Function.update cell.phase i (.store cell.value) }
  | .store loaded => ⟨(task i).update loaded, Function.update cell.phase i .test⟩

end Cell

section

variable {U D α : Type*} [Preorder α] {raise lower : Worker α} {low high value value' : α}

/-- One worker fills the cell up to a bound, the other drains it down to one. -/
structure Opposed (raise lower : Worker α) (low high : α) : Prop where
  raise_guard : ∀ {x y}, x ≤ y → raise.guard y → raise.guard x
  lower_guard : ∀ {x y}, x ≤ y → lower.guard x → lower.guard y
  le_raise : ∀ x, x ≤ raise.update x
  lower_le : ∀ x, lower.update x ≤ x
  raise_le : ∀ {x}, raise.guard x → raise.update x ≤ high
  le_lower : ∀ {x}, lower.guard x → low ≤ lower.update x

/-- What a raising worker goes on has passed its guard and is not below the cell. -/
def Phase.Above (raise : Worker α) (value : α) : Phase α → Prop
  | .test => True
  | .load => raise.guard value
  | .store loaded => raise.guard loaded ∧ value ≤ loaded

/-- What a lowering worker goes on has passed its guard and is not above the cell. -/
def Phase.Below (lower : Worker α) (value : α) : Phase α → Prop
  | .test => True
  | .load => lower.guard value
  | .store loaded => lower.guard loaded ∧ loaded ≤ value

theorem Phase.Above.of_le (hopposed : Opposed raise lower low high) {phase : Phase α}
    (h : phase.Above raise value) (hle : value' ≤ value) : phase.Above raise value' := by
  cases phase with
  | test => trivial
  | load => exact hopposed.raise_guard hle h
  | store loaded => exact ⟨h.1, le_trans hle h.2⟩

theorem Phase.Below.of_le (hopposed : Opposed raise lower low high) {phase : Phase α}
    (h : phase.Below lower value) (hle : value ≤ value') : phase.Below lower value' := by
  cases phase with
  | test => trivial
  | load => exact hopposed.lower_guard hle h
  | store loaded => exact ⟨h.1, le_trans h.2 hle⟩

/-- The workers of `U` raise the cell, those of `D` lower it. -/
def workers (raise lower : Worker α) : U ⊕ D → Worker α :=
  Sum.elim (fun _ => raise) (fun _ => lower)

/-- The cell is within its bounds, and every worker on its own side of it. -/
structure Steady (raise lower : Worker α) (low high : α) (cell : Cell (U ⊕ D) α) : Prop where
  low : low ≤ cell.value
  high : cell.value ≤ high
  above : ∀ u, (cell.phase (.inl u)).Above raise cell.value
  below : ∀ d, (cell.phase (.inr d)).Below lower cell.value

variable [DecidableEq U] [DecidableEq D] {cell : Cell (U ⊕ D) α}

/-- Up to the higher bound the cell may go up, the raising worker with it. -/
theorem Steady.up [Subsingleton U] (hopposed : Opposed raise lower low high)
    (h : Steady raise lower low high cell) {u : U} {phase : Phase α} (hle : cell.value ≤ value)
    (hhigh : value ≤ high) (hphase : phase.Above raise value) :
    Steady raise lower low high ⟨value, Function.update cell.phase (.inl u) phase⟩ where
  low := le_trans h.low hle
  high := hhigh
  above v := by
    obtain rfl := Subsingleton.elim u v
    simpa using hphase
  below d := by
    simpa using (h.below d).of_le hopposed hle

/-- Down to the lower bound the cell may go down, the lowering worker with it. -/
theorem Steady.down [Subsingleton D] (hopposed : Opposed raise lower low high)
    (h : Steady raise lower low high cell) {d : D} {phase : Phase α} (hle : value ≤ cell.value)
    (hlow : low ≤ value) (hphase : phase.Below lower value) :
    Steady raise lower low high ⟨value, Function.update cell.phase (.inr d) phase⟩ where
  low := hlow
  high := le_trans hle h.high
  above u := by
    simpa using (h.above u).of_le hopposed hle
  below e := by
    obtain rfl := Subsingleton.elim d e
    simpa using hphase

/-- **A raising worker keeps the bounds**, alone on its side. -/
theorem Steady.raises [Subsingleton U] (hopposed : Opposed raise lower low high)
    (h : Steady raise lower low high cell) (u : U) :
    Steady raise lower low high (cell.step (workers raise lower) (.inl u)) := by
  have hu := h.above u
  unfold Cell.step
  split
  · split
    · next hguard => exact h.up hopposed (le_refl _) h.high hguard
    · exact h
  · next hphase =>
      rw [hphase] at hu
      exact h.up hopposed (le_refl _) h.high ⟨hu, le_refl _⟩
  · next loaded hphase =>
      rw [hphase] at hu
      have hle := le_trans hu.2 (hopposed.le_raise loaded)
      exact h.up hopposed hle (hopposed.raise_le hu.1) trivial

/-- **A lowering worker keeps the bounds**, alone on its side. -/
theorem Steady.lowers [Subsingleton D] (hopposed : Opposed raise lower low high)
    (h : Steady raise lower low high cell) (d : D) :
    Steady raise lower low high (cell.step (workers raise lower) (.inr d)) := by
  have hd := h.below d
  unfold Cell.step
  split
  · split
    · next hguard => exact h.down hopposed (le_refl _) h.low hguard
    · exact h
  · next hphase =>
      rw [hphase] at hd
      exact h.down hopposed (le_refl _) h.low ⟨hd, le_refl _⟩
  · next loaded hphase =>
      rw [hphase] at hd
      have hle := le_trans (hopposed.lower_le loaded) hd.2
      exact h.down hopposed hle (hopposed.le_lower hd.1) trivial

end

end Embsys.Math
