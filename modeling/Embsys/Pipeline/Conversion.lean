/-
# Decimal degrees and the degree-minute coordinate

The simulator turns decimal degrees into a coordinate, the forwarder and the
converter turn it back, each with its own copy of `to_decimal`. The coordinates with
fewer than 60 minutes are exactly those the simulator makes, and on them the two
conversions undo each other and keep the order.
-/

import Mathlib.Data.Set.Function
import Mathlib.Order.Monotone.Defs
import Embsys.Forwarder.Convert

namespace Embsys.Converter

/-- The copy of the converter. -/
def toDecimal (value : ℚ) : ℚ :=
  let deg := ⌊value / 100⌋
  let min := (value - deg * 100) / 100
  deg + min * 100 / 60

theorem toDecimal_eq : toDecimal = Forwarder.toDecimal := rfl

end Embsys.Converter

namespace Embsys.Pipeline

open Embsys.Gps Embsys.Forwarder

/-- The coordinates with fewer than 60 minutes. -/
def degreeMinutes : Set ℚ :=
  {c | c - 100 * ⌊c / 100⌋ < 60}

/-- A coordinate stays below the 60 minutes of its degree, so it is read back. -/
theorem toDecimal_coordinate (decimal : ℚ) : toDecimal (coordinate decimal) = decimal := by
  have hlow := le_coordinate decimal
  have hhigh := coordinate_lt decimal
  have hsplit := Int.floor_add_fract decimal
  rw [toDecimal_of_mem ⌊decimal⌋ hlow, coordinate_eq]
  · linarith
  · push_cast at hhigh ⊢
    linarith

/-- Fewer than 60 minutes are less than a degree, so the degree is read back. -/
theorem coordinate_toDecimal {c : ℚ} (hc : c ∈ degreeMinutes) : coordinate (toDecimal c) = c := by
  have hminutes : c - 100 * ⌊c / 100⌋ < 60 := hc
  have hlow : (⌊c / 100⌋ : ℚ) ≤ c / 100 := Int.floor_le _
  have hdecimal : toDecimal c = ⌊c / 100⌋ + (c - ⌊c / 100⌋ * 100) / 60 := by
    simp only [toDecimal]
    ring
  have hfloor : ⌊toDecimal c⌋ = ⌊c / 100⌋ := by
    rw [Int.floor_eq_iff, hdecimal]
    constructor <;> linarith
  have hfract := Int.self_sub_floor (toDecimal c)
  rw [coordinate_eq, hfloor, ← hfract, hfloor, hdecimal]
  ring

/-- The simulator makes these coordinates and no others. -/
theorem range_coordinate : Set.range coordinate = degreeMinutes := by
  ext c
  constructor
  · rintro ⟨decimal, rfl⟩
    have hlow := le_coordinate decimal
    have hhigh := coordinate_lt decimal
    have hfloor : ⌊coordinate decimal / 100⌋ = ⌊decimal⌋ := by
      push_cast at hlow hhigh
      rw [Int.floor_eq_iff]
      constructor <;> linarith
    show coordinate decimal - 100 * ⌊coordinate decimal / 100⌋ < 60
    rw [hfloor]
    push_cast at hhigh
    linarith
  · intro hc
    exact ⟨toDecimal c, coordinate_toDecimal hc⟩

/-- The conversion to decimal degrees undoes the one to a coordinate, and the other way
round on coordinates with fewer than 60 minutes, where it keeps the order. -/
structure Inverse (toDecimal : ℚ → ℚ) : Prop where
  left : Function.LeftInverse toDecimal coordinate
  right : Set.LeftInvOn coordinate toDecimal degreeMinutes
  strictMonoOn : StrictMonoOn toDecimal degreeMinutes

theorem inverse_toDecimal : Inverse toDecimal where
  left := toDecimal_coordinate
  right := fun _ hc => coordinate_toDecimal hc
  strictMonoOn := by
    intro first hfirst second hsecond hlt
    rw [← coordinate_strictMono.lt_iff_lt, coordinate_toDecimal hfirst,
      coordinate_toDecimal hsecond]
    exact hlt

/-- **Inverse conversions.** The conversion of `decimal_to_str` keeps the order and reaches
all coordinates with fewer than 60 minutes; both copies of `to_decimal` undo it. -/
theorem conversions_inverse :
    StrictMono coordinate ∧ Set.range coordinate = degreeMinutes ∧
      Inverse Forwarder.toDecimal ∧ Inverse Converter.toDecimal := by
  refine ⟨coordinate_strictMono, range_coordinate, inverse_toDecimal, ?_⟩
  rw [Converter.toDecimal_eq]
  exact inverse_toDecimal

end Embsys.Pipeline
