/-
# Writing under a mask

The bits of a word that a mask names are cleared and then set to a value of their own.
The other bits are kept, so the result agrees with another word outside the mask exactly
when the word did, and is that word exactly when in addition that word has the value
under the mask.
-/

import Mathlib.Data.Nat.Notation

namespace Embsys.Math

variable {w : ℕ} {mask value x y : BitVec w}

/-- Two words that agree outside a mask. -/
def AgreeOutside (mask x y : BitVec w) : Prop :=
  x &&& ~~~mask = y &&& ~~~mask

/-- A word is what is outside a mask and what is under it. -/
theorem and_not_or_and (mask x : BitVec w) : x &&& ~~~mask ||| x &&& mask = x := by
  rw [← BitVec.and_or_distrib_left, BitVec.not_or_self, BitVec.and_allOnes]

theorem and_not_write (hvalue : value &&& ~~~mask = 0#w) :
    (x &&& ~~~mask ||| value) &&& ~~~mask = x &&& ~~~mask := by
  rw [BitVec.and_or_distrib_right, hvalue, BitVec.or_zero, BitVec.and_assoc, BitVec.and_self]

theorem and_write (hvalue : value &&& ~~~mask = 0#w) :
    (x &&& ~~~mask ||| value) &&& mask = value := by
  have hunder := and_not_or_and mask value
  rw [hvalue, BitVec.zero_or] at hunder
  rw [BitVec.and_or_distrib_right, hunder, BitVec.and_assoc]
  simp

/-- What is written under the mask cannot be told outside of it. -/
theorem agreeOutside_write (hvalue : value &&& ~~~mask = 0#w) :
    AgreeOutside mask y (x &&& ~~~mask ||| value) ↔ AgreeOutside mask y x := by
  rw [AgreeOutside, and_not_write hvalue, AgreeOutside]

theorem write_eq_iff (hvalue : value &&& ~~~mask = 0#w) :
    x &&& ~~~mask ||| value = y ↔ AgreeOutside mask y x ∧ y &&& mask = value := by
  constructor
  · rintro rfl
    exact ⟨and_not_write hvalue, and_write hvalue⟩
  · rintro ⟨hagree, rfl⟩
    rw [← show y &&& ~~~mask = x &&& ~~~mask from hagree, and_not_or_and]

/-- The same for a mask whose bits are cleared and not set. -/
theorem agreeOutside_clear : AgreeOutside mask y (x &&& ~~~mask) ↔ AgreeOutside mask y x := by
  simpa using agreeOutside_write (x := x) (y := y) (BitVec.zero_and : 0#w &&& ~~~mask = 0#w)

theorem clear_eq_iff : x &&& ~~~mask = y ↔ AgreeOutside mask y x ∧ y &&& mask = 0#w := by
  simpa using write_eq_iff (x := x) (y := y) (BitVec.zero_and : 0#w &&& ~~~mask = 0#w)

end Embsys.Math
