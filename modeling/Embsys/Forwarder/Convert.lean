/-
# The forwarder's view of a record

`convert` turns a record of shared memory into decimal degrees, `forward` writes
the message from them. Both are stated as functions of the data they read; the
threads that run them are in the concurrent model.
-/

import Embsys.Gps.Coordinate
import Embsys.ShmWriter.Decoder

namespace Embsys.Forwarder

open Embsys.Math Embsys.C Embsys.Gps Embsys.ShmWriter

structure DecimalCoord where
  time : ℤ
  latitude : ℚ
  longitude : ℚ
  deriving DecidableEq

def toDecimal (value : ℚ) : ℚ :=
  let deg := ⌊value / 100⌋
  let min := (value - deg * 100) / 100
  deg + min * 100 / 60

/-- What one iteration of `convert` publishes for the record it read. -/
def convert (shdata : Shdata) : DecimalCoord where
  time := shdata.time
  latitude := toDecimal shdata.latitude
  longitude := toDecimal shdata.longitude

/-- The message one iteration of `forward` builds. -/
def forward (decimalCoord : DecimalCoord) : List Char :=
  formatInt 6 decimalCoord.time ++ ['/'] ++ formatFixed 0 4 decimalCoord.latitude ++ ['/'] ++
    formatFixed 0 4 decimalCoord.longitude

/-- The message made from a record has its time and its position in decimal degrees. -/
theorem forward_convert (record : Shdata) :
    forward (convert record) =
      formatInt 6 record.time ++ ['/'] ++ formatFixed 0 4 (toDecimal record.latitude) ++ ['/'] ++
        formatFixed 0 4 (toDecimal record.longitude) :=
  rfl

/-- On the window of a degree the conversion is affine, so it scales every error
of the coordinate down by 60. -/
theorem toDecimal_of_mem (deg : ℤ) {value : ℚ} (hlow : ((deg * 100 : ℤ) : ℚ) ≤ value)
    (hhigh : value < ((deg * 100 + 100 : ℤ) : ℚ)) :
    toDecimal value = deg + (value - deg * 100) / 60 := by
  push_cast at hlow hhigh
  have hfloor : ⌊value / 100⌋ = deg := by
    rw [Int.floor_eq_iff]
    constructor
    · rw [le_div_iff₀ (by norm_num)]
      exact hlow
    · rw [div_lt_iff₀ (by norm_num)]
      linarith
  simp only [toDecimal, hfloor]
  ring

theorem toDecimal_roundTo_coordinate (precision : ℕ) (decimal : ℚ) :
    toDecimal (roundTo precision (coordinate decimal)) - decimal =
      (roundTo precision (coordinate decimal) - coordinate decimal) / 60 := by
  obtain ⟨hlow, hhigh⟩ := roundTo_coordinate_mem precision decimal
  have hhigh' : roundTo precision (coordinate decimal) <
      ((⌊decimal⌋ * 100 + 100 : ℤ) : ℚ) := by
    apply lt_of_le_of_lt hhigh
    push_cast
    linarith
  have hsplit := Int.floor_add_fract decimal
  rw [toDecimal_of_mem _ hlow hhigh', coordinate_eq]
  linarith

/-- The conversion of a printed coordinate is not below the whole degrees. -/
theorem floor_le_toDecimal_roundTo_coordinate (precision : ℕ) (decimal : ℚ) :
    (⌊decimal⌋ : ℚ) ≤ toDecimal (roundTo precision (coordinate decimal)) := by
  obtain ⟨hlow, -⟩ := roundTo_coordinate_mem precision decimal
  have herror := toDecimal_roundTo_coordinate precision decimal
  have hsplit := Int.floor_add_fract decimal
  have hcoordinate := coordinate_eq decimal
  push_cast at hlow
  linarith

/-- A message shows a coordinate below a whole number of degrees exactly when the
minutes do not carry to it in the frame; the four decimals of the message carry no
further. -/
theorem roundTo_toDecimal_lt_iff (decimal : ℚ) (n : ℤ) :
    roundTo 4 (toDecimal (roundTo 2 (coordinate decimal))) < n ↔ 60 * decimal < 60 * n - 0.005 := by
  have herror := toDecimal_roundTo_coordinate 2 decimal
  have hsplit := Int.floor_add_fract decimal
  have hcoordinate := coordinate_eq decimal
  have hframe := roundTo_lt_iff (by decide : 0 < 2) (60 * n + 40 * ⌊decimal⌋) (coordinate decimal)
  rw [roundTo_lt_iff (by decide)]
  push_cast at hframe
  constructor
  · intro hmessage
    have hbelow : roundTo 2 (coordinate decimal) < 60 * n + 40 * ⌊decimal⌋ := by
      norm_num at hmessage
      linarith
    have hunrounded := hframe.mp hbelow
    norm_num at hunrounded ⊢
    linarith
  · intro hdecimal
    have hbelow : roundTo 2 (coordinate decimal) < ((60 * n + 40 * ⌊decimal⌋ : ℤ) : ℚ) := by
      push_cast
      apply hframe.mpr
      norm_num at hdecimal ⊢
      linarith
    have hunit := roundTo_le_of_lt hbelow
    push_cast at hunit
    norm_num at hunit ⊢
    linarith

end Embsys.Forwarder
