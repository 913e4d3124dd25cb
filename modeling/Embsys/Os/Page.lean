/-
# Words in a page

Four-byte words, least significant byte first, at byte offsets of a page. A load
sees the last store at its offset, stores elsewhere that do not overlap are
invisible, and clearing the page from some byte on zeroes the words behind it and
keeps those before.
-/

import Mathlib.Data.Nat.Notation
import Mathlib.Tactic.SplitIfs

namespace Embsys.Os

abbrev Page := ℕ → BitVec 8

def loadWord (page : Page) (offset : ℕ) : BitVec 32 :=
  page (offset + 3) ++ page (offset + 2) ++ page (offset + 1) ++ page offset

def storeWord (page : Page) (offset : ℕ) (word : BitVec 32) : Page :=
  fun i => if offset ≤ i ∧ i < offset + 4 then word.extractLsb' (8 * (i - offset)) 8 else page i

/-- The page with its bytes from `size` on cleared. -/
def clearFrom (page : Page) (size : ℕ) : Page :=
  fun i => if i < size then page i else 0

theorem append_bytes (word : BitVec 32) :
    word.extractLsb' 24 8 ++ word.extractLsb' 16 8 ++ word.extractLsb' 8 8 ++
      word.extractLsb' 0 8 = word := by
  rw [BitVec.extractLsb'_append_extractLsb'_eq_extractLsb' (by decide),
    BitVec.extractLsb'_append_extractLsb'_eq_extractLsb' (by decide),
    BitVec.extractLsb'_append_extractLsb'_eq_extractLsb' (by decide)]
  simp

/-- A load depends on its four bytes only. -/
theorem loadWord_eq {page : Page} {offset : ℕ} (byte : ℕ → BitVec 8)
    (hbyte : ∀ i < 4, page (offset + i) = byte i) :
    loadWord page offset = byte 3 ++ byte 2 ++ byte 1 ++ byte 0 := by
  have hzero := hbyte 0 (by decide)
  rw [Nat.add_zero] at hzero
  rw [loadWord, hbyte 3 (by decide), hbyte 2 (by decide), hbyte 1 (by decide), hzero]

@[simp]
theorem loadWord_storeWord (page : Page) (offset : ℕ) (word : BitVec 32) :
    loadWord (storeWord page offset word) offset = word := by
  rw [loadWord_eq fun i => word.extractLsb' (8 * i) 8]
  · exact append_bytes word
  · intro i hi
    simp [storeWord, hi]

/-- Words that do not overlap are independent. -/
theorem loadWord_storeWord_of_disjoint (page : Page) {offset other : ℕ} (word : BitVec 32)
    (hdisjoint : offset + 4 ≤ other ∨ other + 4 ≤ offset) :
    loadWord (storeWord page other word) offset = loadWord page offset := by
  refine loadWord_eq (fun i => page (offset + i)) ?_
  intro i hi
  rw [storeWord, if_neg (by omega)]

theorem loadWord_clearFrom_of_le (page : Page) {offset size : ℕ} (hsize : offset + 4 ≤ size) :
    loadWord (clearFrom page size) offset = loadWord page offset := by
  refine loadWord_eq (fun i => page (offset + i)) ?_
  intro i hi
  rw [clearFrom, if_pos (by omega)]

theorem loadWord_clearFrom_of_ge (page : Page) {offset size : ℕ} (hsize : size ≤ offset) :
    loadWord (clearFrom page size) offset = 0 := by
  rw [loadWord_eq fun _ => 0]
  · rfl
  · intro i hi
    rw [clearFrom, if_neg (by omega)]

end Embsys.Os
