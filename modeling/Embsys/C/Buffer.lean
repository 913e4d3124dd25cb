/-
# Buffers of a fixed size, read into

A buffer carries its size; a read returns at most as many bytes as it was asked for
and leaves the rest of the buffer alone. A string function that is given the buffer
sees the memory after it too, and stays inside exactly when the buffer holds a
terminator.
-/

import Embsys.C.Memory

namespace Embsys.C

/-- A buffer of `size` bytes. -/
structure Buffer (size : ℕ) where
  bytes : List Char
  length_bytes : bytes.length = size

/-- What `read(fd, buff, size)` returned, none at the end of the input. -/
structure ReadResult (size : ℕ) where
  bytes : List Char
  length_le : bytes.length ≤ size

/-- The bytes of an object that an operation reads. -/
structure Extent where
  offset : ℕ
  n : ℕ
  deriving DecidableEq

/-- The bytes lie inside an object of this size. -/
def Extent.Inside (size : ℕ) (extent : Extent) : Prop :=
  extent.offset + extent.n ≤ size

instance (size : ℕ) (extent : Extent) : Decidable (extent.Inside size) :=
  inferInstanceAs (Decidable (_ ≤ _))

/-- The bytes a string function reads, the terminator included. -/
def scanned (memory : List Char) : Extent :=
  ⟨0, strlen memory + 1⟩

namespace Buffer

variable {size : ℕ}

/-- `bzero(buff, sizeof(buff))`. -/
def bzero (_ : Buffer size) : Buffer size :=
  ⟨zeroed size, List.length_replicate⟩

/-- `read(fd, buff, sizeof(buff))`. -/
def read (buff : Buffer size) (result : ReadResult size) : Buffer size where
  bytes        := memcpy buff.bytes 0 result.bytes
  length_bytes := by
    have hlength := buff.length_bytes
    have hresult := result.length_le
    simp only [memcpy, List.length_append, List.length_take, List.length_drop]
    omega

/-- A string function stays inside a buffer, whatever lies behind it, exactly when
the buffer holds a terminator. -/
theorem scanned_inside_iff (buff : Buffer size) (beyond : List Char) :
    (scanned (buff.bytes ++ beyond)).Inside size ↔ nul ∈ buff.bytes := by
  have hlength := buff.length_bytes
  rw [scanned, Extent.Inside, Nat.zero_add, Nat.succ_le_iff]
  constructor
  · intro hinside
    by_contra hnul
    have hpassed := length_le_strlen hnul beyond
    omega
  · intro hnul
    by_contra houtside
    obtain ⟨-, hfront, -⟩ := strlen_eq_iff.mp (rfl : strlen (buff.bytes ++ beyond) = _)
    have hbuff : buff.bytes ⊆ (buff.bytes ++ beyond).take (strlen (buff.bytes ++ beyond)) := by
      rw [List.take_append, List.take_of_length_le (by omega)]
      exact List.subset_append_left _ _
    exact hfront (hbuff hnul)

/-- The bytes behind what was read are those from before. -/
theorem getElem?_read (buff : Buffer size) (result : ReadResult size) (i : ℕ) :
    (buff.read result).bytes[i]? =
      if i < result.bytes.length then result.bytes[i]? else buff.bytes[i]? := by
  have hbytes : (buff.read result).bytes =
      result.bytes ++ buff.bytes.drop result.bytes.length := by
    simp [read, memcpy]
  rw [hbytes, List.getElem?_append, List.getElem?_drop]
  split_ifs with hi
  · rfl
  · rw [Nat.add_sub_cancel' (not_lt.mp hi)]

/-- A string that is read without its terminator is found again exactly when the buffer
holds one behind it from before. -/
theorem cstr_read_eq_iff (buff : Buffer size) (result : ReadResult size) (beyond : List Char)
    (hnul : nul ∉ result.bytes) (hlt : result.bytes.length < size) :
    cstr ((buff.read result).bytes ++ beyond) = result.bytes ↔
      buff.bytes[result.bytes.length]? = some nul := by
  have hlength := buff.length_bytes
  obtain ⟨next, rest, hrest⟩ : ∃ next rest, buff.bytes.drop result.bytes.length = next :: rest := by
    apply List.exists_cons_of_ne_nil
    rw [ne_eq, List.drop_eq_nil_iff]
    omega
  have hnext : buff.bytes[result.bytes.length]? = some next := by
    rw [← List.head?_drop, hrest, List.head?_cons]
  have hbytes : (buff.read result).bytes ++ beyond = result.bytes ++ (next :: rest ++ beyond) := by
    simp [read, memcpy, hrest]
  rw [hbytes, cstr_append hnul, hnext, List.append_right_eq_self, Option.some.injEq]
  simp [cstr, List.takeWhile_cons]

/-- A zeroed buffer keeps a terminator unless the read fills it with other bytes. -/
theorem nul_mem_read_bzero (buff : Buffer size) (result : ReadResult size) :
    nul ∈ (buff.bzero.read result).bytes ↔ result.bytes.length < size ∨ nul ∈ result.bytes := by
  have hrest : (buff.bzero.read result).bytes =
      result.bytes ++ zeroed (size - result.bytes.length) := by
    simp [read, bzero, memcpy, zeroed]
  rw [hrest, List.mem_append, zeroed, List.mem_replicate]
  constructor
  · rintro (hmem | ⟨hroom, -⟩)
    · exact Or.inr hmem
    · exact Or.inl (by omega)
  · rintro (hroom | hmem)
    · exact Or.inr ⟨by omega, rfl⟩
    · exact Or.inl hmem

end Buffer

/-- A character stored inside leaves the size alone. -/
theorem length_store {buffer : List Char} {offset : ℕ} (hoffset : offset < buffer.length)
    (c : Char) : (store buffer offset c).length = buffer.length := by
  rw [store, memcpy, List.length_append, List.length_append, List.length_take,
    List.length_singleton, List.length_drop, Nat.min_eq_left (Nat.le_of_lt hoffset)]
  exact Nat.add_sub_cancel' hoffset

end Embsys.C
