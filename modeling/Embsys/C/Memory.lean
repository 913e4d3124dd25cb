/-
# Character buffers of C

A buffer is the list of its characters, terminators included. `cstr` is what the
string functions of the C library see of it: everything before the first
terminator. A buffer that holds no terminator has a `cstr` as long as itself, so
its `strlen` is never smaller than its size.
-/

import Mathlib.Data.List.TakeWhile

namespace Embsys.C

/-- The terminating character. -/
def nul : Char := Char.ofNat 0

/-- The string a buffer holds: its characters before the first terminator. -/
def cstr (buffer : List Char) : List Char :=
  buffer.takeWhile (· ≠ nul)

/-- `strlen`. -/
def strlen (buffer : List Char) : ℕ :=
  (cstr buffer).length

/-- `memset(buffer, 0, size)` on a fresh buffer. -/
def zeroed (size : ℕ) : List Char :=
  List.replicate size nul

/-- `memcpy(&buffer[offset], source, n)` where `source` has `n` characters. -/
def memcpy (buffer : List Char) (offset : ℕ) (source : List Char) : List Char :=
  buffer.take offset ++ source ++ buffer.drop (offset + source.length)

/-- `buffer[offset] = c`. -/
def store (buffer : List Char) (offset : ℕ) (c : Char) : List Char :=
  memcpy buffer offset [c]

/-- The `n` characters from `&buffer[offset]` on. -/
def load (buffer : List Char) (offset n : ℕ) : List Char :=
  (buffer.drop offset).take n

/-- What `snprintf(str, size, ...)` leaves in `str` for the formatted text. -/
def snprintf (size : ℕ) (text : List Char) : List Char :=
  text.take (size - 1) ++ [nul]

/-- What `sprintf(str, ...)` leaves in `str` for the formatted text. -/
def sprintf (text : List Char) : List Char :=
  text ++ [nul]

/-- A string function passes everything in front of the first terminator. -/
theorem cstr_append {front : List Char} (hnul : nul ∉ front) (rest : List Char) :
    cstr (front ++ rest) = front ++ cstr rest := by
  apply List.takeWhile_append_of_pos
  intro c hc
  simpa using fun heq : c = nul => hnul (heq ▸ hc)

theorem cstr_append_nul {text rest : List Char} (h : nul ∉ text) :
    cstr (text ++ nul :: rest) = text := by
  rw [cstr_append h]
  simp [cstr]

/-- A string function stops at the first terminator, whatever follows. -/
theorem cstr_append_of_mem {front : List Char} (hnul : nul ∈ front) (rest : List Char) :
    cstr (front ++ rest) = cstr front := by
  obtain ⟨text, behind, rfl, htext⟩ := List.eq_append_cons_of_mem hnul
  rw [List.append_assoc, List.cons_append, cstr_append_nul htext, cstr_append_nul htext]

theorem length_le_strlen {front : List Char} (hnul : nul ∉ front) (rest : List Char) :
    front.length ≤ strlen (front ++ rest) := by
  rw [strlen, cstr_append hnul, List.length_append]
  exact Nat.le_add_right _ _

/-- A length in characters is a prefix without terminators up to a terminator or
the end of the buffer. -/
theorem strlen_eq_iff {buffer : List Char} {n : ℕ} :
    strlen buffer = n ↔
      n ≤ buffer.length ∧ nul ∉ buffer.take n ∧ ∀ c, buffer[n]? = some c → c = nul := by
  induction buffer generalizing n with
  | nil => simp [strlen, cstr, eq_comm]
  | cons head buffer ih =>
      by_cases hhead : head = nul
      · cases n with
        | zero => simp [strlen, cstr, hhead]
        | succ n => simp [strlen, cstr, hhead]
      · cases n with
        | zero => simp [strlen, cstr, hhead]
        | succ n =>
            have hstep : strlen (head :: buffer) = strlen buffer + 1 := by
              simp [strlen, cstr, hhead]
            rw [hstep, Nat.add_right_cancel_iff, ih]
            simp [Ne.symm hhead]

/-- A string has at least `n` characters exactly when no terminator is among the first `n`. -/
theorem le_strlen_iff {buffer : List Char} {n : ℕ} :
    n ≤ strlen buffer ↔ n ≤ buffer.length ∧ nul ∉ buffer.take n := by
  constructor
  · intro hle
    obtain ⟨hlength, hnul, -⟩ := strlen_eq_iff.mp (rfl : strlen buffer = _)
    refine ⟨hle.trans hlength, fun hmem => hnul ?_⟩
    exact (List.take_sublist_take_left hle).mem hmem
  · rintro ⟨hlength, hnul⟩
    have hfront := length_le_strlen hnul (buffer.drop n)
    rwa [List.take_append_drop, List.length_take_of_le hlength] at hfront

/-- What was put at an offset is what is read there. -/
theorem load_append {front mid back : List Char} {offset size : ℕ}
    (hfront : front.length = offset) (hmid : mid.length = size) :
    load (front ++ (mid ++ back)) offset size = mid := by
  subst hfront hmid
  simp [load]

/-- Two loads one after the other are one. -/
theorem load_append_load (buffer : List Char) (offset m n : ℕ) :
    load buffer offset m ++ load buffer (offset + m) n = load buffer offset (m + n) := by
  rw [load, load, load, List.take_add, List.drop_drop]

end Embsys.C
