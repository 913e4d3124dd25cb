/-
# The bound of a read

The miniserver computes how much to ask for from the string in its buffer, which is what
earlier connections left there. A read is bounded when that string ends inside the buffer
and has two characters; what is read then never reaches the terminator, so the string
still ends inside. It has two characters again unless a terminator is read before them.
The buffer the server starts with holds no terminator at all.
-/

import Embsys.Autotools.Delivery

namespace Embsys.Autotools

open Embsys.C Embsys.Os

/-- An accepted connection and the buffer it finds. -/
structure Visit where
  buff : Buffer recvSize
  connection : Connection

/-- The iterations of the main loop over the connections it accepts. -/
def visits : Buffer recvSize → List Connection → List Visit
  | _, [] => []
  | buff, connection :: connections =>
      ⟨buff, connection⟩ :: visits (iteration buff connection).buff connections

namespace Visit

/-- The memory from the buffer on. -/
def memory (visit : Visit) : List Char :=
  visit.buff.bytes ++ visit.connection.beyond

/-- What `read` stores. -/
def taken (visit : Visit) : List Char :=
  visit.connection.bytes.take (asked visit.memory)

/-- The buffer afterwards. -/
def next (visit : Visit) : Buffer recvSize :=
  (iteration visit.buff visit.connection).buff

/-- The buffer holds a terminator, the read asks for at least one byte and fewer than the
buffer has, and the string that is logged ends inside the buffer. -/
structure Bounded (visit : Visit) : Prop where
  terminated : nul ∈ visit.buff.bytes
  one_le_asked : 1 ≤ asked visit.memory
  asked_le : asked visit.memory ≤ 1023
  logged_inside : (scanned (received visit.buff visit.connection)).Inside recvSize

/-- No terminator comes in the first two bytes that are read, and one is in the buffer
already or among the bytes that are read into it. -/
def Keeps (visit : Visit) : Prop :=
  nul ∉ visit.taken.take 2 ∧ (nul ∈ visit.buff.bytes ∨ nul ∈ visit.taken.take recvSize)

end Visit

/-- The buffer holds a string of at least two characters. -/
def Ready (buff : Buffer recvSize) : Prop :=
  nul ∈ buff.bytes ∧ nul ∉ buff.bytes.take 2

/-! ## One iteration -/

namespace Visit

variable (visit : Visit)

/-- Where the buffer held no terminator, the read puts the ones that are there. -/
theorem nul_mem_take_received_iff {n : ℕ} (hnul : nul ∉ visit.memory.take n) :
    nul ∈ (received visit.buff visit.connection).take n ↔ nul ∈ visit.taken.take n := by
  have hkept : nul ∉ (visit.memory.drop visit.taken.length).take (n - visit.taken.length) := by
    rw [← List.drop_take]
    exact fun hmem => hnul (List.mem_of_mem_drop hmem)
  rw [received_eq]
  show nul ∈ (visit.taken ++ visit.memory.drop visit.taken.length).take n ↔ _
  rw [List.take_append, List.mem_append, or_iff_left hkept]

theorem take_memory {n : ℕ} (hn : n ≤ recvSize) : visit.memory.take n = visit.buff.bytes.take n :=
  List.take_append_of_le_length (hn.trans visit.buff.length_bytes.ge)

theorem next_bytes : visit.next.bytes = (received visit.buff visit.connection).take recvSize :=
  rfl

/-- The string that is logged ends inside the buffer when the buffer has a terminator after
the read. -/
theorem logged_inside_iff :
    (scanned (received visit.buff visit.connection)).Inside recvSize ↔
      nul ∈ visit.next.bytes := by
  have hmemory := visit.next.scanned_inside_iff
    ((received visit.buff visit.connection).drop recvSize)
  rwa [next_bytes, List.take_append_drop] at hmemory

/-- The string of a ready buffer has two characters and ends inside it. -/
theorem strlen_memory (hready : Ready visit.buff) :
    2 ≤ strlen visit.memory ∧ strlen visit.memory < recvSize := by
  have hlength := visit.buff.length_bytes
  constructor
  · rw [le_strlen_iff, visit.take_memory (by decide), memory, List.length_append, hlength]
    exact ⟨Nat.le_add_right_of_le (by decide), hready.2⟩
  · have hinside := (visit.buff.scanned_inside_iff visit.connection.beyond).mpr hready.1
    rwa [scanned, Extent.Inside, Nat.zero_add, Nat.succ_le_iff] at hinside

/-- A read into a ready buffer stops short of the terminator. -/
theorem nul_mem_next (hready : Ready visit.buff) : nul ∈ visit.next.bytes := by
  obtain ⟨hlow, hhigh⟩ := visit.strlen_memory hready
  obtain ⟨-, -, hend⟩ := strlen_eq_iff.mp (rfl : strlen visit.memory = _)
  have htaken : visit.taken.length < strlen visit.memory := by
    have hasked : visit.taken.length ≤ asked visit.memory := List.length_take_le _ _
    rw [asked_of_pos (by omega)] at hasked
    omega
  have hlength : strlen visit.memory < visit.memory.length := by
    rw [memory, List.length_append, visit.buff.length_bytes]
    exact Nat.lt_add_right _ hhigh
  have hnul : visit.memory[strlen visit.memory]? = some nul := by
    rw [List.getElem?_eq_getElem hlength]
    exact congrArg some (hend _ (List.getElem?_eq_getElem hlength))
  apply List.mem_of_getElem?
  rw [next_bytes, List.getElem?_take_of_lt hhigh, received_eq]
  show (visit.taken ++ visit.memory.drop visit.taken.length)[strlen visit.memory]? = some nul
  rw [List.getElem?_append_right htaken.le, List.getElem?_drop,
    Nat.add_sub_cancel' htaken.le, hnul]

/-- **One iteration.** It is bounded exactly when it finds a ready buffer. -/
theorem bounded_iff_ready : visit.Bounded ↔ Ready visit.buff := by
  constructor
  · intro hbounded
    have hlow := hbounded.one_le_asked
    have hhigh := hbounded.asked_le
    refine ⟨hbounded.terminated, ?_⟩
    have hstrlen : 2 ≤ strlen visit.memory := by
      rw [asked] at hlow hhigh
      split_ifs at hlow hhigh with hzero
      · omega
      · omega
    rw [← visit.take_memory (by decide)]
    exact (le_strlen_iff.mp hstrlen).2
  · intro hready
    obtain ⟨hlow, hhigh⟩ := visit.strlen_memory hready
    rw [recvSize] at hhigh
    have hasked := asked_of_pos (by omega : 0 < strlen visit.memory)
    exact ⟨hready.1, by omega, by omega, visit.logged_inside_iff.mpr (visit.nul_mem_next hready)⟩

/-- What is read leaves a string of two characters when the buffer began with two. -/
theorem nul_notMem_next_iff (hfront : nul ∉ visit.buff.bytes.take 2) :
    nul ∉ visit.next.bytes.take 2 ↔ nul ∉ visit.taken.take 2 := by
  rw [next_bytes, List.take_take, min_eq_left (by decide),
    visit.nul_mem_take_received_iff (by rwa [visit.take_memory (by decide)])]

theorem ready_next_iff (hready : Ready visit.buff) : Ready visit.next ↔ visit.Keeps := by
  rw [Ready, Keeps, visit.nul_notMem_next_iff hready.2,
    and_iff_right (visit.nul_mem_next hready), and_iff_left (Or.inl hready.1)]

/-- The first iteration has to bring the terminator. -/
theorem ready_next_recvBuff_iff (connection : Connection) :
    Ready (mk recvBuff connection).next ↔ (mk recvBuff connection).Keeps := by
  have hnone : nul ∉ (mk recvBuff connection).memory.take recvSize := by
    rw [take_memory _ le_rfl]
    exact fun hmem => nul_notMem_recvBuff (List.mem_of_mem_take hmem)
  have hfront : nul ∉ recvBuff.bytes.take 2 :=
    fun hmem => nul_notMem_recvBuff (List.mem_of_mem_take hmem)
  rw [Ready, Keeps, nul_notMem_next_iff _ hfront, next_bytes, nul_mem_take_received_iff _ hnone,
    or_iff_right nul_notMem_recvBuff, and_comm]

end Visit

/-! ## Runs of the server -/

/-- The visits after the first are bounded as long as each before them keeps a string of
two characters. -/
theorem bounded_visits_iff (connections : List Connection) (visit : Visit)
    (hnext : Ready visit.next ↔ visit.Keeps) :
    (∀ later ∈ visits visit.next connections, later.Bounded) ↔
      ∀ earlier ∈ (visit :: visits visit.next connections).dropLast, earlier.Keeps := by
  induction connections generalizing visit with
  | nil => simp [visits]
  | cons connection connections ih =>
      rw [visits, List.forall_mem_cons, List.dropLast_cons_cons, List.forall_mem_cons,
        Visit.bounded_iff_ready, hnext]
      apply and_congr_right
      intro hkeeps
      exact ih ⟨visit.next, connection⟩ (Visit.ready_next_iff _ (hnext.mpr hkeeps))

/-- **The bound of a read.** From the first connection on the reads are not all bounded;
those after the first are exactly when each visit but the last keeps a string of two
characters that ends inside the buffer. -/
theorem visits_bounded_iff (connections : List Connection) :
    ((∀ visit ∈ visits recvBuff connections, visit.Bounded) ↔ connections = []) ∧
      ((∀ visit ∈ (visits recvBuff connections).tail, visit.Bounded) ↔
        ∀ visit ∈ (visits recvBuff connections).dropLast, visit.Keeps) := by
  cases connections with
  | nil => simp [visits]
  | cons connection connections =>
      constructor
      · apply iff_of_false _ (List.cons_ne_nil _ _)
        intro hbounded
        have hfirst := hbounded ⟨recvBuff, connection⟩ (List.mem_cons_self)
        exact nul_notMem_recvBuff hfirst.terminated
      · rw [visits, List.tail_cons]
        exact bounded_visits_iff connections ⟨recvBuff, connection⟩
          (Visit.ready_next_recvBuff_iff connection)

/-- One client with a short message finds the buffer the server starts with. -/
theorem not_forall_bounded :
    ¬ ∀ connections : List Connection, ∀ visit ∈ visits recvBuff connections, visit.Bounded := by
  intro h
  have hfirst := h [⟨sent ['h', 'e', 'l', 'l', 'o'] [], []⟩] _ List.mem_cons_self
  exact nul_notMem_recvBuff hfirst.terminated

end Embsys.Autotools
