/-
# The loop of net_reader

net_reader receives every datagram into the same buffer, which nothing clears, and
prints the buffer as a string. A datagram brings no terminator of its own, so a line
ends where the buffer happens to hold one: a datagram shorter than an earlier one is
printed with the rest of that one behind it.
-/

import Embsys.C.Buffer

namespace Embsys.NetReader

open Embsys.C

/-- `BUFSIZ` of the C library. -/
def bufsiz : ℕ := 8192

/-- What one `recvfrom` finds: a datagram that is a string without its terminator, and
the memory behind the buffer. -/
structure Datagram where
  payload : List Char
  beyond : List Char
  nul_notMem : nul ∉ payload
  length_lt : payload.length < bufsiz

/-- `recvfrom` with the size of the buffer, which is more than the datagram has. -/
def recvfrom (buf : Buffer bufsiz) (datagram : Datagram) : Buffer bufsiz :=
  buf.read ⟨datagram.payload, datagram.length_lt.le⟩

/-- The output of `printf("received: %s\n", buf)`. -/
def line (text : List Char) : List Char :=
  ['r', 'e', 'c', 'e', 'i', 'v', 'e', 'd', ':', ' '] ++ text ++ ['\n']

/-- The lines of the main loop over the datagrams that arrive. -/
def main : Buffer bufsiz → List Datagram → List (List Char)
  | _, [] => []
  | buf, datagram :: datagrams =>
      let buf := recvfrom buf datagram
      line (cstr (buf.bytes ++ datagram.beyond)) :: main buf datagrams

theorem line_inj {first second : List Char} : line first = line second ↔ first = second := by
  simp [line]

/-- The buffer ends this datagram where the datagram ends. -/
def Ends (buf : Buffer bufsiz) (datagram : Datagram) : Prop :=
  buf.bytes[datagram.payload.length]? = some nul

theorem line_eq_iff (buf : Buffer bufsiz) (datagram : Datagram) :
    line (cstr ((recvfrom buf datagram).bytes ++ datagram.beyond)) = line datagram.payload ↔
      Ends buf datagram := by
  rw [line_inj]
  exact buf.cstr_read_eq_iff _ _ datagram.nul_notMem datagram.length_lt

/-- A datagram overwrites the terminators in front of its own end and leaves the others. -/
theorem ends_recvfrom_iff (buf : Buffer bufsiz) (datagram next : Datagram) :
    Ends (recvfrom buf datagram) next ↔
      datagram.payload.length ≤ next.payload.length ∧ Ends buf next := by
  rw [Ends, recvfrom, Buffer.getElem?_read]
  split_ifs with hlt
  · refine iff_of_false ?_ fun h => absurd h.1 (not_le.mpr hlt)
    intro hnul
    exact datagram.nul_notMem (List.mem_of_getElem? hnul)
  · exact (and_iff_right (not_lt.mp hlt)).symm

/-- **Lines of net_reader.** Every line is the datagram received exactly when the buffer
held a terminator at the end of every datagram from the start and no datagram is shorter
than an earlier one. -/
theorem main_eq_iff (buf : Buffer bufsiz) (datagrams : List Datagram) :
    main buf datagrams = datagrams.map (fun datagram => line datagram.payload) ↔
      (∀ datagram ∈ datagrams, Ends buf datagram) ∧
        (datagrams.map fun datagram => datagram.payload.length).Pairwise (· ≤ ·) := by
  induction datagrams generalizing buf with
  | nil => simp [main]
  | cons datagram datagrams ih =>
      simp only [main, List.map_cons, List.cons.injEq, List.forall_mem_cons, List.pairwise_cons,
        List.forall_mem_map]
      rw [line_eq_iff, ih]
      simp only [ends_recvfrom_iff, imp_and, forall_and]
      constructor
      · rintro ⟨hends, ⟨hle, hrest⟩, hsorted⟩
        exact ⟨⟨hends, hrest⟩, hle, hsorted⟩
      · rintro ⟨⟨hends, hrest⟩, hle, hsorted⟩
        exact ⟨hends, ⟨hle, hrest⟩, hsorted⟩

def ready : Datagram := ⟨['r', 'e', 'a', 'd', 'y'], [], by decide, by decide⟩

def off : Datagram := ⟨['o', 'f', 'f'], [], by decide, by decide⟩

/-- `off` after `ready` is printed as `offdy`, even from a buffer that was zeroed. -/
theorem not_forall_main_eq :
    ¬ ∀ (buf : Buffer bufsiz) (datagrams : List Datagram),
      main buf datagrams = datagrams.map fun datagram => line datagram.payload := by
  intro h
  have hlines := h ⟨zeroed bufsiz, List.length_replicate⟩ [ready, off]
  simp only [main, List.map_cons, List.cons.injEq, line_eq_iff, ends_recvfrom_iff] at hlines
  exact absurd hlines.2.1.1 (by decide)

end Embsys.NetReader
