/-
# Client and miniserver

A client writes as many bytes as a pointer has, from its message on: a short message
goes out with its terminator and what follows it in memory, a long one is cut. The
miniserver keeps one buffer for all connections, asks each time for one byte less than
the string it finds in the buffer, and logs the string it finds after the read. Both
strings can run on into the memory after the buffer.
-/

import Mathlib.Algebra.Ring.Nat
import Embsys.C.Buffer
import Embsys.Os.Kernel

namespace Embsys.Autotools

open Embsys.C Embsys.Os

/-! ## client -/

/-- What a client writes: `sizeof(send_buff)` bytes from `argv[2]` on. -/
def sent (message after : List Char) : List Char :=
  (message ++ nul :: after).take sizeofPointer

/-! ## miniserver -/

/-- `sizeof(recv_buff)`. -/
def recvSize : ℕ := 1024

/-- `recv_buff` after `memset(recv_buff, '0', sizeof(recv_buff))`. -/
def recvBuff : Buffer recvSize :=
  ⟨List.replicate recvSize '0', List.length_replicate⟩

/-- `strlen(recv_buff)-1` as an unsigned number. -/
def asked (memory : List Char) : ℕ :=
  if strlen memory = 0 then 2 ^ 64 - 1 else strlen memory - 1

theorem asked_of_pos {memory : List Char} (hpos : 0 < strlen memory) :
    asked memory = strlen memory - 1 :=
  if_neg hpos.ne'

/-- A connection: the bytes it has to read, and the memory after the buffer by then. -/
structure Connection where
  bytes : List Char
  beyond : List Char

/-- What an iteration leaves in the buffer and writes to the log. -/
structure Iteration where
  buff : Buffer recvSize
  logged : List Char

/-- The memory from the buffer on after the read of an iteration. Where the number asked for
has wrapped around, the system may refuse the read and leave the memory alone; such an
iteration is out of bounds whichever it does. -/
def received (buff : Buffer recvSize) (connection : Connection) : List Char :=
  let memory := buff.bytes ++ connection.beyond
  memcpy memory 0 (connection.bytes.take (asked memory))

theorem received_eq (buff : Buffer recvSize) (connection : Connection) :
    received buff connection =
      connection.bytes.take (asked (buff.bytes ++ connection.beyond)) ++
        (buff.bytes ++ connection.beyond).drop
          (connection.bytes.take (asked (buff.bytes ++ connection.beyond))).length := by
  simp [received, memcpy]

theorem recvSize_le_length_received (buff : Buffer recvSize) (connection : Connection) :
    recvSize ≤ (received buff connection).length := by
  have hlength := buff.length_bytes
  simp only [received, memcpy, List.length_append, List.length_take, List.length_drop]
  omega

/-- One iteration of the main loop, its line logged whatever `read` returned. -/
def iteration (buff : Buffer recvSize) (connection : Connection) : Iteration where
  buff   := ⟨(received buff connection).take recvSize,
    List.length_take_of_le (recvSize_le_length_received buff connection)⟩
  logged := cstr (received buff connection)

/-- The main loop over the connections it accepts. -/
def serve : Buffer recvSize → List Connection → List Iteration
  | _, [] => []
  | buff, connection :: connections =>
      iteration buff connection :: serve (iteration buff connection).buff connections

end Embsys.Autotools
