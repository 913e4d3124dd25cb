/-
# The datagram client and its server

The client reads a line, sends it, and waits for one datagram, which it prints. It does not
look at what `gets` returns, so at the end of its input it finds the last line in its buffer
and sends that one again. The server receives a datagram, prints its buffer and sends the
received bytes back. Between them the network may lose datagrams, deliver them in any order
and, where it does so, deliver some of them again. There is one server and any number of
clients. Left out are lines that do not fit the buffer, and an input without any line, where
the buffer is sent that nothing has been written to.
-/

import Mathlib.Logic.Function.Basic
import Embsys.C.Buffer

namespace Embsys.Echo

open Embsys.C

/-- `BUFLEN`. -/
def buflen : ℕ := 512

/-- A datagram on its way, with the client it comes from or goes to. -/
structure Datagram (C : Type*) where
  peer : C
  payload : List Char
  length_le : payload.length ≤ buflen
  deriving DecidableEq

/-- A line that `gets` can store in its buffer. -/
structure Line where
  text : List Char
  length_lt : text.length < buflen

/-- The bytes of `sendto(s, message, strlen(message), ...)` after `gets(message)`. -/
def Line.sent (line : Line) : List Char :=
  let message := line.text ++ [nul]
  load message 0 (strlen message)

theorem cstr_append_singleton_nul (text : List Char) : cstr (text ++ [nul]) = cstr text := by
  induction text with
  | nil => simp [cstr]
  | cons c text ih =>
      by_cases hc : c = nul
      · simp [cstr, hc]
      · simpa [cstr, hc] using ih

/-- The client sends its line up to the first terminator in it. -/
theorem Line.sent_eq (line : Line) : line.sent = cstr line.text := by
  have hcut : cstr (line.text ++ [nul]) <+: line.text ++ [nul] := List.takeWhile_prefix _
  rw [← cstr_append_singleton_nul]
  exact (List.prefix_iff_eq_take.mp hcut).symm

theorem Line.length_sent_lt (line : Line) : line.sent.length < buflen := by
  rw [line.sent_eq]
  exact Nat.lt_of_le_of_lt (List.takeWhile_prefix _).length_le line.length_lt

theorem Line.nul_notMem_sent (line : Line) : nul ∉ line.sent := by
  rw [line.sent_eq]
  intro hmem
  simpa using List.mem_takeWhile_imp hmem

structure Client where
  /-- At `recvfrom`, not at `gets`. -/
  waiting : Bool
  /-- `gets` has met the end of the input. -/
  ended : Bool
  /-- The line in the buffer, none before the first. -/
  message : Option Line
  /-- The lines `gets` has stored. -/
  typed : List Line
  /-- The lines of `sendto`. -/
  sent : List Line
  /-- The lines of `puts`. -/
  printed : List (List Char)

structure State (C : Type*) where
  /-- The buffer of the server. -/
  buf : Buffer buflen
  /-- The clients the server has answered, and what it printed as their data. -/
  data : List (C × List Char)
  requests : List (Datagram C)
  replies : List (Datagram C)
  client : C → Client

/-- A step of a client, of the server, or of the network; `beyond` is the memory behind
the buffer that is printed. -/
inductive Action (C : Type*)
  | gets (c : C) (line : Line)
  | getsEnd (c : C)
  | serve (datagram : Datagram C) (beyond : List Char)
  | puts (datagram : Datagram C) (beyond : List Char)
  | loseRequest (datagram : Datagram C)
  | loseReply (datagram : Datagram C)
  | copyRequest (datagram : Datagram C)
  | copyReply (datagram : Datagram C)

variable {C : Type*}

/-- The buffer of the client after `memset(buf, '\0', BUFLEN)`. -/
def cleared : Buffer buflen := ⟨zeroed buflen, List.length_replicate⟩

/-- `recvfrom(s, buf, BUFLEN, ...)`. -/
def recvfrom (buf : Buffer buflen) (datagram : Datagram C) : Buffer buflen :=
  buf.read ⟨datagram.payload, datagram.length_le⟩

/-- The datagram of a line. -/
def request (c : C) (line : Line) : Datagram C := ⟨c, line.sent, line.length_sent_lt.le⟩

/-- `sendto(s, buf, recv_len, ...)` to the client the server has received from. -/
def reply (buf : Buffer buflen) (datagram : Datagram C) : Datagram C where
  peer := datagram.peer
  payload := load buf.bytes 0 datagram.payload.length
  length_le := Nat.le_trans (List.length_take_le _ _) datagram.length_le

variable [DecidableEq C]

/-- The client sends this line and goes to `recvfrom`. -/
def State.sendto (state : State C) (c : C) (line : Line) (client : Client) : State C where
  buf      := state.buf
  data     := state.data
  requests := request c line :: state.requests
  replies  := state.replies
  client   := Function.update state.client c
    { client with waiting := true, sent := client.sent ++ [line] }

/-- One step; the network copies datagrams only where `copies` says so. -/
def step (copies : Bool) (state : State C) : Action C → Option (State C)
  | .gets c line =>
      if (state.client c).waiting ∨ (state.client c).ended then none
      else
        some (state.sendto c line { state.client c with
          message := some line
          typed := (state.client c).typed ++ [line] })
  | .getsEnd c =>
      -- `gets` returns NULL and leaves the buffer alone, now and ever after
      match (state.client c).message with
      | none => none
      | some line =>
          if (state.client c).waiting then none
          else some (state.sendto c line { state.client c with ended := true })
  | .serve datagram beyond =>
      if datagram ∈ state.requests then
        let buf := recvfrom state.buf datagram
        some { state with
          buf := buf
          data := state.data ++ [(datagram.peer, cstr (buf.bytes ++ beyond))]
          requests := state.requests.erase datagram
          replies := reply buf datagram :: state.replies }
      else none
  | .puts datagram beyond =>
      if datagram ∈ state.replies ∧ (state.client datagram.peer).waiting then
        let buf := recvfrom cleared datagram
        some { state with
          replies := state.replies.erase datagram
          client := Function.update state.client datagram.peer
            { state.client datagram.peer with
              waiting := false
              printed := (state.client datagram.peer).printed ++ [cstr (buf.bytes ++ beyond)] } }
      else none
  | .loseRequest datagram =>
      if datagram ∈ state.requests then
        some { state with requests := state.requests.erase datagram }
      else none
  | .loseReply datagram =>
      if datagram ∈ state.replies then
        some { state with replies := state.replies.erase datagram }
      else none
  | .copyRequest datagram =>
      if copies ∧ datagram ∈ state.requests then
        some { state with requests := datagram :: state.requests }
      else none
  | .copyReply datagram =>
      if copies ∧ datagram ∈ state.replies then
        some { state with replies := datagram :: state.replies }
      else none

/-- The server has started with whatever its buffer holds, and no client has read a line. -/
def initial (C : Type*) (buf : Buffer buflen) : State C where
  buf      := buf
  data     := []
  requests := []
  replies  := []
  client   := fun _ => ⟨false, false, none, [], [], []⟩

omit [DecidableEq C] in
/-- The server sends back what it has received, whatever its buffer held. -/
theorem reply_recvfrom (buf : Buffer buflen) (datagram : Datagram C) :
    reply (recvfrom buf datagram) datagram = datagram := by
  obtain ⟨peer, payload, hlength⟩ := datagram
  simp [reply, recvfrom, Buffer.read, memcpy, load]

omit [DecidableEq C] in
/-- The client prints what it has received, up to the terminator of its cleared buffer. -/
theorem cstr_recvfrom_cleared {datagram : Datagram C} (hnul : nul ∉ datagram.payload)
    (hlt : datagram.payload.length < buflen) (beyond : List Char) :
    cstr ((recvfrom cleared datagram).bytes ++ beyond) = datagram.payload := by
  refine (Buffer.cstr_read_eq_iff _ _ _ hnul hlt).mpr ?_
  simp [cleared, zeroed, hlt]

end Embsys.Echo
