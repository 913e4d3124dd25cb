/-
# The time of day over a stream

The server answers every connection with the time of day, 24 characters of it and a line
end, and closes it. The client reads the stream in pieces of any size, ends each piece
with a terminator of its own and prints it as a string. Its buffer holds older bytes
behind each piece, which are never seen. What is lost are the bytes that a piece holds
behind a terminator of the stream; the server sends none, so its line is printed as it was
sent, however it is cut.
-/

import Embsys.Math.Cut
import Embsys.C.Buffer

namespace Embsys.Daytime

open Embsys.C Embsys.Math

/-! ## socket_server -/

/-- `sizeof(sendBuff)`. -/
def sendSize : ℕ := 1025

/-- The bytes written to a connection that is accepted when `ctime` gives this text. -/
def served (ctime : List Char) : List Char :=
  let sendBuff := snprintf sendSize (ctime.take 24 ++ ['\r', '\n'])
  load sendBuff 0 (strlen sendBuff)

/-! ## socket_client -/

/-- `sizeof(recvBuff)`. -/
def recvSize : ℕ := 1024

/-- The buffer of the client after `memset(recvBuff, '0', sizeof(recvBuff))`. -/
def recvBuff : Buffer recvSize := ⟨List.replicate recvSize '0', List.length_replicate⟩

/-- `recvBuff[n] = 0`, for `n` inside the buffer. -/
def terminate (recvBuff : Buffer recvSize) (n : ℕ) (hn : n < recvSize) : Buffer recvSize where
  bytes        := store recvBuff.bytes n nul
  length_bytes :=
    (length_store (Nat.lt_of_lt_of_eq hn recvBuff.length_bytes.symm) nul).trans
      recvBuff.length_bytes

/-- The bytes of one `read`, at most `sizeof(recvBuff)-1`. -/
abbrev Piece : Type := ReadResult (recvSize - 1)

theorem Piece.length_lt (piece : Piece) : piece.bytes.length < recvSize :=
  Nat.lt_of_le_pred (by decide) piece.length_le

/-- One iteration of the client: the buffer it leaves and what it prints. -/
def clientStep (recvBuff : Buffer recvSize) (piece : Piece) : Buffer recvSize × List Char :=
  let recvBuff := recvBuff.read ⟨piece.bytes, Nat.le_of_lt piece.length_lt⟩
  let recvBuff := terminate recvBuff piece.bytes.length piece.length_lt
  (recvBuff, cstr recvBuff.bytes)

/-- What the client prints until the connection is closed. -/
def client : Buffer recvSize → List Piece → List Char
  | _, [] => []
  | recvBuff, piece :: pieces =>
      let (recvBuff, printed) := clientStep recvBuff piece
      printed ++ client recvBuff pieces

/-! ## The stream -/

/-- A piece is printed as a string, whatever the buffer held before. -/
theorem clientStep_printed (recvBuff : Buffer recvSize) (piece : Piece) :
    (clientStep recvBuff piece).2 = cstr piece.bytes := by
  have hbytes : (clientStep recvBuff piece).1.bytes =
      piece.bytes ++ nul :: recvBuff.bytes.drop (piece.bytes.length + 1) := by
    simp [clientStep, terminate, Buffer.read, store, memcpy]
  change cstr (clientStep recvBuff piece).1.bytes = _
  rw [hbytes]
  by_cases hnul : nul ∈ piece.bytes
  · exact cstr_append_of_mem hnul _
  · rw [cstr_append_nul hnul]
    exact (List.append_nil piece.bytes ▸ cstr_append hnul []).symm

theorem client_eq (recvBuff : Buffer recvSize) (pieces : List Piece) :
    client recvBuff pieces = (pieces.map fun piece => cstr piece.bytes).flatten := by
  induction pieces generalizing recvBuff with
  | nil => rfl
  | cons piece pieces ih =>
      rw [List.map_cons, List.flatten_cons, ← clientStep_printed recvBuff piece,
        ← ih (clientStep recvBuff piece).1]
      rfl

/-- **What the client prints.** It prints the stream less its terminators exactly when no piece
holds another byte behind a terminator. -/
theorem client_eq_filter_iff (recvBuff : Buffer recvSize) (pieces : List Piece) :
    client recvBuff pieces = (pieces.map ReadResult.bytes).flatten.filter (· ≠ nul) ↔
      ∀ piece ∈ pieces, ∀ (i j : ℕ) (a b : Char), i < j → piece.bytes[i]? = some a →
        piece.bytes[j]? = some b → b ≠ nul → a ≠ nul := by
  rw [client_eq, List.filter_flatten, List.map_map]
  apply (flatten_map_eq_iff fun piece _ => takeWhile_prefix_filter _ piece.bytes).trans
  apply forall₂_congr
  intro piece hpiece
  have hmarks := @takeWhile_eq_filter_iff _ (fun c => decide (c ≠ nul)) piece.bytes
  simp only [decide_eq_true_eq] at hmarks
  exact hmarks

/-- A date without a terminator is sent as it is printed. -/
theorem served_eq {ctime : List Char} (hctime : nul ∉ ctime) :
    served ctime = ctime.take 24 ++ ['\r', '\n'] := by
  have hnul : nul ∉ ctime.take 24 ++ ['\r', '\n'] := by
    rw [List.mem_append, not_or]
    exact ⟨fun hmem => hctime (List.mem_of_mem_take hmem), by decide⟩
  have hlength : (ctime.take 24 ++ ['\r', '\n']).length ≤ sendSize - 1 := by
    rw [List.length_append]
    exact Nat.le_trans (Nat.add_le_add_right (List.length_take_le _ _) _) (by decide)
  rw [served, snprintf, List.take_of_length_le hlength, strlen, cstr_append_nul hnul, load,
    List.drop_zero, List.take_left]

/-- **The line of the server.** However the stream is cut, the client prints the time of day as
it was sent. -/
theorem client_served {ctime : List Char} (hctime : nul ∉ ctime) {pieces : List Piece}
    (hpieces : (pieces.map ReadResult.bytes).flatten = served ctime)
    (recvBuff : Buffer recvSize) :
    client recvBuff pieces = ctime.take 24 ++ ['\r', '\n'] := by
  have hnul : nul ∉ served ctime := by
    rw [served_eq hctime, List.mem_append, not_or]
    exact ⟨fun hmem => hctime (List.mem_of_mem_take hmem), by decide⟩
  have hprinted := (client_eq_filter_iff recvBuff pieces).mpr (by
    intro piece hpiece i j a b hij ha hb hne heq
    apply hnul
    rw [← hpieces, ← heq]
    exact List.mem_flatten_of_mem (List.mem_map_of_mem hpiece) (List.mem_of_getElem? ha))
  rw [hprinted, hpieces, ← served_eq hctime]
  apply List.filter_eq_self.mpr
  intro c hc
  simpa using fun heq : c = nul => hnul (heq ▸ hc)

/-- What `ctime` gives for 0. -/
def epoch : List Char :=
  ['T', 'h', 'u', ' ', 'J', 'a', 'n', ' ', ' ', '1', ' ', '0', '0', ':', '0', '0', ':', '0', '0',
    ' ', '1', '9', '7', '0', '\n']

/-- The line in two pieces. -/
def twoPieces : List Piece :=
  [⟨(served epoch).take 10, by decide⟩, ⟨(served epoch).drop 10, by decide⟩]

theorem client_served_twoPieces :
    client recvBuff twoPieces = epoch.take 24 ++ ['\r', '\n'] :=
  client_served (by decide) (by simp [twoPieces]) recvBuff

end Embsys.Daytime
