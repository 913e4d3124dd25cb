/-
# Delivery of messages

How much the miniserver asks for depends on the string the last message left, so
whether a message arrives depends on the one before it. A message comes through whole
when its terminator does, which takes a string two characters longer before it, or
when it replaces all but the last character of a string of its own length and that
character is its own.
-/

import Mathlib.Data.List.Chain
import Embsys.Autotools.Miniserver

namespace Embsys.Autotools

open Embsys.C Embsys.Os

/-- A run of the client with its message, what follows the message in the client's memory,
and what follows the buffer in the server's. -/
structure ClientRun where
  message : List Char
  after : List Char
  beyond : List Char
  message_ne : message ≠ []
  nul_notMem : nul ∉ message
  length_lt : message.length < 1023

def ClientRun.connection (run : ClientRun) : Connection :=
  ⟨sent run.message run.after, run.beyond⟩

/-- The lines the miniserver logs for these runs, one after the other. -/
def logLines (buff : Buffer recvSize) (runs : List ClientRun) : List (List Char) :=
  (serve buff (runs.map ClientRun.connection)).map Iteration.logged

/-- A message that arrives whole after this one. -/
def Follows (previous next : List Char) : Prop :=
  next.length + 2 ≤ previous.length ∨
    (next.length = previous.length ∧ next.getLast? = previous.getLast?)

/-- The buffer holds this string. -/
def Holds (buff : Buffer recvSize) (text : List Char) : Prop :=
  ∃ rest, buff.bytes = text ++ nul :: rest

/-- A string that is received with its terminator is logged, and held from then on. -/
theorem iteration_of_received {buff : Buffer recvSize} {connection : Connection}
    {text rest : List Char} (hnul : nul ∉ text) (hlength : text.length < recvSize)
    (hreceived : received buff connection = text ++ nul :: rest) :
    (iteration buff connection).logged = text ∧ Holds (iteration buff connection).buff text := by
  constructor
  · simp only [iteration, hreceived]
    exact cstr_append_nul hnul
  · refine ⟨rest.take (recvSize - text.length - 1), ?_⟩
    simp only [iteration, hreceived]
    rw [List.take_append, List.take_of_length_le hlength.le]
    congr 1
    obtain ⟨n, hn⟩ : ∃ n, recvSize - text.length = n + 1 := ⟨recvSize - text.length - 1, by omega⟩
    rw [hn, List.take_succ_cons]
    rfl

/-! ## One connection -/

/-- As much of a message as is asked for, the terminator not reached. -/
theorem take_sent_of_le {message after : List Char} {n : ℕ} (hn : n ≤ sizeofPointer)
    (hle : n ≤ message.length) : (sent message after).take n = message.take n := by
  rw [sent, List.take_take, min_eq_left hn, List.take_append_of_le_length hle]

/-- A message whose terminator is reached. -/
theorem take_sent_of_lt {message : List Char} (after : List Char) {n : ℕ}
    (hlt : message.length < n) (hlt' : message.length < sizeofPointer) :
    ∃ rest, (sent message after).take n = message ++ nul :: rest := by
  obtain ⟨k, hk⟩ : ∃ k, min n sizeofPointer = message.length + (k + 1) :=
    ⟨min n sizeofPointer - message.length - 1, by omega⟩
  exact ⟨after.take k, by rw [sent, List.take_take, hk, List.take_length_add_append,
    List.take_succ_cons]⟩

/-- A read that asks for more than a pointer's bytes gets all that was sent. -/
theorem take_sent_of_ge {message after : List Char} {n : ℕ} (hn : sizeofPointer ≤ n) :
    (sent message after).take n = (sent message after).take sizeofPointer := by
  rw [sent, List.take_take, List.take_take, min_eq_right hn, min_self]

theorem nul_notMem_recvBuff : nul ∉ recvBuff.bytes := by
  intro hmem
  exact absurd (List.eq_of_mem_replicate hmem) (by decide)

/-- The buffer filled with `'0'` asks for more than a client writes. -/
theorem le_asked_recvBuff (beyond : List Char) : 1023 ≤ asked (recvBuff.bytes ++ beyond) := by
  have hstrlen := length_le_strlen nul_notMem_recvBuff beyond
  have hlength : recvBuff.bytes.length = 1024 := recvBuff.length_bytes
  rw [asked_of_pos (by omega)]
  omega

/-- A message that is cut before its terminator runs on into the rest of the buffer. -/
theorem logged_ne_of_long (run : ClientRun) (hlong : sizeofPointer ≤ run.message.length) :
    (iteration recvBuff run.connection).logged ≠ run.message := by
  have hlength := run.length_lt
  have hasked : sizeofPointer ≤ asked (recvBuff.bytes ++ run.beyond) :=
    le_trans (by decide) (le_asked_recvBuff run.beyond)
  have hreceived : received recvBuff run.connection =
      (run.message.take sizeofPointer ++ List.replicate (recvSize - sizeofPointer) '0') ++
        run.beyond := by
    have hzeros : (recvBuff.bytes ++ run.beyond).drop sizeofPointer =
        List.replicate (recvSize - sizeofPointer) '0' ++ run.beyond := by
      rw [List.drop_append_of_le_length (recvBuff.length_bytes.ge.trans' (by decide)), recvBuff,
        List.drop_replicate]
    rw [received_eq, ClientRun.connection, take_sent_of_ge hasked, take_sent_of_le le_rfl hlong,
      List.length_take_of_le hlong, hzeros, List.append_assoc]
  have hnul : nul ∉ run.message.take sizeofPointer ++
      List.replicate (recvSize - sizeofPointer) '0' := by
    rw [List.mem_append, not_or]
    refine ⟨fun hmem => run.nul_notMem (List.mem_of_mem_take hmem), fun hmem => ?_⟩
    exact absurd (List.eq_of_mem_replicate hmem) (by decide)
  have hstrlen := length_le_strlen hnul run.beyond
  intro hlogged
  have hcstr : cstr (received recvBuff run.connection) = run.message := hlogged
  rw [← hreceived, strlen, hcstr, List.length_append, List.length_take_of_le hlong,
    List.length_replicate, recvSize, sizeofPointer] at hstrlen
  omega

/-- The first message arrives whole exactly when its terminator is written. -/
theorem first_logged_iff (run : ClientRun) :
    ((iteration recvBuff run.connection).logged = run.message ↔ run.message.length ≤ 7) ∧
      (run.message.length ≤ 7 → Holds (iteration recvBuff run.connection).buff run.message) := by
  have hasked := le_asked_recvBuff run.beyond
  have hshort : run.message.length ≤ 7 →
      (iteration recvBuff run.connection).logged = run.message ∧
        Holds (iteration recvBuff run.connection).buff run.message := by
    intro hle
    obtain ⟨rest, hrest⟩ := take_sent_of_lt run.after
      (by omega : run.message.length < asked (recvBuff.bytes ++ run.beyond))
      (by rw [sizeofPointer]; omega)
    have hreceived : received recvBuff run.connection = run.message ++ nul :: (rest ++
        (recvBuff.bytes ++ run.beyond).drop (run.message ++ nul :: rest).length) := by
      rw [received_eq, ClientRun.connection, hrest, List.append_assoc, List.cons_append]
    exact iteration_of_received run.nul_notMem (by rw [recvSize]; omega) hreceived
  refine ⟨⟨fun hlogged => ?_, fun hle => (hshort hle).1⟩, fun hle => (hshort hle).2⟩
  by_contra hlong
  exact logged_ne_of_long run (by rw [sizeofPointer]; omega) hlogged

/-- All but the last character of a text and this one are the text exactly when it has one
character more and ends in this one. -/
theorem take_append_singleton_eq_iff {text : List Char} {n : ℕ} (c : Char)
    (hn : n ≤ text.length) :
    text.take n ++ [c] = text ↔ text.length = n + 1 ∧ text.getLast? = some c := by
  constructor
  · intro heq
    have hlength := congrArg List.length heq
    rw [List.length_append, List.length_take_of_le hn, List.length_singleton] at hlength
    exact ⟨hlength.symm, heq ▸ List.getLast?_concat⟩
  · rintro ⟨hlength, hlast⟩
    obtain ⟨front, rfl⟩ := List.getLast?_eq_some_iff.mp hlast
    rw [List.length_append, List.length_singleton, Nat.add_right_cancel_iff] at hlength
    rw [List.take_left' hlength]

/-- **After a message.** When the buffer holds a short string, the next message arrives
whole exactly when it follows the string, and is held from then on. -/
theorem next_logged_iff {buff : Buffer recvSize} {previous : List Char} (run : ClientRun)
    (hholds : Holds buff previous) (hnul : nul ∉ previous) (hne : previous ≠ [])
    (hlength : previous.length ≤ 7) :
    ((iteration buff run.connection).logged = run.message ↔ Follows previous run.message) ∧
      (Follows previous run.message →
        Holds (iteration buff run.connection).buff run.message) := by
  obtain ⟨rest, hbuff⟩ := hholds
  have hpos := List.length_pos_iff.mpr hne
  have hasked : asked (buff.bytes ++ run.beyond) = previous.length - 1 := by
    have hstrlen : strlen (previous ++ nul :: (rest ++ run.beyond)) = previous.length := by
      rw [strlen, cstr_append_nul hnul]
    rw [hbuff, List.append_assoc, List.cons_append, asked_of_pos (by omega), hstrlen]
  have hreceived := received_eq buff run.connection
  rw [ClientRun.connection, hasked, hbuff] at hreceived
  by_cases hshort : run.message.length + 2 ≤ previous.length
  · -- The terminator of the message is among the bytes that are read.
    obtain ⟨behind, hbehind⟩ := take_sent_of_lt run.after
      (by omega : run.message.length < previous.length - 1) (by rw [sizeofPointer]; omega)
    rw [hbehind, List.append_assoc, List.cons_append] at hreceived
    obtain ⟨hlogged, hheld⟩ :=
      iteration_of_received run.nul_notMem (by rw [recvSize]; omega) hreceived
    exact ⟨iff_of_true hlogged (Or.inl hshort), fun _ => hheld⟩
  · -- The last character of the string in the buffer stays, with its terminator.
    obtain ⟨front, last, rfl⟩ : ∃ front last, previous = front ++ [last] :=
      ⟨previous.dropLast, previous.getLast hne, (List.dropLast_concat_getLast hne).symm⟩
    rw [List.length_append, List.length_singleton] at hlength hshort hpos hreceived
    rw [Nat.add_sub_cancel, take_sent_of_le (by rw [sizeofPointer]; omega) (by omega),
      List.length_take_of_le (by omega)] at hreceived
    have hkept : received buff run.connection =
        (run.message.take front.length ++ [last]) ++ nul :: (rest ++ run.beyond) := by
      apply hreceived.trans
      simp
    have hnul' : nul ∉ run.message.take front.length ++ [last] := by
      rw [List.mem_append, not_or] at hnul ⊢
      exact ⟨fun hmem => run.nul_notMem (List.mem_of_mem_take hmem), hnul.2⟩
    have hsize : (run.message.take front.length ++ [last]).length < recvSize := by
      rw [List.length_append, List.length_take_of_le (by omega), List.length_singleton, recvSize]
      omega
    obtain ⟨hlogged, hheld⟩ := iteration_of_received hnul' hsize hkept
    have hfollows : run.message.take front.length ++ [last] = run.message ↔
        Follows (front ++ [last]) run.message := by
      rw [take_append_singleton_eq_iff last (by omega), Follows, List.getLast?_concat,
        List.length_append, List.length_singleton, or_iff_right hshort]
    refine ⟨?_, fun hfollow => ?_⟩
    · rw [hlogged, hfollows]
    · rwa [hfollows.mpr hfollow] at hheld

/-! ## Runs of the client -/

/-- The lines after a message the buffer holds. -/
theorem logLines_eq_iff_of_holds {buff : Buffer recvSize} {previous : List Char}
    (runs : List ClientRun) (hholds : Holds buff previous) (hnul : nul ∉ previous)
    (hne : previous ≠ []) (hlength : previous.length ≤ 7) :
    logLines buff runs = runs.map ClientRun.message ↔
      List.IsChain Follows (previous :: runs.map ClientRun.message) := by
  induction runs generalizing buff previous with
  | nil => simp [logLines, serve]
  | cons run runs ih =>
      obtain ⟨hlogged, hheld⟩ := next_logged_iff run hholds hnul hne hlength
      have hshort : Follows previous run.message → run.message.length ≤ 7 := by
        rintro (hle | ⟨heq, -⟩) <;> omega
      simp only [logLines, List.map_cons, serve, List.cons.injEq, List.isChain_cons_cons]
      rw [hlogged]
      apply and_congr_right
      intro hfollows
      exact ih (hheld hfollows) run.nul_notMem run.message_ne (hshort hfollows)

/-- **Messages delivered whole.** The lines are the messages exactly when the first has at
most seven characters and each further one follows the one before it. -/
theorem logLines_eq_iff (runs : List ClientRun) :
    logLines recvBuff runs = runs.map ClientRun.message ↔
      (∀ first ∈ (runs.map ClientRun.message).head?, first.length ≤ 7) ∧
        List.IsChain Follows (runs.map ClientRun.message) := by
  cases runs with
  | nil => simp [logLines, serve]
  | cons run runs =>
      obtain ⟨hlogged, hheld⟩ := first_logged_iff run
      have hrest := fun hshort =>
        logLines_eq_iff_of_holds runs (hheld hshort) run.nul_notMem run.message_ne hshort
      simp only [logLines, List.map_cons, serve, List.cons.injEq, List.head?_cons,
        Option.mem_some_iff, forall_eq']
      rw [hlogged]
      exact and_congr_right hrest

/-- The second of two messages, one character shorter. -/
def twoRuns : List ClientRun :=
  [⟨['h', 'e', 'l', 'l', 'o'], [], [], by decide, by decide, by decide⟩,
    ⟨['b', 'y', 'e', 's'], [], [], by decide, by decide, by decide⟩]

/-- It is logged with the last character of the first. -/
theorem not_forall_logLines_eq :
    ¬ ∀ runs : List ClientRun, logLines recvBuff runs = runs.map ClientRun.message := by
  intro h
  exact absurd (h twoRuns) (by decide +kernel)

end Embsys.Autotools
