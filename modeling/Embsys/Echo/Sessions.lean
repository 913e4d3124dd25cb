/-
# What a client sees

Seen from outside, the server is not there: a datagram that is served is still under way
for its client. Client and network then make calls over a network, and the three facts
about those are facts about the programs. Whatever the network does, a client prints what
it was given earlier, cut at a terminator in it, and never the line of another client.
Where datagrams are not copied its output is its input line by line, up to the last one,
and it waits for ever exactly when one of its datagrams has been lost. From the end of its
input on it prints its last line again and again.
-/

import Embsys.Echo.Parties
import Embsys.Math.Exchange
import Embsys.Math.Transition

namespace Embsys.Echo

open Embsys.C Embsys.Math

variable {C : Type*}

def Datagram.message (datagram : Datagram C) : C × List Char :=
  (datagram.peer, datagram.payload)

/-- What is under way, on the way to the server or back. -/
def flight (requests replies : List (Datagram C)) : Multiset (C × List Char) :=
  (requests : Multiset (Datagram C)).map Datagram.message +
    (replies : Multiset (Datagram C)).map Datagram.message

def State.exchange (state : State C) : Exchange C (List Char) where
  calls c := (state.client c).sent.map Line.sent
  returns c := (state.client c).printed
  flight := flight state.requests state.replies

/-- A client has its last line in the buffer and has sent its lines in order, and after the
end of its input the last one again. -/
structure Client.Sends (client : Client) (again : List Line) : Prop where
  message : client.message = client.typed.getLast?
  sent : client.sent = client.typed ++ again
  last : ∀ line ∈ again, client.typed.getLast? = some line
  ended : client.ended = false → again = []

/-- A client waits for the answer to what it has sent last, or has printed one for each, and
every datagram carries a line as it was sent. -/
structure Consistent (state : State C) : Prop where
  waiting : ∀ c, (state.client c).sent.length =
    (state.client c).printed.length + (state.client c).waiting.toNat
  sends : ∀ c, ∃ again, (state.client c).Sends again
  requests : ∀ datagram ∈ state.requests, ∃ line : Line, datagram.payload = line.sent
  replies : ∀ datagram ∈ state.replies, ∃ line : Line, datagram.payload = line.sent

/-- What the step is to the client it concerns; serving is nothing. -/
def Action.event : Action C → Option (Exchange.Event C)
  | .gets c _ => some (.call c)
  | .getsEnd c => some (.call c)
  | .serve _ _ => none
  | .puts datagram _ => some (.take datagram.peer)
  | .loseRequest datagram => some (.lose datagram.peer)
  | .loseReply datagram => some (.lose datagram.peer)
  | .copyRequest datagram => some (.copy datagram.peer)
  | .copyReply datagram => some (.copy datagram.peer)

/-- The network loses a datagram of this client. -/
def Action.Loses (c : C) (action : Action C) : Prop :=
  action.event = some (.lose c)

/-! ## The bag of datagrams -/

theorem flight_cons_requests (datagram : Datagram C) (requests replies : List (Datagram C)) :
    flight (datagram :: requests) replies = datagram.message ::ₘ flight requests replies := by
  rw [flight, ← Multiset.cons_coe, Multiset.map_cons, Multiset.cons_add, flight]

theorem flight_cons_replies (datagram : Datagram C) (requests replies : List (Datagram C)) :
    flight requests (datagram :: replies) = datagram.message ::ₘ flight requests replies := by
  rw [flight, ← Multiset.cons_coe, Multiset.map_cons, Multiset.add_cons, flight]

variable [DecidableEq C] {copies : Bool} {state next : State C}

theorem flight_of_mem_requests {datagram : Datagram C} {requests : List (Datagram C)}
    (hmem : datagram ∈ requests) (replies : List (Datagram C)) :
    flight requests replies =
      datagram.message ::ₘ flight (requests.erase datagram) replies := by
  rw [← flight_cons_requests, flight, flight,
    Multiset.coe_eq_coe.mpr (List.perm_cons_erase hmem)]

theorem flight_of_mem_replies {datagram : Datagram C} {replies : List (Datagram C)}
    (hmem : datagram ∈ replies) (requests : List (Datagram C)) :
    flight requests replies =
      datagram.message ::ₘ flight requests (replies.erase datagram) := by
  rw [← flight_cons_replies, flight, flight,
    Multiset.coe_eq_coe.mpr (List.perm_cons_erase hmem)]

/-! ## One step -/

omit [DecidableEq C] in
theorem Consistent.lt_iff {state : State C} (h : Consistent state) (c : C) :
    (state.client c).printed.length < (state.client c).sent.length ↔
      (state.client c).waiting = true := by
  rw [h.waiting c]
  cases (state.client c).waiting <;> simp

/-- A line that `gets` stores before the end of the input. -/
theorem Client.Sends.gets {client : Client} {again : List Line} (h : client.Sends again)
    (hended : client.ended = false) (line : Line) (waiting : Bool) :
    Client.Sends { client with
      waiting := waiting
      message := some line
      typed := client.typed ++ [line]
      sent := client.sent ++ [line] } [] where
  message := List.getLast?_concat.symm
  sent := by
    rw [h.sent, h.ended hended, List.append_nil]
    exact (List.append_nil _).symm
  last := fun _ hmem => absurd hmem List.not_mem_nil
  ended := fun _ => rfl

/-- The line that `gets` leaves in the buffer at the end of the input. -/
theorem Client.Sends.getsEnd {client : Client} {again : List Line} (h : client.Sends again)
    {line : Line} (hmessage : client.message = some line) (waiting : Bool) :
    Client.Sends { client with
      waiting := waiting
      ended := true
      sent := client.sent ++ [line] } (again ++ [line]) where
  message := h.message
  sent := by rw [h.sent, List.append_assoc]
  last := by
    rw [List.forall_mem_append, List.forall_mem_singleton]
    exact ⟨h.last, h.message.symm.trans hmessage⟩
  ended := fun hfalse => Bool.noConfusion hfalse

/-- Sending a line from `gets`. -/
theorem Consistent.sendto (h : Consistent state) {c : C}
    (hready : (state.client c).waiting = false) (line : Line) {client : Client}
    (hsent : client.sent = (state.client c).sent)
    (hprinted : client.printed = (state.client c).printed)
    (hsends : ∃ again,
      Client.Sends { client with waiting := true, sent := client.sent ++ [line] } again) :
    Consistent (state.sendto c line client) where
  waiting := by
    refine (Function.forall_update_iff state.client fun _ client => client.sent.length =
      client.printed.length + client.waiting.toNat).mpr ⟨?_, fun d _ => h.waiting d⟩
    simp [hsent, hprinted, h.waiting c, hready]
  sends := (Function.forall_update_iff state.client fun _ client =>
    ∃ again, client.Sends again).mpr ⟨hsends, fun d _ => h.sends d⟩
  requests := List.forall_mem_cons.mpr ⟨⟨line, rfl⟩, h.requests⟩
  replies := h.replies

theorem Consistent.step (h : Consistent state) {action : Action C}
    (hstep : Echo.step copies state action = some next) : Consistent next := by
  cases action with
  | gets c line =>
      rw [Echo.step] at hstep
      split_ifs at hstep with hguard
      obtain rfl := Option.some.inj hstep
      obtain ⟨hready, hended⟩ := not_or.mp hguard
      obtain ⟨again, hsends⟩ := h.sends c
      refine h.sendto (Bool.eq_false_iff.mpr hready) line ?_ ?_ ?_
      · rfl
      · rfl
      · exact ⟨[], hsends.gets (Bool.eq_false_iff.mpr hended) line true⟩
  | getsEnd c =>
      rw [Echo.step] at hstep
      split at hstep
      · cases hstep
      · rename_i line hmessage
        split_ifs at hstep with hready
        obtain rfl := Option.some.inj hstep
        obtain ⟨again, hsends⟩ := h.sends c
        refine h.sendto (Bool.eq_false_iff.mpr hready) line ?_ ?_ ?_
        · rfl
        · rfl
        · exact ⟨again ++ [line], hsends.getsEnd hmessage true⟩
  | serve datagram beyond =>
      rw [Echo.step] at hstep
      split_ifs at hstep with hmem
      obtain rfl := Option.some.inj hstep
      refine ⟨h.waiting, h.sends,
        fun other hother => h.requests other (List.mem_of_mem_erase hother), ?_⟩
      dsimp only
      rw [reply_recvfrom]
      exact List.forall_mem_cons.mpr ⟨h.requests datagram hmem, h.replies⟩
  | puts datagram beyond =>
      rw [Echo.step] at hstep
      split_ifs at hstep with hguard
      obtain rfl := Option.some.inj hstep
      obtain ⟨again, hsends⟩ := h.sends datagram.peer
      refine ⟨?_, ?_, h.requests,
        fun other hother => h.replies other (List.mem_of_mem_erase hother)⟩
      · refine (Function.forall_update_iff state.client fun _ client => client.sent.length =
          client.printed.length + client.waiting.toNat).mpr ⟨?_, fun d _ => h.waiting d⟩
        simp [h.waiting, hguard.2]
      · refine (Function.forall_update_iff state.client fun _ client =>
          ∃ again, client.Sends again).mpr ⟨⟨again, ?_⟩, fun d _ => h.sends d⟩
        exact ⟨hsends.message, hsends.sent, hsends.last, hsends.ended⟩
  | loseRequest datagram =>
      rw [Echo.step] at hstep
      split_ifs at hstep with hmem
      obtain rfl := Option.some.inj hstep
      exact ⟨h.waiting, h.sends,
        fun other hother => h.requests other (List.mem_of_mem_erase hother), h.replies⟩
  | loseReply datagram =>
      rw [Echo.step] at hstep
      split_ifs at hstep with hmem
      obtain rfl := Option.some.inj hstep
      exact ⟨h.waiting, h.sends, h.requests,
        fun other hother => h.replies other (List.mem_of_mem_erase hother)⟩
  | copyRequest datagram =>
      rw [Echo.step] at hstep
      split_ifs at hstep with hmem
      obtain rfl := Option.some.inj hstep
      exact ⟨h.waiting, h.sends,
        List.forall_mem_cons.mpr ⟨h.requests _ hmem.2, h.requests⟩, h.replies⟩
  | copyReply datagram =>
      rw [Echo.step] at hstep
      split_ifs at hstep with hmem
      obtain rfl := Option.some.inj hstep
      exact ⟨h.waiting, h.sends, h.requests,
        List.forall_mem_cons.mpr ⟨h.replies _ hmem.2, h.replies⟩⟩

theorem calls_update (client : C → Client) (c : C) (new : Client) :
    (fun d => (Function.update client c new d).sent.map Line.sent) =
      Function.update (fun d => (client d).sent.map Line.sent) c (new.sent.map Line.sent) :=
  Function.comp_update (fun client : Client => client.sent.map Line.sent) client c new

theorem returns_update (client : C → Client) (c : C) (new : Client) :
    (fun d => (Function.update client c new d).printed) =
      Function.update (fun d => (client d).printed) c new.printed :=
  Function.comp_update Client.printed client c new

/-- Sending a line is a call. -/
theorem exchange_sendto (h : Consistent state) {c : C}
    (hready : ¬ (state.client c).waiting = true) (line : Line) {client : Client}
    (hsent : client.sent = (state.client c).sent)
    (hprinted : client.printed = (state.client c).printed) :
    Exchange.Step (copies = true) state.exchange (.call c)
      (state.sendto c line client).exchange := by
  have hall := not_lt.mp ((h.lt_iff c).not.mpr hready)
  simp only [State.exchange, State.sendto]
  rw [calls_update, returns_update, flight_cons_requests, hprinted, Function.update_eq_self,
    hsent, List.map_append]
  exact .call c line.sent (by simpa using hall)

/-- **Refinement.** Every step of a client or of the network is one of a call over a
network, and serving is none. -/
theorem exchange_step (h : Consistent state) {action : Action C}
    (hstep : Echo.step copies state action = some next) :
    action.event.elim (next.exchange = state.exchange) fun event =>
      Exchange.Step (copies = true) state.exchange event next.exchange := by
  cases action with
  | gets c line =>
      rw [Echo.step] at hstep
      split_ifs at hstep with hguard
      obtain rfl := Option.some.inj hstep
      exact exchange_sendto h (not_or.mp hguard).1 line rfl rfl
  | getsEnd c =>
      rw [Echo.step] at hstep
      split at hstep
      · cases hstep
      · rename_i line hmessage
        split_ifs at hstep with hready
        obtain rfl := Option.some.inj hstep
        exact exchange_sendto h hready line rfl rfl
  | serve datagram beyond =>
      rw [Echo.step] at hstep
      split_ifs at hstep with hmem
      obtain rfl := Option.some.inj hstep
      simp only [Action.event, Option.elim_none, State.exchange]
      rw [reply_recvfrom, flight_cons_replies, ← flight_of_mem_requests hmem]
  | puts datagram beyond =>
      rw [Echo.step] at hstep
      split_ifs at hstep with hguard
      obtain rfl := Option.some.inj hstep
      have hwaiting := (h.lt_iff _).mpr hguard.2
      obtain ⟨line, hline⟩ := h.replies datagram hguard.1
      have hprinted : cstr ((recvfrom cleared datagram).bytes ++ beyond) = datagram.payload :=
        cstr_recvfrom_cleared (hline ▸ line.nul_notMem_sent) (hline ▸ line.length_sent_lt) beyond
      simp only [Action.event, Option.elim_some, State.exchange]
      rw [calls_update, returns_update, Function.update_eq_self, hprinted,
        flight_of_mem_replies hguard.1]
      exact .take datagram.peer datagram.payload (by simpa using hwaiting)
  | loseRequest datagram =>
      rw [Echo.step] at hstep
      split_ifs at hstep with hmem
      obtain rfl := Option.some.inj hstep
      simp only [Action.event, Option.elim_some, State.exchange]
      rw [flight_of_mem_requests hmem]
      exact .lose _ _
  | loseReply datagram =>
      rw [Echo.step] at hstep
      split_ifs at hstep with hmem
      obtain rfl := Option.some.inj hstep
      simp only [Action.event, Option.elim_some, State.exchange]
      rw [flight_of_mem_replies hmem]
      exact .lose _ _
  | copyRequest datagram =>
      rw [Echo.step] at hstep
      split_ifs at hstep with hguard
      obtain rfl := Option.some.inj hstep
      simp only [Action.event, Option.elim_some, State.exchange]
      rw [flight_cons_requests, flight_of_mem_requests hguard.2]
      exact .copy _ _ hguard.1
  | copyReply datagram =>
      rw [Echo.step] at hstep
      split_ifs at hstep with hguard
      obtain rfl := Option.some.inj hstep
      simp only [Action.event, Option.elim_some, State.exchange]
      rw [flight_cons_replies, flight_of_mem_replies hguard.2]
      exact .copy _ _ hguard.1

/-- What every call over a network keeps, every step keeps. -/
theorem Consistent.keeps (h : Consistent state) {I : Exchange C (List Char) → Prop}
    (hkeeps : ∀ exchange event next, I exchange →
      Exchange.Step (copies = true) exchange event next → I next)
    (hI : I state.exchange) {action : Action C}
    (hstep : Echo.step copies state action = some next) : I next.exchange := by
  have hexchange := exchange_step h hstep
  cases hevent : action.event with
  | none =>
      rw [hevent, Option.elim_none] at hexchange
      rwa [hexchange]
  | some event =>
      rw [hevent, Option.elim_some] at hexchange
      exact hkeeps _ _ _ hI hexchange

/-! ## Runs -/

section Runs

variable {buf : Buffer buflen} {trace : List (State C × Action C)}

omit [DecidableEq C] in
theorem consistent_initial (buf : Buffer buflen) : Consistent (initial C buf) :=
  ⟨fun _ => rfl,
    fun _ => ⟨[], rfl, rfl, fun _ hmem => absurd hmem List.not_mem_nil, fun _ => rfl⟩,
    by simp [initial], by simp [initial]⟩

/-- What every call over a network keeps holds in every state of every run. -/
theorem exchange_run {I : Exchange C (List Char) → Prop}
    (hrun : Run (Echo.step copies) (initial C buf) trace state)
    (hstart : I (Exchange.start C (List Char)))
    (hkeeps : ∀ exchange event next, I exchange →
      Exchange.Step (copies = true) exchange event next → I next) :
    Consistent state ∧ I state.exchange := by
  refine hrun.preserves (I := fun state => Consistent state ∧ I state.exchange)
    ⟨consistent_initial buf, hstart⟩ ?_
  rintro state action next ⟨hconsistent, hI⟩ hnext
  exact ⟨hconsistent.step hnext, hconsistent.keeps hkeeps hI hnext⟩

/-- **Own lines only.** Whatever the network loses, copies and reorders, every line a
client prints is a line it was given before, up to the first terminator in it. -/
theorem printed_typed (hrun : Run (Echo.step copies) (initial C buf) trace state) (c : C) :
    ∀ text ∈ (state.client c).printed, ∃ line ∈ (state.client c).typed,
      text = cstr line.text := by
  intro text htext
  obtain ⟨hconsistent, hechoes⟩ :=
    exchange_run hrun Exchange.echoes_start fun _ _ _ h hstep => h.step hstep
  obtain ⟨again, hsends⟩ := hconsistent.sends c
  obtain ⟨line, hline, rfl⟩ := List.mem_map.mp (hechoes.returns c text htext)
  refine ⟨line, ?_, line.sent_eq⟩
  rw [hsends.sent] at hline
  rcases List.mem_append.mp hline with hgiven | hagain
  · exact hgiven
  · exact List.mem_of_getLast? (hsends.last line hagain)

theorem lockstep_keeps (exchange : Exchange C (List Char)) (event : Exchange.Event C)
    (next : Exchange C (List Char)) (h : exchange.Lockstep)
    (hstep : Exchange.Step (false = true) exchange event next) : next.Lockstep :=
  h.step (by simpa using hstep)

/-- **Line by line.** Where datagrams are lost and reordered but not copied, a client has
printed its lines in order and, from the end of its input on, the last of them again and
again, each up to the first terminator in it; or all of these but the last. -/
theorem printed_in_order (hrun : Run (Echo.step false) (initial C buf) trace state) (c : C) :
    ∃ again : List Line, (∀ line ∈ again, (state.client c).typed.getLast? = some line) ∧
      ((state.client c).ended = false → again = []) ∧
      ((state.client c).printed =
          ((state.client c).typed ++ again).map (fun line => cstr line.text) ∨
        ∃ last, ((state.client c).typed ++ again).map (fun line => cstr line.text) =
          (state.client c).printed ++ [last]) := by
  obtain ⟨hconsistent, hlockstep⟩ := exchange_run hrun Exchange.lockstep_start lockstep_keeps
  obtain ⟨again, hsends⟩ := hconsistent.sends c
  have hsent : Line.sent = fun line => cstr line.text := funext Line.sent_eq
  have hcalls := hlockstep.calls c
  simp only [State.exchange, hsent, hsends.sent] at hcalls
  exact ⟨again, hsends.last, hsends.ended, hcalls.imp Eq.symm id⟩

omit [DecidableEq C] in
theorem stuck_iff {state : State C} (h : Consistent state) (c : C) :
    state.exchange.Stuck c ↔ (state.client c).waiting = true ∧
      ∀ datagram ∈ state.requests ++ state.replies, datagram.peer ≠ c := by
  simp only [Exchange.Stuck, Exchange.Waiting, State.exchange, List.length_map, h.lt_iff]
  simp [flight, Datagram.message, or_imp, forall_and]

/-- **A lost datagram.** Where datagrams are not copied, a client waits with nothing under
way for it exactly when one of its datagrams has been lost. -/
theorem stuck_iff_lost (hrun : Run (Echo.step false) (initial C buf) trace state) (c : C) :
    ((state.client c).waiting = true ∧
        ∀ datagram ∈ state.requests ++ state.replies, datagram.peer ≠ c) ↔
      ∃ entry ∈ trace, entry.2.Loses c := by
  have hcause := hrun.iff_exists
    (I := fun state => Consistent state ∧ state.exchange.Lockstep)
    (P := fun state => state.exchange.Stuck c) (E := fun _ action => action.Loses c)
    ⟨consistent_initial buf, Exchange.lockstep_start⟩ ?_ ?_
  · have hstart : ¬ (initial C buf).exchange.Stuck c := fun hstuck => Nat.lt_irrefl 0 hstuck.1
    rw [← stuck_iff (exchange_run hrun Exchange.lockstep_start lockstep_keeps).1, hcause,
      or_iff_right hstart]
  · rintro state action next ⟨hconsistent, hlockstep⟩ hnext
    exact ⟨hconsistent.step hnext, hconsistent.keeps lockstep_keeps hlockstep hnext⟩
  · rintro state action next ⟨hconsistent, hlockstep⟩ hnext
    have hexchange := exchange_step hconsistent hnext
    unfold Action.Loses
    cases hevent : action.event with
    | none =>
        rw [hevent, Option.elim_none] at hexchange
        simp [hexchange]
    | some event =>
        rw [hevent, Option.elim_some] at hexchange
        rw [hlockstep.stuck_step (by simpa using hexchange), Option.some.injEq]

end Runs

def lineA : Line := ⟨['a'], by decide⟩
def lineB : Line := ⟨['b'], by decide⟩

/-- The request for the first line is copied, and its second answer is read as the
answer to the second line. -/
def answeredTwice : List (Action Unit) :=
  [.gets () lineA, .copyRequest (request () lineA), .serve (request () lineA) [],
    .serve (request () lineA) [], .puts (request () lineA) [], .gets () lineB,
    .puts (request () lineA) []]

theorem printed_typed_answeredTwice :
    ∃ trace state, Run (Echo.step true) (initial Unit cleared) trace state ∧
      (state.client ()).printed = [['a'], ['a']] ∧
        ∀ text ∈ (state.client ()).printed, ∃ line ∈ (state.client ()).typed,
          text = cstr line.text := by
  have hexec : ∃ state, exec (Echo.step true) (initial Unit cleared) answeredTwice = some state ∧
      (state.client ()).printed = [['a'], ['a']] :=
    ⟨_, rfl, rfl⟩
  obtain ⟨state, hstate, hprinted⟩ := hexec
  obtain ⟨trace, hrun, -⟩ := exists_run_of_exec hstate
  exact ⟨trace, state, hrun, hprinted, printed_typed hrun ()⟩

/-- The first line is answered, and the request for the second is lost. -/
def secondLost : List (Action Unit) :=
  [.gets () lineA, .serve (request () lineA) [], .puts (request () lineA) [], .gets () lineB,
    .loseRequest (request () lineB)]

theorem stuck_iff_lost_secondLost :
    ∃ trace state, Run (Echo.step false) (initial Unit cleared) trace state ∧
      (state.client ()).waiting = true ∧
        (((state.client ()).waiting = true ∧
            ∀ datagram ∈ state.requests ++ state.replies, datagram.peer ≠ ()) ↔
          ∃ entry ∈ trace, entry.2.Loses ()) := by
  have hexec : ∃ state, exec (Echo.step false) (initial Unit cleared) secondLost = some state ∧
      (state.client ()).waiting = true :=
    ⟨_, rfl, rfl⟩
  obtain ⟨state, hstate, hwaiting⟩ := hexec
  obtain ⟨trace, hrun, -⟩ := exists_run_of_exec hstate
  exact ⟨trace, state, hrun, hwaiting, stuck_iff_lost hrun ()⟩

/-- Two lines are answered, the input ends, and the second line is sent and answered again. -/
def inputEnds : List (Action Unit) :=
  [.gets () lineA, .serve (request () lineA) [], .puts (request () lineA) [], .gets () lineB,
    .serve (request () lineB) [], .puts (request () lineB) [], .getsEnd (),
    .serve (request () lineB) [], .puts (request () lineB) [], .getsEnd ()]

theorem printed_in_order_inputEnds :
    ∃ trace state, Run (Echo.step false) (initial Unit cleared) trace state ∧
      (state.client ()).printed = [['a'], ['b'], ['b']] ∧
      ∃ again : List Line, (∀ line ∈ again, (state.client ()).typed.getLast? = some line) ∧
        ((state.client ()).ended = false → again = []) ∧
        ((state.client ()).printed =
            ((state.client ()).typed ++ again).map (fun line => cstr line.text) ∨
          ∃ last, ((state.client ()).typed ++ again).map (fun line => cstr line.text) =
            (state.client ()).printed ++ [last]) := by
  have hexec : ∃ state, exec (Echo.step false) (initial Unit cleared) inputEnds = some state ∧
      (state.client ()).printed = [['a'], ['b'], ['b']] :=
    ⟨_, rfl, rfl⟩
  obtain ⟨state, hstate, hprinted⟩ := hexec
  obtain ⟨trace, hrun, -⟩ := exists_run_of_exec hstate
  exact ⟨trace, state, hrun, hprinted, printed_in_order hrun ()⟩

end Embsys.Echo
