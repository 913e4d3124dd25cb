/-
# How old a message can be

A record that is stored is overtaken by a message soon: within 14 steps of its own
`convert` commits that record or a later one, and within 7 steps after that `forward`
has sent one. The bounds count the steps of the two threads alone and hold against every
interleaving with the other processes and every signal: a thread that was stopped has not
made the steps.
-/

import Embsys.Concurrent.Linearization

namespace Embsys.Concurrent

open Embsys.Math Embsys.C Embsys.Os Embsys.ShmWriter Embsys.Forwarder

/-! ## Steps left -/

/-- Its own steps until `convert` has fetched. -/
def ConvertPc.toFetch : ConvertPc → ℕ
  | .lock _ => 10
  | .storeTime _ => 9
  | .storeLatitude _ => 8
  | .storeLongitude _ => 7
  | .unlock => 6
  | .wait => 5
  | .loadTime => 4
  | .loadLatitude _ => 3
  | .loadLongitude _ _ => 2
  | .post _ => 1

/-- Its own steps until it commits what it has fetched. -/
def ConvertPc.toCommit : ConvertPc → ℕ
  | .lock _ => 4
  | .storeTime _ => 3
  | .storeLatitude _ => 2
  | .storeLongitude _ => 1
  | pc => pc.toFetch + 4

/-- Its own steps until `forward` has taken. -/
def ForwardPc.toTake : ForwardPc → ℕ
  | .send _ => 6
  | .lock => 5
  | .loadTime => 4
  | .loadLatitude _ => 3
  | .loadLongitude _ _ => 2
  | .unlock _ => 1

/-- Its own steps until it sends what it has taken. -/
def ForwardPc.toSend : ForwardPc → ℕ
  | .send _ => 1
  | pc => pc.toTake + 1

/-- Steps until a thread has passed on `count` entries: none when it has, `near` when it
holds the last of them, `far` otherwise. -/
def stepsLeft (count passed held near far : ℕ) : ℕ :=
  if count ≤ passed then 0 else if count ≤ held then near else far

theorem stepsLeft_anti {count passed passed' held held' near far : ℕ} (hpassed : passed ≤ passed')
    (hheld : held ≤ held') (hnear : near ≤ far) :
    stepsLeft count passed' held' near far ≤ stepsLeft count passed held near far := by
  unfold stepsLeft
  grind

theorem le_of_stepsLeft {count passed held near far : ℕ} (hnear : 0 < near) (hfar : 0 < far)
    (h : stepsLeft count passed held near far ≤ 0) : count ≤ passed := by
  unfold stepsLeft at h
  grind

theorem ConvertPc.toCommit_pos (pc : ConvertPc) : 0 < pc.toCommit := by
  cases pc <;> simp [ConvertPc.toCommit]

theorem ForwardPc.toSend_pos (pc : ForwardPc) : 0 < pc.toSend := by
  cases pc <;> simp [ForwardPc.toSend]

theorem ConvertPc.toCommit_le (pc : ConvertPc) : pc.toCommit ≤ pc.toFetch + 4 := by
  cases pc <;> simp [ConvertPc.toCommit, ConvertPc.toFetch]

theorem ForwardPc.toSend_le (pc : ForwardPc) : pc.toSend ≤ pc.toTake + 1 := by
  cases pc <;> simp [ForwardPc.toSend, ForwardPc.toTake]

section Relay

variable {n m : ℕ}

/-- Steps of `convert` until it has committed the first `count` entries. -/
def convertLeft (count : ℕ) (relay : Relay n) (pc : ConvertPc) : ℕ :=
  stepsLeft count (relay.committed + 1) (relay.fetched + 1) pc.toCommit (pc.toFetch + 4)

/-- Steps of `forward` until it has sent the last of them or a later one. -/
def forwardLeft (count : ℕ) (relay : Relay n) (pc : ForwardPc) : ℕ :=
  stepsLeft count relay.reached (relay.taken + 1) pc.toSend (pc.toTake + 1)

theorem convertLeft_anti {count : ℕ} {relay : Relay n} {relay' : Relay m}
    (h : relay.Before relay') (pc : ConvertPc) :
    convertLeft count relay' pc ≤ convertLeft count relay pc :=
  stepsLeft_anti (Nat.succ_le_succ h.committed) (Nat.succ_le_succ h.fetched) pc.toCommit_le

theorem forwardLeft_anti {count : ℕ} {relay : Relay n} {relay' : Relay m}
    (h : relay.Before relay') (pc : ForwardPc) :
    forwardLeft count relay' pc ≤ forwardLeft count relay pc :=
  stepsLeft_anti h.reached (Nat.succ_le_succ h.taken) pc.toSend_le

theorem convertLeft_le (count : ℕ) (relay : Relay n) (pc : ConvertPc) :
    convertLeft count relay pc ≤ 14 := by
  unfold convertLeft stepsLeft
  cases pc <;> simp only [ConvertPc.toCommit, ConvertPc.toFetch] <;> grind

theorem forwardLeft_le (count : ℕ) (relay : Relay n) (pc : ForwardPc) :
    forwardLeft count relay pc ≤ 7 := by
  unfold forwardLeft stepsLeft
  cases pc <;> simp only [ForwardPc.toSend, ForwardPc.toTake] <;> grind

/-- What one step of `convert` takes off, at its points and between them. -/
inductive ConvertCounts : Option Stage → ConvertPc → ConvertPc → Prop
  | between {pc pc' : ConvertPc} (hfetch : pc.toFetch = pc'.toFetch + 1)
      (hcommit : pc.toCommit = pc'.toCommit + 1) : ConvertCounts none pc pc'
  | fetch {pc pc' : ConvertPc} (hfetch : pc.toFetch = 1) (hcommit : pc'.toCommit = 4)
      (hbefore : pc.toCommit = 5) : ConvertCounts (some .fetch) pc pc'
  | commit {pc pc' : ConvertPc} (hcommit : pc.toCommit = 1)
      (hfetch : pc.toFetch = pc'.toFetch + 1) : ConvertCounts (some .commit) pc pc'

theorem ConvertMove.counts {forwarder forwarder' : Forwarder} {segment segment' : Segment}
    (halive : forwarder'.alive = true)
    (hmove : ConvertMove forwarder segment forwarder' segment') :
    ConvertCounts forwarder.convertPc.stage forwarder.convertPc forwarder'.convertPc := by
  cases hmove with
  | wait hpc => rw [hpc]; exact .between rfl rfl
  | load hpc =>
      cases hcase : forwarder.convertPc with
      | loadTime => exact .between rfl rfl
      | loadLatitude time => exact .between rfl rfl
      | loadLongitude time latitude => exact .between rfl rfl
      | _ => rw [hcase] at hpc; exact hpc.elim
  | fault => exact absurd halive Bool.false_ne_true
  | post hpc => rw [hpc]; exact .fetch rfl rfl rfl
  | lock hpc => rw [hpc]; exact .between rfl rfl
  | storeTime hpc => rw [hpc]; exact .between rfl rfl
  | storeLatitude hpc => rw [hpc]; exact .between rfl rfl
  | storeLongitude hpc => rw [hpc]; exact .commit rfl rfl
  | unlock hpc => rw [hpc]; exact .between rfl rfl

/-- **One step of `convert`** takes one off: a fetch is of the latest entry. -/
theorem ConvertCounts.left {count : ℕ} {stage : Option Stage} {pc pc' : ConvertPc}
    (h : ConvertCounts stage pc pc') (hcount : count ≤ n) (relay : Relay n) :
    convertLeft count (relay.advance stage) pc' ≤ convertLeft count relay pc - 1 := by
  have hn : n - 1 + 1 = n := Nat.succ_pred_eq_of_pos (Nat.zero_lt_of_lt relay.fetched_lt)
  cases h with
  | between hfetch hcommit =>
      simp only [convertLeft, stepsLeft, Relay.advance]
      grind
  | fetch hfetch hcommit hbefore =>
      simp only [convertLeft, stepsLeft, Relay.advance, Relay.fetch_committed,
        Relay.fetch_fetched]
      grind
  | commit hcommit hfetch =>
      have hle := relay.committed_le
      simp only [convertLeft, stepsLeft, Relay.advance, Relay.commit_committed,
        Relay.commit_fetched]
      grind

/-- What one step of `forward` takes off. -/
inductive ForwardCounts : Option Stage → ForwardPc → ForwardPc → Prop
  | between {pc pc' : ForwardPc} (htake : pc.toTake = pc'.toTake + 1)
      (hsend : pc.toSend = pc'.toSend + 1) : ForwardCounts none pc pc'
  | take {pc pc' : ForwardPc} (htake : pc.toTake = 1) (hsend : pc'.toSend = 1)
      (hbefore : pc.toSend = 2) : ForwardCounts (some .take) pc pc'
  | send {pc pc' : ForwardPc} (hsend : pc.toSend = 1)
      (htake : pc.toTake = pc'.toTake + 1) : ForwardCounts (some .send) pc pc'

theorem ForwardMove.counts {forwarder forwarder' : Forwarder}
    (hmove : ForwardMove forwarder forwarder') :
    ForwardCounts forwarder.forwardPc.stage forwarder.forwardPc forwarder'.forwardPc := by
  cases hmove with
  | lock hpc => rw [hpc]; exact .between rfl rfl
  | loadTime hpc => rw [hpc]; exact .between rfl rfl
  | loadLatitude hpc => rw [hpc]; exact .between rfl rfl
  | loadLongitude hpc => rw [hpc]; exact .between rfl rfl
  | unlock hpc => rw [hpc]; exact .take rfl rfl rfl
  | send hpc => rw [hpc]; exact .send rfl rfl

theorem reached_send (relay : Relay n) : relay.send.reached = relay.taken + 1 := by
  simp [Relay.reached]

/-- **One step of `forward`** takes one off once the entries are committed. -/
theorem ForwardCounts.left {count : ℕ} {stage : Option Stage} {pc pc' : ForwardPc}
    (h : ForwardCounts stage pc pc') {relay : Relay n} (hcount : count ≤ relay.committed + 1) :
    forwardLeft count (relay.advance stage) pc' ≤ forwardLeft count relay pc - 1 := by
  cases h with
  | between htake hsend =>
      simp only [forwardLeft, stepsLeft, Relay.advance]
      grind
  | take htake hsend hbefore =>
      have hsame : relay.take.reached = relay.reached := rfl
      simp only [forwardLeft, stepsLeft, Relay.advance, Relay.take_taken, hsame]
      grind
  | send hsend htake =>
      have hlast : relay.reached ≤ relay.send.reached := (relay.before_advance (some .send)).reached
      simp only [forwardLeft, stepsLeft, Relay.advance, Relay.send_taken]
      rw [reached_send] at hlast ⊢
      grind

end Relay

/-! ## The system -/

section System

variable {W F : Type*} [DecidableEq W] [DecidableEq F] {handlers : F → Attached}
  {state middle next : State W F} {action : Action W F} {board : Board Shdata F}

/-- A step of `convert` of this forwarder. -/
def Action.isConvert (f : F) : Action W F → Bool
  | .convert g => g = f
  | _ => false

/-- A step of `forward` of this forwarder. -/
def Action.isForward (f : F) : Action W F → Bool
  | .forward g => g = f
  | _ => false

theorem Move.convertPc_of_not (hmove : Move state action next) {f : F}
    (hother : action.isConvert f = false) :
    (next.forwarders f).convertPc = (state.forwarders f).convertPc := by
  have hchange := hmove.forwarderChange f
  generalize next.forwarders f = forwarder at hchange ⊢
  cases hchange with
  | none => rfl
  | convert => simp [Action.isConvert] at hother
  | forward hrunning hmove => exact hmove.convertPc
  | interrupt => rfl
  | handle halive hmove => exact hmove.convertPc

theorem Move.forwardPc_of_not (hmove : Move state action next) {f : F}
    (hother : action.isForward f = false) :
    (next.forwarders f).forwardPc = (state.forwarders f).forwardPc := by
  have hchange := hmove.forwarderChange f
  generalize next.forwarders f = forwarder at hchange ⊢
  cases hchange with
  | none => rfl
  | convert hrunning hmove => cases hmove <;> rfl
  | forward => simp [Action.isForward] at hother
  | interrupt => rfl
  | handle halive hmove => cases hmove <;> rfl

omit [DecidableEq W] in
/-- No step moves a board back. -/
theorem before_point (board : Board Shdata F) (state : State W F) (action : Action W F) :
    board.Before ((point state action).elim board board.perform) := by
  cases point state action with
  | none => exact Board.Before.refl board
  | some operation => exact board.before_perform operation

/-- At most `left` steps of `convert` until it has committed the first `count` stores; a
process that has ended makes no more. -/
def CommitsWithin (f : F) (count : ℕ) (state : State W F) (left : ℕ) : Prop :=
  (state.forwarders f).alive = false ∨ ∃ board : Board Shdata F, Implements state board ∧
    count ≤ board.size ∧
    convertLeft count (board.relays f) (state.forwarders f).convertPc ≤ left

theorem CommitsWithin.step {f : F} {count left : ℕ} (h : CommitsWithin f count state left)
    (hmove : Move state action next) :
    CommitsWithin f count next (left - (action.isConvert f).toNat) := by
  rcases h with hended | ⟨board, h, hcount, hleft⟩
  · exact Or.inl (by rw [hmove.forwarders_of_ended hended, hended])
  cases halive : (next.forwarders f).alive with
  | false => exact Or.inl halive
  | true =>
      have hbefore := before_point board state action
      refine Or.inr ⟨_, h.step hmove, hcount.trans hbefore.size_le, ?_⟩
      cases hconvert : action.isConvert f with
      | false =>
          rw [hmove.convertPc_of_not hconvert]
          exact (convertLeft_anti (hbefore.relays f) _).trans hleft
      | true =>
          cases hmove with
          | @convert g forwarder segment hrunning hstep =>
              obtain rfl : g = f := by simpa [Action.isConvert] using hconvert
              simp only [State.setForwarder_self] at halive ⊢
              rw [point, Board.elim_map_move, Board.advance_relays_self]
              have hcounts := (Forwarder.convertStep_move hstep).counts halive
              exact (hcounts.left hcount (board.relays g)).trans (Nat.sub_le_sub_right hleft 1)
          | _ => exact absurd hconvert Bool.false_ne_true

/-- At most `left` steps of `forward` until it has sent the last of the first `count`
stores or a later one; a process that has ended makes no step that counts. -/
def SendsWithin (f : F) (count : ℕ) (state : State W F) (left : ℕ) : Prop :=
  ((state.forwarders f).alive = false ∧ 0 < left) ∨ ∃ board : Board Shdata F,
    Implements state board ∧ count ≤ (board.relays f).committed + 1 ∧
    forwardLeft count (board.relays f) (state.forwarders f).forwardPc ≤ left

theorem SendsWithin.step {f : F} {count left : ℕ} (h : SendsWithin f count state left)
    (hmove : Move state action next) :
    SendsWithin f count next (left - (action.isForward f).toNat) := by
  rcases h with ⟨hended, hpos⟩ | ⟨board, h, hcount, hleft⟩
  · have hother : action.isForward f = false := by
      cases hmove with
      | @forward g forwarder hrunning hstep =>
          apply decide_eq_false
          rintro rfl
          exact Bool.false_ne_true (hended.symm.trans hrunning.1)
      | _ => rfl
    rw [hother]
    exact Or.inl ⟨by rw [hmove.forwarders_of_ended hended, hended], hpos⟩
  · have hbefore := before_point board state action
    have hcommitted := Nat.succ_le_succ (hbefore.relays f).committed
    refine Or.inr ⟨_, h.step hmove, hcount.trans hcommitted, ?_⟩
    cases hforward : action.isForward f with
    | false =>
        rw [hmove.forwardPc_of_not hforward]
        exact (forwardLeft_anti (hbefore.relays f) _).trans hleft
    | true =>
        cases hmove with
        | @forward g forwarder hrunning hstep =>
            obtain rfl : g = f := by simpa [Action.isForward] using hforward
            rw [State.setForwarder_self, point, Board.elim_map_move, Board.advance_relays_self]
            have hcounts := (Forwarder.forwardStep_move hstep).counts
            exact (hcounts.left hcount).trans (Nat.sub_le_sub_right hleft 1)
        | _ => exact absurd hforward Bool.false_ne_true

omit [DecidableEq W] [DecidableEq F] in
/-- The last message is the text of the last entry sent. -/
theorem Implements.getLast?_messages (h : Implements state board) {f : F}
    (hsent : 0 < (board.relays f).reached) :
    ∃ i record, (board.relays f).reached = i + 1 ∧ state.segment.stores[i]? = some record ∧
      (state.forwarders f).messages.getLast? =
        some (formatInt 6 record.time ++ ['/'] ++
          formatFixed 0 4 (toDecimal record.latitude) ++ ['/'] ++
            formatFixed 0 4 (toDecimal record.longitude)) := by
  cases hlast : (board.relays f).sent.getLast? with
  | none => simp [Relay.reached, hlast] at hsent
  | some i =>
      have hi : i < board.size := (board.relays f).sent_lt i (List.mem_of_getLast? hlast)
      refine ⟨i, _, by simp [Relay.reached, hlast], h.history ▸ h.getElem?_history hi, ?_⟩
      rw [(h.relays f).messages, List.getLast?_map, hlast]
      rfl

omit [DecidableEq W] [DecidableEq F] in
/-- The stores so far are committed within 14 steps of `convert`. -/
theorem Implements.commitsWithin (h : Implements state board) (f : F) :
    CommitsWithin f state.segment.stores.length state 14 := by
  refine Or.inr ⟨board, h, ?_, convertLeft_le _ _ _⟩
  rw [← h.history, board.length_history]

omit [DecidableEq W] [DecidableEq F] in
/-- And then sent, or overtaken, within 7 steps of `forward`. -/
theorem CommitsWithin.sendsWithin {f : F} {count : ℕ} (h : CommitsWithin f count state 0) :
    SendsWithin f count state 7 := by
  rcases h with hended | ⟨board, h, -, hleft⟩
  · exact Or.inl ⟨hended, by decide⟩
  · have hcommitted := le_of_stepsLeft (ConvertPc.toCommit_pos _) (Nat.succ_pos _) hleft
    exact Or.inr ⟨board, h, hcommitted, forwardLeft_le _ _ _⟩

omit [DecidableEq W] [DecidableEq F] in
theorem SendsWithin.getLast?_messages {f : F} {count : ℕ} (h : SendsWithin f count state 0)
    (hcount : 0 < count) :
    ∃ i record, count ≤ i + 1 ∧ state.segment.stores[i]? = some record ∧
      (state.forwarders f).messages.getLast? =
        some (formatInt 6 record.time ++ ['/'] ++
          formatFixed 0 4 (toDecimal record.latitude) ++ ['/'] ++
            formatFixed 0 4 (toDecimal record.longitude)) := by
  rcases h with ⟨-, hpos⟩ | ⟨board, h, -, hleft⟩
  · exact absurd hpos (Nat.lt_irrefl 0)
  · have hreached := le_of_stepsLeft (ForwardPc.toSend_pos _) (Nat.succ_pos _) hleft
    obtain ⟨i, record, hi, hrecord, hlast⟩ := h.getLast?_messages (hcount.trans_le hreached)
    exact ⟨i, record, hi ▸ hreached, hrecord, hlast⟩

omit [DecidableEq W] [DecidableEq F] in
/-- The initial record is always there. -/
theorem Implements.stores_pos (h : Implements state board) (f : F) :
    0 < state.segment.stores.length := by
  rw [← h.history, board.length_history]
  exact Nat.zero_lt_of_lt (board.relays f).fetched_lt

/-- **Bounded age.** Take the stores made when a run has reached `state`. After 14 more steps
of `convert` and then 7 of `forward`, in any interleaving with the other processes and with
signals anywhere, the last message of the forwarder is the text of the last of these stores
or of a later one. -/
theorem message_fresh {trace first second : List (State W F × Action W F)}
    (hrun : Run step (initial W handlers) trace state) (hfirst : Run step state first middle)
    (hsecond : Run step middle second next) (f : F)
    (hconverts : 14 ≤ first.countP fun entry => entry.2.isConvert f)
    (hforwards : 7 ≤ second.countP fun entry => entry.2.isForward f) :
    ∃ i record, state.segment.stores.length ≤ i + 1 ∧ next.segment.stores[i]? = some record ∧
      (next.forwarders f).messages.getLast? =
        some (formatInt 6 record.time ++ ['/'] ++
          formatFixed 0 4 (toDecimal record.latitude) ++ ['/'] ++
            formatFixed 0 4 (toDecimal record.longitude)) := by
  have h := implements_replay hrun
  have hcommitted := hfirst.countdown (h.commitsWithin f) fun _ _ _ _ h hstep =>
    h.step (step_move hstep)
  rw [Nat.sub_eq_zero_of_le hconverts] at hcommitted
  have hsent := hsecond.countdown hcommitted.sendsWithin fun _ _ _ _ h hstep =>
    h.step (step_move hstep)
  rw [Nat.sub_eq_zero_of_le hforwards] at hsent
  exact hsent.getLast?_messages (h.stores_pos f)

end System

theorem countP_actions {trace : List (State Unit Unit × Action Unit Unit)}
    {actions : List (Action Unit Unit)} (hactions : trace.map Prod.snd = actions)
    (p : Action Unit Unit → Bool) :
    (trace.countP fun entry => p entry.2) = actions.countP p := by
  rw [← hactions, List.countP_map]
  rfl

theorem message_fresh_oneStore :
    ∃ trace first second state middle next, Run step (initial Unit oneForwarder) trace state ∧
      Run step state first middle ∧ Run step middle second next ∧
      state.segment.stores.length = 2 ∧
      ∃ i record, state.segment.stores.length ≤ i + 1 ∧ next.segment.stores[i]? = some record ∧
        (next.forwarders ()).messages.getLast? =
          some (formatInt 6 record.time ++ ['/'] ++
            formatFixed 0 4 (toDecimal record.latitude) ++ ['/'] ++
              formatFixed 0 4 (toDecimal record.longitude)) := by
  have hdecoded : decodeFrame (fill "$GPGLL,4721.00,N,00131.50,W,101500,A".toList) =
      some ⟨4721, 263 / 2, 101500⟩ := by decide +kernel
  have hread : ∃ start, step (initial Unit oneForwarder)
      (.receive () (fill "$GPGLL,4721.00,N,00131.50,W,101500,A".toList)) = some start ∧
      ∃ state, exec step start (List.replicate 5 (.write ())) = some state ∧
        state.segment.stores.length = 2 ∧
        ∃ middle, exec step state (List.replicate 14 (.convert ())) = some middle ∧
          ∃ next, exec step middle (List.replicate 7 (.forward ())) = some next := by
    simp only [step, Writer.receive, initial, Writer.initial, hdecoded]
    exact ⟨_, rfl, _, rfl, rfl, _, rfl, _, rfl⟩
  obtain ⟨start, hstep, state, hstores, hlength, middle, hmiddle, next, hnext⟩ := hread
  obtain ⟨stores, hrun, -⟩ := exists_run_of_exec hstores
  obtain ⟨first, hfirst, hconverts⟩ := exists_run_of_exec hmiddle
  obtain ⟨second, hsecond, hforwards⟩ := exists_run_of_exec hnext
  have hwhole := (Run.single hstep).append hrun
  refine ⟨_, first, second, state, middle, next, hwhole, hfirst, hsecond, hlength,
    message_fresh hwhole hfirst hsecond () ?_ ?_⟩
  · rw [countP_actions hconverts]
    exact Nat.le_refl 14
  · rw [countP_actions hforwards]
    exact Nat.le_refl 7

end Embsys.Concurrent
