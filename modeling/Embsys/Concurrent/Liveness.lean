/-
# The messages catch up

Along an infinite run whose steps keep the token, with a forwarder that meets no signal,
strong fairness to the program steps makes both threads of the forwarder go on for ever:
the holder of the semaphore gives it back, each thread unlocks the mutex it has locked,
and a thread that waits for either gets in. So whatever has been stored at some time, a
later message is made from the last of it or from something newer.
-/

import Embsys.Math.Fairness
import Embsys.Concurrent.Freshness

namespace Embsys.Concurrent

open Embsys.Math Embsys.C Embsys.Os Embsys.ShmWriter Embsys.Forwarder

section System

variable {W F : Type*} [DecidableEq W] [DecidableEq F] {handlers : F → Attached}
  {state next : State W F} {action : Action W F}

/-! ## One step -/

omit [DecidableEq W] in
theorem Action.isConvert_of_ne {f : F} (hne : action ≠ .convert f) :
    action.isConvert f = false := by
  cases action with
  | convert g =>
      apply decide_eq_false
      rintro rfl
      exact hne rfl
  | _ => rfl

omit [DecidableEq W] in
theorem Action.isForward_of_ne {f : F} (hne : action ≠ .forward f) :
    action.isForward f = false := by
  cases action with
  | forward g =>
      apply decide_eq_false
      rintro rfl
      exact hne rfl
  | _ => rfl

/-- Whatever step another process makes, a holder stays where it is. -/
theorem TokenInvariant.holder_frame (h : TokenInvariant handlers state)
    (hkeeps : KeepsToken state action) (hmove : Move state action next) {thread : W ⊕ F}
    (hholds : thread ∈ holders state) (hother : action ≠ programStep thread) :
    thread ∈ holders next ∧ left next thread = left state thread := by
  cases thread with
  | inl w =>
      have hsame : next.writers w = state.writers w := by
        have hchange := hmove.writerChange w
        generalize next.writers w = writer at hchange ⊢
        cases hchange with
        | none => rfl
        | receive hrunning hstep =>
            obtain ⟨hpc, -⟩ := Writer.receive_cases hstep
            have houtside : WriterPc.Inside .read := hpc ▸ hholds.2
            exact houtside.elim
        | write => exact absurd rfl hother
        | interrupt => exact absurd hholds hkeeps.2
        | handle halive hstep => simp [Writer.handle, h.writers w hholds] at hstep
      refine ⟨?_, by simp only [left, hsame]⟩
      show (next.writers w).Inside
      rw [hsame]
      exact hholds
  | inr f =>
      have hpc := hmove.convertPc_of_not (Action.isConvert_of_ne hother)
      have halive : (next.forwarders f).alive = true := by
        have hchange := hmove.forwarderChange f
        generalize next.forwarders f = forwarder at hchange ⊢
        cases hchange with
        | none => exact hholds.1
        | convert => exact absurd rfl hother
        | forward hrunning hmove => cases hmove <;> exact hholds.1
        | interrupt => exact hholds.1
        | handle halive hmove =>
            cases hmove with
            | exit hexit => exact absurd hholds (hkeeps.2 hexit)
            | clear => exact hholds.1
            | earlier => exact hholds.1
      refine ⟨?_, by simp only [left, hpc]⟩
      show (next.forwarders f).Inside
      exact ⟨halive, hpc ▸ hholds.2⟩

/-- `convert` can go on except at a semaphore at 0 or a locked mutex. -/
theorem Forwarder.convertStep_isSome {forwarder : Forwarder} {segment : Segment}
    (hwait : forwarder.convertPc = .wait → segment.sem ≠ 0)
    (hlock : ∀ coord, forwarder.convertPc = .lock coord → forwarder.mutex = none) :
    (forwarder.convertStep segment).isSome := by
  cases hpc : forwarder.convertPc with
  | wait =>
      obtain ⟨sem, hsem⟩ := Nat.exists_eq_succ_of_ne_zero (hwait hpc)
      simp [Forwarder.convertStep, hpc, hsem]
  | lock coord => simp [Forwarder.convertStep, hpc, hlock coord hpc]
  | _ => simp [Forwarder.convertStep, hpc]

theorem Forwarder.forwardStep_isSome {forwarder : Forwarder}
    (hlock : forwarder.forwardPc = .lock → forwarder.mutex = none) :
    forwarder.forwardStep.isSome := by
  cases hpc : forwarder.forwardPc with
  | lock => simp [Forwarder.forwardStep, hpc, hlock hpc]
  | _ => simp [Forwarder.forwardStep, hpc]

/-- A thread that has locked the mutex comes nearer to its unlock with each step. -/
theorem ForwardMove.toUnlock {forwarder forwarder' : Forwarder}
    (hlocked : forwarder.forwardPc.Locked) (hmove : ForwardMove forwarder forwarder') :
    ¬ forwarder'.forwardPc.Locked ∨ forwarder'.forwardPc.Locked ∧
      forwarder'.forwardPc.toTake < forwarder.forwardPc.toTake := by
  cases hmove with
  | lock hpc => exact (hpc ▸ hlocked : ForwardPc.Locked .lock).elim
  | loadTime hpc => rw [hpc]; exact Or.inr ⟨trivial, Nat.lt_succ_self _⟩
  | loadLatitude hpc => rw [hpc]; exact Or.inr ⟨trivial, Nat.lt_succ_self _⟩
  | loadLongitude hpc => rw [hpc]; exact Or.inr ⟨trivial, Nat.lt_succ_self _⟩
  | unlock hpc => exact Or.inl not_false
  | send hpc => exact Or.inl not_false

theorem ConvertMove.toUnlock {forwarder forwarder' : Forwarder} {segment segment' : Segment}
    (hlocked : forwarder.convertPc.Locked)
    (hmove : ConvertMove forwarder segment forwarder' segment') :
    ¬ forwarder'.convertPc.Locked ∨ forwarder'.convertPc.Locked ∧
      forwarder'.convertPc.toFetch < forwarder.convertPc.toFetch := by
  cases hmove with
  | wait hpc => exact (hpc ▸ hlocked : ConvertPc.Locked .wait).elim
  | load hpc => exact absurd hlocked (ConvertPc.not_locked_of_atLoad hpc)
  | fault hpc => exact absurd hlocked (ConvertPc.not_locked_of_atLoad hpc)
  | post hpc => exact Or.inl not_false
  | lock hpc => rw [hpc]; exact Or.inr ⟨trivial, Nat.lt_succ_self _⟩
  | storeTime hpc => rw [hpc]; exact Or.inr ⟨trivial, Nat.lt_succ_self _⟩
  | storeLatitude hpc => rw [hpc]; exact Or.inr ⟨trivial, Nat.lt_succ_self _⟩
  | storeLongitude hpc => rw [hpc]; exact Or.inr ⟨trivial, Nat.lt_succ_self _⟩
  | unlock hpc => exact Or.inl not_false

theorem Move.convertMove {f : F} (hmove : Move state (.convert f) next) :
    ConvertMove (state.forwarders f) state.segment (next.forwarders f) next.segment := by
  cases hmove with
  | convert hrunning hstep =>
      simp only [State.setForwarder_self]
      exact Forwarder.convertStep_move hstep

theorem Move.forwardMove {f : F} (hmove : Move state (.forward f) next) :
    ForwardMove (state.forwarders f) (next.forwarders f) := by
  cases hmove with
  | forward hrunning hstep =>
      rw [State.setForwarder_self]
      exact Forwarder.forwardStep_move hstep

/-- A forwarder that has met no signal and not ended. -/
def Forwarder.Unsignalled (forwarder : Forwarder) : Prop :=
  forwarder.alive = true ∧ ∀ thread, forwarder.handler thread = none

theorem TokenInvariant.unsignalled_step (h : TokenInvariant handlers state)
    (hmove : Move state action next) {f : F} (hf : (state.forwarders f).Unsignalled)
    (hsignal : ∀ thread, action ≠ .interrupt f thread) : (next.forwarders f).Unsignalled := by
  have hchange := hmove.forwarderChange f
  generalize next.forwarders f = forwarder at hchange ⊢
  cases hchange with
  | none => exact hf
  | convert hrunning hmove =>
      cases hmove with
      | fault hpc hfault =>
          obtain ⟨address, haddress⟩ := h.mapped ⟨hrunning, hpc⟩
          exact absurd haddress (hfault address)
      | _ => exact hf
  | forward hrunning hmove => cases hmove <;> exact hf
  | @interrupt thread => exact absurd rfl (hsignal thread)
  | @handle thread forwarder halive hmove =>
      have hnone := hf.2 thread
      cases hmove with
      | exit hpc => simp [hnone] at hpc
      | clear hpc => simp [hnone] at hpc
      | earlier hpc => simp [hnone] at hpc

/-- The main thread never takes the mutex. -/
theorem mutex_ne_main_step (hmove : Move state action next) {f : F}
    (hf : (state.forwarders f).mutex ≠ some .main) :
    (next.forwarders f).mutex ≠ some .main := by
  have hchange := hmove.forwarderChange f
  generalize next.forwarders f = forwarder at hchange ⊢
  cases hchange with
  | none => exact hf
  | convert hrunning hmove => cases hmove <;> first | exact hf | simp
  | forward hrunning hmove => cases hmove <;> first | exact hf | simp
  | interrupt => exact hf
  | handle halive hmove => cases hmove <;> exact hf

/-! ## Fair runs -/

/-- An infinite run whose steps keep the token and deliver no signal to one forwarder, fair
to the program steps. -/
structure FairRun (path : Path step (initial W handlers)) (f : F) : Prop where
  keeps : ∀ n, KeepsToken (path.state n) (path.action n)
  quiet : ∀ n thread, path.action n ≠ .interrupt f thread
  writes : ∀ w, path.Fair (.write w)
  converts : ∀ g, path.Fair (.convert g)
  forwards : path.Fair (.forward f)

variable {path : Path step (initial W handlers)} {f : F}

/-- Without signals every step keeps the token. -/
theorem FairRun.of_quiet (hsignals : ∀ n, ¬ (path.action n).IsSignal)
    (hwrites : ∀ w, path.Fair (.write w)) (hconverts : ∀ g, path.Fair (.convert g))
    (hforwards : path.Fair (.forward f)) : FairRun path f where
  keeps := by
    intro n
    have hinvariant : SnapshotInvariant handlers (path.state n) := by
      induction n with
      | zero => rw [path.state_zero]; exact SnapshotInvariant.initial handlers
      | succ n ih => exact ih.step (hsignals n) (step_move (path.step_eq n))
    exact hinvariant.quiet.keepsToken hinvariant.token (hsignals n)
  quiet := fun n thread haction => hsignals n (by rw [haction]; trivial)
  writes := hwrites
  converts := hconverts
  forwards := hforwards

theorem FairRun.token (h : FairRun path f) (n : ℕ) : TokenInvariant handlers (path.state n) := by
  induction n with
  | zero => rw [path.state_zero]; exact TokenInvariant.initial handlers
  | succ n ih => exact ih.preserved (h.keeps n) (step_move (path.step_eq n))

theorem FairRun.unsignalled (h : FairRun path f) (n : ℕ) :
    ((path.state n).forwarders f).Unsignalled := by
  induction n with
  | zero => rw [path.state_zero]; exact ⟨rfl, fun _ => rfl⟩
  | succ n ih => exact (h.token n).unsignalled_step (step_move (path.step_eq n)) ih (h.quiet n)

theorem FairRun.running (h : FairRun path f) (n : ℕ) (thread : Thread) :
    ((path.state n).forwarders f).Running thread :=
  ⟨(h.unsignalled n).1, (h.unsignalled n).2 thread⟩

/-- The mutex is free when neither thread is between its lock and its unlock. -/
theorem FairRun.mutex_free (n : ℕ) (hconvert : ¬ ((path.state n).forwarders f).convertPc.Locked)
    (hforward : ¬ ((path.state n).forwarders f).forwardPc.Locked) :
    ((path.state n).forwarders f).mutex = none := by
  have htracks := (implements_replay (path.run_zero n)).relays f
  have hmain : ((path.state n).forwarders f).mutex ≠ some .main :=
    (path.run_zero n).preserves (I := fun state => (state.forwarders f).mutex ≠ some .main)
      (Option.some_ne_none _).symm fun _ _ _ h hstep => mutex_ne_main_step (step_move hstep) h
  cases hmutex : ((path.state n).forwarders f).mutex with
  | none => rfl
  | some thread =>
      cases thread with
      | main => exact absurd hmutex hmain
      | convert => exact absurd (htracks.convertLock.mp hmutex) hconvert
      | forward => exact absurd (htracks.forwardLock.mp hmutex) hforward

theorem FairRun.convert_isSome (h : FairRun path f) {n : ℕ}
    (hwait : ((path.state n).forwarders f).convertPc = .wait → (path.state n).segment.sem ≠ 0)
    (hlock : ∀ coord, ((path.state n).forwarders f).convertPc = .lock coord →
      ((path.state n).forwarders f).mutex = none) :
    (step (path.state n) (.convert f)).isSome := by
  rw [step, if_pos (h.running n .convert), Option.isSome_map]
  exact Forwarder.convertStep_isSome hwait hlock

theorem FairRun.forward_isSome (h : FairRun path f) {n : ℕ}
    (hlock : ((path.state n).forwarders f).forwardPc = .lock →
      ((path.state n).forwarders f).mutex = none) :
    (step (path.state n) (.forward f)).isSome := by
  rw [step, if_pos (h.running n .forward), Option.isSome_map]
  exact Forwarder.forwardStep_isSome hlock

/-! ## The locks are given back -/

theorem FairRun.programStep_fair (h : FairRun path f) (thread : W ⊕ F) :
    path.Fair (programStep thread) := by
  cases thread with
  | inl w => exact h.writes w
  | inr g => exact h.converts g

/-- The holder of the semaphore posts. -/
theorem FairRun.exists_sem_ne_zero (h : FairRun path f) (n : ℕ) :
    ∃ m, n ≤ m ∧ (path.state m).segment.sem ≠ 0 := by
  rcases oneToken_iff.mp (h.token n).token with ⟨hfree, -⟩ | ⟨-, thread, hholder⟩
  · exact ⟨n, le_rfl, by rw [hfree]; exact Nat.one_ne_zero⟩
  · have hholds : thread ∈ holders (path.state n) := hholder ▸ Set.mem_singleton thread
    refine (h.programStep_fair thread).reaches (fun state => thread ∈ holders state)
      (fun state => state.segment.sem ≠ 0) (fun state => left state thread) hholds ?_ ?_ ?_
    · intro m hm
      obtain ⟨next, hstep, -⟩ := (h.token m).exists_step hm
      rw [hstep]
      rfl
    · intro m hm haction
      obtain ⟨next, hstep, -, -, -, hleft, hnext⟩ := (h.token m).exists_step hm
      obtain rfl : path.state (m + 1) = next := by
        rw [← haction, path.step_eq m] at hstep
        exact Option.some.inj hstep
      rcases hnext with hstill | hposted
      · exact Or.inr ⟨hstill, hleft⟩
      · exact Or.inl (by rw [hposted]; exact Nat.succ_ne_zero _)
    · intro m hm hother
      exact (h.token m).holder_frame (h.keeps m) (step_move (path.step_eq m)) hm hother

/-- `forward` unlocks the mutex. -/
theorem FairRun.exists_forward_unlocked (h : FairRun path f) (n : ℕ) :
    ∃ m, n ≤ m ∧ ¬ ((path.state m).forwarders f).forwardPc.Locked := by
  by_cases hlocked : ((path.state n).forwarders f).forwardPc.Locked
  · refine h.forwards.reaches (fun state => (state.forwarders f).forwardPc.Locked)
      (fun state => ¬ (state.forwarders f).forwardPc.Locked)
      (fun state => (state.forwarders f).forwardPc.toTake) hlocked ?_ ?_ ?_
    · intro m hm
      exact h.forward_isSome fun hpc => (hpc ▸ hm : ForwardPc.Locked .lock).elim
    · intro m hm haction
      have hmove := step_move (path.step_eq m)
      rw [haction] at hmove
      exact hmove.forwardMove.toUnlock hm
    · intro m hm hother
      have hpc := (step_move (path.step_eq m)).forwardPc_of_not (Action.isForward_of_ne hother)
      exact ⟨hpc ▸ hm, by rw [hpc]⟩
  · exact ⟨n, le_rfl, hlocked⟩

/-- And so does `convert`. -/
theorem FairRun.exists_convert_unlocked (h : FairRun path f) (n : ℕ) :
    ∃ m, n ≤ m ∧ ¬ ((path.state m).forwarders f).convertPc.Locked := by
  by_cases hlocked : ((path.state n).forwarders f).convertPc.Locked
  · refine (h.converts f).reaches (fun state => (state.forwarders f).convertPc.Locked)
      (fun state => ¬ (state.forwarders f).convertPc.Locked)
      (fun state => (state.forwarders f).convertPc.toFetch) hlocked ?_ ?_ ?_
    · intro m hm
      apply h.convert_isSome
      · exact fun hpc => (hpc ▸ hm : ConvertPc.Locked .wait).elim
      · exact fun coord hpc => (hpc ▸ hm : ConvertPc.Locked (.lock coord)).elim
    · intro m hm haction
      have hmove := step_move (path.step_eq m)
      rw [haction] at hmove
      exact hmove.convertMove.toUnlock hm
    · intro m hm hother
      have hpc := (step_move (path.step_eq m)).convertPc_of_not (Action.isConvert_of_ne hother)
      exact ⟨hpc ▸ hm, by rw [hpc]⟩
  · exact ⟨n, le_rfl, hlocked⟩

/-! ## The threads go on -/

/-- `convert` makes another step: only the semaphore and the mutex can hold it up, and each
is free again and again. -/
theorem FairRun.exists_convert (h : FairRun path f) (n : ℕ) :
    ∃ m, n ≤ m ∧ path.action m = .convert f := by
  obtain ⟨m, hm, -, haction⟩ := (h.converts f).takes
    (P := fun state => (state.forwarders f).convertPc = ((path.state n).forwarders f).convertPc)
    rfl (fun m hpc hother =>
      ((step_move (path.step_eq m)).convertPc_of_not (Action.isConvert_of_ne hother)).trans hpc)
    fun hlasting m hm => by
      cases hcase : ((path.state n).forwarders f).convertPc with
      | wait =>
          obtain ⟨k, hk, hsem⟩ := h.exists_sem_ne_zero m
          have hpc := (hlasting k (hm.trans hk)).trans hcase
          exact ⟨k, hk, h.convert_isSome (fun _ => hsem) fun coord hlock => by simp [hpc] at hlock⟩
      | lock coord =>
          obtain ⟨k, hk, hunlocked⟩ := h.exists_forward_unlocked m
          have hpc := (hlasting k (hm.trans hk)).trans hcase
          have hfree := FairRun.mutex_free k (by rw [hpc]; exact not_false) hunlocked
          exact ⟨k, hk, h.convert_isSome (fun hwait => by simp [hpc] at hwait) fun _ _ => hfree⟩
      | _ =>
          have hpc := (hlasting m hm).trans hcase
          exact ⟨m, le_rfl, h.convert_isSome (fun hwait => by simp [hpc] at hwait)
            fun coord hlock => by simp [hpc] at hlock⟩
  exact ⟨m, hm, haction⟩

/-- So does `forward`. -/
theorem FairRun.exists_forward (h : FairRun path f) (n : ℕ) :
    ∃ m, n ≤ m ∧ path.action m = .forward f := by
  obtain ⟨m, hm, -, haction⟩ := h.forwards.takes
    (P := fun state => (state.forwarders f).forwardPc = ((path.state n).forwarders f).forwardPc)
    rfl (fun m hpc hother =>
      ((step_move (path.step_eq m)).forwardPc_of_not (Action.isForward_of_ne hother)).trans hpc)
    fun hlasting m hm => by
      cases hcase : ((path.state n).forwarders f).forwardPc with
      | lock =>
          obtain ⟨k, hk, hunlocked⟩ := h.exists_convert_unlocked m
          have hpc := (hlasting k (hm.trans hk)).trans hcase
          have hfree := FairRun.mutex_free k hunlocked (by rw [hpc]; exact not_false)
          exact ⟨k, hk, h.forward_isSome fun _ => hfree⟩
      | _ =>
          have hpc := (hlasting m hm).trans hcase
          exact ⟨m, le_rfl, h.forward_isSome fun hlock => by simp [hpc] at hlock⟩
  exact ⟨m, hm, haction⟩

/-- **Catching up.** In a fair run that keeps the token, the stores made by any time are sent
or overtaken later by every forwarder that meets no signal. -/
theorem messages_catch_up (path : Path step (initial W handlers)) {f : F}
    (h : FairRun path f) (n : ℕ) :
    ∃ m, n ≤ m ∧ ∃ i record, (path.state n).segment.stores.length ≤ i + 1 ∧
      (path.state m).segment.stores[i]? = some record ∧
      ((path.state m).forwarders f).messages.getLast? =
        some (formatInt 6 record.time ++ ['/'] ++
          formatFixed 0 4 (toDecimal record.latitude) ++ ['/'] ++
            formatFixed 0 4 (toDecimal record.longitude)) := by
  have hconvert : ∀ n, ∃ m, n ≤ m ∧ (path.action m).isConvert f = true := by
    intro n
    obtain ⟨m, hm, haction⟩ := h.exists_convert n
    exact ⟨m, hm, by rw [haction]; exact decide_eq_true rfl⟩
  have hforward : ∀ n, ∃ m, n ≤ m ∧ (path.action m).isForward f = true := by
    intro n
    obtain ⟨m, hm, haction⟩ := h.exists_forward n
    exact ⟨m, hm, by rw [haction]; exact decide_eq_true rfl⟩
  obtain ⟨first, hconverts⟩ := Path.exists_countP hconvert n 14
  obtain ⟨second, hforwards⟩ := Path.exists_countP hforward (n + first) 7
  have himplements := implements_replay (path.run_zero n)
  have hcommitted := (path.run n first).countdown (himplements.commitsWithin f)
    fun _ _ _ _ h hstep => h.step (step_move hstep)
  rw [Nat.sub_eq_zero_of_le hconverts] at hcommitted
  have hsent := (path.run (n + first) second).countdown hcommitted.sendsWithin
    fun _ _ _ _ h hstep => h.step (step_move hstep)
  rw [Nat.sub_eq_zero_of_le hforwards] at hsent
  exact ⟨n + first + second, by omega, hsent.getLast?_messages (himplements.stores_pos f)⟩

end System

/-- Each process stands at the top of its loop. -/
def Ready (state : State Unit Unit) : Prop :=
  state.segment.sem = 1 ∧ state.writers () = .initial ∧ ∃ coord messages,
    state.forwarders () = ⟨true, (oneForwarder ()).val, none, coord, .wait, .lock,
      fun _ => none, messages⟩

/-- One line is read, stored, converted and sent. -/
def oneRound : List (Action Unit Unit) :=
  .receive () (fill "$GPGLL,4737.20,N,00245.60,W,081530,A".toList) :: oneFix

theorem oneRound_cycles : Cycles step Ready oneRound := by
  refine ⟨List.cons_ne_nil _ _, ?_⟩
  rintro ⟨⟨sem, shdata, stores⟩, writers, forwarders⟩ ⟨hsem, hwriter, coord, messages, hforwarder⟩
  obtain rfl : sem = 1 := hsem
  obtain rfl : writers = fun _ => Writer.initial := funext fun _ => hwriter
  obtain rfl : forwarders = fun _ => ⟨true, (oneForwarder ()).val, none, coord, .wait, .lock,
    fun _ => none, messages⟩ := funext fun _ => hforwarder
  have hdecoded : decodeFrame (fill "$GPGLL,4737.20,N,00245.60,W,081530,A".toList) =
      some ⟨23686 / 5, 1228 / 5, 81530⟩ := by decide +kernel
  simp only [oneRound, exec, step, Writer.receive, Writer.initial, hdecoded]
  exact ⟨_, rfl, rfl, rfl, _, _, rfl⟩

theorem messages_catch_up_oneRound :
    ∃ path : Path step (initial Unit oneForwarder), FairRun path () ∧
      (∀ n, ∃ m, n ≤ m ∧ path.action m = .write ()) ∧
      ∀ n, ∃ m, n ≤ m ∧ ∃ i record, (path.state n).segment.stores.length ≤ i + 1 ∧
        (path.state m).segment.stores[i]? = some record ∧
        ((path.state m).forwarders ()).messages.getLast? =
          some (formatInt 6 record.time ++ ['/'] ++
            formatFixed 0 4 (toDecimal record.latitude) ++ ['/'] ++
              formatFixed 0 4 (toDecimal record.longitude)) := by
  have hstart : Ready (initial Unit oneForwarder) := ⟨rfl, rfl, _, _, rfl⟩
  have hfair : ∀ action ∈ oneRound, (cyclePath oneRound_cycles hstart).Fair action :=
    fun action => cyclePath_fair oneRound_cycles hstart
  have hround : FairRun (cyclePath oneRound_cycles hstart) () := by
    apply FairRun.of_quiet
    · intro n
      rcases List.mem_cons.mp (cyclePath_mem oneRound_cycles hstart n) with hread | hfix
      · rw [hread]
        exact not_false
      · exact not_isSignal_of_mem_oneFix hfix
    · exact fun _ => hfair _ (by simp [oneRound, oneFix])
    · exact fun _ => hfair _ (by simp [oneRound, oneFix])
    · exact hfair _ (by simp [oneRound, oneFix])
  exact ⟨_, hround, cyclePath_often oneRound_cycles hstart (by simp [oneRound, oneFix]),
    messages_catch_up _ hround⟩

end Embsys.Concurrent
