/-
# One semaphore for one segment

Two processes attached to one segment exclude each other only if they use one semaphore.
A writer that fails before it reaches the segment's name removes the semaphore's name
alone. The next writer then puts a new semaphore beside the old segment, and that is the
only way to two semaphores on one segment: as long as the semaphore's name exists, a
writer that owns both names is alive, so nobody else comes between them.
-/

import Embsys.Naming.Start
import Embsys.Math.Transition

namespace Embsys.Naming

open Embsys.Math Embsys.Os Embsys.Pipeline

variable {P : Type*}

def State.pair (state : State P) (p : P) : Option (ℕ × ℕ) :=
  (state.member p).bind Member.pair

/-- Processes use the same semaphore exactly when they use the same segment. -/
def Coherent (state : State P) : Prop :=
  ∀ p q first second, state.pair p = some first → state.pair q = some second →
    (first.1 = second.1 ↔ first.2 = second.2)

/-- The start of a writer that makes a semaphore beside a segment still in use. -/
def Splits (opts : Options) (state : State P) : Action P → Prop
  | .start _ (.writer _) outcomes =>
      ShmWriter.succeeds outcomes = true ∧ state.kernel.sems opts.sem = none ∧
        ∃ entry, state.kernel.shms opts.shm = some entry ∧
          ∃ q sem, state.pair q = some (sem, entry.object)
  | _ => False

/-- What the name is bound to has been made, and can be removed. -/
def Made (names : Names) (name : Name) (next : ℕ) : Prop :=
  ∀ entry, names name = some entry → entry.object < next ∧ entry.removable = true

/-- The invariant of all starts and stops. -/
structure Invariant (opts : Options) (state : State P) : Prop where
  sem_made : Made state.kernel.sems opts.sem state.kernel.next
  shm_made : Made state.kernel.shms opts.shm state.kernel.next
  pair_made : ∀ p sem shm, state.pair p = some (sem, shm) →
    sem < state.kernel.next ∧ shm < state.kernel.next
  kind : ∀ p member, state.member p = some member → member.Owns opts ∨ member.Inert
  keeper : ∀ semEntry, state.kernel.sems opts.sem = some semEntry →
    ∃ shmEntry, state.kernel.shms opts.shm = some shmEntry ∧
      ∃ p member, state.member p = some member ∧ member.Owns opts ∧
        member.pair = some (semEntry.object, shmEntry.object)

/-! ## Moves -/

section

variable [DecidableEq P]

/-- What a step does. -/
inductive Move (opts : Options) (state : State P) : Action P → State P → Prop
  | start {p : P} {launch : Launch} {outcomes : Outcomes} {kernel : Kernel} {member : Member}
      (hfree : state.member p = none)
      (hstarted : Started opts outcomes state.kernel kernel member launch) :
      Move opts state (.start p launch outcomes)
        ⟨kernel, Function.update state.member p (some member)⟩
  | stop {p : P} {member : Member} (hmember : state.member p = some member) :
      Move opts state (.stop p)
        ⟨member.hndclose state.kernel, Function.update state.member p none⟩

theorem step_move {opts : Options} {state next : State P} {action : Action P}
    (hstep : step opts state action = some next) : Move opts state action next := by
  cases action with
  | start p launch outcomes =>
      cases hmember : state.member p with
      | some member => simp [step, hmember] at hstep
      | none =>
          simp only [step, hmember, Option.some.injEq] at hstep
          obtain rfl := hstep
          exact .start hmember (hndopen_started opts outcomes state.kernel launch)
  | stop p =>
      cases hmember : state.member p with
      | none => simp [step, hmember] at hstep
      | some member =>
          simp only [step, hmember, Option.some.injEq] at hstep
          obtain rfl := hstep
          exact .stop hmember

@[simp]
theorem pair_update_self (kernel : Kernel) (members : P → Option Member) (p : P)
    (member : Option Member) :
    State.pair ⟨kernel, Function.update members p member⟩ p = member.bind Member.pair := by
  simp [State.pair]

theorem pair_update_of_ne {p q : P} (hne : q ≠ p) (kernel : Kernel)
    (members : P → Option Member) (member : Option Member) :
    State.pair ⟨kernel, Function.update members p member⟩ q = (members q).bind Member.pair := by
  simp [State.pair, Function.update_of_ne hne]

end

theorem Member.Inert.not_owns {opts : Options} {member : Member} (hinert : member.Inert) :
    ¬ member.Owns opts := by
  cases member with
  | writer process =>
      intro howns
      exact Option.some_ne_none _ (howns.1.symm.trans hinert.1)
  | forwarder process => exact id
  | converter process => exact id

/-! ## Names -/

theorem Made.mono {names names' : Names} {name : Name} {next next' : ℕ}
    (hmade : Made names name next) (hsame : names' name = names name) (hle : next ≤ next') :
    Made names' name next' := by
  intro entry hentry
  obtain ⟨hlt, hremovable⟩ := hmade entry (hsame.symm.trans hentry)
  exact ⟨Nat.lt_of_lt_of_le hlt hle, hremovable⟩

/-- A name that can be removed is gone after `unlink`. -/
theorem Made.unlink {names : Names} {name : Name} {next : ℕ} (hmade : Made names name next) :
    names.unlink name name = none := by
  cases hname : names name with
  | none => simp [Names.unlink, hname]
  | some entry => simp [Names.unlink, hname, (hmade entry hname).2]

theorem Made.of_none {names : Names} {name : Name} {next : ℕ} (hnone : names name = none) :
    Made names name next := by
  intro entry hentry
  rw [hnone] at hentry
  exact absurd hentry (Option.some_ne_none entry).symm

/-- The object opened is what the name is bound to from then on. -/
theorem Opened.bound {name : Name} {names names' : Names} {next next' object : ℕ}
    (hopened : Opened name names names' next next' object) (hmade : Made names name next)
    (hle : next ≤ next') :
    object < next' ∧ ∃ entry, names' name = some entry ∧ entry.object = object ∧
      entry.removable = true := by
  cases hopened with
  | @found entry hbefore hafter =>
      obtain ⟨hlt, hremovable⟩ := hmade entry hbefore
      exact ⟨Nat.lt_of_lt_of_le hlt hle, entry, hafter, rfl, hremovable⟩
  | made hbefore hafter hfirst hlast => exact ⟨hlast, _, hafter, rfl, rfl⟩

/-! ## The invariant -/

section

variable [DecidableEq P] {opts : Options} {state : State P} {kernel : Kernel} {p : P}

/-- The invariant after one process has come or gone. -/
theorem Invariant.update (hinv : Invariant opts state) {member : Option Member}
    (hnext : state.kernel.next ≤ kernel.next)
    (hsem : Made kernel.sems opts.sem kernel.next) (hshm : Made kernel.shms opts.shm kernel.next)
    (hpair : ∀ sem shm, member.bind Member.pair = some (sem, shm) →
      sem < kernel.next ∧ shm < kernel.next)
    (hkind : ∀ new, member = some new → new.Owns opts ∨ new.Inert)
    (hkeeper : ∀ semEntry, kernel.sems opts.sem = some semEntry →
      ∃ shmEntry, kernel.shms opts.shm = some shmEntry ∧
        ∃ q owner, Function.update state.member p member q = some owner ∧ owner.Owns opts ∧
          owner.pair = some (semEntry.object, shmEntry.object)) :
    Invariant opts ⟨kernel, Function.update state.member p member⟩ where
  sem_made := hsem
  shm_made := hshm
  pair_made := by
    intro q sem shm hq
    by_cases hqp : q = p
    · subst hqp
      exact hpair sem shm (by simpa using hq)
    · rw [pair_update_of_ne hqp] at hq
      obtain ⟨hlt, hlt'⟩ := hinv.pair_made q sem shm hq
      exact ⟨Nat.lt_of_lt_of_le hlt hnext, Nat.lt_of_lt_of_le hlt' hnext⟩
  kind := by
    intro q other hother
    by_cases hqp : q = p
    · subst hqp
      exact hkind other (by simpa using hother)
    · exact hinv.kind q other (by simpa [Function.update_of_ne hqp] using hother)
  keeper := hkeeper

/-- The keeper stays when the names do and it is not the process that comes or goes. -/
theorem Invariant.keeper_update (hinv : Invariant opts state)
    (hsems : kernel.sems opts.sem = state.kernel.sems opts.sem)
    (hshms : kernel.shms opts.shm = state.kernel.shms opts.shm)
    (hother : ∀ member, state.member p = some member → ¬ member.Owns opts)
    (member : Option Member) {semEntry : Entry} (hbound : kernel.sems opts.sem = some semEntry) :
    ∃ shmEntry, kernel.shms opts.shm = some shmEntry ∧
      ∃ q owner, Function.update state.member p member q = some owner ∧ owner.Owns opts ∧
        owner.pair = some (semEntry.object, shmEntry.object) := by
  obtain ⟨shmEntry, hshm, q, owner, howner, howns, hpair⟩ :=
    hinv.keeper semEntry (hsems.symm.trans hbound)
  have hqp : q ≠ p := by
    rintro rfl
    exact hother owner howner howns
  exact ⟨shmEntry, hshms.trans hshm, q, owner, by rw [Function.update_of_ne hqp, howner], howns,
    hpair⟩

/-- A start keeps the invariant. -/
theorem Invariant.start (hinv : Invariant opts state) {launch : Launch} {outcomes : Outcomes}
    {member : Member} (hfree : state.member p = none)
    (hstarted : Started opts outcomes state.kernel kernel member launch) :
    Invariant opts ⟨kernel, Function.update state.member p (some member)⟩ := by
  have hother : ∀ member, state.member p = some member → ¬ member.Owns opts := by simp [hfree]
  cases hstarted with
  | joined hdone hpair howns hnext hsem hshm =>
      obtain ⟨hsemlt, semEntry, hsembound, rfl, hsemremovable⟩ := hsem.bound hinv.sem_made hnext
      obtain ⟨hshmlt, shmEntry, hshmbound, rfl, hshmremovable⟩ := hshm.bound hinv.shm_made hnext
      refine hinv.update hnext ?_ ?_ ?_ ?_ ?_
      · intro entry hentry
        obtain rfl := Option.some.inj (hsembound.symm.trans hentry)
        exact ⟨hsemlt, hsemremovable⟩
      · intro entry hentry
        obtain rfl := Option.some.inj (hshmbound.symm.trans hentry)
        exact ⟨hshmlt, hshmremovable⟩
      · intro sem shm hnew
        obtain ⟨rfl, rfl⟩ := Prod.mk.inj (Option.some.inj (hpair.symm.trans hnew))
        exact ⟨hsemlt, hshmlt⟩
      · intro new hnew
        obtain rfl := Option.some.inj hnew
        exact Or.inl howns
      · intro entry hentry
        obtain rfl := Option.some.inj (hsembound.symm.trans hentry)
        exact ⟨shmEntry, hshmbound, p, member, Function.update_self _ _ _, howns, hpair⟩
  | dropped hfailed hpair hinert hnext hsems hshms =>
      have hnone : kernel.sems opts.sem = none := by rw [hsems, hinv.sem_made.unlink]
      refine hinv.update hnext (.of_none hnone) ?_ ?_ ?_ ?_
      · rw [hshms]
        split_ifs
        · exact .of_none hinv.shm_made.unlink
        · exact hinv.shm_made.mono rfl hnext
      · simp [hpair]
      · simpa using Or.inr hinert
      · simp [hnone]
  | found hlaunch hdone hsem hshm hpair hinert hsems hshms hnext =>
      have hle := Nat.le_of_eq hnext.symm
      refine hinv.update hle (hinv.sem_made.mono (congrFun hsems _) hle)
        (hinv.shm_made.mono (congrFun hshms _) hle) ?_ ?_ ?_
      · intro sem shm hnew
        obtain ⟨rfl, rfl⟩ := Prod.mk.inj (Option.some.inj (hpair.symm.trans hnew))
        rw [hnext]
        exact ⟨(hinv.sem_made _ hsem).1, (hinv.shm_made _ hshm).1⟩
      · simpa using Or.inr hinert
      · intro entry hentry
        exact hinv.keeper_update (congrFun hsems _) (congrFun hshms _) hother _ hentry
  | refused hlaunch hfailed hpair hinert hsems hshms hnext =>
      have hle := Nat.le_of_eq hnext.symm
      refine hinv.update hle (hinv.sem_made.mono (congrFun hsems _) hle)
        (hinv.shm_made.mono (congrFun hshms _) hle) ?_ ?_ ?_
      · simp [hpair]
      · simpa using Or.inr hinert
      · intro entry hentry
        exact hinv.keeper_update (congrFun hsems _) (congrFun hshms _) hother _ hentry

/-- A stop keeps the invariant. -/
theorem Invariant.stop (hinv : Invariant opts state) {member : Member}
    (hmember : state.member p = some member) :
    Invariant opts ⟨member.hndclose state.kernel, Function.update state.member p none⟩ := by
  rcases hinv.kind p member hmember with howns | hinert
  · rw [hndclose_of_owns howns]
    refine hinv.update (Nat.le_refl _) (.of_none hinv.sem_made.unlink)
      (.of_none hinv.shm_made.unlink) ?_ ?_ ?_
    · simp
    · simp
    · simp [hinv.sem_made.unlink]
  · rw [hndclose_of_inert hinert]
    refine hinv.update (Nat.le_refl _) hinv.sem_made hinv.shm_made ?_ ?_ ?_
    · simp
    · simp
    · intro entry hentry
      refine hinv.keeper_update rfl rfl ?_ _ hentry
      intro other hother
      obtain rfl := Option.some.inj (hmember.symm.trans hother)
      exact hinert.not_owns

theorem Invariant.step (hinv : Invariant opts state) {action : Action P} {next : State P}
    (hstep : Naming.step opts state action = some next) : Invariant opts next := by
  cases step_move hstep with
  | start hfree hstarted => exact hinv.start hfree hstarted
  | stop hmember => exact hinv.stop hmember

/-! ## Coherence -/

/-- A process that comes with a pair that agrees with all others, or goes, keeps coherence. -/
theorem Coherent.update (hcoherent : Coherent state) {member : Option Member}
    (hnew : ∀ pair, member.bind Member.pair = some pair →
      ∀ q other, state.pair q = some other → (pair.1 = other.1 ↔ pair.2 = other.2)) :
    Coherent ⟨kernel, Function.update state.member p member⟩ := by
  intro q r first second hfirst hsecond
  by_cases hq : q = p
  · by_cases hr : r = p
    · subst hq hr
      obtain rfl := Option.some.inj (hfirst.symm.trans hsecond)
      exact iff_of_true rfl rfl
    · subst hq
      rw [pair_update_self] at hfirst
      rw [pair_update_of_ne hr] at hsecond
      exact hnew first hfirst r second hsecond
  · by_cases hr : r = p
    · subst hr
      rw [pair_update_of_ne hq] at hfirst
      rw [pair_update_self] at hsecond
      rw [eq_comm, hnew second hsecond q first hfirst, eq_comm]
    · rw [pair_update_of_ne hq] at hfirst
      rw [pair_update_of_ne hr] at hsecond
      exact hcoherent q r first second hfirst hsecond

omit [DecidableEq P] in
/-- What both names are bound to agrees with every pair in use. -/
theorem Invariant.bound_agrees (hinv : Invariant opts state) (hcoherent : Coherent state)
    {semEntry shmEntry : Entry} (hsem : state.kernel.sems opts.sem = some semEntry)
    (hshm : state.kernel.shms opts.shm = some shmEntry) {q : P} {other : ℕ × ℕ}
    (hother : state.pair q = some other) :
    semEntry.object = other.1 ↔ shmEntry.object = other.2 := by
  obtain ⟨keptEntry, hkept, w, owner, howner, -, hpair⟩ := hinv.keeper semEntry hsem
  obtain rfl := Option.some.inj (hshm.symm.trans hkept)
  exact hcoherent w q _ other (by rw [State.pair, howner]; exact hpair) hother

/-- **Steps that keep coherence.** Only a start that splits does not. -/
theorem Coherent.step (hinv : Invariant opts state) (hcoherent : Coherent state)
    {action : Action P} {next : State P} (hadmitted : ¬ Splits opts state action)
    (hstep : Naming.step opts state action = some next) : Coherent next := by
  cases step_move hstep with
  | start hfree hstarted =>
      cases hstarted with
      | joined hdone hpair howns hnext hsem hshm =>
          refine hcoherent.update fun pair hnew q other hother => ?_
          obtain rfl := Option.some.inj (hpair.symm.trans hnew)
          obtain ⟨hsemlt, hshmlt⟩ := hinv.pair_made q _ _ hother
          cases hsem with
          | found hsembefore =>
              obtain ⟨keptEntry, hkept, -⟩ := hinv.keeper _ hsembefore
              cases hshm with
              | found hshmbefore => exact hinv.bound_agrees hcoherent hsembefore hshmbefore hother
              | made hshmbefore =>
                  rw [hshmbefore] at hkept
                  exact absurd hkept (Option.some_ne_none _).symm
          | made hsembefore _ hsemfirst =>
              have hsemne := Nat.ne_of_gt (Nat.lt_of_lt_of_le hsemlt hsemfirst)
              cases hshm with
              | @found shmEntry hshmbefore =>
                  refine iff_of_false hsemne fun hsame => hadmitted ?_
                  refine ⟨hdone, hsembefore, shmEntry, hshmbefore, q, other.1, ?_⟩
                  rw [show shmEntry.object = other.2 from hsame]
                  exact hother
              | made _ _ hshmfirst =>
                  exact iff_of_false hsemne (Nat.ne_of_gt (Nat.lt_of_lt_of_le hshmlt hshmfirst))
      | dropped _ hpair => exact hcoherent.update (by simp [hpair])
      | found _ _ hsem hshm hpair =>
          refine hcoherent.update fun pair hnew q other hother => ?_
          obtain rfl := Option.some.inj (hpair.symm.trans hnew)
          exact hinv.bound_agrees hcoherent hsem hshm hother
      | refused _ _ hpair => exact hcoherent.update (by simp [hpair])
  | stop hmember => exact hcoherent.update (by simp)

/-- **Steps that break it.** A start that splits leaves two semaphores on one segment. -/
theorem not_coherent_of_splits (hinv : Invariant opts state) {action : Action P}
    {next : State P} (hsplits : Splits opts state action)
    (hstep : Naming.step opts state action = some next) : ¬ Coherent next := by
  cases step_move hstep with
  | stop => exact absurd hsplits id
  | @start p launch outcomes kernel member hfree hstarted =>
      cases launch with
      | forwarder port => exact absurd hsplits id
      | converter => exact absurd hsplits id
      | writer port =>
          obtain ⟨hdone, hsemnone, shmEntry, hshmbound, q, sem, hused⟩ := hsplits
          have hqp : q ≠ p := by
            rintro rfl
            simp [State.pair, hfree] at hused
          cases hstarted with
          | dropped hfailed => exact absurd (hfailed.symm.trans hdone) Bool.false_ne_true
          | found hlaunch => exact absurd rfl (hlaunch port)
          | refused hlaunch => exact absurd rfl (hlaunch port)
          | @joined _ newSem newShm _ hpair _ hnext hsem hshm =>
              have hsemfirst : state.kernel.next ≤ newSem := by
                cases hsem with
                | found hbefore => simp [hsemnone] at hbefore
                | made _ _ hfirst => exact hfirst
              have hsame : newShm = shmEntry.object := by
                cases hshm with
                | found hbefore => rw [Option.some.inj (hshmbound.symm.trans hbefore)]
                | made hbefore => simp [hshmbound] at hbefore
              intro hcoherent
              have hequal := (hcoherent p q (newSem, newShm) (sem, shmEntry.object)
                (by rw [pair_update_self]; exact hpair)
                (by rw [pair_update_of_ne hqp]; exact hused)).mpr hsame
              have hold := (hinv.pair_made q _ _ hused).1
              exact absurd hequal (Nat.ne_of_gt (Nat.lt_of_lt_of_le hold hsemfirst))

omit [DecidableEq P] in
/-- Nobody runs and neither name exists. -/
theorem Invariant.initial {kernel : Kernel} (hsem : kernel.sems opts.sem = none)
    (hshm : kernel.shms opts.shm = none) : Invariant opts (initial P kernel) where
  sem_made := .of_none hsem
  shm_made := .of_none hshm
  pair_made := by simp [State.pair, Naming.initial]
  kind := by simp [Naming.initial]
  keeper := by simp [Naming.initial, hsem]

/-- **One semaphore for one segment.** Along a history of starts and stops, in any order
and however their system calls end, processes use the same semaphore exactly when they
use the same segment, if and only if no writer has made a semaphore beside a segment
still in use. -/
theorem coherent_iff {kernel : Kernel} (hsem : kernel.sems opts.sem = none)
    (hshm : kernel.shms opts.shm = none) {trace : List (State P × Action P)}
    (hrun : Run (Naming.step opts) (initial P kernel) trace state) :
    ((∀ entry ∈ trace, Coherent entry.1) ∧ Coherent state) ↔
      ∀ entry ∈ trace, ¬ Splits opts entry.1 entry.2 := by
  refine @Run.safe_iff _ _ _ _ _ _ (fun state action => ¬ Splits opts state action)
    (Invariant opts) Coherent hrun (Invariant.initial hsem hshm) ?_ ?_ ?_ ?_
  · simp [Coherent, State.pair, Naming.initial]
  · exact fun _ _ _ hinv hstep => hinv.step hstep
  · exact fun _ _ _ hinv hcoherent hadmitted hstep => hcoherent.step hinv hadmitted hstep
  · exact fun _ _ _ hinv hsplits hstep => not_coherent_of_splits hinv (not_not.mp hsplits) hstep

end

/-- No name exists yet. -/
def bare : Kernel := ⟨fun _ => none, fun _ => none, fun _ => ⟨0, fun _ => 0⟩, 0⟩

/-- A writer runs, a second fails on its port, and a third starts. -/
def portFailsBetween : List (Action ℕ) :=
  [.start 0 (.writer ['p']) allSucceed, .start 1 (.writer ['q']) ShmWriter.portMissing,
    .start 2 (.writer ['p']) allSucceed]

theorem coherent_iff_portFailsBetween :
    ∃ trace state, Run (Naming.step ⟨['l'], ['s']⟩) (Naming.initial ℕ bare) trace state ∧
      state.pair 0 = some (0, 1) ∧ state.pair 2 = some (2, 1) ∧
        (((∀ entry ∈ trace, Coherent entry.1) ∧ Coherent state) ↔
          ∀ entry ∈ trace, ¬ Splits ⟨['l'], ['s']⟩ entry.1 entry.2) := by
  have hexec : ∃ state, exec (Naming.step ⟨['l'], ['s']⟩) (Naming.initial ℕ bare)
      portFailsBetween = some state ∧ state.pair 0 = some (0, 1) ∧ state.pair 2 = some (2, 1) :=
    ⟨_, rfl, rfl, rfl⟩
  obtain ⟨state, hstate, hfirst, hthird⟩ := hexec
  obtain ⟨trace, hrun, -⟩ := exists_run_of_exec hstate
  exact ⟨trace, state, hrun, hfirst, hthird, coherent_iff rfl rfl hrun⟩

end Embsys.Naming
