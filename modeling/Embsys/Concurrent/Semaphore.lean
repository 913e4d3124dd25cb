/-
# The token of the semaphore under signals

One token is in the semaphore or with the one live thread between its `sem_wait`
and its `sem_post`. A program step keeps it, and so does a handler, unless a
process ends while its thread holds the token: `exit` gives nothing back. The
conditions name the steps after which that end cannot be avoided; in runs without
them the token is kept, and every thread that waits can be let in by program steps
alone.
-/

import Embsys.Math.Token
import Embsys.Concurrent.Interrupt

namespace Embsys.Concurrent

open Embsys.Math Embsys.Os Embsys.ShmWriter Embsys.Forwarder

section

variable {W F : Type*} [DecidableEq W] [DecidableEq F] {handlers : F → Attached}

/-- The live threads between their `sem_wait` and their `sem_post`. -/
def holders (state : State W F) : Set (W ⊕ F) :=
  { thread | match thread with
    | .inl w => (state.writers w).Inside
    | .inr f => (state.forwarders f).Inside }

/-- Steps of the programs, without signals and handlers. -/
def Action.IsProgram : Action W F → Prop
  | .receive _ _ | .write _ | .convert _ | .forward _ => True
  | _ => False

/-- The step spares the pointer, does not interrupt a thread that holds the token,
and does not end a process whose thread holds it. -/
def KeepsToken (state : State W F) (action : Action W F) : Prop :=
  SparesPointer state action ∧
    match action with
    | .interruptWriter w => ¬ (state.writers w).Inside
    | .interrupt f thread => thread = .convert → ¬ (state.forwarders f).Inside
    | .handle f thread =>
        (state.forwarders f).handler thread = some .exit → ¬ (state.forwarders f).Inside
    | _ => True

omit [DecidableEq W] [DecidableEq F] in
instance (state : State W F) : DecidablePred (KeepsToken state)
  | .receive _ _ => .isTrue ⟨trivial, trivial⟩
  | .write _ => .isTrue ⟨trivial, trivial⟩
  | .interruptWriter w =>
      decidable_of_iff (¬ (state.writers w).Inside) (and_iff_right trivial).symm
  | .handleWriter _ => .isTrue ⟨trivial, trivial⟩
  | .convert f =>
      decidable_of_iff ((state.forwarders f).convertPc = .wait →
        (state.forwarders f).handlers.shdata ≠ .null) (and_iff_left trivial).symm
  | .forward _ => .isTrue ⟨trivial, trivial⟩
  | .interrupt f thread =>
      decidable_of_iff (thread = .convert → ¬ (state.forwarders f).Inside)
        (and_iff_right trivial).symm
  | .handle f thread =>
      inferInstanceAs (Decidable (
        ((state.forwarders f).handler thread = some .setShdata → ¬ (state.forwarders f).AtLoad) ∧
          ((state.forwarders f).handler thread = some .exit → ¬ (state.forwarders f).Inside)))

/-! ## Steps of one process -/

theorem WriterMove.tokenStep {writer writer' : Writer} {segment segment' : Segment}
    (halive : writer.alive = true) (hmove : WriterMove writer segment writer' segment') :
    TokenStep segment.sem segment'.sem writer.Inside writer'.Inside := by
  cases hmove with
  | wait hpc hsem =>
      rw [hsem]
      exact .acquire (by simp [Writer.Inside, hpc, WriterPc.Inside]) ⟨halive, trivial⟩
  | storeTime hpc => exact .silent (by simp [Writer.Inside, hpc, WriterPc.Inside])
  | storeLatitude hpc => exact .silent (by simp [Writer.Inside, hpc, WriterPc.Inside])
  | storeLongitude hpc => exact .silent (by simp [Writer.Inside, hpc, WriterPc.Inside])
  | post hpc =>
      refine .release ⟨halive, ?_⟩ (by simp [Writer.Inside, WriterPc.Inside])
      rw [hpc]
      trivial

theorem ConvertMove.tokenStep {forwarder forwarder' : Forwarder} {segment segment' : Segment}
    (halive : forwarder.alive = true)
    (hmapped : forwarder.convertPc.AtLoad → ∃ address, forwarder.handlers.shdata = .mapped address)
    (hmove : ConvertMove forwarder segment forwarder' segment') :
    TokenStep segment.sem segment'.sem forwarder.Inside forwarder'.Inside := by
  cases hmove with
  | wait hpc hsem =>
      rw [hsem]
      exact .acquire (by simp [Forwarder.Inside, hpc, ConvertPc.Inside]) ⟨halive, trivial⟩
  | load hpc hpointer =>
      exact .silent (iff_of_true ⟨halive, inside_loaded hpc⟩
        ⟨halive, ConvertPc.inside_of_atLoad hpc⟩)
  | fault hpc hfault =>
      obtain ⟨address, haddress⟩ := hmapped hpc
      exact absurd haddress (hfault address)
  | post hpc =>
      refine .release ⟨halive, ?_⟩ (by simp [Forwarder.Inside, ConvertPc.Inside])
      rw [hpc]
      trivial
  | lock hpc hmutex => exact .silent (by simp [Forwarder.Inside, hpc, ConvertPc.Inside])
  | storeTime hpc => exact .silent (by simp [Forwarder.Inside, hpc, ConvertPc.Inside])
  | storeLatitude hpc => exact .silent (by simp [Forwarder.Inside, hpc, ConvertPc.Inside])
  | storeLongitude hpc => exact .silent (by simp [Forwarder.Inside, hpc, ConvertPc.Inside])
  | unlock hpc => exact .silent (by simp [Forwarder.Inside, hpc, ConvertPc.Inside])

omit [DecidableEq F] in
theorem oneToken_setWriter {state : State W F} {w : W} {writer : Writer} (segment : Segment)
    (htoken : OneToken state.segment.sem (holders state))
    (hstep : TokenStep state.segment.sem segment.sem (state.writers w).Inside writer.Inside) :
    OneToken segment.sem (holders { state.setWriter w writer with segment := segment }) := by
  refine htoken.step (.inl w) ?_ ?_
  · have hself : (Sum.inl w ∈ holders { state.setWriter w writer with segment := segment }) =
        writer.Inside := by
      simp [holders, State.setWriter]
    rw [hself]
    exact hstep
  · rintro (v | f) hne
    · have hv : v ≠ w := fun heq => hne (by rw [heq])
      simp [holders, State.setWriter, hv]
    · simp [holders, State.setWriter]

omit [DecidableEq W] in
theorem oneToken_setForwarder {state : State W F} {f : F} {forwarder : Forwarder}
    (segment : Segment) (htoken : OneToken state.segment.sem (holders state))
    (hstep : TokenStep state.segment.sem segment.sem (state.forwarders f).Inside
      forwarder.Inside) :
    OneToken segment.sem (holders { state.setForwarder f forwarder with segment := segment }) := by
  refine htoken.step (.inr f) ?_ ?_
  · have hself : (Sum.inr f ∈ holders { state.setForwarder f forwarder with segment := segment }) =
        forwarder.Inside := by
      simp [holders, State.setForwarder]
    rw [hself]
    exact hstep
  · rintro (w | g) hne
    · simp [holders, State.setForwarder]
    · have hg : g ≠ f := fun heq => hne (by rw [heq])
      simp [holders, State.setForwarder, hg]

/-! ## The invariant -/

/-- One token; the pointer in place wherever `convert` is about to load and, before
any handler has cleared it, everywhere; no holder interrupted. -/
structure TokenInvariant (handlers : F → Attached) (state : State W F) : Prop where
  token : OneToken state.segment.sem (holders state)
  kept : PointerKept handlers state
  loads : LoadsMapped handlers state
  writers : ∀ w, (state.writers w).Inside → (state.writers w).handler = none
  converts : ∀ f, (state.forwarders f).Inside → (state.forwarders f).handler .convert = none
  pointers : ∀ f, (state.forwarders f).alive = true →
    (∀ thread, (state.forwarders f).handler thread ≠ some .exit) →
      (state.forwarders f).handlers.shdata = (handlers f).val.shdata

omit [DecidableEq W] [DecidableEq F] in
theorem TokenInvariant.initial (handlers : F → Attached) :
    TokenInvariant handlers (initial W handlers) where
  token := by
    have hempty : holders (Concurrent.initial W handlers) = ∅ := by
      ext thread
      cases thread <;>
        simp [holders, Concurrent.initial, Writer.initial, Forwarder.initial, Writer.Inside,
          Forwarder.Inside, WriterPc.Inside, ConvertPc.Inside]
    exact oneToken_iff.mpr (Or.inl ⟨rfl, hempty⟩)
  kept := fun _ => Or.inr rfl
  loads := fun _ _ => rfl
  writers := fun _ _ => rfl
  converts := fun _ _ => rfl
  pointers := fun _ _ _ => rfl

variable {state next : State W F} {action : Action W F}

omit [DecidableEq W] [DecidableEq F] in
/-- Before a load the pointer is to a mapping. -/
theorem TokenInvariant.mapped (h : TokenInvariant handlers state) {f : F}
    (hload : (state.forwarders f).AtLoad) :
    ∃ address, (state.forwarders f).handlers.shdata = .mapped address := by
  obtain ⟨address, haddress⟩ := (handlers f).property
  exact ⟨address, (h.loads f hload).trans haddress⟩

/-- **One step keeps the token.** -/
theorem TokenInvariant.token_step (h : TokenInvariant handlers state)
    (hkeeps : KeepsToken state action) (hmove : Move state action next) :
    OneToken next.segment.sem (holders next) := by
  cases hmove with
  | @receive w buff writer hrunning hstep =>
      obtain ⟨hpc, pc, houtside, rfl⟩ := Writer.receive_cases hstep
      refine oneToken_setWriter state.segment h.token (.silent ?_)
      exact iff_of_false (fun hinside => houtside hinside.2)
        fun hinside => by simpa [hpc, WriterPc.Inside] using hinside.2
  | write hrunning hstep =>
      exact oneToken_setWriter _ h.token ((Writer.step_move hstep).tokenStep hrunning.1)
  | interruptWriter hrunning =>
      exact oneToken_setWriter state.segment h.token (.silent Iff.rfl)
  | @handleWriter w writer halive hstep =>
      refine oneToken_setWriter state.segment h.token (.silent ?_)
      cases hhandler : (state.writers w).handler with
      | none => simp [Writer.handle, hhandler] at hstep
      | some pc =>
          have houtside : ¬ (state.writers w).Inside := fun hinside => by
            simp [h.writers w hinside] at hhandler
          simp only [Writer.handle, hhandler] at hstep
          cases pc with
          | hndclose =>
              obtain rfl := Option.some.inj hstep
              exact Iff.rfl
          | exit =>
              obtain rfl := Option.some.inj hstep
              exact iff_of_false (fun hinside => Bool.false_ne_true hinside.1) houtside
  | @convert f forwarder segment hrunning hstep =>
      refine oneToken_setForwarder _ h.token
        ((Forwarder.convertStep_move hstep).tokenStep hrunning.1 fun hload => ?_)
      exact h.mapped ⟨hrunning, hload⟩
  | forward hrunning hstep =>
      refine oneToken_setForwarder state.segment h.token (.silent ?_)
      have hmove := Forwarder.forwardStep_move hstep
      cases hmove <;> exact Iff.rfl
  | interrupt hrunning =>
      exact oneToken_setForwarder state.segment h.token (.silent Iff.rfl)
  | handle halive hstep =>
      refine oneToken_setForwarder state.segment h.token (.silent ?_)
      have hmove := Forwarder.handle_move hstep
      cases hmove with
      | exit hpc =>
          exact iff_of_false (fun hinside => Bool.false_ne_true hinside.1) (hkeeps.2 hpc)
      | clear hpc => exact Iff.rfl
      | earlier hpc => exact Iff.rfl

/-- A holder is not interrupted: no signal is delivered to it, and no other step
gives it a handler. -/
theorem TokenInvariant.writers_step (h : TokenInvariant handlers state)
    (hkeeps : KeepsToken state action) (hmove : Move state action next) (w : W)
    (hinside : (next.writers w).Inside) : (next.writers w).handler = none := by
  have hchange := hmove.writerChange w
  generalize next.writers w = writer at hchange hinside ⊢
  cases hchange with
  | none => exact h.writers w hinside
  | receive hrunning hstep =>
      obtain ⟨-, pc, houtside, rfl⟩ := Writer.receive_cases hstep
      exact absurd hinside.2 houtside
  | write hrunning hmove => cases hmove <;> exact hrunning.2
  | interrupt hrunning => exact absurd hinside hkeeps.2
  | handle halive hstep =>
      cases hhandler : (state.writers w).handler with
      | none => simp [Writer.handle, hhandler] at hstep
      | some pc =>
          simp only [Writer.handle, hhandler] at hstep
          cases pc with
          | hndclose =>
              obtain rfl := Option.some.inj hstep
              have hnone := h.writers w hinside
              simp [hnone] at hhandler
          | exit =>
              obtain rfl := Option.some.inj hstep
              exact absurd hinside.1 Bool.false_ne_true

theorem TokenInvariant.converts_step (h : TokenInvariant handlers state)
    (hkeeps : KeepsToken state action) (hmove : Move state action next) (f : F)
    (hinside : (next.forwarders f).Inside) : (next.forwarders f).handler .convert = none := by
  have hchange := hmove.forwarderChange f
  generalize next.forwarders f = forwarder at hchange hinside ⊢
  cases hchange with
  | none => exact h.converts f hinside
  | convert hrunning hmove => cases hmove <;> exact hrunning.2
  | forward hrunning hmove => cases hmove <;> exact h.converts f hinside
  | @interrupt thread hrunning =>
      have hthread : .convert ≠ thread := fun heq => hkeeps.2 heq.symm hinside
      exact (Function.update_of_ne hthread ..).trans (h.converts f hinside)
  | handle halive hmove =>
      cases hmove with
      | exit hpc => exact absurd hinside.1 Bool.false_ne_true
      | clear hpc => exact update_of_handler hpc (h.converts f hinside)
      | earlier hpc => exact update_of_handler hpc (h.converts f hinside)

/-- The pointer stays in place until a handler has cleared it and stands before `exit`. -/
theorem TokenInvariant.pointers_step (h : TokenInvariant handlers state)
    (hmove : Move state action next) (f : F) (halive : (next.forwarders f).alive = true)
    (hexit : ∀ thread, (next.forwarders f).handler thread ≠ some .exit) :
    (next.forwarders f).handlers.shdata = (handlers f).val.shdata := by
  have hchange := hmove.forwarderChange f
  generalize next.forwarders f = forwarder at hchange halive hexit ⊢
  cases hchange with
  | none => exact h.pointers f halive hexit
  | convert hrunning hmove =>
      cases hmove with
      | fault => exact absurd halive Bool.false_ne_true
      | _ => exact h.pointers f halive hexit
  | forward hrunning hmove => cases hmove <;> exact h.pointers f halive hexit
  | @interrupt thread hrunning =>
      have hbefore : (state.forwarders f).handler thread ≠ some .exit := by
        simp [hrunning.2]
      exact h.pointers f halive fun other => ne_exit_of_update hbefore (hexit other)
  | handle halive' hmove =>
      cases hmove with
      | exit hpc => exact absurd halive Bool.false_ne_true
      | clear hpc => exact absurd (Function.update_self ..) (hexit _)
      | earlier hpc hbefore hclear hnext hshdata =>
          have hold : (state.forwarders f).handler _ ≠ some .exit := fun heq =>
            hbefore (Option.some.inj (hpc.symm.trans heq))
          exact hshdata.trans
            (h.pointers f halive fun other => ne_exit_of_update hold (hexit other))

/-- **One step.** -/
theorem TokenInvariant.preserved (h : TokenInvariant handlers state)
    (hkeeps : KeepsToken state action) (hmove : Move state action next) :
    TokenInvariant handlers next where
  token := h.token_step hkeeps hmove
  kept := h.kept.step hmove
  loads := h.loads.step h.kept hkeeps.1 hmove
  writers := h.writers_step hkeeps hmove
  converts := h.converts_step hkeeps hmove
  pointers := h.pointers_step hmove

/-! ## Waiting threads get in -/

/-- The thread of a process that has met no signal stands before `sem_wait`. -/
def Waits (state : State W F) : W ⊕ F → Prop
  | .inl w => (state.writers w).Running ∧ ∃ record, (state.writers w).pc = .wait record
  | .inr f =>
      (state.forwarders f).alive = true ∧ (∀ thread, (state.forwarders f).handler thread = none) ∧
        (state.forwarders f).convertPc = .wait

/-- How many steps of its own a thread is away from giving the token back. -/
def WriterPc.left : WriterPc → ℕ
  | .storeTime _ => 4
  | .storeLatitude _ => 3
  | .storeLongitude _ => 2
  | .post => 1
  | _ => 0

def ConvertPc.left : ConvertPc → ℕ
  | .loadTime => 4
  | .loadLatitude _ => 3
  | .loadLongitude _ _ => 2
  | .post _ => 1
  | _ => 0

def left (state : State W F) : W ⊕ F → ℕ
  | .inl w => (state.writers w).pc.left
  | .inr f => (state.forwarders f).convertPc.left

/-- Nothing but one thread's process has changed. -/
def SameBut (thread : W ⊕ F) (state next : State W F) : Prop :=
  (∀ w, .inl w ≠ thread → next.writers w = state.writers w) ∧
    ∀ f, .inr f ≠ thread → next.forwarders f = state.forwarders f

theorem Writer.exists_step {writer : Writer} (segment : Segment) (hinside : writer.pc.Inside) :
    ∃ pc segment', writer.step segment = some ({ writer with pc := pc }, segment') ∧
      pc.left < writer.pc.left ∧ (pc.Inside ∨ segment'.sem = segment.sem + 1) := by
  cases hpc : writer.pc with
  | read => exact (hpc ▸ hinside : WriterPc.Inside .read).elim
  | wait record => exact (hpc ▸ hinside : WriterPc.Inside (.wait record)).elim
  | storeTime record =>
      exact ⟨.storeLatitude record,
        { segment with shdata := { segment.shdata with time := record.time } },
        by simp only [Writer.step, hpc], Nat.lt_succ_self _, Or.inl trivial⟩
  | storeLatitude record =>
      exact ⟨.storeLongitude record,
        { segment with shdata := { segment.shdata with latitude := record.latitude } },
        by simp only [Writer.step, hpc], Nat.lt_succ_self _, Or.inl trivial⟩
  | storeLongitude record =>
      exact ⟨.post,
        { segment with
          shdata := { segment.shdata with longitude := record.longitude }
          stores := segment.stores ++ [record] },
        by simp only [Writer.step, hpc], Nat.lt_succ_self _, Or.inl trivial⟩
  | post =>
      exact ⟨.read, { segment with sem := segment.sem + 1 }, by simp only [Writer.step, hpc],
        Nat.lt_succ_self _, Or.inr rfl⟩

theorem Forwarder.load_of_mapped {forwarder : Forwarder} {address : ℕ} (next : ConvertPc)
    (hmapped : forwarder.handlers.shdata = .mapped address) :
    forwarder.load next = { forwarder with convertPc := next } := by
  simp [Forwarder.load, hmapped]

theorem Forwarder.exists_convertStep {forwarder : Forwarder} (segment : Segment)
    (hinside : forwarder.convertPc.Inside)
    (hmapped : forwarder.convertPc.AtLoad →
      ∃ address, forwarder.handlers.shdata = .mapped address) :
    ∃ pc segment', forwarder.convertStep segment =
        some ({ forwarder with convertPc := pc }, segment') ∧
      pc.left < forwarder.convertPc.left ∧ (pc.Inside ∨ segment'.sem = segment.sem + 1) := by
  cases hpc : forwarder.convertPc with
  | loadTime =>
      obtain ⟨address, haddress⟩ := hmapped (by rw [hpc]; trivial)
      exact ⟨.loadLatitude segment.shdata.time, segment,
        by simp only [Forwarder.convertStep, hpc, load_of_mapped _ haddress],
        Nat.lt_succ_self _, Or.inl trivial⟩
  | loadLatitude time =>
      obtain ⟨address, haddress⟩ := hmapped (by rw [hpc]; trivial)
      exact ⟨.loadLongitude time (toDecimal segment.shdata.latitude), segment,
        by simp only [Forwarder.convertStep, hpc, load_of_mapped _ haddress],
        Nat.lt_succ_self _, Or.inl trivial⟩
  | loadLongitude time latitude =>
      obtain ⟨address, haddress⟩ := hmapped (by rw [hpc]; trivial)
      exact ⟨.post ⟨time, latitude, toDecimal segment.shdata.longitude⟩, segment,
        by simp only [Forwarder.convertStep, hpc, load_of_mapped _ haddress],
        Nat.lt_succ_self _, Or.inl trivial⟩
  | post coord =>
      exact ⟨.lock coord, { segment with sem := segment.sem + 1 },
        by simp only [Forwarder.convertStep, hpc], Nat.lt_succ_self _, Or.inr rfl⟩
  | wait => exact (hpc ▸ hinside : ConvertPc.Inside .wait).elim
  | lock coord => exact (hpc ▸ hinside : ConvertPc.Inside (.lock coord)).elim
  | storeTime coord => exact (hpc ▸ hinside : ConvertPc.Inside (.storeTime coord)).elim
  | storeLatitude coord => exact (hpc ▸ hinside : ConvertPc.Inside (.storeLatitude coord)).elim
  | storeLongitude coord => exact (hpc ▸ hinside : ConvertPc.Inside (.storeLongitude coord)).elim
  | unlock => exact (hpc ▸ hinside : ConvertPc.Inside .unlock).elim

/-- The program step of a thread that takes the semaphore. -/
def programStep : W ⊕ F → Action W F
  | .inl w => .write w
  | .inr f => .convert f

/-- A holder can always go on, and is one step nearer to giving the token back. -/
theorem TokenInvariant.exists_step (h : TokenInvariant handlers state) {thread : W ⊕ F}
    (hholds : thread ∈ holders state) :
    ∃ next, step state (programStep thread) = some next ∧ (programStep thread).IsProgram ∧
      KeepsToken state (programStep thread) ∧ SameBut thread state next ∧
      left next thread < left state thread ∧
      (thread ∈ holders next ∨ next.segment.sem = state.segment.sem + 1) := by
  cases thread with
  | inl w =>
      have hrunning : (state.writers w).Running := ⟨hholds.1, h.writers w hholds⟩
      obtain ⟨pc, segment, hstep, hleft, hnext⟩ := Writer.exists_step state.segment hholds.2
      refine ⟨{ state.setWriter w { state.writers w with pc := pc } with
        segment := segment }, by simp [programStep, Concurrent.step, hrunning, hstep], trivial,
        ⟨trivial, trivial⟩, ⟨?_, fun f _ => rfl⟩, ?_, ?_⟩
      · intro v hne
        exact State.setWriter_of_ne state (fun heq => hne (by rw [heq])) _
      · simpa [left, State.setWriter] using hleft
      · apply hnext.imp_left
        intro hinside
        simp [holders, State.setWriter, Writer.Inside, hinside, hholds.1]
  | inr f =>
      have hrunning : (state.forwarders f).Running .convert := ⟨hholds.1, h.converts f hholds⟩
      obtain ⟨pc, segment, hstep, hleft, hnext⟩ := Forwarder.exists_convertStep state.segment
        hholds.2 fun hload => h.mapped ⟨hrunning, hload⟩
      have hwait : (state.forwarders f).convertPc ≠ .wait := by
        intro hwait
        exact (hwait ▸ hholds.2 : ConvertPc.Inside .wait).elim
      refine ⟨{ state.setForwarder f { state.forwarders f with convertPc := pc } with
        segment := segment }, by simp [programStep, Concurrent.step, hrunning, hstep], trivial,
        ⟨fun heq => absurd heq hwait, trivial⟩, ⟨fun w _ => rfl, ?_⟩, ?_, ?_⟩
      · intro g hne
        exact State.setForwarder_of_ne state (fun heq => hne (by rw [heq])) _
      · simpa [left, State.setForwarder] using hleft
      · apply hnext.imp_left
        intro hinside
        simp [holders, State.setForwarder, Forwarder.Inside, hinside, hholds.1]

/-- A waiting thread takes a free token. -/
theorem TokenInvariant.exists_enter (h : TokenInvariant handlers state) {thread : W ⊕ F}
    (hfree : state.segment.sem = 1) (hwaits : Waits state thread) :
    ∃ action next, step state action = some next ∧ action.IsProgram ∧
      KeepsToken state action ∧ thread ∈ holders next := by
  cases thread with
  | inl w =>
      obtain ⟨hrunning, record, hpc⟩ := hwaits
      refine ⟨.write w, { state.setWriter w { state.writers w with pc := .storeTime record } with
        segment := { state.segment with sem := 0 } }, ?_, trivial, ⟨trivial, trivial⟩, ?_⟩
      · simp [Concurrent.step, hrunning, Writer.step, hpc, hfree]
      · simp [holders, State.setWriter, Writer.Inside, WriterPc.Inside, hrunning.1]
  | inr f =>
      obtain ⟨halive, hhandler, hpc⟩ := hwaits
      have hpointer := h.pointers f halive fun thread => by simp [hhandler thread]
      refine ⟨.convert f, { state.setForwarder f { state.forwarders f with convertPc := .loadTime }
        with segment := { state.segment with sem := 0 } }, ?_, trivial, ⟨?_, trivial⟩, ?_⟩
      · have hrunning : (state.forwarders f).Running .convert := ⟨halive, hhandler .convert⟩
        simp [Concurrent.step, hrunning, Forwarder.convertStep, hpc, hfree]
      · intro _
        obtain ⟨address, haddress⟩ := (handlers f).property
        simp [hpointer, haddress]
      · simp [holders, State.setForwarder, Forwarder.Inside, ConvertPc.Inside, halive]

/-- A run of program steps that keep the token. -/
def ProgramRun (state : State W F) (rest : List (State W F × Action W F)) (next : State W F) :
    Prop :=
  Run step state rest next ∧ ∀ entry ∈ rest, entry.2.IsProgram ∧ KeepsToken entry.1 entry.2

theorem ProgramRun.single (hstep : step state action = some next) (hprogram : action.IsProgram)
    (hkeeps : KeepsToken state action) : ProgramRun state [(state, action)] next :=
  ⟨Run.single hstep, by simpa using ⟨hprogram, hkeeps⟩⟩

theorem ProgramRun.append {middle : State W F} {first second : List (State W F × Action W F)}
    (hfirst : ProgramRun state first middle) (hsecond : ProgramRun middle second next) :
    ProgramRun state (first ++ second) next :=
  ⟨hfirst.1.append hsecond.1, List.forall_mem_append.mpr ⟨hfirst.2, hsecond.2⟩⟩

/-- **The holder gives the token back.** Some program steps of the holder alone free
the semaphore; the induction is on the steps it is away from its `sem_post`. -/
theorem TokenInvariant.exists_release (h : TokenInvariant handlers state) {thread : W ⊕ F}
    (hholds : thread ∈ holders state) :
    ∃ rest next, ProgramRun state rest next ∧ TokenInvariant handlers next ∧
      SameBut thread state next ∧ next.segment.sem = 1 := by
  induction hcount : left state thread using Nat.strong_induction_on generalizing state with
  | _ count ih =>
      obtain ⟨middle, hstep, hprogram, hkeeps, hsame, hleft, hnext⟩ := h.exists_step hholds
      have hinvariant := h.preserved hkeeps (step_move hstep)
      have hsingle := ProgramRun.single hstep hprogram hkeeps
      rcases hnext with hinside | hfree
      · obtain ⟨rest, next, hrun, hend, hsameRest, hsem⟩ :=
          ih _ (hcount ▸ hleft) hinvariant hinside rfl
        refine ⟨_, next, hsingle.append hrun, hend, ⟨?_, ?_⟩, hsem⟩
        · intro w hne
          exact (hsameRest.1 w hne).trans (hsame.1 w hne)
        · intro f hne
          exact (hsameRest.2 f hne).trans (hsame.2 f hne)
      · refine ⟨_, middle, hsingle, hinvariant, hsame, ?_⟩
        rcases oneToken_iff.mp hinvariant.token with ⟨hone, -⟩ | ⟨hzero, -⟩
        · exact hone
        · omega

omit [DecidableEq W] [DecidableEq F] in
theorem Waits.notMem_holders {thread : W ⊕ F} (hwaits : Waits state thread) :
    thread ∉ holders state := by
  intro hholds
  cases thread with
  | inl w =>
      obtain ⟨-, record, hpc⟩ := hwaits
      exact (hpc ▸ hholds.2 : WriterPc.Inside (.wait record)).elim
  | inr f => exact (hwaits.2.2 ▸ hholds.2 : ConvertPc.Inside .wait).elim

/-- **A waiting thread can get in.** -/
theorem TokenInvariant.exists_entering (h : TokenInvariant handlers state) {thread : W ⊕ F}
    (hwaits : Waits state thread) :
    ∃ rest next, ProgramRun state rest next ∧ thread ∈ holders next := by
  rcases oneToken_iff.mp h.token with ⟨hfree, -⟩ | ⟨-, holder, hholder⟩
  · obtain ⟨action, next, hstep, hprogram, hkeeps, hinside⟩ := h.exists_enter hfree hwaits
    exact ⟨_, next, ProgramRun.single hstep hprogram hkeeps, hinside⟩
  · have hmem : holder ∈ holders state := hholder ▸ Set.mem_singleton holder
    obtain ⟨rest, middle, hrun, hinvariant, hsame, hfree⟩ := h.exists_release hmem
    have hne : thread ≠ holder := fun heq => hwaits.notMem_holders (heq ▸ hmem)
    have hstill : Waits middle thread := by
      cases thread with
      | inl w => rwa [Waits, hsame.1 w hne]
      | inr f => rwa [Waits, hsame.2 f hne]
    obtain ⟨action, next, hstep, hprogram, hkeeps, hinside⟩ :=
      hinvariant.exists_enter hfree hstill
    exact ⟨_, next, hrun.append (ProgramRun.single hstep hprogram hkeeps), hinside⟩

/-- **The token is never lost.** In every state of a run whose steps keep the
token, the value of the semaphore and the number of live threads between their
`sem_wait` and their `sem_post` add up to 1, and every waiting thread of a process
without a signal can be let in by steps of the programs alone. -/
theorem token_kept {trace : List (State W F × Action W F)}
    (hrun : Run step (initial W handlers) trace state)
    (hkeeps : ∀ entry ∈ trace, KeepsToken entry.1 entry.2) :
    (state.segment.sem : ℕ∞) + (holders state).encard = 1 ∧
      ∀ thread, Waits state thread →
        ∃ rest next, ProgramRun state rest next ∧ thread ∈ holders next := by
  have hinvariant : TokenInvariant handlers state :=
    hrun.invariant hkeeps (TokenInvariant.initial handlers) fun _ _ _ h hkeeps hstep =>
      h.preserved hkeeps (step_move hstep)
  exact ⟨hinvariant.token, fun thread hwaits => hinvariant.exists_entering hwaits⟩

end

/-- Two forwarders with a mapping each. -/
def twoForwarders : Bool → Attached :=
  fun _ => oneForwarder ()

/-- SIGINT ends the first forwarder outside, and `convert` of the second passes `sem_wait`. -/
def exitOutside : List (Action Unit Bool) :=
  [.interrupt false .main] ++ List.replicate 8 (.handle false .main) ++ [.convert true]

theorem token_kept_exitOutside :
    ∃ trace state, Run step (initial Unit twoForwarders) trace state ∧
      (state.forwarders false).alive = false ∧ state.segment.sem = 0 ∧ Waits state (.inl ()) ∧
      (state.segment.sem : ℕ∞) + (holders state).encard = 1 ∧
      ∀ thread, Waits state thread →
        ∃ rest next, ProgramRun state rest next ∧ thread ∈ holders next := by
  have hdecoded : decodeFrame (fill "$GPGLL,4836.50,N,00430.00,W,123519,A".toList) =
      some ⟨9673 / 2, 430, 123519⟩ := by decide +kernel
  have hexec : ∃ state, guarded KeepsToken step (initial Unit twoForwarders)
        (.receive () (fill "$GPGLL,4836.50,N,00430.00,W,123519,A".toList)) = some state ∧
      ∃ next, exec (guarded KeepsToken step) state exitOutside = some next ∧
        (next.forwarders false).alive = false ∧ next.segment.sem = 0 ∧ Waits next (.inl ()) := by
    simp only [guarded, step, Writer.receive, initial, Writer.initial, hdecoded]
    refine ⟨_, rfl, _, rfl, ?_⟩
    exact ⟨rfl, rfl, ⟨rfl, rfl⟩, _, rfl⟩
  obtain ⟨start, hstart, state, hstate, hdead, hsem, hwaits⟩ := hexec
  obtain ⟨rest, hrest, -⟩ := exists_run_of_exec hstate
  obtain ⟨hrun, hkeeps⟩ := ((Run.single hstart).append hrest).of_guarded
  exact ⟨_, state, hrun, hdead, hsem, hwaits, token_kept hrun hkeeps⟩

/-- `convert` passes `sem_wait`, and the handler on the main thread runs to `exit`. -/
def exitInside : List (Action Unit Unit) :=
  [.convert (), .interrupt () .main] ++ List.replicate 8 (.handle () .main)

/-- The token is gone with the process. -/
theorem not_forall_token_kept :
    ¬ ∀ trace state, Run step (initial Unit oneForwarder) trace state →
      (state.segment.sem : ℕ∞) + (holders state).encard = 1 := by
  intro h
  have hexec : ∃ state, exec step (initial Unit oneForwarder) exitInside = some state ∧
      state.segment.sem = 0 ∧ (state.writers ()).pc = .read ∧
      (state.forwarders ()).alive = false :=
    ⟨_, rfl, rfl, rfl, rfl⟩
  obtain ⟨state, hstate, hsem, hwriter, hforwarder⟩ := hexec
  obtain ⟨trace, hrun, -⟩ := exists_run_of_exec hstate
  have htoken := h trace state hrun
  have hempty : holders state = ∅ := by
    ext thread
    cases thread <;> simp [holders, Writer.Inside, Forwarder.Inside, hwriter, hforwarder,
      WriterPc.Inside]
  rw [hsem, hempty] at htoken
  simp at htoken

end Embsys.Concurrent
