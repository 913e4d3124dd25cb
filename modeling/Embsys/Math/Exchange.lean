/-
# Calls over a network

Clients call one after the other, each waiting for a return before its next call. What is
under way, on the way there or back, is a bag from which the network may lose and in
which it may leave a copy. Whatever the network does, a client takes back only what it
has called. Without copies the returns of a client are its calls in order, with at most
the last one missing, and one loss leaves it waiting for ever.
-/

import Mathlib.Data.Multiset.Filter
import Mathlib.Logic.Function.Basic

namespace Embsys.Math

variable {C M : Type*}

/-- What each client has called and taken back, the oldest first, and what is under way. -/
structure Exchange (C M : Type*) where
  calls : C → List M
  returns : C → List M
  flight : Multiset (C × M)

namespace Exchange

def start (C M : Type*) : Exchange C M := ⟨fun _ => [], fun _ => [], 0⟩

def Waiting (exchange : Exchange C M) (c : C) : Prop :=
  (exchange.returns c).length < (exchange.calls c).length

/-- A client that waits with nothing of its own under way. -/
def Stuck (exchange : Exchange C M) (c : C) : Prop :=
  exchange.Waiting c ∧ ∀ sent ∈ exchange.flight, sent.1 ≠ c

inductive Event (C : Type*)
  | call (c : C)
  | take (c : C)
  | lose (c : C)
  | copy (c : C)

/-- What can happen next; a copy only where the network makes copies. -/
inductive Step [DecidableEq C] (copies : Prop) :
    Exchange C M → Event C → Exchange C M → Prop
  | call {calls returns : C → List M} {flight : Multiset (C × M)} (c : C) (m : M)
      (hready : (calls c).length ≤ (returns c).length) :
      Step copies ⟨calls, returns, flight⟩ (.call c)
        ⟨Function.update calls c (calls c ++ [m]), returns, (c, m) ::ₘ flight⟩
  | take {calls returns : C → List M} {rest : Multiset (C × M)} (c : C) (m : M)
      (hwaiting : (returns c).length < (calls c).length) :
      Step copies ⟨calls, returns, (c, m) ::ₘ rest⟩ (.take c)
        ⟨calls, Function.update returns c (returns c ++ [m]), rest⟩
  | lose {calls returns : C → List M} {rest : Multiset (C × M)} (c : C) (m : M) :
      Step copies ⟨calls, returns, (c, m) ::ₘ rest⟩ (.lose c) ⟨calls, returns, rest⟩
  | copy {calls returns : C → List M} {rest : Multiset (C × M)} (c : C) (m : M)
      (hcopies : copies) :
      Step copies ⟨calls, returns, (c, m) ::ₘ rest⟩ (.copy c)
        ⟨calls, returns, (c, m) ::ₘ (c, m) ::ₘ rest⟩

/-- What is taken back or under way has been called by that client. -/
structure Echoes (exchange : Exchange C M) : Prop where
  returns : ∀ c, ∀ m ∈ exchange.returns c, m ∈ exchange.calls c
  flight : ∀ sent ∈ exchange.flight, sent.2 ∈ exchange.calls sent.1

theorem echoes_start : (start C M).Echoes :=
  ⟨fun _ _ hmem => absurd hmem List.not_mem_nil, fun _ hmem => absurd hmem
    (Multiset.notMem_zero _)⟩

/-- **Nothing is made up**, whatever the network does. -/
theorem Echoes.step [DecidableEq C] {copies : Prop} {exchange next : Exchange C M}
    {event : Event C} (h : exchange.Echoes) (hstep : Step copies exchange event next) :
    next.Echoes := by
  cases hstep with
  | @call calls returns flight c m hready =>
      have hgrow : ∀ d, ∀ n ∈ calls d, n ∈ Function.update calls c (calls c ++ [m]) d := by
        intro d n hmem
        by_cases hd : d = c
        · subst hd
          simp [hmem]
        · rwa [Function.update_of_ne hd]
      refine ⟨fun d n hmem => hgrow d n (h.returns d n hmem), ?_⟩
      refine Multiset.forall_mem_cons.mpr ⟨by simp, fun sent hsent => ?_⟩
      exact hgrow _ _ (h.flight sent hsent)
  | @take calls returns rest c m hwaiting =>
      obtain ⟨hmine, hrest⟩ := Multiset.forall_mem_cons.mp h.flight
      refine ⟨fun d n hn => ?_, hrest⟩
      by_cases hd : d = c
      · subst hd
        have hcases : n ∈ returns d ∨ n = m := by simpa using hn
        rcases hcases with hold | rfl
        · exact h.returns d n hold
        · exact hmine
      · exact h.returns d n (by simpa [Function.update_of_ne hd] using hn)
  | lose c m => exact ⟨h.returns, (Multiset.forall_mem_cons.mp h.flight).2⟩
  | copy c m hcopies =>
      obtain ⟨hmine, hrest⟩ := Multiset.forall_mem_cons.mp h.flight
      exact ⟨h.returns, Multiset.forall_mem_cons.mpr ⟨hmine, h.flight⟩⟩

/-! ## Without copies -/

/-- What is under way for one client. -/
def mine [DecidableEq C] (flight : Multiset (C × M)) (c : C) : Multiset (C × M) :=
  flight.filter fun sent => sent.1 = c

/-- A client is done with all its calls and nothing of its own is under way, or it waits
for the last and at most that one is. -/
inductive InStep (c : C) : List M → List M → Multiset (C × M) → Prop
  | idle (done : List M) : InStep c done done 0
  | waits (done : List M) (m : M) : InStep c (done ++ [m]) done {(c, m)}
  | stuck (done : List M) (m : M) : InStep c (done ++ [m]) done 0

/-- A client with something under way waits for it, and has nothing else under way. -/
theorem InStep.of_cons {c : C} {m : M} {calls returns : List M} {rest : Multiset (C × M)}
    (h : InStep c calls returns ((c, m) ::ₘ rest)) : calls = returns ++ [m] ∧ rest = 0 := by
  generalize hflight : (c, m) ::ₘ rest = flight at h
  cases h with
  | idle => exact absurd hflight Multiset.cons_ne_zero
  | waits n =>
      obtain ⟨heq, hrest⟩ := (Multiset.singleton_eq_cons_iff _).mp hflight.symm
      rw [(Prod.mk.inj heq).2]
      exact ⟨rfl, hrest⟩
  | stuck => exact absurd hflight Multiset.cons_ne_zero

/-- A client that does not wait has nothing under way. -/
theorem InStep.of_le {c : C} {calls returns : List M} {flight : Multiset (C × M)}
    (h : InStep c calls returns flight) (hready : calls.length ≤ returns.length) :
    calls = returns ∧ flight = 0 := by
  cases h with
  | idle => exact ⟨rfl, rfl⟩
  | waits =>
      rw [List.length_append] at hready
      exact absurd hready (Nat.not_succ_le_self _)
  | stuck =>
      rw [List.length_append] at hready
      exact absurd hready (Nat.not_succ_le_self _)

section

variable [DecidableEq C]

def Lockstep (exchange : Exchange C M) : Prop :=
  ∀ c, InStep c (exchange.calls c) (exchange.returns c) (mine exchange.flight c)

theorem lockstep_start : (start C M).Lockstep := fun _ => .idle []

@[simp]
theorem mine_cons_self (rest : Multiset (C × M)) (c : C) (m : M) :
    mine ((c, m) ::ₘ rest) c = (c, m) ::ₘ mine rest c :=
  Multiset.filter_cons_of_pos _ rfl

theorem mine_cons_of_ne (rest : Multiset (C × M)) {c d : C} (m : M) (hne : d ≠ c) :
    mine ((c, m) ::ₘ rest) d = mine rest d :=
  Multiset.filter_cons_of_neg _ hne.symm

/-- **Lockstep.** Without copies a client never has more than its last call under way. -/
theorem Lockstep.step {exchange next : Exchange C M} {event : Event C}
    (h : exchange.Lockstep) (hstep : Step False exchange event next) : next.Lockstep := by
  intro d
  have hd := h d
  cases hstep with
  | @call calls returns flight c m hready =>
      by_cases hdc : d = c
      · subst hdc
        obtain ⟨hcalls, hflight⟩ := hd.of_le hready
        dsimp only at hcalls hflight ⊢
        rw [mine_cons_self, Function.update_self, hcalls, hflight]
        exact .waits _ m
      · dsimp only
        rw [mine_cons_of_ne _ _ hdc, Function.update_of_ne hdc]
        exact hd
  | @take calls returns rest c m hwaiting =>
      dsimp only at hd ⊢
      by_cases hdc : d = c
      · subst hdc
        rw [mine_cons_self] at hd
        obtain ⟨hcalls, hrest⟩ := hd.of_cons
        rw [Function.update_self, hcalls, hrest]
        exact .idle _
      · rw [mine_cons_of_ne _ _ hdc] at hd
        rwa [Function.update_of_ne hdc]
  | @lose calls returns rest c m =>
      dsimp only at hd ⊢
      by_cases hdc : d = c
      · subst hdc
        rw [mine_cons_self] at hd
        obtain ⟨hcalls, hrest⟩ := hd.of_cons
        rw [hcalls, hrest]
        exact .stuck _ _
      · rwa [mine_cons_of_ne _ _ hdc] at hd
  | copy c m hcopies => exact hcopies.elim

theorem stuck_iff {exchange : Exchange C M} {c : C} :
    exchange.Stuck c ↔ exchange.Waiting c ∧ mine exchange.flight c = 0 := by
  rw [mine, Multiset.filter_eq_nil, Stuck]

/-- **Losses.** Without copies a client is stuck from the loss of its own message on. -/
theorem Lockstep.stuck_step {exchange next : Exchange C M} {event : Event C}
    (h : exchange.Lockstep) (hstep : Step False exchange event next) (d : C) :
    next.Stuck d ↔ exchange.Stuck d ∨ event = .lose d := by
  have hd := h d
  simp only [stuck_iff, Waiting]
  cases hstep with
  | @call calls returns flight c m hready =>
      by_cases hdc : d = c
      · subst hdc
        simp [Nat.not_lt.mpr hready]
      · simp [mine_cons_of_ne _ _ hdc, Function.update_of_ne hdc]
  | @take calls returns rest c m hwaiting =>
      by_cases hdc : d = c
      · subst hdc
        dsimp only at hd
        rw [mine_cons_self] at hd
        simp [hd.of_cons.1]
      · simp [mine_cons_of_ne _ _ hdc, Function.update_of_ne hdc]
  | @lose calls returns rest c m =>
      by_cases hdc : d = c
      · subst hdc
        dsimp only at hd
        rw [mine_cons_self] at hd
        simp [hd.of_cons.1, hd.of_cons.2]
      · simp [mine_cons_of_ne _ _ hdc, Ne.symm hdc]
  | copy c m hcopies => exact hcopies.elim

/-- Without copies the returns are the calls in order, up to the last. -/
theorem Lockstep.calls {exchange : Exchange C M} (h : exchange.Lockstep) (c : C) :
    exchange.calls c = exchange.returns c ∨ ∃ m, exchange.calls c = exchange.returns c ++ [m] := by
  generalize hflight : mine exchange.flight c = flight
  have hc := hflight ▸ h c
  generalize exchange.calls c = calls, exchange.returns c = returns at hc
  cases hc with
  | idle => exact Or.inl rfl
  | waits m => exact Or.inr ⟨_, rfl⟩
  | stuck m => exact Or.inr ⟨_, rfl⟩

end

end Exchange

end Embsys.Math
