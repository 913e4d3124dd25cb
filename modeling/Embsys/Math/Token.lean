/-
# A binary semaphore and its holders

The value of a semaphore that starts at 1 and the set of threads between their
wait and their post make one token together. A step of a thread takes the token,
gives it back or leaves it, and each of these keeps the sum. With the sum at 1
there is at most one holder, and none exactly when the semaphore is free.
-/

import Mathlib.Data.Set.Card
import Mathlib.Tactic.Ring

namespace Embsys.Math

variable {τ : Type*}

/-- One token, in the semaphore or with one holder. -/
def OneToken (value : ℕ) (holders : Set τ) : Prop :=
  (value : ℕ∞) + holders.encard = 1

/-- What a step of one thread does to the semaphore and to whether the thread holds it. -/
inductive TokenStep : ℕ → ℕ → Prop → Prop → Prop
  | silent {value : ℕ} {holds holds' : Prop} (hsame : holds' ↔ holds) :
      TokenStep value value holds holds'
  | acquire {value : ℕ} {holds holds' : Prop} (hbefore : ¬ holds) (hafter : holds') :
      TokenStep (value + 1) value holds holds'
  | release {value : ℕ} {holds holds' : Prop} (hbefore : holds) (hafter : ¬ holds') :
      TokenStep value (value + 1) holds holds'

theorem oneToken_iff {value : ℕ} {holders : Set τ} :
    OneToken value holders ↔
      (value = 1 ∧ holders = ∅) ∨ (value = 0 ∧ ∃ thread, holders = {thread}) := by
  unfold OneToken
  constructor
  · intro hsum
    rcases Nat.eq_zero_or_pos value with rfl | hpos
    · rw [Nat.cast_zero, zero_add] at hsum
      exact Or.inr ⟨rfl, Set.encard_eq_one.mp hsum⟩
    · left
      have hle : (value : ℕ∞) ≤ 1 := hsum ▸ le_self_add
      have hvalue : value = 1 := le_antisymm (by exact_mod_cast hle) hpos
      subst hvalue
      refine ⟨rfl, Set.not_nonempty_iff_eq_empty.mp fun hholder => ?_⟩
      have htwo : (1 : ℕ∞) + 1 ≤ 1 := by
        calc (1 : ℕ∞) + 1 ≤ 1 + holders.encard :=
              add_le_add_right (Set.one_le_encard_iff_nonempty.mpr hholder) 1
          _ = 1 := by rwa [Nat.cast_one] at hsum
      exact absurd htwo (by decide)
  · rintro (⟨rfl, rfl⟩ | ⟨rfl, thread, rfl⟩)
    · simp
    · simp

/-- Two holders are the same thread. -/
theorem OneToken.eq_of_mem {value : ℕ} {holders : Set τ} (h : OneToken value holders)
    {first second : τ} (hfirst : first ∈ holders) (hsecond : second ∈ holders) :
    first = second := by
  rcases oneToken_iff.mp h with ⟨-, rfl⟩ | ⟨-, thread, rfl⟩
  · exact absurd hfirst (Set.notMem_empty _)
  · rw [Set.mem_singleton_iff.mp hfirst, Set.mem_singleton_iff.mp hsecond]

/-- **The token is kept.** A step of one thread that takes, gives back or leaves
the token, and no other thread's holding, keeps the sum at 1. -/
theorem OneToken.step {value value' : ℕ} {holders holders' : Set τ}
    (h : OneToken value holders) (thread : τ)
    (hstep : TokenStep value value' (thread ∈ holders) (thread ∈ holders'))
    (hframe : ∀ other, other ≠ thread → (other ∈ holders' ↔ other ∈ holders)) :
    OneToken value' holders' := by
  cases hstep with
  | silent hsame =>
      have hholders : holders' = holders := by
        ext other
        by_cases hother : other = thread
        · rw [hother, hsame]
        · exact hframe other hother
      rwa [hholders]
  | acquire hbefore hafter =>
      have hholders : holders' = insert thread holders := by
        ext other
        by_cases hother : other = thread
        · simp [hother, hafter]
        · simp [hother, hframe other hother]
      rw [OneToken, Nat.cast_add, Nat.cast_one] at h
      calc (value' : ℕ∞) + holders'.encard
          = value' + (holders.encard + 1) := by
            rw [hholders, Set.encard_insert_of_notMem hbefore]
        _ = value' + 1 + holders.encard := by ring
        _ = 1 := h
  | release hbefore hafter =>
      have hholders : holders = insert thread holders' := by
        ext other
        by_cases hother : other = thread
        · simp [hother, hbefore]
        · simp [hother, hframe other hother]
      rw [OneToken, hholders, Set.encard_insert_of_notMem hafter] at h
      calc ((value + 1 : ℕ) : ℕ∞) + holders'.encard
          = value + (holders'.encard + 1) := by
            push_cast
            ring
        _ = 1 := h

end Embsys.Math
