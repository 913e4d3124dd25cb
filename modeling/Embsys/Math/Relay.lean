/-
# A relay of snapshots

What a relay is for, apart from how it is locked: a source publishes a growing
history, a fetcher takes the latest entry, commits what it fetched, and a sender
takes what is committed and sends it. Each stage only ever moves to the entry the
stage before it holds, so the positions are ordered and the sent entries never go
back. The order is part of the type; the operations re-establish it, and each of them
leaves every position where it was or moves it on.
-/

import Mathlib.Data.List.Basic
import Mathlib.Data.Nat.Basic
import Mathlib.Order.Basic
import Mathlib.Tactic.Simps.Basic

namespace Embsys.Math

/-- The positions of the stages in a history of `n` entries, and of the entries
sent so far. -/
structure Relay (n : ℕ) where
  fetched : ℕ
  committed : ℕ
  taken : ℕ
  sent : List ℕ
  fetched_lt : fetched < n
  committed_le : committed ≤ fetched
  taken_le : taken ≤ committed
  sent_le : ∀ i ∈ sent, i ≤ taken
  sorted : sent.Pairwise (· ≤ ·)

/-- The stages of a relay. -/
inductive Stage
  | fetch
  | commit
  | take
  | send
  deriving DecidableEq

namespace Relay

variable {n m l : ℕ}

/-- All stages at the first entry. -/
@[simps]
def start (hn : 0 < n) : Relay n :=
  ⟨0, 0, 0, [], hn, le_rfl, le_rfl, by simp, List.Pairwise.nil⟩

/-- The history grows by one entry. -/
@[simps]
def publish (relay : Relay n) : Relay (n + 1) :=
  { relay with fetched_lt := Nat.lt_succ_of_lt relay.fetched_lt }

@[simps]
def fetch (relay : Relay n) : Relay n :=
  { relay with
    fetched := n - 1
    fetched_lt := Nat.sub_one_lt_of_lt relay.fetched_lt
    committed_le := relay.committed_le.trans (Nat.le_sub_one_of_lt relay.fetched_lt) }

@[simps]
def commit (relay : Relay n) : Relay n :=
  { relay with
    committed := relay.fetched
    committed_le := le_rfl
    taken_le := relay.taken_le.trans relay.committed_le }

@[simps]
def take (relay : Relay n) : Relay n :=
  { relay with
    taken := relay.committed
    taken_le := le_rfl
    sent_le := fun i hi => (relay.sent_le i hi).trans relay.taken_le }

@[simps]
def send (relay : Relay n) : Relay n :=
  { relay with
    sent := relay.sent ++ [relay.taken]
    sent_le := by
      intro i hi
      rcases List.mem_append.mp hi with hold | hnew
      · exact relay.sent_le i hold
      · exact (List.mem_singleton.mp hnew).le
    sorted := by
      refine List.pairwise_append.mpr ⟨relay.sorted, List.pairwise_singleton _ _, ?_⟩
      intro i hi j hj
      rw [List.mem_singleton.mp hj]
      exact relay.sent_le i hi }

/-- One operation of a relay on a history that does not grow, or none. -/
inductive Step : Relay n → Relay n → Prop
  | stay (relay : Relay n) : Step relay relay
  | fetch (relay : Relay n) : Step relay relay.fetch
  | commit (relay : Relay n) : Step relay relay.commit
  | take (relay : Relay n) : Step relay relay.take
  | send (relay : Relay n) : Step relay relay.send

/-- The move of one stage, or of none. -/
def advance (relay : Relay n) : Option Stage → Relay n
  | none => relay
  | some .fetch => relay.fetch
  | some .commit => relay.commit
  | some .take => relay.take
  | some .send => relay.send

theorem step_advance (relay : Relay n) (stage : Option Stage) :
    Step relay (relay.advance stage) := by
  cases stage with
  | none => exact .stay relay
  | some stage =>
      cases stage with
      | fetch => exact .fetch relay
      | commit => exact .commit relay
      | take => exact .take relay
      | send => exact .send relay

/-- Every position of the second is that of the first or a later one, and the second
has sent what the first has. -/
structure Before (first : Relay n) (second : Relay m) : Prop where
  fetched : first.fetched ≤ second.fetched
  committed : first.committed ≤ second.committed
  taken : first.taken ≤ second.taken
  sent : first.sent <+: second.sent

theorem Before.refl (relay : Relay n) : Before relay relay :=
  ⟨le_rfl, le_rfl, le_rfl, List.prefix_rfl⟩

theorem before_publish (relay : Relay n) : Before relay relay.publish :=
  ⟨le_rfl, le_rfl, le_rfl, List.prefix_rfl⟩

theorem before_advance (relay : Relay n) (stage : Option Stage) :
    Before relay (relay.advance stage) := by
  cases stage with
  | none => exact Before.refl relay
  | some stage =>
      cases stage with
      | fetch =>
          exact ⟨Nat.le_sub_one_of_lt relay.fetched_lt, le_rfl, le_rfl, List.prefix_rfl⟩
      | commit => exact ⟨le_rfl, relay.committed_le, le_rfl, List.prefix_rfl⟩
      | take => exact ⟨le_rfl, le_rfl, relay.taken_le, List.prefix_rfl⟩
      | send => exact ⟨le_rfl, le_rfl, le_rfl, List.prefix_append _ _⟩

/-- How many entries are not newer than the last one sent. -/
def reached (relay : Relay n) : ℕ :=
  relay.sent.getLast?.elim 0 (· + 1)

theorem Before.reached {first : Relay n} {second : Relay m} (h : Before first second) :
    first.reached ≤ second.reached := by
  obtain ⟨rest, hsent⟩ := h.sent
  unfold Relay.reached
  cases hlast : rest.getLast? with
  | none =>
      obtain rfl := List.getLast?_eq_none_iff.mp hlast
      rw [← hsent, List.append_nil]
  | some j =>
      cases hfirst : first.sent.getLast? with
      | none => exact Nat.zero_le _
      | some i =>
          have hsorted := second.sorted
          rw [← hsent, List.pairwise_append] at hsorted
          have hle : i ≤ j := hsorted.2.2 i (List.mem_of_getLast? hfirst) j
            (List.mem_of_getLast? hlast)
          rw [← hsent, List.getLast?_append, hlast]
          exact Nat.succ_le_succ hle

theorem committed_lt (relay : Relay n) : relay.committed < n :=
  relay.committed_le.trans_lt relay.fetched_lt

theorem taken_lt (relay : Relay n) : relay.taken < n :=
  relay.taken_le.trans_lt relay.committed_lt

theorem sent_lt (relay : Relay n) : ∀ i ∈ relay.sent, i < n :=
  fun i hi => (relay.sent_le i hi).trans_lt relay.taken_lt

end Relay

end Embsys.Math
