/-
# A board of entries and its relays

One published history and any number of relays over it, each operation atomic. This
is what a group of processes that publish, take over and send on records should look
like from outside, whatever locks and fields the records go through inside.
-/

import Mathlib.Logic.Function.Basic
import Embsys.Math.Relay

namespace Embsys.Math

variable {E F : Type*}

/-- A history of entries and a relay over it for each of `F`. -/
structure Board (E F : Type*) where
  size : ℕ
  history : List E
  length_history : history.length = size
  relays : F → Relay size

/-- One operation of a board: a new entry, or a move of one stage of one relay. -/
inductive Operation (E F : Type*)
  | publish (entry : E)
  | move (f : F) (stage : Stage)

namespace Board

/-- The board with one entry, every relay at it. -/
@[simps]
def start (F : Type*) (entry : E) : Board E F where
  size := 1
  history := [entry]
  length_history := rfl
  relays := fun _ => Relay.start Nat.zero_lt_one

def publish (board : Board E F) (entry : E) : Board E F where
  size := board.size + 1
  history := board.history ++ [entry]
  length_history := by rw [List.length_append, board.length_history, List.length_singleton]
  relays := fun f => (board.relays f).publish

section

variable [DecidableEq F]

/-- The move of one stage of one relay, or of none. -/
def advance (board : Board E F) (f : F) (stage : Option Stage) : Board E F :=
  { board with relays := Function.update board.relays f ((board.relays f).advance stage) }

def perform (board : Board E F) : Operation E F → Board E F
  | .publish entry => board.publish entry
  | .move f stage => board.advance f (some stage)

theorem advance_none (board : Board E F) (f : F) : board.advance f none = board := by
  show { board with relays := Function.update board.relays f (board.relays f) } = board
  rw [Function.update_eq_self]

theorem advance_relays_self (board : Board E F) (f : F) (stage : Option Stage) :
    (board.advance f stage).relays f = (board.relays f).advance stage :=
  Function.update_self ..

theorem elim_map_move (board : Board E F) (f : F) (stage : Option Stage) :
    (stage.map (.move f)).elim board board.perform = board.advance f stage := by
  cases stage with
  | none => exact (board.advance_none f).symm
  | some stage => rfl

end

/-- The second board has every entry of the first, and each of its relays is at or ahead
of that of the first. -/
structure Before (first second : Board E F) : Prop where
  history : first.history <+: second.history
  relays : ∀ f, (first.relays f).Before (second.relays f)

theorem Before.size_le {first second : Board E F} (h : Before first second) :
    first.size ≤ second.size := by
  rw [← first.length_history, ← second.length_history]
  exact h.history.length_le

theorem Before.refl (board : Board E F) : Before board board :=
  ⟨List.prefix_rfl, fun f => Relay.Before.refl (board.relays f)⟩

variable [DecidableEq F]

/-- No operation takes back an entry or a position. -/
theorem before_perform (board : Board E F) (operation : Operation E F) :
    Before board (board.perform operation) := by
  cases operation with
  | publish entry => exact ⟨List.prefix_append _ _, fun f => (board.relays f).before_publish⟩
  | move g stage =>
      refine ⟨List.prefix_rfl, fun f => ?_⟩
      show (board.relays f).Before
        (Function.update board.relays g ((board.relays g).advance (some stage)) f)
      by_cases hf : f = g
      · subst hf
        rw [Function.update_self]
        exact (board.relays f).before_advance (some stage)
      · rw [Function.update_of_ne hf]
        exact Relay.Before.refl _

end Board

end Embsys.Math
