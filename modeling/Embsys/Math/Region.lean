/-
# Marked regions

A scan with one flag copies what it finds while the flag is set. An opening element sets
the flag and is copied itself, a closing element clears it. Apart from the opening
elements the copy is made of the regions: what lies between an opening element and the
next closing one, or the end where there is none.
-/

import Mathlib.Tactic.TypeStar
import Mathlib.Data.Nat.Notation

namespace Embsys.Math

variable {α : Type*} (opens closes : α → Bool)

/-- The flag after an element. -/
def flag (inside : Bool) (x : α) : Bool :=
  if opens x then true else if closes x then false else inside

/-- What a scan copies that starts with this flag. -/
def copied : Bool → List α → List α
  | _, [] => []
  | inside, x :: xs =>
      if flag opens closes inside x then x :: copied (flag opens closes inside x) xs
      else copied (flag opens closes inside x) xs

/-- The regions of a list, in order. -/
def regions : List α → List (List α)
  | [] => []
  | x :: xs =>
      if opens x then
        xs.takeWhile (fun y => !closes y) :: regions (xs.dropWhile fun y => !closes y)
      else regions xs
termination_by l => l.length
decreasing_by
  · exact Nat.lt_succ_of_le (List.dropWhile_sublist _).length_le
  · exact Nat.lt_succ_self _

variable {opens closes} {l : List α}

/-- **A scan copies the regions**, and in front of them what it is inside of. -/
theorem filter_copied (hdisjoint : ∀ x ∈ l, opens x → closes x = false) :
    (copied opens closes false l).filter (fun x => !opens x) =
        (regions opens closes l).flatten.filter (fun x => !opens x) ∧
      (copied opens closes true l).filter (fun x => !opens x) =
        (l.takeWhile (fun x => !closes x) ++
          (regions opens closes (l.dropWhile fun x => !closes x)).flatten).filter
            (fun x => !opens x) := by
  induction l with
  | nil => simp [copied, regions]
  | cons x xs ih =>
      obtain ⟨houtside, hinside⟩ := ih fun y hy => hdisjoint y (List.mem_cons_of_mem _ hy)
      have hx := hdisjoint x List.mem_cons_self
      cases hopens : opens x with
      | true =>
          -- The opening element goes from both sides.
          have hcloses := hx hopens
          simp [copied, flag, regions, hopens, hcloses, hinside]
      | false =>
          cases hcloses : closes x with
          | true => simp [copied, flag, regions, hopens, hcloses, houtside]
          | false => simp [copied, flag, regions, hopens, hcloses, houtside, hinside]

/-- A copy begins with an opening element. -/
theorem opens_of_head_copied : ∀ x ∈ (copied opens closes false l).head?, opens x := by
  induction l with
  | nil => simp [copied]
  | cons x xs ih =>
      cases hopens : opens x with
      | true => simp [copied, flag, hopens]
      | false => simpa [copied, flag, hopens] using ih

/-- When the opening elements are kept, the first element that is kept is one. -/
theorem filter_drop_one {keep : α → Bool} (hhead : ∀ x ∈ l.head?, opens x)
    (hkeep : ∀ x ∈ l, opens x → keep x) :
    ((l.filter keep).drop 1).filter (fun x => !opens x) =
      (l.filter keep).filter fun x => !opens x := by
  cases l with
  | nil => rfl
  | cons x xs =>
      have hopens : opens x := hhead x rfl
      simp [hkeep x List.mem_cons_self hopens, hopens]

theorem copied_sublist (inside : Bool) : (copied opens closes inside l).Sublist l := by
  induction l generalizing inside with
  | nil => exact List.Sublist.slnil
  | cons x xs ih =>
      rw [copied]
      split
      · exact (ih _).cons_cons x
      · exact (ih _).cons x

/-- **What is left of the copy** without its first element, the opening elements and what
is not kept: the regions without what is not kept. -/
theorem filter_drop_copied {keep : α → Bool} (hdisjoint : ∀ x ∈ l, opens x → closes x = false)
    (hkeep : ∀ x ∈ l, opens x → keep x) :
    (((copied opens closes false l).filter keep).drop 1).filter (fun x => !opens x) =
      ((regions opens closes l).flatten.filter keep).filter fun x => !opens x := by
  have hcopied : ∀ x ∈ copied opens closes false l, opens x → keep x :=
    fun x hx => hkeep x ((copied_sublist false).mem hx)
  have hswap (xs : List α) : (xs.filter keep).filter (fun x => !opens x) =
      (xs.filter fun x => !opens x).filter keep := by
    simp only [List.filter_filter, Bool.and_comm]
  rw [filter_drop_one opens_of_head_copied hcopied, hswap, (filter_copied hdisjoint).1, hswap]

end Embsys.Math
