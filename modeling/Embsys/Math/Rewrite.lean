/-
# Replacing every occurrence of a pattern

A text is rewritten from the left: where the pattern stands its replacement is put and
the pattern skipped, anything else is kept. Patterns are given with their first letter,
their mark. A mark that appears nowhere else in the patterns involved keeps occurrences
from overlapping, and rewriting then obeys laws: it can be undone, it leaves no
occurrence behind, two rewritings commute, and a rewriting that puts something in front
of its pattern puts it there again each time.
-/

import Mathlib.Data.List.Infix
import Mathlib.Logic.Function.Iterate

namespace Embsys.Math

variable {α : Type*} [DecidableEq α]

def rewrite (old new : List α) : List α → List α
  | [] => []
  | c :: text =>
      if old <+: c :: text then new ++ rewrite old new (text.drop (old.length - 1))
      else c :: rewrite old new text
termination_by text => text.length
decreasing_by
  · exact Nat.lt_succ_of_le (List.drop_sublist _ _).length_le
  · exact Nat.lt_succ_self _

variable {old new : List α} {mark : α} {body : List α}

@[simp]
theorem rewrite_nil (old new : List α) : rewrite old new [] = [] := by
  rw [rewrite]

theorem rewrite_hit (mark : α) (body new rest : List α) :
    rewrite (mark :: body) new (mark :: body ++ rest) =
      new ++ rewrite (mark :: body) new rest := by
  have hfound : mark :: body <+: mark :: (body ++ rest) := List.prefix_append (mark :: body) rest
  rw [List.cons_append, rewrite, if_pos hfound]
  simp

theorem rewrite_miss {c : α} {text : List α} (hmiss : ¬ old <+: c :: text) :
    rewrite old new (c :: text) = c :: rewrite old new text := by
  rw [rewrite, if_neg hmiss]

/-- **Reading a text for two patterns.** What holds of the empty text, of either pattern in
front of a text and of a letter in front of a text where neither stands holds of every text. -/
theorem rewrite_induct₂ {P : List α → Prop} (first second : α) (firstBody secondBody : List α)
    (nil : P []) (hit : ∀ rest, P rest → P (first :: firstBody ++ rest))
    (hit₂ : ∀ rest, P rest → P (second :: secondBody ++ rest))
    (miss : ∀ c text, ¬ first :: firstBody <+: c :: text → ¬ second :: secondBody <+: c :: text →
      P text → P (c :: text)) (text : List α) : P text := by
  induction hlength : text.length using Nat.strong_induction_on generalizing text with
  | _ n ih =>
      have hshorter : ∀ (mark : α) body rest, mark :: body ++ rest = text → P rest := by
        intro mark body rest hrest
        apply ih rest.length _ rest rfl
        rw [← hlength, ← hrest, List.length_append]
        exact Nat.lt_add_of_pos_left (Nat.succ_pos _)
      cases text with
      | nil => exact nil
      | cons c text =>
          by_cases hfirst : first :: firstBody <+: c :: text
          · obtain ⟨rest, hrest⟩ := hfirst
            exact hrest ▸ hit rest (hshorter _ _ _ hrest)
          by_cases hsecond : second :: secondBody <+: c :: text
          · obtain ⟨rest, hrest⟩ := hsecond
            exact hrest ▸ hit₂ rest (hshorter _ _ _ hrest)
          · apply miss c text hfirst hsecond
            exact hshorter c [] text rfl

/-- **Reading a text.** What holds of the empty text, of the pattern in front of a text and
of a letter in front of a text where the pattern does not stand holds of every text. -/
theorem rewrite_induct {P : List α → Prop} (mark : α) (body : List α) (nil : P [])
    (hit : ∀ rest, P rest → P (mark :: body ++ rest))
    (miss : ∀ c text, ¬ mark :: body <+: c :: text → P text → P (c :: text)) (text : List α) :
    P text :=
  rewrite_induct₂ mark mark body body nil hit hit (fun c text hmiss _ => miss c text hmiss) text

/-- Without the mark of the pattern a front is kept as it is. -/
theorem rewrite_append {front : List α} (hmark : mark ∉ front) (rest : List α) :
    rewrite (mark :: body) new (front ++ rest) = front ++ rewrite (mark :: body) new rest := by
  induction front with
  | nil => rfl
  | cons c front ih =>
      obtain ⟨hc, hfront⟩ := not_or.mp (List.mem_cons.not.mp hmark)
      have hmiss : ¬ mark :: body <+: c :: (front ++ rest) := by
        intro hfound
        exact hc (List.cons_prefix_cons.mp hfound).1
      rw [List.cons_append, rewrite_miss hmiss, ih hfront, List.cons_append]

/-- What a rewritten text begins with, up to the first letter of a replacement, the text
begins with. -/
theorem prefix_of_prefix_rewrite {oldMark : α} {oldBody front text : List α}
    (hmark : mark ∉ front)
    (hfront : front <+: rewrite (oldMark :: oldBody) (mark :: body) text) : front <+: text := by
  induction text using rewrite_induct oldMark oldBody generalizing front with
  | nil => simpa using hfront
  | hit rest ih =>
      rw [rewrite_hit] at hfront
      cases front with
      | nil => exact List.nil_prefix
      | cons c front =>
          have hc := (List.cons_prefix_cons.mp hfront).1
          exact absurd (hc ▸ List.mem_cons_self) hmark
  | miss c text hmiss ih =>
      rw [rewrite_miss hmiss] at hfront
      cases front with
      | nil => exact List.nil_prefix
      | cons d front =>
          obtain ⟨rfl, htail⟩ := List.cons_prefix_cons.mp hfront
          apply List.cons_prefix_cons.mpr
          exact ⟨rfl, ih (fun hmem => hmark (List.mem_cons_of_mem _ hmem)) htail⟩

/-! ## Laws -/

/-- **Undoing.** A replacement that begins with a mark of its own is found again, so the
text comes back unless the replacement stood in it from the start. -/
theorem rewrite_rewrite {oldMark : α} {oldBody : List α} (hmark : mark ∉ body)
    {text : List α} (hnone : ¬ mark :: body <:+: text) :
    rewrite (mark :: body) (oldMark :: oldBody)
      (rewrite (oldMark :: oldBody) (mark :: body) text) = text := by
  induction text using rewrite_induct oldMark oldBody with
  | nil => simp
  | hit rest ih =>
      rw [rewrite_hit, rewrite_hit, ih fun hrest => hnone (List.infix_append_of_infix_right hrest)]
  | miss c text hmiss ih =>
      rw [rewrite_miss hmiss, rewrite_miss, ih]
      · exact fun htext => hnone (List.infix_cons htext)
      · intro hfound
        obtain ⟨rfl, htail⟩ := List.cons_prefix_cons.mp hfound
        apply hnone
        apply List.IsPrefix.isInfix
        exact List.cons_prefix_cons.mpr ⟨rfl, prefix_of_prefix_rewrite hmark htail⟩

omit [DecidableEq α] in
/-- An occurrence that begins in neither letter of a front lies behind it. -/
theorem infix_of_infix_append {front rest : List α} (hmark : mark ∉ front)
    (hfound : mark :: body <:+: front ++ rest) : mark :: body <:+: rest := by
  induction front with
  | nil => exact hfound
  | cons c front ih =>
      obtain ⟨hc, hfront⟩ := not_or.mp (List.mem_cons.not.mp hmark)
      rcases List.infix_cons_iff.mp hfound with hhere | hlater
      · exact absurd (List.cons_prefix_cons.mp hhere).1 hc
      · exact ih hfront hlater

/-- **Nothing left.** No occurrence of the pattern is left, or made, by a replacement that
cannot begin one. -/
theorem not_infix_rewrite {newMark : α} {newBody : List α} (hnew : mark ∉ newBody)
    (hbody : newMark ∉ body)
    (hdiffer : ∀ rest, ¬ mark :: body <+: newMark :: newBody ++ rest) (text : List α) :
    ¬ mark :: body <:+: rewrite (mark :: body) (newMark :: newBody) text := by
  induction text using rewrite_induct mark body with
  | nil => simp
  | hit rest ih =>
      rw [rewrite_hit]
      intro hfound
      rcases List.infix_cons_iff.mp hfound with hhere | hlater
      · exact hdiffer _ hhere
      · exact ih (infix_of_infix_append hnew hlater)
  | miss c text hmiss ih =>
      rw [rewrite_miss hmiss]
      intro hfound
      rcases List.infix_cons_iff.mp hfound with hhere | hlater
      · obtain ⟨rfl, htail⟩ := List.cons_prefix_cons.mp hhere
        apply hmiss
        exact List.cons_prefix_cons.mpr ⟨rfl, prefix_of_prefix_rewrite hbody htail⟩
      · exact ih hlater

/-- **In either order.** Rewritings whose patterns and replacements do not meet commute. -/
theorem rewrite_comm {first second firstNew secondNew : α}
    {firstBody secondBody firstRest secondRest : List α}
    (hfirst : first ∉ second :: secondBody ++ secondNew :: secondRest)
    (hsecond : second ∉ first :: firstBody ++ firstNew :: firstRest)
    (hfirstNew : firstNew ∉ secondBody) (hsecondNew : secondNew ∉ firstBody) (text : List α) :
    rewrite (first :: firstBody) (firstNew :: firstRest)
        (rewrite (second :: secondBody) (secondNew :: secondRest) text) =
      rewrite (second :: secondBody) (secondNew :: secondRest)
        (rewrite (first :: firstBody) (firstNew :: firstRest) text) := by
  obtain ⟨hfirstOld, hfirstRest⟩ := not_or.mp (List.mem_append.not.mp hfirst)
  obtain ⟨hsecondOld, hsecondRest⟩ := not_or.mp (List.mem_append.not.mp hsecond)
  induction text using rewrite_induct₂ first second firstBody secondBody with
  | nil => simp
  | hit rest ih =>
      rw [rewrite_hit, rewrite_append hsecondRest, rewrite_append hsecondOld, rewrite_hit, ih]
  | hit₂ rest ih =>
      rw [rewrite_hit, rewrite_append hfirstRest, rewrite_append hfirstOld, rewrite_hit, ih]
  | miss c text hmiss hmiss₂ ih =>
      rw [rewrite_miss hmiss, rewrite_miss hmiss₂, rewrite_miss, rewrite_miss, ih]
      · intro hfound
        obtain ⟨rfl, htail⟩ := List.cons_prefix_cons.mp hfound
        exact hmiss₂ (List.cons_prefix_cons.mpr ⟨rfl, prefix_of_prefix_rewrite hfirstNew htail⟩)
      · intro hfound
        obtain ⟨rfl, htail⟩ := List.cons_prefix_cons.mp hfound
        exact hmiss (List.cons_prefix_cons.mpr ⟨rfl, prefix_of_prefix_rewrite hsecondNew htail⟩)

/-- **Twice.** What is put in front of a pattern by two rewritings is put there by one. -/
theorem rewrite_insert {lead : α} {rest inner : List α} (hmark : mark ∉ lead :: rest)
    (hlead : lead ∉ body) (text : List α) :
    rewrite (mark :: body) (inner ++ mark :: body)
        (rewrite (mark :: body) (lead :: rest ++ mark :: body) text) =
      rewrite (mark :: body) (lead :: rest ++ inner ++ mark :: body) text := by
  induction text using rewrite_induct mark body with
  | nil => simp
  | hit tail ih =>
      rw [rewrite_hit, rewrite_hit, List.append_assoc, rewrite_append hmark, rewrite_hit, ih]
      simp
  | miss c text hmiss ih =>
      rw [rewrite_miss hmiss, rewrite_miss hmiss, rewrite_miss, ih]
      intro hfound
      obtain ⟨rfl, htail⟩ := List.cons_prefix_cons.mp hfound
      exact hmiss (List.cons_prefix_cons.mpr ⟨rfl, prefix_of_prefix_rewrite hlead htail⟩)

/-- **Again and again.** Every rewriting puts its text in front of the pattern once more. -/
theorem iterate_rewrite_insert {lead : α} {rest : List α} (hmark : mark ∉ lead :: rest)
    (hlead : lead ∉ body) (k : ℕ) (text : List α) :
    (rewrite (mark :: body) (lead :: rest ++ mark :: body))^[k + 1] text =
      rewrite (mark :: body) ((List.replicate (k + 1) (lead :: rest)).flatten ++ mark :: body)
        text := by
  induction k generalizing text with
  | zero => simp
  | succ k ih =>
      rw [Function.iterate_succ_apply, ih, rewrite_insert hmark hlead, ← List.flatten_cons,
        ← List.replicate_succ]

end Embsys.Math
