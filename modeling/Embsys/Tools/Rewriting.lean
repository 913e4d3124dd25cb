/-
# What the tools put into a text

with_notes and handout replace every occurrence of one string. The backslash of the notes
option and the bracket of the class stand at the front of their strings and nowhere else
in them, so the replacements obey the laws of marked patterns: the notes can be hidden
again, the two tools can run in either order, and handout adds its option every time it
runs on what it has written.
-/

import Embsys.Math.Rewrite
import Embsys.Tools.Outputs

namespace Embsys.Tools

open Embsys.Math

/-- `replace` of Python is rewriting. -/
theorem replace_eq_rewrite (old new text : List Char) :
    replace old new text = rewrite old new text := by
  induction hlength : text.length using Nat.strong_induction_on generalizing text with
  | _ n ih =>
      cases text with
      | nil => rw [replace, rewrite]
      | cons c text =>
          have hdrop : (text.drop (old.length - 1)).length < n := by
            rw [← hlength]
            exact Nat.lt_succ_of_le (List.drop_sublist _ _).length_le
          rw [replace, rewrite, ih _ hdrop _ rfl, ih text.length (by simp [← hlength]) _ rfl]

/-! ## Notes -/

namespace WithNotes

theorem not_prefix_append {old new : List Char} (hlength : old.length = new.length)
    (hne : old ≠ new) (rest : List Char) : ¬ old <+: new ++ rest := by
  intro hfound
  have hfront := List.prefix_of_prefix_length_le hfound (List.prefix_append new rest) hlength.le
  exact hne (hfront.eq_of_length hlength)

theorem not_infix_replace_hide (text : List Char) :
    ¬ hideNotes <:+: replace hideNotes showNotes text := by
  rw [replace_eq_rewrite]
  exact @not_infix_rewrite _ _ '\\' hideNotes.tail '\\' showNotes.tail (by decide) (by decide)
    (not_prefix_append (by decide) (by decide)) text

theorem not_infix_replace_show (text : List Char) :
    ¬ showNotes <:+: replace showNotes hideNotes text := by
  rw [replace_eq_rewrite]
  exact @not_infix_rewrite _ _ '\\' showNotes.tail '\\' hideNotes.tail (by decide) (by decide)
    (not_prefix_append (by decide) (by decide)) text

/-- **Hiding the notes again.** After with_notes no option hides the notes, and replacing
back gives the document exactly when it had no option that shows them. -/
theorem replace_notes (text : List Char) :
    ¬ hideNotes <:+: replace hideNotes showNotes text ∧
      (replace showNotes hideNotes (replace hideNotes showNotes text) = text ↔
        ¬ showNotes <:+: text) := by
  refine ⟨not_infix_replace_hide text, ?_, ?_⟩
  · intro hback
    rw [← hback]
    exact not_infix_replace_show _
  · intro hnone
    rw [replace_eq_rewrite, replace_eq_rewrite]
    exact @rewrite_rewrite _ _ '\\' showNotes.tail '\\' hideNotes.tail (by decide) text hnone

end WithNotes

/-! ## Both tools -/

/-- Replacing the class and replacing the option do not meet. -/
theorem replace_comm (text : List Char) :
    replace Handout.toReplace Handout.replacement
        (replace WithNotes.hideNotes WithNotes.showNotes text) =
      replace WithNotes.hideNotes WithNotes.showNotes
        (replace Handout.toReplace Handout.replacement text) := by
  simp only [replace_eq_rewrite]
  exact @rewrite_comm _ _ ']' '\\' ',' '\\' Handout.toReplace.tail WithNotes.hideNotes.tail
    Handout.replacement.tail WithNotes.showNotes.tail (by decide) (by decide) (by decide)
    (by decide) text

section

variable {File : Type} [DecidableEq File] (resolve : List Char → File) {files : Files File}
  {texfile text : List Char}

theorem main_handout (htext : files (resolve texfile) = some text) :
    Handout.main resolve [texfile] files (resolve (Handout.texfileHandout texfile)) =
      some (replace Handout.toReplace Handout.replacement text) := by
  simp [Handout.main, Handout.copyTexWithHandoutMode, htext]

theorem main_withNotes (htext : files (resolve texfile) = some text) :
    WithNotes.main resolve [texfile] files (resolve (WithNotes.texfileWithData texfile)) =
      some (replace WithNotes.hideNotes WithNotes.showNotes text) := by
  simp [WithNotes.main, htext]

/-- **In either order.** handout on the notes of a document and with_notes on its handout
write the same text. -/
theorem handout_withNotes (htext : files (resolve texfile) = some text) :
    ∃ result,
      Handout.main resolve [WithNotes.texfileWithData texfile]
          (WithNotes.main resolve [texfile] files)
          (resolve (Handout.texfileHandout (WithNotes.texfileWithData texfile))) = some result ∧
        WithNotes.main resolve [Handout.texfileHandout texfile]
          (Handout.main resolve [texfile] files)
          (resolve (WithNotes.texfileWithData (Handout.texfileHandout texfile))) = some result := by
  refine ⟨_, main_handout resolve (main_withNotes resolve htext), ?_⟩
  rw [replace_comm]
  exact main_withNotes resolve (main_handout resolve htext)

/-- handout, run `k` times, each time on the file written last. -/
def handouts (texfile : List Char) (files : Files File) : ℕ → Files File
  | 0 => files
  | k + 1 => Handout.main resolve [Handout.texfileHandout^[k] texfile] (handouts texfile files k)

/-- `, handout`. -/
def handoutOption : List Char := [',', ' ', 'h', 'a', 'n', 'd', 'o', 'u', 't']

/-- **One option more each time.** What handout has written after `k` runs is the document
with `k` options in front of the end of every class. -/
theorem handouts_eq (htext : files (resolve texfile) = some text) (k : ℕ) :
    handouts resolve texfile files (k + 1)
        (resolve (Handout.texfileHandout^[k + 1] texfile)) =
      some (replace Handout.toReplace
        ((List.replicate (k + 1) handoutOption).flatten ++ Handout.toReplace) text) := by
  have hruns : ∀ k,
      handouts resolve texfile files k (resolve (Handout.texfileHandout^[k] texfile)) =
        some ((replace Handout.toReplace Handout.replacement)^[k] text) := by
    intro k
    induction k with
    | zero => exact htext
    | succ k ih =>
        rw [Function.iterate_succ_apply', Function.iterate_succ_apply']
        exact main_handout resolve ih
  have hreplace : replace Handout.toReplace Handout.replacement =
      rewrite Handout.toReplace Handout.replacement := funext (replace_eq_rewrite _ _)
  rw [hruns, hreplace, replace_eq_rewrite]
  exact congrArg some (@iterate_rewrite_insert _ _ ']' Handout.toReplace.tail ','
    handoutOption.tail (by decide) (by decide) k text)

end

/-- `uv.tex`. -/
def uvTex : List Char := ['u', 'v', '.', 't', 'e', 'x']

/-- A lecture with its class and the option that hides its notes. -/
def uv : Files (List Char) :=
  fun file => if file = uvTex then some (Handout.toReplace ++ WithNotes.hideNotes) else none

theorem handout_withNotes_uv :
    ∃ result,
      Handout.main id [WithNotes.texfileWithData uvTex] (WithNotes.main id [uvTex] uv)
          (Handout.texfileHandout (WithNotes.texfileWithData uvTex)) = some result ∧
        WithNotes.main id [Handout.texfileHandout uvTex] (Handout.main id [uvTex] uv)
          (WithNotes.texfileWithData (Handout.texfileHandout uvTex)) = some result :=
  @handout_withNotes _ _ id uv uvTex (Handout.toReplace ++ WithNotes.hideNotes) (by decide)

theorem handouts_eq_uv :
    handouts id uvTex uv 2 (Handout.texfileHandout^[2] uvTex) =
      some (replace Handout.toReplace
        ((List.replicate 2 handoutOption).flatten ++ Handout.toReplace)
        (Handout.toReplace ++ WithNotes.hideNotes)) :=
  handouts_eq id (by decide) 1

end Embsys.Tools
