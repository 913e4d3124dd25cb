/-
# Texts and files of the lecture tools

The tools read a file as a text or as its lines, which keep their terminators, look for
one string in another, and derive the path of the file they write from the path of the
file they read. A file stands for its text after newline translation: `open` in text mode
turns every line end into a newline, and there are no others here. Paths are resolved to
files by the system, so two paths can be one file.
-/

import Mathlib.Data.List.Infix
import Mathlib.Data.List.TakeWhile

namespace Embsys.Tools

/-- The text each file holds, its line ends translated, none where there is no file. -/
abbrev Files (File : Type) : Type :=
  File → Option (List Char)

/-- `readlines()` on a text whose line ends are translated. -/
def readlines : List Char → List (List Char)
  | [] => []
  | c :: text =>
      if c = '\n' then [c] :: readlines text
      else
        match readlines text with
        | [] => [[c]]
        | line :: lines => (c :: line) :: lines

/-- `sub in text`. -/
def isIn (sub text : List Char) : Bool :=
  decide (sub <:+: text)

/-- `text.replace(c, "")`. -/
def remove (c : Char) (text : List Char) : List Char :=
  text.filter (· ≠ c)

/-- `text.replace(old, new)` for an `old` that is not empty. -/
def replace (old new : List Char) : List Char → List Char
  | [] => []
  | c :: text =>
      if old <+: c :: text then new ++ replace old new (text.drop (old.length - 1))
      else c :: replace old new text
termination_by text => text.length
decreasing_by
  · exact Nat.lt_succ_of_le (List.drop_sublist _ _).length_le
  · exact Nat.lt_succ_self _

/-- `"%s<suffix>" % path.split(".")[0]`. -/
def derivedPath (suffix path : List Char) : List Char :=
  (path.splitOn '.').headD [] ++ suffix

/-- The lines of a text are the text. -/
theorem flatten_readlines (text : List Char) : (readlines text).flatten = text := by
  induction text with
  | nil => rfl
  | cons c text ih =>
      rw [readlines]
      split_ifs with hc
      · rw [List.flatten_cons, ih]
        rfl
      · cases hlines : readlines text with
        | nil =>
            rw [hlines] at ih
            rw [← ih]
            rfl
        | cons line lines =>
            rw [hlines] at ih
            rw [← ih]
            rfl

/-- A line has a newline at most at its end. -/
theorem newline_notMem_dropLast (text : List Char) :
    ∀ line ∈ readlines text, '\n' ∉ line.dropLast := by
  induction text with
  | nil => simp [readlines]
  | cons c text ih =>
      rw [readlines]
      split_ifs with hc
      · simpa using ih
      · cases hlines : readlines text with
        | nil => simp
        | cons line lines =>
            rw [hlines] at ih
            obtain ⟨hline, hrest⟩ := List.forall_mem_cons.mp ih
            refine List.forall_mem_cons.mpr ⟨?_, hrest⟩
            cases line with
            | nil => simp
            | cons d line =>
                rw [List.dropLast_cons_cons, List.mem_cons, not_or]
                exact ⟨Ne.symm hc, hline⟩

theorem remove_of_notMem {c : Char} {text : List Char} (hc : c ∉ text) : remove c text = text := by
  apply List.filter_eq_self.mpr
  intro d hd
  simpa using fun heq : d = c => hc (heq ▸ hd)

theorem remove_append (c : Char) (front back : List Char) :
    remove c (front ++ back) = remove c front ++ remove c back :=
  List.filter_append front back

/-- A text is all in front of a character when it does not have that character. -/
theorem takeWhile_ne_eq_self_iff {c : Char} {text : List Char} :
    text.takeWhile (· ≠ c) = text ↔ c ∉ text := by
  rw [List.takeWhile_eq_self_iff]
  constructor
  · intro hall hc
    exact absurd rfl (of_decide_eq_true (hall c hc))
  · intro hc d hd
    apply decide_eq_true
    rintro rfl
    exact hc hd

/-- The first piece of a path ends before its first dot. -/
theorem derivedPath_eq (suffix path : List Char) :
    derivedPath suffix path = path.takeWhile (· ≠ '.') ++ suffix := by
  rw [derivedPath]
  by_cases hdot : '.' ∈ path
  · obtain ⟨front, back, rfl, hfront⟩ := List.eq_append_cons_of_mem hdot
    rw [List.splitOn_append_cons_self_of_not_mem hfront, List.headD_cons, List.takeWhile_append,
      takeWhile_ne_eq_self_iff.mpr hfront, if_pos rfl]
    simp
  · rw [List.splitOn_eq_singleton hdot, List.headD_cons, takeWhile_ne_eq_self_iff.mpr hdot]

end Embsys.Tools
