/-
# Where the tools write

The three tools derive the file they write from the file they read by splitting its whole
path at the first dot. Where that dot is the one of the extension, the output stands
beside the input under the name of the tool. Any other dot cuts the path short, and
paths that are the same up to their first dot share an output.
-/

import Embsys.Tools.WithContent

namespace Embsys.Tools

/-! ## handout -/

namespace Handout

def suffix : List Char :=
  ['_', 'h', 'a', 'n', 'd', 'o', 'u', 't', '.', 't', 'e', 'x']

def toReplace : List Char :=
  [']', '{', 'b', 'e', 'a', 'm', 'e', 'r', '}']

def replacement : List Char :=
  [',', ' ', 'h', 'a', 'n', 'd', 'o', 'u', 't', ']', '{', 'b', 'e', 'a', 'm', 'e', 'r', '}']

/-- `texfile_handout`. -/
def texfileHandout (texfile : List Char) : List Char :=
  derivedPath suffix texfile

variable {File : Type} [DecidableEq File] (resolve : List Char → File)

/-- The path that is returned and the files that are left, none where the input cannot be
opened. -/
def copyTexWithHandoutMode (files : Files File) (texfile : List Char) :
    Option (List Char × Files File) :=
  (files (resolve texfile)).map fun texdata =>
    (texfileHandout texfile, Function.update files (resolve (texfileHandout texfile))
      (some (replace toReplace replacement texdata)))

/-- main, with the arguments after the name of the program, up to the command it runs on
the copy. -/
def main (argv : List (List Char)) (files : Files File) : Files File :=
  match argv with
  | [tex] =>
      match copyTexWithHandoutMode resolve files tex with
      | none => files
      | some (_, files) => files
  | _ => files

end Handout

/-! ## with_notes -/

namespace WithNotes

def suffix : List Char :=
  ['_', 'n', 'o', 't', 'e', 's', '.', 't', 'e', 'x']

/-- `\setbeameroption`, with an option. -/
def setbeameroption (option : List Char) : List Char :=
  ['\\', 's', 'e', 't', 'b', 'e', 'a', 'm', 'e', 'r', 'o', 'p', 't', 'i', 'o', 'n'] ++
    ('{' :: option ++ ['}'])

def hideNotes : List Char :=
  setbeameroption ['h', 'i', 'd', 'e', ' ', 'n', 'o', 't', 'e', 's']

def showNotes : List Char :=
  setbeameroption ['s', 'h', 'o', 'w', ' ', 'n', 'o', 't', 'e', 's']

/-- `texfile_with_data`. -/
def texfileWithData (texfile : List Char) : List Char :=
  derivedPath suffix texfile

variable {File : Type} [DecidableEq File] (resolve : List Char → File)

def main (argv : List (List Char)) (files : Files File) : Files File :=
  match argv with
  | [] => files
  | texfile :: _ =>
      match files (resolve texfile) with
      | none => files
      | some texdata =>
          Function.update files (resolve (texfileWithData texfile))
            (some (replace hideNotes showNotes texdata))

end WithNotes

/-! ## The paths -/

inductive Tool
  | withContent
  | handout
  | withNotes

namespace Tool

def suffix : Tool → List Char
  | withContent => WithContent.suffix
  | handout => Handout.suffix
  | withNotes => WithNotes.suffix

/-- The path of the file a tool writes. -/
def output : Tool → List Char → List Char
  | withContent => WithContent.texfileWithContent
  | handout => Handout.texfileHandout
  | withNotes => WithNotes.texfileWithData

/-- The files after a tool has run on an input. -/
def run {File : Type} [DecidableEq File] (resolve : List Char → File) (tool : Tool)
    (texfile : List Char) (files : Files File) : Files File :=
  match tool with
  | withContent => (WithContent.main resolve [texfile] files).files
  | handout => Handout.main resolve [texfile] files
  | withNotes => WithNotes.main resolve [texfile] files

/-- A tool changes no file but its output. -/
theorem run_of_ne {File : Type} [DecidableEq File] (resolve : List Char → File) (tool : Tool)
    (texfile : List Char) (files : Files File) {file : File}
    (hne : file ≠ resolve (tool.output texfile)) :
    tool.run resolve texfile files file = files file := by
  cases tool with
  | withContent =>
      show (WithContent.main resolve [texfile] files).files file = _
      rw [WithContent.main]
      cases files (resolve texfile) with
      | none => rfl
      | some text =>
          simp only
          split
          · exact Function.update_of_ne hne _ _
          · rw [WithContent.opened, Function.update_idem]
            exact Function.update_of_ne hne _ _
  | handout =>
      show Handout.main resolve [texfile] files file = _
      rw [Handout.main, Handout.copyTexWithHandoutMode]
      cases files (resolve texfile) with
      | none => rfl
      | some texdata => exact Function.update_of_ne hne _ _
  | withNotes =>
      show WithNotes.main resolve [texfile] files file = _
      rw [WithNotes.main]
      cases files (resolve texfile) with
      | none => rfl
      | some texdata => exact Function.update_of_ne hne _ _

/-- `.tex`. -/
def tex : List Char :=
  ['.', 't', 'e', 'x']

theorem output_eq_derivedPath (tool : Tool) (texfile : List Char) :
    tool.output texfile = derivedPath tool.suffix texfile := by
  cases tool <;> rfl

/-- What is left of a path is what stands before its first dot. -/
theorem output_eq (tool : Tool) (stem : List Char) :
    tool.output (stem ++ tex) = stem.takeWhile (· ≠ '.') ++ tool.suffix := by
  rw [output_eq_derivedPath, derivedPath_eq]
  congr 1
  induction stem with
  | nil => rfl
  | cons c stem ih =>
      rw [List.cons_append, List.takeWhile_cons, List.takeWhile_cons, ih]

/-- The output stands beside its input when the only dot is the one of the extension. -/
theorem output_beside_iff (tool : Tool) (stem : List Char) :
    tool.output (stem ++ tex) = stem ++ tool.suffix ↔ '.' ∉ stem := by
  rw [output_eq, List.append_cancel_right_eq, takeWhile_ne_eq_self_iff]

/-- Two inputs share an output when they are the same up to their first dots. -/
theorem output_eq_output_iff (tool : Tool) (first second : List Char) :
    tool.output (first ++ tex) = tool.output (second ++ tex) ↔
      first.takeWhile (· ≠ '.') = second.takeWhile (· ≠ '.') := by
  rw [output_eq, output_eq, List.append_cancel_right_eq]

/-- **The outputs of two inputs** stand beside them, and apart when the inputs do, exactly
when neither path has a dot besides that of its extension. -/
theorem outputs_iff (tool : Tool) (first second : List Char) :
    (tool.output (first ++ tex) = first ++ tool.suffix ∧
        tool.output (second ++ tex) = second ++ tool.suffix ∧
          (first ≠ second → tool.output (first ++ tex) ≠ tool.output (second ++ tex))) ↔
      '.' ∉ first ∧ '.' ∉ second := by
  rw [output_beside_iff, output_beside_iff]
  constructor
  · rintro ⟨hfirst, hsecond, -⟩
    exact ⟨hfirst, hsecond⟩
  · rintro ⟨hfirst, hsecond⟩
    refine ⟨hfirst, hsecond, fun hne heq => hne ?_⟩
    rw [(output_beside_iff tool first).mpr hfirst, (output_beside_iff tool second).mpr hsecond]
      at heq
    exact List.append_cancel_right heq

/-- Two lectures in the directory above share their output. -/
theorem not_forall_outputs :
    ¬ ∀ (tool : Tool) (first second : List Char), first ≠ second →
      tool.output (first ++ tex) = first ++ tool.suffix ∧
        tool.output (second ++ tex) = second ++ tool.suffix ∧
          tool.output (first ++ tex) ≠ tool.output (second ++ tex) := by
  intro h
  obtain ⟨-, -, hne⟩ := h .handout ['.', '.', '/', 'u', 'v'] ['.', '.', '/', 'i', 'p', 'c']
    (by decide)
  exact hne ((output_eq_output_iff _ _ _).mpr rfl)

end Tool

end Embsys.Tools
