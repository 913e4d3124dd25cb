/-
# with_content

A document is copied line by line, and a directive `%include[file][tag]` is replaced by
what lies between the begin and end tags of `tag` in that file. The search copies a begin
tag too and throws the first line of its copy away; the begin tags after the first one
stay. The output file is created, empty, before the included files are read.
-/

import Mathlib.Data.List.Forall2
import Mathlib.Logic.Function.Basic
import Embsys.Math.Region
import Embsys.Tools.Text

namespace Embsys.Tools.WithContent

open Embsys.Math

def beginTag (tag : List Char) : List Char :=
  ['%', '<', '*', '*'] ++ tag ++ ['>']

def endTag (tag : List Char) : List Char :=
  ['%', '<', '/', '/'] ++ tag ++ ['>']

def incnote : List Char :=
  ['i', 'n', 'c', 'n', 'o', 't', 'e']

def includeCommand : List Char :=
  ['%', 'i', 'n', 'c', 'l', 'u', 'd', 'e', '[']

def suffix : List Char :=
  ['_', 'c', 'o', 'n', 't', 'e', 'n', 't', '.', 't', 'e', 'x']

/-- `texfile_with_content`. -/
def texfileWithContent (texfile : List Char) : List Char :=
  derivedPath suffix texfile

/-- The variables of the loop of `search_content`. -/
structure Search where
  toCopy : Bool
  linesToKeep : List (List Char)

/-- One line of the loop. -/
def Search.scan (tag : List Char) (search : Search) (line : List Char) : Search :=
  let toCopy :=
    if isIn (beginTag tag) line then true
    else if isIn (endTag tag) line then false
    else search.toCopy
  ⟨toCopy, if toCopy && !isIn incnote line then search.linesToKeep ++ [line]
    else search.linesToKeep⟩

variable {File : Type} (resolve : List Char → File)

def searchContent (files : Files File) (texfile tag : List Char) : List (List Char) :=
  let tag := remove '\n' tag
  let linesToKeep :=
    match files (resolve texfile) with
    | none => []
    | some data => ((readlines data).foldl (Search.scan tag) ⟨false, []⟩).linesToKeep
  -- `pop(0)`, unless there is nothing to pop.
  linesToKeep.drop 1

/-- One line of the main loop, none where the arguments of a directive are not two. -/
def expand (files : Files File) (texdata : List (List Char)) (data : List Char) :
    Option (List (List Char)) :=
  if isIn includeCommand data then
    match ((data.splitOn '[').drop 1).take 2 with
    | [includeFile, tag] =>
        some (texdata ++ searchContent resolve files (remove ']' includeFile) (remove ']' tag))
    | _ => none
  else some (texdata ++ [data])

/-- The files that a run leaves, and whether it ends with an exception. -/
structure Exit (File : Type) where
  files : Files File
  raised : Bool

section

variable [DecidableEq File]

/-- The files when the included ones are read: `open(texfile_with_content, 'w')` has
emptied the output file. -/
def opened (files : Files File) (texfile : List Char) : Files File :=
  Function.update files (resolve (texfileWithContent texfile)) (some [])

/-- main, with the arguments after the name of the program. -/
def main (argv : List (List Char)) (files : Files File) : Exit File :=
  match argv with
  | [] => ⟨files, false⟩
  | texfile :: _ =>
      match files (resolve texfile) with
      | none => ⟨files, false⟩
      | some text =>
          let files := opened resolve files texfile
          match (readlines text).foldlM (expand resolve files) [] with
          | none => ⟨files, true⟩
          | some texdata =>
              ⟨Function.update files (resolve (texfileWithContent texfile))
                (some texdata.flatten), false⟩

end

/-! ## Directives -/

/-- A line that is a directive, the newline apart. -/
structure IsDirective (line file tag : List Char) : Prop where
  eq : ∃ newline, (newline = [] ∨ newline = ['\n']) ∧
    line = includeCommand ++ (file ++ ([']', '['] ++ (tag ++ ([']'] ++ newline))))
  open_notMem_file : '[' ∉ file
  close_notMem_file : ']' ∉ file
  open_notMem_tag : '[' ∉ tag
  close_notMem_tag : ']' ∉ tag

/-- The lines of the regions of a tag that do not contain `incnote`. -/
def content (files : Files File) (file tag : List Char) : List (List Char) :=
  match files (resolve file) with
  | none => []
  | some data =>
      (regions (isIn (beginTag tag)) (isIn (endTag tag)) (readlines data)).flatten.filter
        fun line => !isIn incnote line

/-- The lines that are no begin tag. -/
def withoutBegin (tag : List Char) (lines : List (List Char)) : List (List Char) :=
  lines.filter fun line => !isIn (beginTag tag) line

/-- What a line of the document becomes: itself, or for a directive lines that are the
content it asks for, begin tags aside. -/
inductive Replaces (files : Files File) (line : List Char) : List (List Char) → Prop
  | kept (hline : isIn includeCommand line = false) : Replaces files line [line]
  | included (file tag : List Char) (hline : IsDirective line file tag)
      (part : List (List Char))
      (hpart : withoutBegin tag part = withoutBegin tag (content resolve files file tag)) :
      Replaces files line part

/-- A document whose directives are well formed, and files in which a line with a begin tag
has neither the end tag nor `incnote`. -/
structure Admissible (files : Files File) (text : List Char) : Prop where
  directive : ∀ line ∈ readlines text, isIn includeCommand line →
    ∃ file tag, IsDirective line file tag
  tagged : ∀ line ∈ readlines text, ∀ file tag, IsDirective line file tag →
    ∀ data, files (resolve file) = some data → ∀ line ∈ readlines data,
      isIn (beginTag tag) line → isIn (endTag tag) line = false ∧ isIn incnote line = false

/-! ## The search -/

theorem scan_eq (tag line : List Char) (kept : List (List Char)) (inside : Bool) :
    Search.scan tag ⟨inside, kept⟩ line =
      let inside := flag (isIn (beginTag tag)) (isIn (endTag tag)) inside line
      ⟨inside, kept ++ if inside && !isIn incnote line then [line] else []⟩ := by
  show Search.mk (flag (isIn (beginTag tag)) (isIn (endTag tag)) inside line)
    (if flag (isIn (beginTag tag)) (isIn (endTag tag)) inside line && !isIn incnote line
      then kept ++ [line] else kept) = _
  congr 1
  split_ifs
  · rfl
  · rw [List.append_nil]

/-- The loop copies what a scan with a flag does, without the lines that have `incnote`. -/
theorem foldl_scan (tag : List Char) (lines kept : List (List Char)) (inside : Bool) :
    (lines.foldl (Search.scan tag) ⟨inside, kept⟩).linesToKeep =
      kept ++ (copied (isIn (beginTag tag)) (isIn (endTag tag)) inside lines).filter
        fun line => !isIn incnote line := by
  induction lines generalizing inside kept with
  | nil => simp [copied]
  | cons line lines ih =>
      rw [List.foldl_cons, scan_eq, ih, copied, List.append_assoc]
      cases flag (isIn (beginTag tag)) (isIn (endTag tag)) inside line with
      | true => cases hnote : isIn incnote line <;> simp [hnote]
      | false => simp

/-- **The search.** What is found is the content, begin tags aside. -/
theorem withoutBegin_searchContent (files : Files File) (file : List Char) {tag : List Char}
    (hnewline : '\n' ∉ tag)
    (htagged : ∀ data, files (resolve file) = some data → ∀ line ∈ readlines data,
      isIn (beginTag tag) line → isIn (endTag tag) line = false ∧ isIn incnote line = false) :
    withoutBegin tag (searchContent resolve files file tag) =
      withoutBegin tag (content resolve files file tag) := by
  rw [searchContent, content, remove_of_notMem hnewline]
  cases hdata : files (resolve file) with
  | none => rfl
  | some data =>
      show withoutBegin tag (List.drop 1
        (Search.linesToKeep ((readlines data).foldl (Search.scan tag) ⟨false, []⟩))) = _
      rw [foldl_scan, List.nil_append]
      apply filter_drop_copied
      · intro line hline hbegin
        exact (htagged data hdata line hline hbegin).1
      · intro line hline hbegin
        rw [(htagged data hdata line hline hbegin).2]
        rfl

theorem remove_newline {newline : List Char} (hnewline : newline = [] ∨ newline = ['\n']) :
    remove '\n' newline = [] := by
  rcases hnewline with rfl | rfl <;> rfl

/-- The newline after a directive is not part of its tag. -/
theorem searchContent_append_newline (files : Files File) (file tag : List Char)
    {newline : List Char} (hnewline : newline = [] ∨ newline = ['\n']) :
    searchContent resolve files file (tag ++ newline) = searchContent resolve files file tag := by
  rw [searchContent, remove_append, remove_newline hnewline, List.append_nil, searchContent]

/-! ## The document -/

theorem isIn_includeCommand {line file tag : List Char} (hline : IsDirective line file tag) :
    isIn includeCommand line := by
  obtain ⟨newline, -, rfl⟩ := hline.eq
  exact decide_eq_true (List.prefix_append _ _).isInfix

/-- The pieces of a directive. -/
theorem splitOn_directive {line file tag : List Char} (hline : IsDirective line file tag) :
    ∃ newline, (newline = [] ∨ newline = ['\n']) ∧
      line.splitOn '[' = [['%', 'i', 'n', 'c', 'l', 'u', 'd', 'e'], file ++ [']'],
        tag ++ ([']'] ++ newline)] := by
  obtain ⟨newline, hnewline, rfl⟩ := hline.eq
  refine ⟨newline, hnewline, ?_⟩
  have hname : '[' ∉ ['%', 'i', 'n', 'c', 'l', 'u', 'd', 'e'] := by decide
  have hfile : '[' ∉ file ++ [']'] := by
    simpa using hline.open_notMem_file
  have htag : '[' ∉ tag ++ ([']'] ++ newline) := by
    rcases hnewline with rfl | rfl <;> simpa using hline.open_notMem_tag
  rw [← List.splitOn_eq_singleton htag, ← List.splitOn_append_cons_self_of_not_mem hfile,
    ← List.splitOn_append_cons_self_of_not_mem hname]
  simp [includeCommand]

/-- The bracket goes from the piece of the file, bracket and newline from that of the tag. -/
theorem remove_file {line file tag : List Char} (hline : IsDirective line file tag) :
    remove ']' (file ++ [']']) = file := by
  rw [remove_append, remove_of_notMem hline.close_notMem_file]
  exact List.append_nil file

theorem remove_tag {line file tag newline : List Char} (hline : IsDirective line file tag)
    (hnewline : newline = [] ∨ newline = ['\n']) :
    remove ']' (tag ++ ([']'] ++ newline)) = tag ++ newline := by
  rw [remove_append, remove_of_notMem hline.close_notMem_tag]
  rcases hnewline with rfl | rfl <;> rfl

theorem expand_directive (files : Files File) (texdata : List (List Char))
    {line file tag : List Char} (hline : IsDirective line file tag) :
    expand resolve files texdata line =
      some (texdata ++ searchContent resolve files file tag) := by
  obtain ⟨newline, hnewline, hsplit⟩ := splitOn_directive hline
  rw [expand, if_pos (isIn_includeCommand hline), hsplit]
  show some (texdata ++ searchContent resolve files (remove ']' _) (remove ']' _)) = _
  rw [remove_file hline, remove_tag hline hnewline,
    searchContent_append_newline resolve files file tag hnewline]

/-- A newline ends a line, so a tag has none. -/
theorem newline_notMem_tag {text line file tag : List Char} (hmem : line ∈ readlines text)
    (hline : IsDirective line file tag) : '\n' ∉ tag := by
  have hdropLast := newline_notMem_dropLast text line hmem
  obtain ⟨newline, hnewline, rfl⟩ := hline.eq
  rw [List.dropLast_append_of_ne_nil (by simp), List.dropLast_append_of_ne_nil (by simp),
    List.dropLast_append_of_ne_nil (by simp), List.dropLast_append_of_ne_nil (by simp)]
    at hdropLast
  exact fun htag => hdropLast (by simp [htag])

/-- A directive names one file and one tag. -/
theorem IsDirective.unique {text line file tag file' tag' : List Char}
    (hmem : line ∈ readlines text) (hline : IsDirective line file tag)
    (hline' : IsDirective line file' tag') : file = file' ∧ tag = tag' := by
  obtain ⟨newline, hnewline, hsplit⟩ := splitOn_directive hline
  obtain ⟨newline', hnewline', hsplit'⟩ := splitOn_directive hline'
  have hpieces := hsplit.symm.trans hsplit'
  simp only [List.cons.injEq, true_and, and_true] at hpieces
  refine ⟨List.append_cancel_right hpieces.1, ?_⟩
  have htag := congrArg (fun piece => remove '\n' (remove ']' piece)) hpieces.2
  rwa [remove_tag hline hnewline, remove_tag hline' hnewline', remove_append, remove_append,
    remove_newline hnewline, remove_newline hnewline', List.append_nil, List.append_nil,
    remove_of_notMem (newline_notMem_tag hmem hline),
    remove_of_notMem (newline_notMem_tag hmem hline')] at htag

/-- **A line of the document** is kept or replaced by content. -/
theorem expand_line (files : Files File) {text line : List Char}
    (hadmissible : Admissible resolve files text) (hmem : line ∈ readlines text) :
    ∃ part, Replaces resolve files line part ∧
      ∀ texdata, expand resolve files texdata line = some (texdata ++ part) := by
  cases hinclude : isIn includeCommand line with
  | false =>
      refine ⟨[line], .kept hinclude, fun texdata => ?_⟩
      rw [expand, if_neg (by simp [hinclude])]
  | true =>
      obtain ⟨file, tag, hline⟩ := hadmissible.directive line hmem hinclude
      refine ⟨searchContent resolve files file tag, .included file tag hline _ ?_,
        fun texdata => expand_directive resolve files texdata hline⟩
      exact withoutBegin_searchContent resolve files file (newline_notMem_tag hmem hline)
        (hadmissible.tagged line hmem file tag hline)

/-- The loop over the lines of the document. -/
theorem foldlM_expand (files : Files File) (lines : List (List Char))
    (texdata : List (List Char))
    (hlines : ∀ line ∈ lines, ∃ part, Replaces resolve files line part ∧
      ∀ texdata, expand resolve files texdata line = some (texdata ++ part)) :
    ∃ parts, List.Forall₂ (Replaces resolve files) lines parts ∧
      lines.foldlM (expand resolve files) texdata = some (texdata ++ parts.flatten) := by
  induction lines generalizing texdata with
  | nil => exact ⟨[], .nil, by simp⟩
  | cons line lines ih =>
      obtain ⟨⟨part, hpart, hexpand⟩, hrest⟩ := List.forall_mem_cons.mp hlines
      obtain ⟨parts, hparts, hfold⟩ := ih (texdata ++ part) hrest
      refine ⟨part :: parts, .cons hpart hparts, ?_⟩
      rw [List.foldlM_cons, hexpand, List.flatten_cons, ← List.append_assoc, ← hfold]
      rfl

/-- Lines without a directive are kept, all of them and as they are. -/
theorem foldlM_expand_of_kept (files : Files File) (lines texdata : List (List Char))
    (hlines : ∀ line ∈ lines, isIn includeCommand line = false) :
    lines.foldlM (expand resolve files) texdata = some (texdata ++ lines) := by
  induction lines generalizing texdata with
  | nil => rw [List.append_nil]; rfl
  | cons line lines ih =>
      obtain ⟨hline, hlines'⟩ := List.forall_mem_cons.mp hlines
      have hrest := ih (texdata ++ [line]) hlines'
      rw [List.append_assoc, List.singleton_append] at hrest
      rw [List.foldlM_cons, expand, if_neg (by simp [hline])]
      exact hrest

section

variable [DecidableEq File]

/-- A document without directives is copied. -/
theorem main_of_kept (files : Files File) (texfile text : List Char)
    (htext : files (resolve texfile) = some text)
    (hlines : ∀ line ∈ readlines text, isIn includeCommand line = false) :
    main resolve [texfile] files =
      ⟨Function.update files (resolve (texfileWithContent texfile)) (some text), false⟩ := by
  simp only [main, htext, foldlM_expand_of_kept resolve _ _ [] hlines, List.nil_append,
    flatten_readlines]
  rw [opened, Function.update_idem]

/-- Emptying the output file leaves a document admissible. -/
theorem Admissible.opened {files : Files File} {text : List Char} (texfile : List Char)
    (hadmissible : Admissible resolve files text) :
    Admissible resolve (opened resolve files texfile) text := by
  refine ⟨hadmissible.directive, fun line hmem file tag hline data hdata => ?_⟩
  rw [WithContent.opened, Function.update_apply] at hdata
  split_ifs at hdata with houtput
  · rw [← Option.some.inj hdata]
    simp [readlines]
  · exact hadmissible.tagged line hmem file tag hline data hdata

/-- **Nothing is lost or added.** What is written is the document with every directive
replaced by the content it asks for, begin tags aside; the output file counts as empty. -/
theorem main_replaces (files : Files File) (texfile text : List Char)
    (htext : files (resolve texfile) = some text)
    (hadmissible : Admissible resolve files text) :
    ∃ parts, List.Forall₂ (Replaces resolve (opened resolve files texfile))
        (readlines text) parts ∧
      main resolve [texfile] files =
        ⟨Function.update files (resolve (texfileWithContent texfile))
          (some parts.flatten.flatten), false⟩ := by
  have hopened := hadmissible.opened resolve texfile
  obtain ⟨parts, hparts, hfold⟩ := foldlM_expand resolve (opened resolve files texfile)
    (readlines text) [] fun line hmem => expand_line resolve _ hopened hmem
  refine ⟨parts, hparts, ?_⟩
  simp only [main, htext, hfold, List.nil_append]
  rw [opened, Function.update_idem]

end

/-! ## A document of one directive -/

/-- `m.tex`. -/
def document : List Char :=
  ['m', '.', 't', 'e', 'x']

/-- `%include[file][t]`. -/
def directive (file : List Char) : List Char :=
  includeCommand ++ (file ++ ([']', '['] ++ (['t'] ++ ([']'] ++ []))))

/-- The document is this directive, and its file a region of one line that is not closed. -/
def lecture (file : List Char) : Files (List Char) :=
  fun path =>
    if path = document then some (directive file)
    else if path = file then some (beginTag ['t'] ++ ['\n', 'x'])
    else none

theorem isDirective_directive {file : List Char} (hopen : '[' ∉ file) (hclose : ']' ∉ file) :
    IsDirective (directive file) file ['t'] :=
  ⟨⟨[], Or.inl rfl, rfl⟩, hopen, hclose, by decide, by decide⟩

theorem admissible_lecture {file : List Char} (hopen : '[' ∉ file) (hclose : ']' ∉ file)
    (hne : file ≠ document) (hlines : readlines (directive file) = [directive file]) :
    Admissible id (lecture file) (directive file) := by
  have hdirective := isDirective_directive hopen hclose
  have hself : directive file ∈ readlines (directive file) := by
    rw [hlines]
    exact List.mem_cons_self
  constructor
  · intro line hmem _
    rw [hlines, List.mem_singleton] at hmem
    exact ⟨file, ['t'], hmem ▸ hdirective⟩
  · intro line hmem file' tag hline data hdata
    rw [hlines, List.mem_singleton] at hmem
    subst hmem
    obtain ⟨rfl, rfl⟩ := hline.unique hself hdirective
    rw [id_eq, lecture, if_neg hne, if_pos rfl] at hdata
    rw [← Option.some.inj hdata]
    decide +kernel

/-- The line of the region of `i` is inserted. -/
theorem main_lecture :
    ∃ parts, List.Forall₂ (Replaces id (opened id (lecture ['i']) document))
        (readlines (directive ['i'])) parts ∧
      main id [document] (lecture ['i']) =
        ⟨Function.update (lecture ['i']) (id (texfileWithContent document))
          (some parts.flatten.flatten), false⟩ :=
  main_replaces id (lecture ['i']) document (directive ['i']) rfl
    (admissible_lecture (by decide) (by decide) (by decide) rfl)

/-- `m_content.tex`. -/
def output : List Char :=
  texfileWithContent document

/-- A document that includes its own output file loses the region the file had. -/
theorem not_forall_main_replaces :
    ¬ ∀ (files : Files (List Char)) (texfile text : List Char),
      files texfile = some text → Admissible id files text →
        ∃ parts, List.Forall₂ (Replaces id files) (readlines text) parts ∧
          main id [texfile] files =
            ⟨Function.update files (texfileWithContent texfile)
              (some parts.flatten.flatten), false⟩ := by
  intro h
  have hdirective : IsDirective (directive output) output ['t'] :=
    isDirective_directive (by decide +kernel) (by decide +kernel)
  have hlines : readlines (directive output) = [directive output] := by decide +kernel
  obtain ⟨parts, hparts, hmain⟩ := h (lecture output) document (directive output) rfl
    (admissible_lecture (by decide +kernel) (by decide +kernel) (by decide +kernel) hlines)
  rw [hlines] at hparts
  obtain ⟨part, rest, hpart, -, rfl⟩ := List.forall₂_cons_left_iff.mp hparts
  -- Nothing is written.
  have hempty : (main id [document] (lecture output)).files output = some [] := by decide +kernel
  have hwritten : some [] = some (part :: rest).flatten.flatten := by
    rw [← hempty, hmain]
    exact Function.update_self output _ (lecture output)
  rw [Option.some.injEq, List.flatten_cons, List.flatten_append, eq_comm,
    List.append_eq_nil_iff] at hwritten
  cases hpart with
  | kept hline =>
      rw [isIn_includeCommand hdirective] at hline
      exact Bool.noConfusion hline
  | included file tag hline _ hpart =>
      obtain ⟨rfl, rfl⟩ := hline.unique (hlines ▸ List.mem_cons_self) hdirective
      have hcontent : withoutBegin ['t'] (content id (lecture output) output ['t']) = [['x']] := by
        decide +kernel
      have hx : ['x'] ∈ withoutBegin ['t'] part := by
        rw [hpart, hcontent]
        exact List.mem_cons_self
      have hpart_x : 'x' ∈ part.flatten :=
        List.mem_flatten.mpr ⟨['x'], List.mem_of_mem_filter hx, List.mem_cons_self⟩
      rw [hwritten.1] at hpart_x
      exact List.not_mem_nil hpart_x

end Embsys.Tools.WithContent
