/-
# Arguments of the programs

Five programs parse their arguments with copies of one function: an argument count,
a loop over `getopt` that collects the options in locals, a test of the locals, and
the assignments to `*opts`. Each copy is that function applied to its own count,
option string, switch and test. The copy of shm_reader tests only one of its two
names.
-/

import Embsys.C.Getopt
import Embsys.C.Stdio

namespace Embsys.Pipeline

open Embsys.C

/-- The words of a command line, the program's name first. -/
abbrev Argv := List (List Char)

/-- `parse_args`: the value it returns, and `*opts` after the call. -/
def parseArgs {Opts : Type} (argc : ℕ) (options : List Char) (unset : Opts)
    (set : Char → List Char → Opts → Opts) (complete : Opts → Bool) (argv : Argv) (opts : Opts) :
    ℤ × Opts :=
  if argv.length ≠ argc then (-1, opts)
  else
    match parseLoop set unset (getopts options (.start argv)) with
    | none => (-1, opts)
    | some locals => if complete locals then (0, locals) else (-1, opts)

/-- **Ways out of `parse_args`.** It fails with `*opts` untouched, for the count, for an
option it does not know or for an incomplete set, or it returns the locals. -/
theorem parseArgs_cases {Opts : Type} (argc : ℕ) (options : List Char) (unset : Opts)
    (set : Char → List Char → Opts → Opts) (complete : Opts → Bool) (argv : Argv) (opts : Opts) :
    (parseArgs argc options unset set complete argv opts = (-1, opts) ∧
        (argv.length ≠ argc ∨
          (∃ optopt, .invalid optopt ∈ getopts options (.start argv)) ∨
          ∃ locals, parseLoop set unset (getopts options (.start argv)) = some locals ∧
            complete locals = false)) ∨
      ∃ locals, parseArgs argc options unset set complete argv opts = (0, locals) ∧
        argv.length = argc ∧
        parseLoop set unset (getopts options (.start argv)) = some locals ∧
        complete locals = true := by
  unfold parseArgs
  by_cases hargc : argv.length = argc
  · rw [if_neg (not_not.mpr hargc)]
    cases hloop : parseLoop set unset (getopts options (.start argv)) with
    | none =>
        obtain hinvalid := (parseLoop_eq_none_iff unset).mp hloop
        exact Or.inl ⟨rfl, Or.inr (Or.inl hinvalid)⟩
    | some locals =>
        cases hcomplete : complete locals with
        | false => exact Or.inl ⟨by simp [hcomplete], Or.inr (Or.inr ⟨locals, rfl, hcomplete⟩)⟩
        | true => exact Or.inr ⟨locals, by simp [hcomplete], hargc, rfl, hcomplete⟩
  · rw [if_pos hargc]
    exact Or.inl ⟨rfl, Or.inl hargc⟩

/-- `-1` and `*opts` untouched, or `0` and `*opts` as wanted. -/
def AllOrNothing {Opts : Type} (wanted : Opts → Prop) (opts : Opts) (result : ℤ × Opts) : Prop :=
  result = (-1, opts) ∨ (result.1 = 0 ∧ wanted result.2)

/-- A copy meets the law when its test of the locals implies that they are as wanted. -/
theorem allOrNothing_of_complete {Opts : Type} {argc : ℕ} {options : List Char} {unset : Opts}
    {set : Char → List Char → Opts → Opts} {complete : Opts → Bool} {wanted : Opts → Prop}
    {argv : Argv} {opts : Opts}
    (hwanted : ∀ locals, parseLoop set unset (getopts options (.start argv)) = some locals →
      complete locals = true → wanted locals) :
    AllOrNothing wanted opts (parseArgs argc options unset set complete argv opts) := by
  rcases parseArgs_cases argc options unset set complete argv opts with
    ⟨hfail, -⟩ | ⟨locals, hdone, -, hloop, hcomplete⟩
  · exact Or.inl hfail
  · rw [hdone]
    exact Or.inr ⟨rfl, hwanted locals hloop hcomplete⟩

/-- A string field holds the last occurrence of its option, and is not null. -/
def NameSet (c : Char) (founds : List Found) (name : Option (List Char)) : Prop :=
  name = lastArg c founds ∧ name ≠ none

/-- A number field holds what `atoi` reads in the last occurrence of its option. -/
def NumberSet (c : Char) (founds : List Found) (number : ℤ) : Prop :=
  ∃ text, lastArg c founds = some text ∧ number = atoiInt text

section Fields

variable {Opts : Type} {set : Char → List Char → Opts → Opts} {founds : List Found} {c : Char}
  {unset locals : Opts}

/-- A name that starts null is left with the last occurrence of its option. -/
theorem name_eq_lastArg {name : Opts → Option (List Char)}
    (hset : ∀ o optarg opts, name (set o optarg opts) = if o = c then some optarg else name opts)
    (hunset : name unset = none) (hloop : parseLoop set unset founds = some locals) :
    name locals = lastArg c founds := by
  rw [parseLoop_last hset hloop, hunset]
  cases lastArg c founds <;> rfl

theorem nameSet {name : Opts → Option (List Char)}
    (hset : ∀ o optarg opts, name (set o optarg opts) = if o = c then some optarg else name opts)
    (hunset : name unset = none) (hloop : parseLoop set unset founds = some locals)
    (hsome : (name locals).isSome = true) : NameSet c founds (name locals) :=
  ⟨name_eq_lastArg hset hunset hloop, Option.isSome_iff_ne_none.mp hsome⟩

/-- A number that starts at -1 and is not -1 in the end was set. -/
theorem numberSet {number : Opts → ℤ}
    (hset : ∀ o optarg opts,
      number (set o optarg opts) = if o = c then atoiInt optarg else number opts)
    (hunset : number unset = -1) (hloop : parseLoop set unset founds = some locals)
    (hne : number locals ≠ -1) : NumberSet c founds (number locals) := by
  have hlast := parseLoop_last hset hloop
  rw [hunset] at hlast
  cases htext : lastArg c founds with
  | none => exact absurd (by simpa [htext] using hlast) hne
  | some text => exact ⟨text, htext, by simpa [htext] using hlast⟩

end Fields

end Embsys.Pipeline

/-! ## The five copies -/

namespace Embsys.ShmWriter

open Embsys.C Embsys.Pipeline

/-- `struct OPTS`, a null pointer as none. -/
structure RawOpts where
  port : Option (List Char)
  shm : Option (List Char)
  sem : Option (List Char)
  deriving DecidableEq

def RawOpts.set (option : Char) (optarg : List Char) (locals : RawOpts) : RawOpts :=
  match option with
  | 'l' => { locals with sem := some optarg }
  | 'p' => { locals with port := some optarg }
  | 's' => { locals with shm := some optarg }
  | _ => locals

def RawOpts.complete (locals : RawOpts) : Bool :=
  locals.port.isSome && locals.shm.isSome && locals.sem.isSome

def options : List Char := ['l', ':', 'p', ':', 's', ':']

def parseArgs : Argv → RawOpts → ℤ × RawOpts :=
  Pipeline.parseArgs 7 options ⟨none, none, none⟩ RawOpts.set RawOpts.complete

/-- Every field is set. -/
def RawOpts.AllSet (argv : Argv) (opts : RawOpts) : Prop :=
  NameSet 'p' (getopts options (.start argv)) opts.port ∧
    NameSet 's' (getopts options (.start argv)) opts.shm ∧
    NameSet 'l' (getopts options (.start argv)) opts.sem

theorem RawOpts.set_fields (o : Char) (optarg : List Char) (locals : RawOpts) :
    (set o optarg locals).port = (if o = 'p' then some optarg else locals.port) ∧
      (set o optarg locals).shm = (if o = 's' then some optarg else locals.shm) ∧
      (set o optarg locals).sem = (if o = 'l' then some optarg else locals.sem) := by
  unfold set
  split
  · simp
  · simp
  · simp
  · rename_i hl hp hs
    exact ⟨(if_neg hp).symm, (if_neg hs).symm, (if_neg hl).symm⟩

theorem parseArgs_allOrNothing (argv : Argv) (opts : RawOpts) :
    AllOrNothing (RawOpts.AllSet argv) opts (parseArgs argv opts) := by
  apply allOrNothing_of_complete
  intro locals hloop hcomplete
  rw [RawOpts.complete, Bool.and_eq_true, Bool.and_eq_true] at hcomplete
  obtain ⟨⟨hport, hshm⟩, hsem⟩ := hcomplete
  refine ⟨?_, ?_, ?_⟩
  · exact nameSet (fun o a l => (RawOpts.set_fields o a l).1) rfl hloop hport
  · exact nameSet (fun o a l => (RawOpts.set_fields o a l).2.1) rfl hloop hshm
  · exact nameSet (fun o a l => (RawOpts.set_fields o a l).2.2) rfl hloop hsem

end Embsys.ShmWriter

namespace Embsys.ShmReader

open Embsys.C Embsys.Pipeline

structure RawOpts where
  shm : Option (List Char)
  sem : Option (List Char)
  deriving DecidableEq

def RawOpts.set (option : Char) (optarg : List Char) (locals : RawOpts) : RawOpts :=
  match option with
  | 'l' => { locals with sem := some optarg }
  | 's' => { locals with shm := some optarg }
  | _ => locals

/-- The semaphore is not tested. -/
def RawOpts.complete (locals : RawOpts) : Bool :=
  locals.shm.isSome

def options : List Char := ['l', ':', 's', ':']

def parseArgs : Argv → RawOpts → ℤ × RawOpts :=
  Pipeline.parseArgs 5 options ⟨none, none⟩ RawOpts.set RawOpts.complete

def RawOpts.AllSet (argv : Argv) (opts : RawOpts) : Prop :=
  NameSet 's' (getopts options (.start argv)) opts.shm ∧
    NameSet 'l' (getopts options (.start argv)) opts.sem

theorem RawOpts.set_fields (o : Char) (optarg : List Char) (locals : RawOpts) :
    (set o optarg locals).shm = (if o = 's' then some optarg else locals.shm) ∧
      (set o optarg locals).sem = (if o = 'l' then some optarg else locals.sem) := by
  unfold set
  split
  · simp
  · simp
  · rename_i hl hs
    exact ⟨(if_neg hs).symm, (if_neg hl).symm⟩

/-- A command line without `-l` is accepted. -/
theorem allOrNothing_iff (argv : Argv) (opts : RawOpts) :
    AllOrNothing (RawOpts.AllSet argv) opts (parseArgs argv opts) ↔
      argv.length ≠ 5 ∨ (∃ optopt, .invalid optopt ∈ getopts options (.start argv)) ∨
        lastArg 's' (getopts options (.start argv)) = none ∨
        lastArg 'l' (getopts options (.start argv)) ≠ none := by
  rcases parseArgs_cases 5 options ⟨none, none⟩ RawOpts.set RawOpts.complete argv opts with
    ⟨hfail, hreason⟩ | ⟨locals, hdone, hargc, hloop, hcomplete⟩
  · refine iff_of_true (Or.inl hfail) ?_
    rcases hreason with hargc | hinvalid | ⟨locals, hloop, hincomplete⟩
    · exact Or.inl hargc
    · exact Or.inr (Or.inl hinvalid)
    · have hshm := name_eq_lastArg (fun o a l => (RawOpts.set_fields o a l).1) rfl hloop
      rw [RawOpts.complete, Option.isSome_eq_false_iff, Option.isNone_iff_eq_none] at hincomplete
      exact Or.inr (Or.inr (Or.inl (hshm.symm.trans hincomplete)))
  · have hshm := name_eq_lastArg (fun o a l => (RawOpts.set_fields o a l).1) rfl hloop
    have hsem := name_eq_lastArg (fun o a l => (RawOpts.set_fields o a l).2) rfl hloop
    rw [RawOpts.complete, Option.isSome_iff_ne_none, hshm] at hcomplete
    have hvalid : ¬ ∃ optopt, .invalid optopt ∈ getopts options (.start argv) := by
      rw [← parseLoop_eq_none_iff, hloop]
      exact Option.some_ne_none locals
    rw [parseArgs, hdone]
    constructor
    · rintro (huntouched | ⟨-, -, -, hset⟩)
      · exact absurd (congrArg Prod.fst huntouched) (by decide : (0 : ℤ) ≠ -1)
      · exact Or.inr (Or.inr (Or.inr (hsem ▸ hset)))
    · rintro (hother | hinvalid | hmissing | hset)
      · exact absurd hargc hother
      · exact absurd hinvalid hvalid
      · exact absurd hmissing hcomplete
      · exact Or.inr ⟨rfl, ⟨hshm, hshm ▸ hcomplete⟩, hsem, hsem ▸ hset⟩

end Embsys.ShmReader

namespace Embsys.Converter

open Embsys.C Embsys.Pipeline

structure RawOpts where
  sem : Option (List Char)
  shm : Option (List Char)
  deriving DecidableEq

def RawOpts.set (option : Char) (optarg : List Char) (locals : RawOpts) : RawOpts :=
  match option with
  | 'l' => { locals with sem := some optarg }
  | 's' => { locals with shm := some optarg }
  | _ => locals

def RawOpts.complete (locals : RawOpts) : Bool :=
  locals.shm.isSome && locals.sem.isSome

def options : List Char := ['s', ':', 'l', ':']

def parseArgs : Argv → RawOpts → ℤ × RawOpts :=
  Pipeline.parseArgs 5 options ⟨none, none⟩ RawOpts.set RawOpts.complete

def RawOpts.AllSet (argv : Argv) (opts : RawOpts) : Prop :=
  NameSet 's' (getopts options (.start argv)) opts.shm ∧
    NameSet 'l' (getopts options (.start argv)) opts.sem

theorem RawOpts.set_fields (o : Char) (optarg : List Char) (locals : RawOpts) :
    (set o optarg locals).shm = (if o = 's' then some optarg else locals.shm) ∧
      (set o optarg locals).sem = (if o = 'l' then some optarg else locals.sem) := by
  unfold set
  split
  · simp
  · simp
  · rename_i hl hs
    exact ⟨(if_neg hs).symm, (if_neg hl).symm⟩

theorem parseArgs_allOrNothing (argv : Argv) (opts : RawOpts) :
    AllOrNothing (RawOpts.AllSet argv) opts (parseArgs argv opts) := by
  apply allOrNothing_of_complete
  intro locals hloop hcomplete
  rw [RawOpts.complete, Bool.and_eq_true] at hcomplete
  constructor
  · exact nameSet (fun o a l => (RawOpts.set_fields o a l).1) rfl hloop hcomplete.1
  · exact nameSet (fun o a l => (RawOpts.set_fields o a l).2) rfl hloop hcomplete.2

end Embsys.Converter

namespace Embsys.Forwarder

open Embsys.C Embsys.Pipeline

structure RawOpts where
  sem : Option (List Char)
  shm : Option (List Char)
  port : ℤ
  deriving DecidableEq

def RawOpts.set (option : Char) (optarg : List Char) (locals : RawOpts) : RawOpts :=
  match option with
  | 'l' => { locals with sem := some optarg }
  | 'p' => { locals with port := atoiInt optarg }
  | 's' => { locals with shm := some optarg }
  | _ => locals

def RawOpts.complete (locals : RawOpts) : Bool :=
  locals.shm.isSome && locals.sem.isSome && locals.port ≠ -1

def options : List Char := ['l', ':', 'p', ':', 's', ':']

def parseArgs : Argv → RawOpts → ℤ × RawOpts :=
  Pipeline.parseArgs 7 options ⟨none, none, -1⟩ RawOpts.set RawOpts.complete

def RawOpts.AllSet (argv : Argv) (opts : RawOpts) : Prop :=
  NameSet 's' (getopts options (.start argv)) opts.shm ∧
    NameSet 'l' (getopts options (.start argv)) opts.sem ∧
    NumberSet 'p' (getopts options (.start argv)) opts.port

theorem RawOpts.set_fields (o : Char) (optarg : List Char) (locals : RawOpts) :
    (set o optarg locals).shm = (if o = 's' then some optarg else locals.shm) ∧
      (set o optarg locals).sem = (if o = 'l' then some optarg else locals.sem) ∧
      (set o optarg locals).port = (if o = 'p' then atoiInt optarg else locals.port) := by
  unfold set
  split
  · simp
  · simp
  · simp
  · rename_i hl hp hs
    exact ⟨(if_neg hs).symm, (if_neg hl).symm, (if_neg hp).symm⟩

theorem parseArgs_allOrNothing (argv : Argv) (opts : RawOpts) :
    AllOrNothing (RawOpts.AllSet argv) opts (parseArgs argv opts) := by
  apply allOrNothing_of_complete
  intro locals hloop hcomplete
  rw [RawOpts.complete, Bool.and_eq_true, Bool.and_eq_true, decide_eq_true_eq] at hcomplete
  obtain ⟨⟨hshm, hsem⟩, hport⟩ := hcomplete
  refine ⟨?_, ?_, ?_⟩
  · exact nameSet (fun o a l => (RawOpts.set_fields o a l).1) rfl hloop hshm
  · exact nameSet (fun o a l => (RawOpts.set_fields o a l).2.1) rfl hloop hsem
  · exact numberSet (fun o a l => (RawOpts.set_fields o a l).2.2) rfl hloop hport

end Embsys.Forwarder

namespace Embsys.NetReader

open Embsys.C Embsys.Pipeline

structure RawOpts where
  port : ℤ
  deriving DecidableEq

def RawOpts.set (option : Char) (optarg : List Char) (locals : RawOpts) : RawOpts :=
  match option with
  | 'p' => { locals with port := atoiInt optarg }
  | _ => locals

def RawOpts.complete (locals : RawOpts) : Bool :=
  locals.port ≠ -1

def options : List Char := ['p', ':']

def parseArgs : Argv → RawOpts → ℤ × RawOpts :=
  Pipeline.parseArgs 3 options ⟨-1⟩ RawOpts.set RawOpts.complete

def RawOpts.AllSet (argv : Argv) (opts : RawOpts) : Prop :=
  NumberSet 'p' (getopts options (.start argv)) opts.port

theorem RawOpts.set_port (o : Char) (optarg : List Char) (locals : RawOpts) :
    (set o optarg locals).port = if o = 'p' then atoiInt optarg else locals.port := by
  unfold set
  split
  · simp
  · rename_i hp
    exact (if_neg hp).symm

theorem parseArgs_allOrNothing (argv : Argv) (opts : RawOpts) :
    AllOrNothing (RawOpts.AllSet argv) opts (parseArgs argv opts) := by
  apply allOrNothing_of_complete
  intro locals hloop hcomplete
  exact numberSet RawOpts.set_port rfl hloop (of_decide_eq_true hcomplete)

end Embsys.NetReader

/-! ## All programs -/

namespace Embsys.Pipeline

open Embsys.C

/-- **All or nothing.** On every command line four of the programs fail with `*opts`
untouched or set every field from the last occurrence of its option. shm_reader does so
exactly when it fails for the count, for an unknown option or for the missing name of the
shared memory, or when the name of the semaphore is given. -/
theorem parseArgs_allOrNothing_iff (argv : Argv) :
    (∀ opts, AllOrNothing (ShmWriter.RawOpts.AllSet argv) opts
        (ShmWriter.parseArgs argv opts)) ∧
      (∀ opts, AllOrNothing (Converter.RawOpts.AllSet argv) opts
        (Converter.parseArgs argv opts)) ∧
      (∀ opts, AllOrNothing (Forwarder.RawOpts.AllSet argv) opts
        (Forwarder.parseArgs argv opts)) ∧
      (∀ opts, AllOrNothing (NetReader.RawOpts.AllSet argv) opts
        (NetReader.parseArgs argv opts)) ∧
      ∀ opts, AllOrNothing (ShmReader.RawOpts.AllSet argv) opts
          (ShmReader.parseArgs argv opts) ↔
        argv.length ≠ 5 ∨
          (∃ optopt, .invalid optopt ∈ getopts ShmReader.options (.start argv)) ∨
          lastArg 's' (getopts ShmReader.options (.start argv)) = none ∨
          lastArg 'l' (getopts ShmReader.options (.start argv)) ≠ none := by
  refine ⟨?_, ?_, ?_, ?_, ?_⟩
  · exact ShmWriter.parseArgs_allOrNothing argv
  · exact Converter.parseArgs_allOrNothing argv
  · exact Forwarder.parseArgs_allOrNothing argv
  · exact NetReader.parseArgs_allOrNothing argv
  · exact ShmReader.allOrNothing_iff argv

/-- `shm_reader -s a -s b`. -/
def twoNames : Argv := [['r'], ['-', 's'], ['a'], ['-', 's'], ['b']]

/-- It is accepted, the name of the semaphore null. -/
theorem not_forall_parseArgs_allOrNothing :
    ¬ ((∀ argv opts, AllOrNothing (ShmWriter.RawOpts.AllSet argv) opts
          (ShmWriter.parseArgs argv opts)) ∧
        (∀ argv opts, AllOrNothing (Converter.RawOpts.AllSet argv) opts
          (Converter.parseArgs argv opts)) ∧
        (∀ argv opts, AllOrNothing (Forwarder.RawOpts.AllSet argv) opts
          (Forwarder.parseArgs argv opts)) ∧
        (∀ argv opts, AllOrNothing (NetReader.RawOpts.AllSet argv) opts
          (NetReader.parseArgs argv opts)) ∧
        ∀ argv opts, AllOrNothing (ShmReader.RawOpts.AllSet argv) opts
          (ShmReader.parseArgs argv opts)) := by
  rintro ⟨-, -, -, -, h⟩
  have hfounds : getopts ShmReader.options (.start twoNames) =
      [.option 's' ['a'], .option 's' ['b']] := by
    decide +kernel
  have hresult : ShmReader.parseArgs twoNames ⟨none, none⟩ = (0, ⟨some ['b'], none⟩) := by
    rw [ShmReader.parseArgs, parseArgs, hfounds]
    rfl
  rcases hresult ▸ h twoNames ⟨none, none⟩ with huntouched | ⟨-, -, -, hsem⟩
  · exact absurd (congrArg Prod.fst huntouched) (by decide)
  · exact hsem rfl

end Embsys.Pipeline
