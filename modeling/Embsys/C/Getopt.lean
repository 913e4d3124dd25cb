/-
# Command lines

`getopt` as POSIX specifies it, one call at a time, and the loop that programs run
over its results. An option string lists the option letters, each followed by a
colon if it takes an argument, which is the rest of its own word or else the next
word. Scanning ends at the first word that is not an option, and after `--`.

The rule for the loop: a variable that one option sets, and no other, is left with
the last occurrence of that option.
-/

import Mathlib.Algebra.Order.Ring.Nat
import Mathlib.Data.List.Basic

namespace Embsys.C

/-- What an option string says of a letter: whether it takes an argument, or nothing. -/
def optionOf : List Char → Char → Option Bool
  | [], _ => none
  | o :: ':' :: rest, c => if o = c then some true else optionOf rest c
  | o :: rest, c => if o = c then some false else optionOf rest c

/-- What one call of `getopt` found: an option with its `optarg`, one without, or a
letter `optopt` that is unknown or lacks its argument, returned as `'?'`. -/
inductive Found
  | option (c : Char) (optarg : List Char)
  | flag (c : Char)
  | invalid (optopt : Char)
  deriving DecidableEq

/-- Where the scan stands: the letters left in the current word, and the words from
`optind` on. -/
structure Scan where
  cluster : List Char
  args : List (List Char)

/-- The scan before the first call. -/
def Scan.start (argv : List (List Char)) : Scan :=
  ⟨[], argv.tail⟩

/-- An upper bound on the calls that are left. -/
def Scan.size (scan : Scan) : ℕ :=
  scan.cluster.length + (scan.args.map fun arg => arg.length + 1).sum

/-- The call that looks at this letter. -/
def scanLetter (optstring : List Char) (c : Char) (cluster : List Char)
    (args : List (List Char)) : Found × Scan :=
  match optionOf optstring c with
  | none => (.invalid c, ⟨cluster, args⟩)
  | some false => (.flag c, ⟨cluster, args⟩)
  | some true =>
      match cluster, args with
      | [], [] => (.invalid c, ⟨[], []⟩)
      | [], optarg :: args => (.option c optarg, ⟨[], args⟩)
      | letter :: rest, args => (.option c (letter :: rest), ⟨[], args⟩)

/-- One call of `getopt`, none when it returns -1. -/
def getopt (optstring : List Char) : Scan → Option (Found × Scan)
  | ⟨c :: cluster, args⟩ => some (scanLetter optstring c cluster args)
  | ⟨[], ('-' :: c :: cluster) :: args⟩ =>
      if c = '-' ∧ cluster = [] then none else some (scanLetter optstring c cluster args)
  | ⟨[], _⟩ => none

/-- A letter costs at least itself. -/
theorem size_scanLetter_le (optstring : List Char) (c : Char) (cluster : List Char)
    (args : List (List Char)) :
    (scanLetter optstring c cluster args).2.size ≤ (Scan.mk cluster args).size := by
  unfold scanLetter
  split
  · exact le_rfl
  · exact le_rfl
  · split <;> simp [Scan.size]

/-- Every call that finds something moves on. -/
theorem size_getopt_lt {optstring : List Char} {scan next : Scan} {found : Found}
    (hcall : getopt optstring scan = some (found, next)) : next.size < scan.size := by
  unfold getopt at hcall
  split at hcall
  · rename_i c cluster args
    have hletter := size_scanLetter_le optstring c cluster args
    rw [Option.some.inj hcall] at hletter
    apply lt_of_le_of_lt hletter
    simp [Scan.size]
  · rename_i c cluster args
    split_ifs at hcall
    have hletter := size_scanLetter_le optstring c cluster args
    rw [Option.some.inj hcall] at hletter
    apply lt_of_le_of_lt hletter
    simp only [Scan.size, List.map_cons, List.sum_cons, List.length_cons, List.length_nil]
    omega
  · simp at hcall

/-- What the calls find, until one returns -1. -/
def getopts (optstring : List Char) (scan : Scan) : List Found :=
  match _hcall : getopt optstring scan with
  | none => []
  | some (found, next) => found :: getopts optstring next
termination_by scan.size
decreasing_by exact size_getopt_lt _hcall

/-- The argument of the last occurrence of an option. -/
def lastArg (c : Char) : List Found → Option (List Char)
  | [] => none
  | .option o optarg :: rest => (lastArg c rest).or (if o = c then some optarg else none)
  | .flag _ :: rest => lastArg c rest
  | .invalid _ :: rest => lastArg c rest

/-- The loop of a program over the calls: `set` is its `switch` on an option with an
argument, and it gives up at `'?'`. -/
def parseLoop {Locals : Type} (set : Char → List Char → Locals → Locals) :
    Locals → List Found → Option Locals
  | locals, [] => some locals
  | locals, .option c optarg :: rest => parseLoop set (set c optarg locals) rest
  | locals, .flag _ :: rest => parseLoop set locals rest
  | _, .invalid _ :: _ => none

section Loop

variable {Locals β : Type} {set : Char → List Char → Locals → Locals} {founds : List Found}

/-- The loop gives up exactly when a call finds a letter it cannot use. -/
theorem parseLoop_eq_none_iff (locals : Locals) :
    parseLoop set locals founds = none ↔ ∃ optopt, .invalid optopt ∈ founds := by
  induction founds generalizing locals with
  | nil => simp [parseLoop]
  | cons found founds ih => cases found <;> simp [parseLoop, ih]

/-- **One option, one variable.** A variable that only the option `c` sets is left with
the last occurrence of `c`, or as it was. -/
theorem parseLoop_last {kept : Locals → β} {c : Char} {value : List Char → β}
    (hset : ∀ o optarg locals,
      kept (set o optarg locals) = if o = c then value optarg else kept locals)
    {locals final : Locals} (hloop : parseLoop set locals founds = some final) :
    kept final = ((lastArg c founds).map value).getD (kept locals) := by
  induction founds generalizing locals with
  | nil =>
      rw [← Option.some.inj hloop]
      rfl
  | cons found founds ih =>
      cases found with
      | option o optarg =>
          rw [ih hloop, hset]
          cases hlast : lastArg c founds with
          | some later => simp [lastArg, hlast]
          | none => by_cases ho : o = c <;> simp [lastArg, hlast, ho]
      | flag o => exact ih hloop
      | invalid optopt => simp [parseLoop] at hloop

end Loop

end Embsys.C
