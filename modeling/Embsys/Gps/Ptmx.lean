/-
# The pseudo-terminal of the simulator

`ptmxopen` opens the port, reads its configuration into one local variable, changes
another one that nothing has initialised, installs that one, and saves it as the original
configuration. `ptmxclose` installs what was saved. So what is installed has the
configuration of the port only where the uninitialised variable happened to have it, and
closing puts back what `ptmxopen` had installed.
-/

import Mathlib.Data.Int.Notation
import Mathlib.Logic.Function.Basic
import Mathlib.Tactic.MkIffOfInductiveProp
import Embsys.Math.Mask

namespace Embsys.Gps

open Embsys.Math

/-! ## termios -/

/-- `struct termios`. -/
@[ext]
structure Termios where
  c_iflag : BitVec 32
  c_oflag : BitVec 32
  c_cflag : BitVec 32
  c_lflag : BitVec 32
  c_line : BitVec 8
  c_cc : Fin 32 → BitVec 8
  c_ispeed : BitVec 32
  c_ospeed : BitVec 32

namespace Termios

def ignbrk : BitVec 32 := 0x1
def brkint : BitVec 32 := 0x2
def parmrk : BitVec 32 := 0x8
def istrip : BitVec 32 := 0x20
def inlcr : BitVec 32 := 0x40
def igncr : BitVec 32 := 0x80
def icrnl : BitVec 32 := 0x100
def ixon : BitVec 32 := 0x400
def opost : BitVec 32 := 0x1
def isig : BitVec 32 := 0x1
def icanon : BitVec 32 := 0x2
def echo : BitVec 32 := 0x8
def echonl : BitVec 32 := 0x40
def iexten : BitVec 32 := 0x8000
def csize : BitVec 32 := 0x30
def cs8 : BitVec 32 := 0x30
def parenb : BitVec 32 := 0x100
def cread : BitVec 32 := 0x80
def vtime : Fin 32 := 5
def vmin : Fin 32 := 6

def iflags : BitVec 32 :=
  ignbrk ||| brkint ||| parmrk ||| istrip ||| inlcr ||| igncr ||| icrnl ||| ixon

def lflags : BitVec 32 :=
  echo ||| echonl ||| icanon ||| isig ||| iexten

/-- The changes `ptmxopen` makes to `newtio`. -/
def raw (newtio : Termios) : Termios :=
  { newtio with
    c_iflag := newtio.c_iflag &&& ~~~iflags
    c_oflag := newtio.c_oflag &&& ~~~opost
    c_lflag := newtio.c_lflag &&& ~~~lflags
    c_cflag := newtio.c_cflag &&& ~~~(csize ||| parenb) ||| cs8
    c_cc    := Function.update (Function.update newtio.c_cc vmin 1) vtime 10 }

/-- A configuration that differs from `t` at most in the flag bits and in the two entries
that `ptmxopen` names. -/
@[mk_iff]
structure Agrees (t newtio : Termios) : Prop where
  c_iflag : AgreeOutside iflags t.c_iflag newtio.c_iflag
  c_oflag : AgreeOutside opost t.c_oflag newtio.c_oflag
  c_cflag : AgreeOutside (csize ||| parenb) t.c_cflag newtio.c_cflag
  c_lflag : AgreeOutside lflags t.c_lflag newtio.c_lflag
  c_line : newtio.c_line = t.c_line
  c_cc : ∀ i, i ≠ vmin → i ≠ vtime → newtio.c_cc i = t.c_cc i
  c_ispeed : newtio.c_ispeed = t.c_ispeed
  c_ospeed : newtio.c_ospeed = t.c_ospeed

/-- A configuration that has these bits and entries as `ptmxopen` sets them. -/
@[mk_iff]
structure IsRaw (t : Termios) : Prop where
  c_iflag : t.c_iflag &&& iflags = 0
  c_oflag : t.c_oflag &&& opost = 0
  c_cflag : t.c_cflag &&& (csize ||| parenb) = cs8
  c_lflag : t.c_lflag &&& lflags = 0
  c_vmin : t.c_cc vmin = 1
  c_vtime : t.c_cc vtime = 10

/-- The value of `c_cflag` is among the bits that are cleared for it. -/
theorem cs8_and_not : cs8 &&& ~~~(csize ||| parenb) = 0#32 := by
  decide

/-- The changes cannot be told outside of what they name. -/
theorem agrees_raw (t newtio : Termios) : t.Agrees newtio.raw ↔ t.Agrees newtio := by
  have hentries : (∀ i, i ≠ vmin → i ≠ vtime → newtio.raw.c_cc i = t.c_cc i) ↔
      ∀ i, i ≠ vmin → i ≠ vtime → newtio.c_cc i = t.c_cc i := by
    apply forall₃_congr
    intro i hvmin hvtime
    show Function.update (Function.update newtio.c_cc vmin 1) vtime 10 i = _ ↔ _
    rw [Function.update_of_ne hvtime, Function.update_of_ne hvmin]
  rw [agrees_iff, agrees_iff, hentries]
  simp only [raw, agreeOutside_clear, agreeOutside_write cs8_and_not]

/-- The two entries are set to their values and the others kept. -/
theorem update_c_cc_eq_iff (newtio t : Termios) :
    newtio.raw.c_cc = t.c_cc ↔
      (∀ i, i ≠ vmin → i ≠ vtime → newtio.c_cc i = t.c_cc i) ∧
        t.c_cc vmin = 1 ∧ t.c_cc vtime = 10 := by
  rw [raw, Function.update_eq_iff]
  constructor
  · rintro ⟨hvtime, hothers⟩
    refine ⟨fun i hi hi' => ?_, ?_, hvtime.symm⟩
    · rw [← hothers i hi', Function.update_of_ne hi]
    · rw [← hothers vmin (by decide), Function.update_self]
  · rintro ⟨hothers, hvmin, hvtime⟩
    refine ⟨hvtime.symm, fun i hi => ?_⟩
    by_cases hi' : i = vmin
    · rw [hi', Function.update_self, hvmin]
    · rw [Function.update_of_ne hi', hothers i hi' hi]

/-- The changes make a configuration of another one exactly when the two agree and the
configuration is as the changes leave it. -/
theorem raw_eq_iff (newtio t : Termios) : newtio.raw = t ↔ t.Agrees newtio ∧ t.IsRaw := by
  rw [Termios.ext_iff, update_c_cc_eq_iff, agrees_iff, isRaw_iff]
  simp only [raw, clear_eq_iff, write_eq_iff cs8_and_not]
  constructor
  · rintro ⟨hiflag, hoflag, hcflag, hlflag, hline, hentries, hispeed, hospeed⟩
    exact ⟨⟨hiflag.1, hoflag.1, hcflag.1, hlflag.1, hline, hentries.1, hispeed, hospeed⟩,
      hiflag.2, hoflag.2, hcflag.2, hlflag.2, hentries.2⟩
  · rintro ⟨⟨hiflag, hoflag, hcflag, hlflag, hline, hentries, hispeed, hospeed⟩,
      hiflag', hoflag', hcflag', hlflag', hentries'⟩
    exact ⟨⟨hiflag, hiflag'⟩, ⟨hoflag, hoflag'⟩, ⟨hcflag, hcflag'⟩, ⟨hlflag, hlflag'⟩, hline,
      ⟨hentries, hentries'⟩, hispeed, hospeed⟩

end Termios

/-! ## ptmx -/

/-- `struct PTMX`. -/
structure Ptmx where
  fd : ℕ
  port : List Char
  origintio : Termios

/-- The pseudo-terminal: whether its descriptor is open, the configuration last set on it,
and the input that waits there. -/
structure Port where
  isOpen : Bool
  configuration : Termios
  input : List Char

/-- What the system calls of `ptmxopen` return. -/
structure OpenCalls where
  posix_openpt : Option ℕ
  grantpt : Bool
  unlockpt : Bool
  tcgetattr : Bool
  tcsetattr : Bool
  ptsname : Option (List Char)

/-- What the system calls of `ptmxclose` return. -/
structure CloseCalls where
  getfd : Bool
  tcsetattr : Bool
  close : Bool

/-- The content of the local variables of `ptmxopen` before anything is stored in them. -/
structure Locals where
  newtio : Termios
  oldtio : Termios

/-- `tcgetattr(fd, &oldtio)`. -/
def Locals.tcgetattr (locals : Locals) (succeeds : Bool) (port : Port) : Locals :=
  if succeeds then { locals with oldtio := port.configuration } else locals

/-- `tcsetattr(fd, TCSANOW, &termios)`. -/
def Port.tcsetattr (port : Port) (succeeds : Bool) (termios : Termios) : Port :=
  if succeeds then { port with configuration := termios } else port

/-- What a call returns and leaves behind. -/
structure Returned where
  result : ℤ
  ptmx : Ptmx
  port : Port

def ptmxclose (calls : CloseCalls) (ptmx : Ptmx) (port : Port) : Returned :=
  if !calls.getfd then ⟨-1, ptmx, port⟩
  else
    let port := port.tcsetattr calls.tcsetattr ptmx.origintio
    if !calls.close then ⟨-1, ptmx, port⟩
    else ⟨0, ptmx, { port with isOpen := false }⟩

def ptmxopen (calls : OpenCalls) (locals : Locals) (ptmx : Ptmx) (port : Port) : Returned :=
  match calls.posix_openpt with
  | none => ⟨-1, ptmx, port⟩
  | some fd =>
      let port := { port with isOpen := true }
      if !calls.grantpt then ⟨-1, ptmx, port⟩
      else if !calls.unlockpt then ⟨-1, ptmx, port⟩
      else
        let locals := locals.tcgetattr calls.tcgetattr port
        let newtio := locals.newtio.raw
        -- `tcflush(fd, TCIFLUSH)` throws the waiting input away.
        let port := { port with input := [] }.tcsetattr calls.tcsetattr newtio
        match calls.ptsname with
        | none => ⟨-1, ptmx, port⟩
        | some name => ⟨0, { fd := fd, port := name, origintio := newtio }, port⟩

/-- The calls of an open that succeeds. -/
def OpenCalls.succeed (fd : ℕ) (name : List Char) : OpenCalls :=
  ⟨some fd, true, true, true, true, some name⟩

/-- The calls of a close that succeeds. -/
def CloseCalls.succeed : CloseCalls :=
  ⟨true, true, true⟩

/-- An open that fails leaves the record as it was. -/
theorem ptmx_of_ptmxopen_ne_zero (calls : OpenCalls) (locals : Locals) (ptmx : Ptmx)
    (port : Port) (hfailed : (ptmxopen calls locals ptmx port).result ≠ 0) :
    (ptmxopen calls locals ptmx port).ptmx = ptmx := by
  revert hfailed
  fun_cases ptmxopen calls locals ptmx port <;> simp

/-- **Closing undoes opening** exactly when the uninitialised variable agrees with the
configuration of the port wherever `ptmxopen` changes nothing, and that configuration is
already as `ptmxopen` would make it. -/
theorem ptmxclose_undoes_iff (fd : ℕ) (name : List Char) (locals : Locals) (ptmx : Ptmx)
    (port : Port) :
    let opened := ptmxopen (.succeed fd name) locals ptmx port
    let closed := ptmxclose .succeed opened.ptmx opened.port
    (port.configuration.Agrees opened.port.configuration ∧
        closed.port.configuration = port.configuration) ↔
      port.configuration.Agrees locals.newtio ∧ port.configuration.IsRaw := by
  intro opened closed
  have hopened : opened.port.configuration = locals.newtio.raw := rfl
  have hclosed : closed.port.configuration = locals.newtio.raw := rfl
  rw [hopened, hclosed, Termios.agrees_raw, Termios.raw_eq_iff, and_self_left]

/-- A new pseudo-terminal as the system configures it. -/
def newPort : Port where
  isOpen        := false
  configuration :=
    { c_iflag := 0x500, c_oflag := 0x5, c_cflag := 0xbf, c_lflag := 0x8a3b, c_line := 0,
      c_cc := fun i => [3, 28, 127, 21, 4, 0, 1, 0, 17, 19, 26, 0, 18, 15, 23, 22].getD i 0,
      c_ispeed := 15, c_ospeed := 15 }
  input         := []

/-- Local variables that happen to be zero but for CREAD, which a pseudo-terminal always has:
`tcsetattr` would report its absence. -/
def creadLocals : Locals :=
  let newtio : Termios := ⟨0, 0, Termios.cread, 0, 0, fun _ => 0, 0, 0⟩
  ⟨newtio, newtio⟩

theorem not_forall_ptmxclose_undoes :
    ¬ ∀ (fd : ℕ) (name : List Char) (locals : Locals) (ptmx : Ptmx) (port : Port),
      let opened := ptmxopen (.succeed fd name) locals ptmx port
      let closed := ptmxclose .succeed opened.ptmx opened.port
      port.configuration.Agrees opened.port.configuration ∧
        closed.port.configuration = port.configuration := by
  intro h
  have hundone := (h 3 [] creadLocals ⟨0, [], creadLocals.newtio⟩ newPort).2
  exact absurd (congrArg Termios.c_iflag hundone) (by decide)

end Embsys.Gps
