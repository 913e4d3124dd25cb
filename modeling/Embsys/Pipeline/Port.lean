/-
# The port

Both programs that use UDP take the port from the text of `-p`, through `atoi`, and
store it through `htons`, which keeps its low 16 bits. Neither looks at the rest of
the text or at the range of the number.
-/

import Embsys.Pipeline.Arguments
import Embsys.NetReader.Socket

namespace Embsys.Pipeline

open Embsys.Math Embsys.C Embsys.Os

/-- `ntohs`: the port that a `sin_port` stands for. -/
def ntohs (sinPort : BitVec 16) : BitVec 16 :=
  sinPort.extractLsb' 0 8 ++ sinPort.extractLsb' 8 8

theorem ntohs_htons (port : ℤ) : ntohs (Forwarder.htons port) = BitVec.ofInt 16 port := by
  unfold ntohs Forwarder.htons
  ext i hi
  simp only [BitVec.getElem_append, BitVec.getElem_extractLsb']
  by_cases hlow : i < 8
  · simp only [hlow, dif_pos]
    grind
  · simp only [hlow]
    grind

/-- The two programs with a port. -/
inductive Udp
  | netReader
  | forwarder

/-- The last text given to `-p`. -/
def Udp.text : Udp → Argv → Option (List Char)
  | .netReader, argv => lastArg 'p' (getopts NetReader.options (.start argv))
  | .forwarder, argv => lastArg 'p' (getopts Forwarder.options (.start argv))

/-- A program that accepts the command line and opens its socket stores this port. -/
def Udp.Stores : Udp → Argv → BitVec 16 → Prop
  | .netReader, argv, port =>
      ∃ opts accepted handlers socket bind system after system',
        NetReader.parseArgs argv opts = (0, accepted) ∧
        NetReader.initSocket accepted.port handlers socket bind system = (0, after, system') ∧
        ntohs after.infoMe.sinPort = port
  | .forwarder, argv, port =>
      ∃ opts accepted sem shm handlers outcomes system after system',
        Forwarder.parseArgs argv opts = (0, accepted) ∧
        accepted.sem = some sem ∧ accepted.shm = some shm ∧
        Forwarder.hndopen ⟨sem, shm, accepted.port⟩ handlers outcomes system =
          (0, after, system') ∧
        ntohs after.infoMe.sinPort = port

/-- The text writes this number in decimal. -/
def Writes (text : List Char) (n : ℕ) : Prop :=
  AllDigits text ∧ text ≠ [] ∧ digitsValue text = n

/-! ## From the text to the port -/

/-- A number of 16 bits is read as it is written. -/
theorem atoiInt_of_writes {text : List Char} {n : ℕ} (hn : n < 65536) (htext : Writes text n) :
    atoiInt text = n := by
  obtain ⟨hdigits, -, hvalue⟩ := htext
  rw [atoiInt, atoi_digits hdigits, hvalue, min_eq_left (by omega), max_eq_right (by omega)]
  exact Int.bmod_eq_of_le (by omega) (by omega)

theorem toNat_ofInt_port (port : ℤ) : ((BitVec.ofInt 16 port).toNat : ℤ) = port % 65536 := by
  rw [BitVec.toNat_ofInt, Int.toNat_of_nonneg (Int.emod_nonneg _ (by decide))]
  rfl

/-- What is stored is what `atoi` reads in the last text. -/
theorem port_of_stores {program : Udp} {argv : Argv} {port : BitVec 16}
    (hstores : program.Stores argv port) :
    ∃ text, program.text argv = some text ∧ port = BitVec.ofInt 16 (atoiInt text) := by
  cases program with
  | netReader =>
      obtain ⟨opts, accepted, handlers, socket, bind, system, after, system', hparse, hsocket,
        rfl⟩ := hstores
      have hset := NetReader.parseArgs_allOrNothing argv opts
      rw [hparse] at hset
      rcases hset with hfail | ⟨-, text, htext, hport⟩
      · simp at hfail
      · refine ⟨text, htext, ?_⟩
        rw [NetReader.sinPort_of_initSocket hsocket, ntohs_htons, hport]
  | forwarder =>
      obtain ⟨opts, accepted, sem, shm, handlers, outcomes, system, after, system', hparse, -, -,
        hopen, rfl⟩ := hstores
      have hset := Forwarder.parseArgs_allOrNothing argv opts
      rw [hparse] at hset
      rcases hset with hfail | ⟨-, -, -, text, htext, hport⟩
      · simp at hfail
      · refine ⟨text, htext, ?_⟩
        rcases Forwarder.hndopen_cases ⟨sem, shm, accepted.port⟩ handlers outcomes system with
          ⟨opened, last, hdone, -, -, -, hinfo⟩ | ⟨opened, last, hfailed, -, -⟩
        · rw [hopen] at hdone
          obtain ⟨rfl, -⟩ := Prod.mk.inj (Prod.mk.inj hdone).2
          rw [hinfo, ntohs_htons, hport]
        · have hzero := congrArg Prod.fst (hopen.symm.trans hfailed)
          exact absurd hzero.symm (Forwarder.hndfail_ne_zero _ _)

/-- **Ports stored.** The port stored is the number `atoi` reads in the last text given to
`-p`, modulo 65536: a text that writes a number of 16 bits gives that number, and two
accepted texts give one port exactly when their numbers agree modulo 65536. -/
theorem stores_port {program other : Udp} {argv argv' : Argv} {port port' : BitVec 16}
    (hstores : program.Stores argv port) (hstores' : other.Stores argv' port') :
    ∃ text text', program.text argv = some text ∧ other.text argv' = some text' ∧
      (port.toNat : ℤ) = atoiInt text % 65536 ∧
      (∀ n < 65536, Writes text n → port.toNat = n) ∧
      (port = port' ↔ atoiInt text % 65536 = atoiInt text' % 65536) := by
  obtain ⟨text, htext, rfl⟩ := port_of_stores hstores
  obtain ⟨text', htext', rfl⟩ := port_of_stores hstores'
  refine ⟨text, text', htext, htext', toNat_ofInt_port _, ?_, ?_⟩
  · intro n hn hwrites
    have hport := toNat_ofInt_port (atoiInt text)
    rw [atoiInt_of_writes hn hwrites] at hport ⊢
    omega
  · rw [← toNat_ofInt_port, ← toNat_ofInt_port, Nat.cast_inj, BitVec.toNat_inj]

/-- `net_reader -p text`. -/
def netReaderArgv (text : List Char) : Argv :=
  [['n'], ['-', 'p'], text]

/-- A system before the program opens anything. -/
def idle : System where
  kernel := ⟨fun _ => none, fun _ => none, fun _ => ⟨0, fun _ => 0⟩, 0⟩
  ledger := ⟨[], [], []⟩

theorem stores_http : Udp.netReader.Stores (netReaderArgv ['8', '0']) 80 :=
  ⟨⟨0⟩, ⟨80⟩, ⟨0, .zero⟩, some 3, true, idle, _, _, by decide +kernel, rfl, by decide⟩

/-- The text 65616 is accepted and stored as 80. -/
theorem stores_wrapped : Udp.netReader.Stores (netReaderArgv ['6', '5', '6', '1', '6']) 80 :=
  ⟨⟨0⟩, ⟨65616⟩, ⟨0, .zero⟩, some 3, true, idle, _, _, by decide +kernel, rfl, by decide⟩

theorem stores_port_wrapped :
    ∃ text text', Udp.netReader.text (netReaderArgv ['8', '0']) = some text ∧
      Udp.netReader.text (netReaderArgv ['6', '5', '6', '1', '6']) = some text' ∧
      ((80 : BitVec 16).toNat : ℤ) = atoiInt text % 65536 ∧
      (∀ n < 65536, Writes text n → (80 : BitVec 16).toNat = n) ∧
      ((80 : BitVec 16) = 80 ↔ atoiInt text % 65536 = atoiInt text' % 65536) :=
  stores_port stores_http stores_wrapped

/-- A text beyond the range is accepted. -/
theorem not_forall_stores_port :
    ¬ ∀ (program : Udp) (argv : Argv) (port : BitVec 16), program.Stores argv port →
      ∃ text n, program.text argv = some text ∧ n < 65536 ∧ Writes text n ∧ port.toNat = n := by
  intro h
  obtain ⟨text, n, htext, hn, ⟨-, -, hvalue⟩, -⟩ := h _ _ _ stores_wrapped
  have hlast : Udp.netReader.text (netReaderArgv ['6', '5', '6', '1', '6']) =
      some ['6', '5', '6', '1', '6'] := by
    decide +kernel
  obtain rfl := Option.some.inj (htext.symm.trans hlast)
  have hnumber : digitsValue ['6', '5', '6', '1', '6'] = 65616 := by decide
  omega

end Embsys.Pipeline
