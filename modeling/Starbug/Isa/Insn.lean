import Mathlib.Data.Finset.Basic

/-!
# The instruction record of the analysis tools (`tools/starbug_isa.py`, first part)

Instruction classes, the dependence-analysis register numbers (`x0..x31` are `0..31`,
`f0..f31` are `fregBase..fregBase+31`), the record `Insn`, and HINT detection.

The Python constructor drops `x0` from both register sets.  Here that is an invariant of the
type: `Insn.init` is the constructor of the source, the fields `reads_x0`, `writes_x0` say what
it guarantees.
-/

namespace Starbug

/-! ## classes -/

inductive Cls where
  | alu | mul | load | store | branch | jump | system | atomic | pcrel | fpu | fpdiv | unknown
  deriving DecidableEq, Repr

def Cls.name : Cls → String
  | .alu => "alu"
  | .mul => "mul"
  | .load => "load"
  | .store => "store"
  | .branch => "branch"
  | .jump => "jump"
  | .system => "system"
  | .atomic => "atomic"
  | .pcrel => "pcrel"
  | .fpu => "fpu"
  | .fpdiv => "fpdiv"
  | .unknown => "unknown"

def lane0Only : List Cls :=
  [.load, .store, .branch, .jump, .system, .atomic, .pcrel, .unknown]

/-- `LSU_CLASSES`: classes that occupy the single shared LSU -/
def lsuClasses : List Cls := [.load, .store, .atomic]

/-! ## register numbers -/

def fregBase : Nat := 32

def F (n : Nat) : Nat := fregBase + (n &&& 31)

def regname (n : Nat) : String :=
  if fregBase ≤ n then s!"f{n - fregBase}" else s!"x{n}"

/-! ## instructions -/

structure Insn where
  addr : Nat
  word : Nat
  size : Nat
  cls : Cls
  reads : Finset Nat
  writes : Finset Nat
  text : String
  reads_x0 : 0 ∉ reads
  writes_x0 : 0 ∉ writes
  deriving DecidableEq

/-- `{r for r in regs if r != 0}` -/
def dropX0 (regs : List Nat) : Finset Nat := regs.toFinset.filter (· ≠ 0)

theorem mem_dropX0 {regs : List Nat} {r : Nat} : r ∈ dropX0 regs ↔ r ∈ regs ∧ r ≠ 0 := by
  simp [dropX0]

theorem zero_notMem_dropX0 (regs : List Nat) : 0 ∉ dropX0 regs := by
  simp [dropX0]

/-- `Insn.__init__` with its default text -/
def Insn.init (addr word size : Nat) (cls : Cls) (reads writes : List Nat) : Insn where
  addr := addr
  word := word
  size := size
  cls := cls
  reads := dropX0 reads
  writes := dropX0 writes
  text := ""
  reads_x0 := zero_notMem_dropX0 reads
  writes_x0 := zero_notMem_dropX0 writes

def Insn.isLane0Only (i : Insn) : Bool := i.cls ∈ lane0Only

def Insn.usesLsu (i : Insn) : Bool := i.cls ∈ lsuClasses

theorem Insn.isLane0Only_of_usesLsu {i : Insn} (h : i.usesLsu = true) : i.isLane0Only = true := by
  unfold usesLsu isLane0Only at *
  revert h
  cases i.cls <;> decide

def isCompressed (word : Nat) : Bool := (word &&& 3) != 3

/-! ## HINT detection -/

/-- `MAX_BUNDLE`: `ifu.sv` forms a bundle for `1 ≤ imm_c ≤ 4` only -/
def maxBundle : Nat := 4

/-- the raw 6-bit immediate `{instr[12], instr[6:2]}` -/
def hintImm (word : Nat) : Nat := (((word >>> 12) &&& 1) <<< 5) ||| ((word >>> 2) &&& 0x1F)

/-- bundle length encoded by a HINT (`C.LI x0, imm` with a nonzero immediate) -/
def hintLength (word : Nat) : Option Nat :=
  if (word &&& 3) ≠ 1 then none
  else if ((word >>> 13) &&& 7) ≠ 2 then none
  else if ((word >>> 7) &&& 0x1F) ≠ 0 then none
  else if hintImm word = 0 then none
  else some (hintImm word)

theorem hintLength_pos {word n : Nat} (h : hintLength word = some n) : 1 ≤ n := by
  unfold hintLength at h
  split_ifs at h with h1 h2 h3 h4
  obtain rfl := Option.some.inj h
  omega

end Starbug
