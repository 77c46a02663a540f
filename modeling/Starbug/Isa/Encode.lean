import Starbug.Isa.Decode
import Starbug.Lib.Bits

/-!
# The ISA manual's side: RV32IMAF instructions, their words and their operands

`Instr` is one constructor per instruction form of the manual, operand and immediate fields as
bit vectors of the field's width, so every operand, immediate and rounding mode is covered.
`Instr.encode` is the word of the encoding tables (reserved fields zero).  `Instr.cls`,
`Instr.reads`, `Instr.writes` are written from the manual's operand lists and the class list of
`starbug_isa.py`; nothing here mentions the decoder.

The CSR instructions are included: F cannot be used without them, and the class list names
them.  `fld`, `fsd` are included because RVC words expand to them.
-/

namespace Starbug

/-! ## operation names -/

inductive BranchOp where
  | beq | bne | blt | bge | bltu | bgeu
  deriving DecidableEq, Repr

def BranchOp.funct3 : BranchOp → BitVec 3
  | .beq => 0 | .bne => 1 | .blt => 4 | .bge => 5 | .bltu => 6 | .bgeu => 7

inductive LoadOp where
  | lb | lh | lw | lbu | lhu
  deriving DecidableEq, Repr

def LoadOp.funct3 : LoadOp → BitVec 3
  | .lb => 0 | .lh => 1 | .lw => 2 | .lbu => 4 | .lhu => 5

inductive StoreOp where
  | sb | sh | sw
  deriving DecidableEq, Repr

def StoreOp.funct3 : StoreOp → BitVec 3
  | .sb => 0 | .sh => 1 | .sw => 2

inductive ImmOp where
  | addi | slti | sltiu | xori | ori | andi
  deriving DecidableEq, Repr

def ImmOp.funct3 : ImmOp → BitVec 3
  | .addi => 0 | .slti => 2 | .sltiu => 3 | .xori => 4 | .ori => 6 | .andi => 7

inductive ShiftOp where
  | slli | srli | srai
  deriving DecidableEq, Repr

def ShiftOp.funct3 : ShiftOp → BitVec 3
  | .slli => 1 | .srli => 5 | .srai => 5

def ShiftOp.funct7 : ShiftOp → BitVec 7
  | .slli => 0 | .srli => 0 | .srai => 0x20

inductive RegOp where
  | add | sub | sll | slt | sltu | xor | srl | sra | or | and
  deriving DecidableEq, Repr

def RegOp.funct3 : RegOp → BitVec 3
  | .add => 0 | .sub => 0 | .sll => 1 | .slt => 2 | .sltu => 3
  | .xor => 4 | .srl => 5 | .sra => 5 | .or => 6 | .and => 7

def RegOp.funct7 : RegOp → BitVec 7
  | .sub => 0x20 | .sra => 0x20 | _ => 0

inductive MulOp where
  | mul | mulh | mulhsu | mulhu | div | divu | rem | remu
  deriving DecidableEq, Repr

def MulOp.funct3 : MulOp → BitVec 3
  | .mul => 0 | .mulh => 1 | .mulhsu => 2 | .mulhu => 3
  | .div => 4 | .divu => 5 | .rem => 6 | .remu => 7

inductive CsrOp where
  | csrrw | csrrs | csrrc
  deriving DecidableEq, Repr

/-- `funct3` of the register form; the immediate form sets bit 2 -/
def CsrOp.funct3 : CsrOp → BitVec 3
  | .csrrw => 1 | .csrrs => 2 | .csrrc => 3

inductive AmoOp where
  | sc | amoswap | amoadd | amoxor | amoand | amoor | amomin | amomax | amominu | amomaxu
  deriving DecidableEq, Repr

def AmoOp.funct5 : AmoOp → BitVec 5
  | .sc => 0x03 | .amoswap => 0x01 | .amoadd => 0x00 | .amoxor => 0x04 | .amoand => 0x0C
  | .amoor => 0x08 | .amomin => 0x10 | .amomax => 0x14 | .amominu => 0x18 | .amomaxu => 0x1C

inductive FpWidth where
  | w | d
  deriving DecidableEq, Repr

def FpWidth.funct3 : FpWidth → BitVec 3
  | .w => 2 | .d => 3

inductive FmaOp where
  | fmadd | fmsub | fnmsub | fnmadd
  deriving DecidableEq, Repr

def FmaOp.opcode : FmaOp → BitVec 7
  | .fmadd => 0x43 | .fmsub => 0x47 | .fnmsub => 0x4B | .fnmadd => 0x4F

/-- arithmetic with a rounding mode -/
inductive FArithOp where
  | fadd | fsub | fmul | fdiv
  deriving DecidableEq, Repr

def FArithOp.funct7 : FArithOp → BitVec 7
  | .fadd => 0x00 | .fsub => 0x04 | .fmul => 0x08 | .fdiv => 0x0C

/-- two-source operations selected by `rm` -/
inductive FSelOp where
  | fsgnj | fsgnjn | fsgnjx | fmin | fmax
  deriving DecidableEq, Repr

def FSelOp.funct7 : FSelOp → BitVec 7
  | .fsgnj => 0x10 | .fsgnjn => 0x10 | .fsgnjx => 0x10 | .fmin => 0x14 | .fmax => 0x14

def FSelOp.rm : FSelOp → BitVec 3
  | .fsgnj => 0 | .fsgnjn => 1 | .fsgnjx => 2 | .fmin => 0 | .fmax => 1

inductive FCmpOp where
  | feq | flt | fle
  deriving DecidableEq, Repr

def FCmpOp.rm : FCmpOp → BitVec 3
  | .feq => 2 | .flt => 1 | .fle => 0

/-- `rs2` of a conversion: signed or unsigned word -/
def cvtSel (unsigned : Bool) : BitVec 5 := if unsigned then 1 else 0

/-! ## instruction forms -/

inductive Instr where
  -- RV32I
  | lui (rd : BitVec 5) (imm : BitVec 20)
  | auipc (rd : BitVec 5) (imm : BitVec 20)
  | jal (rd : BitVec 5) (imm : BitVec 20)
  | jalr (rd rs1 : BitVec 5) (imm : BitVec 12)
  | branch (op : BranchOp) (rs1 rs2 : BitVec 5) (imm : BitVec 12)
  | load (op : LoadOp) (rd rs1 : BitVec 5) (imm : BitVec 12)
  | store (op : StoreOp) (rs1 rs2 : BitVec 5) (imm : BitVec 12)
  | opImm (op : ImmOp) (rd rs1 : BitVec 5) (imm : BitVec 12)
  | shiftImm (op : ShiftOp) (rd rs1 shamt : BitVec 5)
  | opReg (op : RegOp) (rd rs1 rs2 : BitVec 5)
  | fence (fm pred succ : BitVec 4)
  | ecall
  | ebreak
  | csr (op : CsrOp) (rd rs1 : BitVec 5) (csrNo : BitVec 12)
  | csrImm (op : CsrOp) (rd uimm : BitVec 5) (csrNo : BitVec 12)
  -- M
  | mul (op : MulOp) (rd rs1 rs2 : BitVec 5)
  -- A
  | lr (aq rl : BitVec 1) (rd rs1 : BitVec 5)
  | amo (op : AmoOp) (aq rl : BitVec 1) (rd rs1 rs2 : BitVec 5)
  -- F
  | loadFp (width : FpWidth) (rd rs1 : BitVec 5) (imm : BitVec 12)
  | storeFp (width : FpWidth) (rs1 rs2 : BitVec 5) (imm : BitVec 12)
  | fma (op : FmaOp) (rd rs1 rs2 rs3 : BitVec 5) (rm : BitVec 3)
  | farith (op : FArithOp) (rd rs1 rs2 : BitVec 5) (rm : BitVec 3)
  | fsqrt (rd rs1 : BitVec 5) (rm : BitVec 3)
  | fsel (op : FSelOp) (rd rs1 rs2 : BitVec 5)
  | fcmp (op : FCmpOp) (rd rs1 rs2 : BitVec 5)
  | fcvtToInt (unsigned : Bool) (rd rs1 : BitVec 5) (rm : BitVec 3)
  | fcvtFromInt (unsigned : Bool) (rd rs1 : BitVec 5) (rm : BitVec 3)
  | fmvToInt (rd rs1 : BitVec 5)
  | fmvFromInt (rd rs1 : BitVec 5)
  | fclass (rd rs1 : BitVec 5)
  deriving DecidableEq, Repr

/-! ## words -/

/-- the R-type layout; every other format is this one with its immediate cut into the fields -/
def word32 (funct7 : BitVec 7) (rs2 rs1 : BitVec 5) (funct3 : BitVec 3) (rd : BitVec 5)
    (opcode : BitVec 7) : BitVec 32 :=
  funct7 ++ rs2 ++ rs1 ++ funct3 ++ rd ++ opcode

def iWord (imm : BitVec 12) (rs1 : BitVec 5) (funct3 : BitVec 3) (rd : BitVec 5)
    (opcode : BitVec 7) : BitVec 32 :=
  word32 (imm.extractLsb' 5 7) (imm.extractLsb' 0 5) rs1 funct3 rd opcode

def sWord (imm : BitVec 12) (rs2 rs1 : BitVec 5) (funct3 : BitVec 3) (opcode : BitVec 7) :
    BitVec 32 :=
  word32 (imm.extractLsb' 5 7) rs2 rs1 funct3 (imm.extractLsb' 0 5) opcode

/-- B-type: `imm` holds offset bits `12..1`; the word has `12|10:5` and `4:1|11` -/
def bWord (imm : BitVec 12) (rs2 rs1 : BitVec 5) (funct3 : BitVec 3) (opcode : BitVec 7) :
    BitVec 32 :=
  word32 (imm.extractLsb' 11 1 ++ imm.extractLsb' 4 6) rs2 rs1 funct3
    (imm.extractLsb' 0 4 ++ imm.extractLsb' 10 1) opcode

/-- U-type: the 20 immediate bits above `rd` -/
def uWord (imm : BitVec 20) (rd : BitVec 5) (opcode : BitVec 7) : BitVec 32 :=
  word32 (imm.extractLsb' 13 7) (imm.extractLsb' 8 5) (imm.extractLsb' 3 5) (imm.extractLsb' 0 3)
    rd opcode

/-- J-type: `imm` holds offset bits `20..1`; the word has `20|10:1|11|19:12` -/
def jWord (imm : BitVec 20) (rd : BitVec 5) (opcode : BitVec 7) : BitVec 32 :=
  uWord (imm.extractLsb' 19 1 ++ imm.extractLsb' 0 10 ++ imm.extractLsb' 10 1
    ++ imm.extractLsb' 11 8) rd opcode

def Instr.encode : Instr → BitVec 32
  | .lui rd imm => uWord imm rd 0x37
  | .auipc rd imm => uWord imm rd 0x17
  | .jal rd imm => jWord imm rd 0x6F
  | .jalr rd rs1 imm => iWord imm rs1 0 rd 0x67
  | .branch op rs1 rs2 imm => bWord imm rs2 rs1 op.funct3 0x63
  | .load op rd rs1 imm => iWord imm rs1 op.funct3 rd 0x03
  | .store op rs1 rs2 imm => sWord imm rs2 rs1 op.funct3 0x23
  | .opImm op rd rs1 imm => iWord imm rs1 op.funct3 rd 0x13
  | .shiftImm op rd rs1 shamt => word32 op.funct7 shamt rs1 op.funct3 rd 0x13
  | .opReg op rd rs1 rs2 => word32 op.funct7 rs2 rs1 op.funct3 rd 0x33
  | .fence fm pred succ => iWord (fm ++ pred ++ succ) 0 0 0 0x0F
  | .ecall => iWord 0 0 0 0 0x73
  | .ebreak => iWord 1 0 0 0 0x73
  | .csr op rd rs1 csrNo => iWord csrNo rs1 op.funct3 rd 0x73
  | .csrImm op rd uimm csrNo => iWord csrNo uimm (4 ||| op.funct3) rd 0x73
  | .mul op rd rs1 rs2 => word32 1 rs2 rs1 op.funct3 rd 0x33
  | .lr aq rl rd rs1 => word32 ((0x02 : BitVec 5) ++ aq ++ rl) 0 rs1 2 rd 0x2F
  | .amo op aq rl rd rs1 rs2 => word32 (op.funct5 ++ aq ++ rl) rs2 rs1 2 rd 0x2F
  | .loadFp width rd rs1 imm => iWord imm rs1 width.funct3 rd 0x07
  | .storeFp width rs1 rs2 imm => sWord imm rs2 rs1 width.funct3 0x27
  | .fma op rd rs1 rs2 rs3 rm => word32 (rs3 ++ (0 : BitVec 2)) rs2 rs1 rm rd op.opcode
  | .farith op rd rs1 rs2 rm => word32 op.funct7 rs2 rs1 rm rd 0x53
  | .fsqrt rd rs1 rm => word32 0x2C 0 rs1 rm rd 0x53
  | .fsel op rd rs1 rs2 => word32 op.funct7 rs2 rs1 op.rm rd 0x53
  | .fcmp op rd rs1 rs2 => word32 0x50 rs2 rs1 op.rm rd 0x53
  | .fcvtToInt unsigned rd rs1 rm => word32 0x60 (cvtSel unsigned) rs1 rm rd 0x53
  | .fcvtFromInt unsigned rd rs1 rm => word32 0x68 (cvtSel unsigned) rs1 rm rd 0x53
  | .fmvToInt rd rs1 => word32 0x70 0 rs1 0 rd 0x53
  | .fmvFromInt rd rs1 => word32 0x78 0 rs1 0 rd 0x53
  | .fclass rd rs1 => word32 0x70 0 rs1 1 rd 0x53

/-! ## classes and operands -/

/-- an integer operand: `x0` carries no dependence -/
def xreg (r : BitVec 5) : Finset Nat := if r = 0 then ∅ else {r.toNat}

/-- a floating-point operand: `f0` is an ordinary register -/
def freg (r : BitVec 5) : Finset Nat := {fregBase + r.toNat}

def Instr.cls : Instr → Cls
  | .lui .. | .opImm .. | .shiftImm .. | .opReg .. => .alu
  | .auipc .. => .pcrel
  | .jal .. | .jalr .. => .jump
  | .branch .. => .branch
  | .load .. | .loadFp .. => .load
  | .store .. | .storeFp .. => .store
  | .fence .. | .ecall | .ebreak | .csr .. | .csrImm .. => .system
  | .mul .. => .mul
  | .lr .. | .amo .. => .atomic
  | .farith .fdiv .. | .fsqrt .. => .fpdiv
  | .fma .. | .farith .. | .fsel .. | .fcmp .. | .fcvtToInt .. | .fcvtFromInt .. | .fmvToInt ..
  | .fmvFromInt .. | .fclass .. => .fpu

def Instr.reads : Instr → Finset Nat
  | .lui .. | .auipc .. | .jal .. | .fence .. | .ecall | .ebreak | .csrImm .. => ∅
  | .jalr _ rs1 _ | .load _ _ rs1 _ | .opImm _ _ rs1 _ | .shiftImm _ _ rs1 _ | .csr _ _ rs1 _
  | .lr _ _ _ rs1 | .loadFp _ _ rs1 _ | .fcvtFromInt _ _ rs1 _ | .fmvFromInt _ rs1 => xreg rs1
  | .branch _ rs1 rs2 _ | .store _ rs1 rs2 _ | .opReg _ _ rs1 rs2 | .mul _ _ rs1 rs2
  | .amo _ _ _ _ rs1 rs2 => xreg rs1 ∪ xreg rs2
  | .storeFp _ rs1 rs2 _ => xreg rs1 ∪ freg rs2
  | .fma _ _ rs1 rs2 rs3 _ => freg rs1 ∪ freg rs2 ∪ freg rs3
  | .farith _ _ rs1 rs2 _ | .fsel _ _ rs1 rs2 | .fcmp _ _ rs1 rs2 => freg rs1 ∪ freg rs2
  | .fsqrt _ rs1 _ | .fcvtToInt _ _ rs1 _ | .fmvToInt _ rs1 | .fclass _ rs1 => freg rs1

def Instr.writes : Instr → Finset Nat
  | .branch .. | .store .. | .storeFp .. | .fence .. | .ecall | .ebreak => ∅
  | .lui rd _ | .auipc rd _ | .jal rd _ | .jalr rd _ _ | .load _ rd _ _ | .opImm _ rd _ _
  | .shiftImm _ rd _ _ | .opReg _ rd _ _ | .csr _ rd _ _ | .csrImm _ rd _ _ | .mul _ rd _ _
  | .lr _ _ rd _ | .amo _ _ _ rd _ _ | .fcmp _ rd _ _ | .fcvtToInt _ rd _ _ | .fmvToInt rd _
  | .fclass rd _ => xreg rd
  | .loadFp _ rd _ _ | .fma _ rd _ _ _ _ | .farith _ rd _ _ _ | .fsqrt rd _ _ | .fsel _ rd _ _
  | .fcvtFromInt _ rd _ _ | .fmvFromInt rd _ => freg rd

end Starbug
