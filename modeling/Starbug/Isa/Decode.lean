import Starbug.Isa.Insn

/-!
# The decoder (`tools/starbug_isa.py`, second part)

`decode32` for RV32IMAF words, `decode16` for RVC words, `decode` that dispatches on the two
low bits.  A word is a Python integer, so a field is a shift and a mask of a `Nat`.
-/

namespace Starbug

/-! ## OP-FP -/

inductive OpfpShape where
  | ff | ff1 | xff | xf | fx
  deriving DecidableEq, Repr

/-- `_OPFP_SHAPE`, keyed on `funct7[6:2]` -/
def opfpShape : Nat → Option OpfpShape
  | 0x00 => some .ff
  | 0x01 => some .ff
  | 0x02 => some .ff
  | 0x03 => some .ff
  | 0x04 => some .ff
  | 0x05 => some .ff
  | 0x08 => some .ff1
  | 0x0B => some .ff1
  | 0x14 => some .xff
  | 0x18 => some .xf
  | 0x1A => some .fx
  | 0x1C => some .xf
  | 0x1E => some .fx
  | _ => none

def opfpLongLatency : List Nat := [0x03, 0x0B]

def decodeOpFp (addr w rd rs1 rs2 funct7 : Nat) : Insn :=
  let f5 := funct7 >>> 2
  let cls := if f5 ∈ opfpLongLatency then Cls.fpdiv else Cls.fpu
  match opfpShape f5 with
  | none => .init addr w 4 .unknown [F rs1, F rs2] [F rd]
  | some .ff => .init addr w 4 cls [F rs1, F rs2] [F rd]
  | some .ff1 => .init addr w 4 cls [F rs1] [F rd]
  | some .xff => .init addr w 4 cls [F rs1, F rs2] [rd]
  | some .xf => .init addr w 4 cls [F rs1] [rd]
  | some .fx => .init addr w 4 cls [rs1] [F rd]

/-! ## 32-bit words -/

def decode32 (addr w : Nat) : Insn :=
  let opcode := w &&& 0x7F
  let rd := (w >>> 7) &&& 0x1F
  let rs1 := (w >>> 15) &&& 0x1F
  let rs2 := (w >>> 20) &&& 0x1F
  let funct7 := (w >>> 25) &&& 0x7F
  if opcode = 0x37 then .init addr w 4 .alu [] [rd]                    -- LUI
  else if opcode = 0x17 then .init addr w 4 .pcrel [] [rd]             -- AUIPC
  else if opcode = 0x6F then .init addr w 4 .jump [] [rd]              -- JAL
  else if opcode = 0x67 then .init addr w 4 .jump [rs1] [rd]           -- JALR
  else if opcode = 0x63 then .init addr w 4 .branch [rs1, rs2] []      -- BRANCH
  else if opcode = 0x03 then .init addr w 4 .load [rs1] [rd]           -- LOAD
  else if opcode = 0x23 then .init addr w 4 .store [rs1, rs2] []       -- STORE
  else if opcode = 0x13 then .init addr w 4 .alu [rs1] [rd]            -- OP-IMM
  else if opcode = 0x33 then                                           -- OP
    .init addr w 4 (if funct7 = 0x01 then .mul else .alu) [rs1, rs2] [rd]
  else if opcode = 0x0F then .init addr w 4 .system [rs1] [rd]         -- MISC-MEM
  else if opcode = 0x73 then .init addr w 4 .system [rs1] [rd]         -- SYSTEM
  else if opcode = 0x2F then .init addr w 4 .atomic [rs1, rs2] [rd]    -- AMO
  else if opcode = 0x07 then .init addr w 4 .load [rs1] [F rd]         -- LOAD-FP
  else if opcode = 0x27 then .init addr w 4 .store [rs1, F rs2] []     -- STORE-FP
  else if opcode ∈ [0x43, 0x47, 0x4B, 0x4F] then                       -- FMADD and the like
    let rs3 := (w >>> 27) &&& 0x1F
    .init addr w 4 .fpu [F rs1, F rs2, F rs3] [F rd]
  else if opcode = 0x53 then decodeOpFp addr w rd rs1 rs2 funct7       -- OP-FP
  else .init addr w 4 .unknown [rs1, rs2] [rd]

/-! ## 16-bit words -/

/-- a 3-bit compressed register field names `x8..x15` -/
def rvcReg (x : Nat) : Nat := (x &&& 7) + 8

def decode16 (addr w : Nat) : Insn :=
  let op := w &&& 3
  let funct3 := (w >>> 13) &&& 7
  let rdFull := (w >>> 7) &&& 0x1F
  let rs2Full := (w >>> 2) &&& 0x1F
  let rdp := rvcReg (w >>> 2)
  let rs1p := rvcReg (w >>> 7)
  let rs2p := rvcReg (w >>> 2)
  if op = 0 then
    if funct3 = 0 then                                                 -- C.ADDI4SPN
      if w = 0 then .init addr w 2 .unknown [] []
      else .init addr w 2 .alu [2] [rdp]
    else if funct3 = 2 then .init addr w 2 .load [rs1p] [rdp]          -- C.LW
    else if funct3 = 6 then .init addr w 2 .store [rs1p, rs2p] []      -- C.SW
    else if funct3 ∈ [1, 3] then .init addr w 2 .load [rs1p] [F rs2p]  -- C.FLD, C.FLW
    else if funct3 ∈ [5, 7] then .init addr w 2 .store [rs1p, F rs2p] []  -- C.FSD, C.FSW
    else .init addr w 2 .unknown [] []
  else if op = 1 then
    if funct3 = 0 then                                                 -- C.ADDI
      if rdFull = 0 then .init addr w 2 .alu [] []
      else .init addr w 2 .alu [rdFull] [rdFull]
    else if funct3 = 1 then .init addr w 2 .jump [] [1]                -- C.JAL
    else if funct3 = 2 then .init addr w 2 .alu [] [rdFull]            -- C.LI
    else if funct3 = 3 then                                            -- C.ADDI16SP, C.LUI
      if rdFull = 2 then .init addr w 2 .alu [2] [2]
      else .init addr w 2 .alu [] [rdFull]
    else if funct3 = 4 then                                            -- MISC-ALU
      let sub := (w >>> 10) &&& 3
      if sub ∈ [0, 1] then .init addr w 2 .alu [rs1p] [rs1p]           -- C.SRLI, C.SRAI
      else if sub = 2 then .init addr w 2 .alu [rs1p] [rs1p]           -- C.ANDI
      else .init addr w 2 .alu [rs1p, rs2p] [rs1p]
    else if funct3 = 5 then .init addr w 2 .jump [] []                 -- C.J
    else if funct3 ∈ [6, 7] then .init addr w 2 .branch [rs1p] []      -- C.BEQZ, C.BNEZ
    else .init addr w 2 .unknown [] []
  else if op = 2 then
    if funct3 = 0 then .init addr w 2 .alu [rdFull] [rdFull]           -- C.SLLI
    else if funct3 = 2 then .init addr w 2 .load [2] [rdFull]          -- C.LWSP
    else if funct3 ∈ [1, 3] then .init addr w 2 .load [2] [F rdFull]   -- C.FLDSP, C.FLWSP
    else if funct3 = 4 then
      let bit12 := (w >>> 12) &&& 1
      if bit12 = 0 then
        if rs2Full = 0 then .init addr w 2 .jump [rdFull] []           -- C.JR
        else .init addr w 2 .alu [rs2Full] [rdFull]                    -- C.MV
      else if rdFull = 0 ∧ rs2Full = 0 then .init addr w 2 .system [] []  -- C.EBREAK
      else if rs2Full = 0 then .init addr w 2 .jump [rdFull] [1]       -- C.JALR
      else .init addr w 2 .alu [rdFull, rs2Full] [rdFull]              -- C.ADD
    else if funct3 = 6 then .init addr w 2 .store [2, rs2Full] []      -- C.SWSP
    else if funct3 ∈ [5, 7] then .init addr w 2 .store [2, F rs2Full] []  -- C.FSDSP, C.FSWSP
    else .init addr w 2 .unknown [] []
  else .init addr w 2 .unknown [] []

/-! ## dispatch -/

def decode (addr word : Nat) (text : String) : Insn :=
  let insn := if isCompressed word then decode16 addr (word &&& 0xFFFF) else decode32 addr word
  { insn with text := text }

/-! ## address and size -/

@[simp] theorem decodeOpFp_size (addr w rd rs1 rs2 funct7 : Nat) :
    (decodeOpFp addr w rd rs1 rs2 funct7).size = 4 := by
  simp only [decodeOpFp]
  split <;> rfl

@[simp] theorem decodeOpFp_addr (addr w rd rs1 rs2 funct7 : Nat) :
    (decodeOpFp addr w rd rs1 rs2 funct7).addr = addr := by
  simp only [decodeOpFp]
  split <;> rfl

theorem decode32_size (addr w : Nat) : (decode32 addr w).size = 4 := by
  simp only [decode32, apply_ite Insn.size, decodeOpFp_size, Insn.init, ite_self]

theorem decode32_addr (addr w : Nat) : (decode32 addr w).addr = addr := by
  simp only [decode32, apply_ite Insn.addr, decodeOpFp_addr, Insn.init, ite_self]

theorem decode16_size (addr w : Nat) : (decode16 addr w).size = 2 := by
  simp only [decode16, apply_ite Insn.size, Insn.init, ite_self]

theorem decode16_addr (addr w : Nat) : (decode16 addr w).addr = addr := by
  simp only [decode16, apply_ite Insn.addr, Insn.init, ite_self]

/-- the length of an instruction is in the two low bits of its word -/
def wordLength (word : Nat) : Nat := if isCompressed word then 2 else 4

@[simp] theorem decode_size (addr word : Nat) (text : String) :
    (decode addr word text).size = wordLength word := by
  unfold decode wordLength
  split_ifs
  · exact decode16_size _ _
  · exact decode32_size _ _

@[simp] theorem decode_addr (addr word : Nat) (text : String) :
    (decode addr word text).addr = addr := by
  unfold decode
  split_ifs
  · exact decode16_addr _ _
  · exact decode32_addr _ _

end Starbug
