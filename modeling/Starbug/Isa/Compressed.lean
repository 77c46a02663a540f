import Starbug.Isa.Exact

/-!
# RVC words against their 32-bit expansions

`expand` is the manual's expansion table for RV32C with the F and D loads and stores: the
32-bit instruction a 16-bit word stands for, `none` on the reserved words (and on words that
are not compressed).  HINT encodings expand like the instruction whose fields they use.

`decodesTo_expand`: `decode` on the 16-bit word gives the class and the operands of the
expansion; with `decodesTo_encode` the two decoders agree (`decode_expand`).
-/

namespace Starbug
open Bits

/-! ## fields -/

def cRd (w : BitVec 16) : BitVec 5 := w.extractLsb' 7 5

def cRs2 (w : BitVec 16) : BitVec 5 := w.extractLsb' 2 5

/-- the three-bit field at bit 7, `x8..x15` -/
def cRs1' (w : BitVec 16) : BitVec 5 := (1 : BitVec 2) ++ w.extractLsb' 7 3

/-- the three-bit field at bit 2, `x8..x15` -/
def cRd' (w : BitVec 16) : BitVec 5 := (1 : BitVec 2) ++ w.extractLsb' 2 3

/-! ## immediates -/

/-- `imm[5]` at bit 12, `imm[4:0]` at bit 2 -/
def ciImm (w : BitVec 16) : BitVec 6 := w.extractLsb' 12 1 ++ w.extractLsb' 2 5

/-- `nzuimm[5:4|9:6|2|3]` -/
def ciwImm (w : BitVec 16) : BitVec 12 :=
  (0 : BitVec 2) ++ w.extractLsb' 7 4 ++ w.extractLsb' 11 2 ++ w.extractLsb' 5 1
    ++ w.extractLsb' 6 1 ++ (0 : BitVec 2)

/-- word offset `uimm[5:3]`, `uimm[2|6]` -/
def clwImm (w : BitVec 16) : BitVec 12 :=
  (0 : BitVec 5) ++ w.extractLsb' 5 1 ++ w.extractLsb' 10 3 ++ w.extractLsb' 6 1 ++ (0 : BitVec 2)

/-- doubleword offset `uimm[5:3]`, `uimm[7:6]` -/
def cldImm (w : BitVec 16) : BitVec 12 :=
  (0 : BitVec 4) ++ w.extractLsb' 5 2 ++ w.extractLsb' 10 3 ++ (0 : BitVec 3)

/-- word offset from the stack pointer, `uimm[5]`, `uimm[4:2|7:6]` -/
def clwspImm (w : BitVec 16) : BitVec 12 :=
  (0 : BitVec 4) ++ w.extractLsb' 2 2 ++ w.extractLsb' 12 1 ++ w.extractLsb' 4 3 ++ (0 : BitVec 2)

/-- doubleword offset from the stack pointer, `uimm[5]`, `uimm[4:3|8:6]` -/
def cldspImm (w : BitVec 16) : BitVec 12 :=
  (0 : BitVec 3) ++ w.extractLsb' 2 3 ++ w.extractLsb' 12 1 ++ w.extractLsb' 5 2 ++ (0 : BitVec 3)

/-- word store offset from the stack pointer, `uimm[5:2|7:6]` -/
def cswspImm (w : BitVec 16) : BitVec 12 :=
  (0 : BitVec 4) ++ w.extractLsb' 7 2 ++ w.extractLsb' 9 4 ++ (0 : BitVec 2)

/-- doubleword store offset from the stack pointer, `uimm[5:3|8:6]` -/
def csdspImm (w : BitVec 16) : BitVec 12 :=
  (0 : BitVec 3) ++ w.extractLsb' 7 3 ++ w.extractLsb' 10 3 ++ (0 : BitVec 3)

/-- `nzimm[9]`, `nzimm[4|6|8:7|5]` -/
def addi16spImm (w : BitVec 16) : BitVec 10 :=
  w.extractLsb' 12 1 ++ w.extractLsb' 3 2 ++ w.extractLsb' 5 1 ++ w.extractLsb' 2 1
    ++ w.extractLsb' 6 1 ++ (0 : BitVec 4)

/-- offset bits `11..1` of a jump, `offset[11|4|9:8|10|6|7|3:1|5]` -/
def cjImm (w : BitVec 16) : BitVec 11 :=
  w.extractLsb' 12 1 ++ w.extractLsb' 8 1 ++ w.extractLsb' 9 2 ++ w.extractLsb' 6 1
    ++ w.extractLsb' 7 1 ++ w.extractLsb' 2 1 ++ w.extractLsb' 11 1 ++ w.extractLsb' 3 3

/-- offset bits `8..1` of a branch, `offset[8|4:3]`, `offset[7:6|2:1|5]` -/
def cbImm (w : BitVec 16) : BitVec 8 :=
  w.extractLsb' 12 1 ++ w.extractLsb' 5 2 ++ w.extractLsb' 2 1 ++ w.extractLsb' 10 2
    ++ w.extractLsb' 3 2

/-! ## the expansion table -/

/-- register-register operations of MISC-ALU, keyed on bits `6..5` -/
def miscAluOp (sel : BitVec 2) : RegOp :=
  match sel.toNat with
  | 0 => .sub
  | 1 => .xor
  | 2 => .or
  | _ => .and

def expandQ0 (w : BitVec 16) : Option Instr :=
  match (w.extractLsb' 13 3).toNat with
  | 0 => if ciwImm w = 0 then none else some (.opImm .addi (cRd' w) 2 (ciwImm w))
  | 1 => some (.loadFp .d (cRd' w) (cRs1' w) (cldImm w))
  | 2 => some (.load .lw (cRd' w) (cRs1' w) (clwImm w))
  | 3 => some (.loadFp .w (cRd' w) (cRs1' w) (clwImm w))
  | 5 => some (.storeFp .d (cRs1' w) (cRd' w) (cldImm w))
  | 6 => some (.store .sw (cRs1' w) (cRd' w) (clwImm w))
  | 7 => some (.storeFp .w (cRs1' w) (cRd' w) (clwImm w))
  | _ => none

def expandQ1 (w : BitVec 16) : Option Instr :=
  match (w.extractLsb' 13 3).toNat with
  | 0 => some (.opImm .addi (cRd w) (cRd w) ((ciImm w).signExtend 12))
  | 1 => some (.jal 1 ((cjImm w).signExtend 20))
  | 2 => some (.opImm .addi (cRd w) 0 ((ciImm w).signExtend 12))
  | 3 =>
    if ciImm w = 0 then none
    else if cRd w = 2 then some (.opImm .addi 2 2 ((addi16spImm w).signExtend 12))
    else some (.lui (cRd w) ((ciImm w).signExtend 20))
  | 4 =>
    match (w.extractLsb' 10 2).toNat with
    | 0 =>
      if w.extractLsb' 12 1 = 1 then none
      else some (.shiftImm .srli (cRs1' w) (cRs1' w) (w.extractLsb' 2 5))
    | 1 =>
      if w.extractLsb' 12 1 = 1 then none
      else some (.shiftImm .srai (cRs1' w) (cRs1' w) (w.extractLsb' 2 5))
    | 2 => some (.opImm .andi (cRs1' w) (cRs1' w) ((ciImm w).signExtend 12))
    | 3 =>
      if w.extractLsb' 12 1 = 1 then none
      else some (.opReg (miscAluOp (w.extractLsb' 5 2)) (cRs1' w) (cRs1' w) (cRd' w))
    | _ => none
  | 5 => some (.jal 0 ((cjImm w).signExtend 20))
  | 6 => some (.branch .beq (cRs1' w) 0 ((cbImm w).signExtend 12))
  | 7 => some (.branch .bne (cRs1' w) 0 ((cbImm w).signExtend 12))
  | _ => none

def expandQ2 (w : BitVec 16) : Option Instr :=
  match (w.extractLsb' 13 3).toNat with
  | 0 =>
    if w.extractLsb' 12 1 = 1 then none
    else some (.shiftImm .slli (cRd w) (cRd w) (w.extractLsb' 2 5))
  | 1 => some (.loadFp .d (cRd w) 2 (cldspImm w))
  | 2 => if cRd w = 0 then none else some (.load .lw (cRd w) 2 (clwspImm w))
  | 3 => some (.loadFp .w (cRd w) 2 (clwspImm w))
  | 4 =>
    if w.extractLsb' 12 1 = 0 then
      if cRs2 w = 0 then if cRd w = 0 then none else some (.jalr 0 (cRd w) 0)
      else some (.opReg .add (cRd w) 0 (cRs2 w))
    else if cRs2 w = 0 then if cRd w = 0 then some .ebreak else some (.jalr 1 (cRd w) 0)
    else some (.opReg .add (cRd w) (cRd w) (cRs2 w))
  | 5 => some (.storeFp .d 2 (cRs2 w) (csdspImm w))
  | 6 => some (.store .sw 2 (cRs2 w) (cswspImm w))
  | 7 => some (.storeFp .w 2 (cRs2 w) (cswspImm w))
  | _ => none

def expand (w : BitVec 16) : Option Instr :=
  match (w.extractLsb' 0 2).toNat with
  | 0 => expandQ0 w
  | 1 => expandQ1 w
  | 2 => expandQ2 w
  | _ => none

/-! ## what `decode16` reads -/

structure RvcFields (w : BitVec 16) (n : Nat) : Prop where
  op : n &&& 3 = (w.extractLsb' 0 2).toNat
  funct3 : (n >>> 13) &&& 7 = (w.extractLsb' 13 3).toNat
  rd : (n >>> 7) &&& 0x1F = (cRd w).toNat
  rs2 : (n >>> 2) &&& 0x1F = (cRs2 w).toNat
  rdp : rvcReg (n >>> 2) = (cRd' w).toNat
  rs1p : rvcReg (n >>> 7) = (cRs1' w).toNat
  sub : (n >>> 10) &&& 3 = (w.extractLsb' 10 2).toNat
  bit12 : (n >>> 12) &&& 1 = (w.extractLsb' 12 1).toNat

theorem rvcFields (w : BitVec 16) : RvcFields w w.toNat := by
  have e : ∀ x : Nat, (1 : BitVec 2).toNat * 2^3 + x = x + 8 := fun x => Nat.add_comm 8 x
  constructor <;>
    simp only [mask_1, mask_2, mask_3, mask_5, rvcReg, cRd, cRs2, cRd', cRs1', toNat_append_add,
      BitVec.extractLsb'_toNat, Nat.shiftRight_zero, e]

/-! ## the comparison, quadrant by quadrant -/

@[simp] theorem xreg_zero : xreg 0#5 = ∅ := rfl

@[simp] theorem dropX0_ra (l : List Nat) : dropX0 (1 :: l) = xreg 1#5 ∪ dropX0 l := dropX0_x 1#5 l

@[simp] theorem dropX0_sp (l : List Nat) : dropX0 (2 :: l) = xreg 2#5 ∪ dropX0 l := dropX0_x 2#5 l

section
variable {w : BitVec 16} {n : Nat} (hf : RvcFields w n) (addr : Nat) (i : Instr)
include hf

theorem decodesTo_expandQ0 (hop : n &&& 3 = 0) (hn : n = w.toNat) (h : expandQ0 w = some i) :
    DecodesTo (decode16 addr n) i := by
  have f3 := hf.funct3
  unfold expandQ0 at h
  split at h
  case h_1 h3 =>
    -- `decode16` tests for the illegal word only; the other words without an immediate are reserved
    have hn0 : ciwImm w ≠ 0 → n ≠ 0 := by
      intro himm h0
      have hw : w = 0 := BitVec.eq_of_toNat_eq (hn.symm.trans h0)
      exact himm (by rw [hw]; decide)
    split_ifs at h with himm
    obtain rfl := Option.some.inj h
    simp only [decode16, hop, h3 ▸ f3, hf.rdp, hn0 himm]
    exact .of_init rfl rfl (by simp [Instr.writes])
  case h_8 => exact absurd h (by simp)
  all_goals
    rename_i h3
    obtain rfl := Option.some.inj h
    simp only [decode16, hop, h3 ▸ f3, hf.rdp, hf.rs1p]
    refine .of_init rfl ?_ ?_ <;> simp [Instr.reads, Instr.writes]

/-- MISC-ALU -/
theorem decodesTo_miscAlu (hop : n &&& 3 = 1) (h3 : (w.extractLsb' 13 3).toNat = 4)
    (h : expandQ1 w = some i) : DecodesTo (decode16 addr n) i := by
  have f3 := hf.funct3
  have hs := hf.sub
  simp only [expandQ1, h3] at h
  split at h
  case h_3 h2 =>
    obtain rfl := Option.some.inj h
    simp only [decode16, hop, h3 ▸ f3, h2 ▸ hs, hf.rs1p]
    refine .of_init rfl ?_ ?_ <;> simp [Instr.reads, Instr.writes]
  case h_5 => exact absurd h (by simp)
  all_goals
    rename_i h2
    split_ifs at h
    obtain rfl := Option.some.inj h
    simp only [decode16, hop, h3 ▸ f3, h2 ▸ hs, hf.rs1p, hf.rdp]
    refine .of_init rfl ?_ ?_ <;> simp [Instr.reads, Instr.writes]

theorem decodesTo_expandQ1 (hop : n &&& 3 = 1) (h : expandQ1 w = some i) :
    DecodesTo (decode16 addr n) i := by
  have f3 := hf.funct3
  have hmisc := decodesTo_miscAlu hf addr i hop
  unfold expandQ1 at h hmisc
  split at h
  case h_1 h3 =>
    obtain rfl := Option.some.inj h
    simp only [decode16, hop, h3 ▸ f3, hf.rd]
    by_cases hr : cRd w = 0
    · simp only [hr]
      exact .of_init rfl rfl rfl
    · have hr' : (cRd w).toNat ≠ 0 := fun h0 => hr (BitVec.eq_of_toNat_eq h0)
      simp only [hr']
      refine .of_init rfl ?_ ?_ <;> simp [Instr.reads, Instr.writes]
  case h_4 h3 =>
    split_ifs at h with himm hr
    · obtain rfl := Option.some.inj h
      simp only [decode16, hop, h3 ▸ f3, hf.rd, hr]
      exact .of_init rfl rfl rfl
    · obtain rfl := Option.some.inj h
      have hr' : (cRd w).toNat ≠ 2 := fun h2 => hr (BitVec.eq_of_toNat_eq h2)
      simp only [decode16, hop, h3 ▸ f3, hf.rd, hr']
      exact .of_init rfl rfl (by simp [Instr.writes])
  case h_5 h3 => exact hmisc h3 (by rw [h3]; exact h)
  case h_9 => exact absurd h (by simp)
  all_goals
    rename_i h3
    obtain rfl := Option.some.inj h
    simp only [decode16, hop, h3 ▸ f3, hf.rd, hf.rs1p]
    refine .of_init rfl ?_ ?_ <;> simp [Instr.reads, Instr.writes]

/-- C.JR, C.MV, C.EBREAK, C.JALR, C.ADD -/
theorem decodesTo_crForms (hop : n &&& 3 = 2) (h3 : (w.extractLsb' 13 3).toNat = 4)
    (h : expandQ2 w = some i) : DecodesTo (decode16 addr n) i := by
  have f3 := hf.funct3
  have hb := hf.bit12
  have hrs2 : cRs2 w ≠ 0 → (cRs2 w).toNat ≠ 0 := fun h1 h0 => h1 (BitVec.eq_of_toNat_eq h0)
  have hrd : cRd w ≠ 0 → (cRd w).toNat ≠ 0 := fun h1 h0 => h1 (BitVec.eq_of_toNat_eq h0)
  have h12 : w.extractLsb' 12 1 ≠ 0 → (w.extractLsb' 12 1).toNat ≠ 0 :=
    fun h1 h0 => h1 (BitVec.eq_of_toNat_eq h0)
  simp only [expandQ2, h3] at h
  split_ifs at h with h0 h1 h2 h1 h2 <;> obtain rfl := Option.some.inj h
  · simp only [decode16, hop, h3 ▸ f3, hb, h0, hf.rd, hf.rs2, h1]
    refine .of_init rfl ?_ ?_ <;> simp [Instr.reads, Instr.writes]
  · simp only [decode16, hop, h3 ▸ f3, hb, h0, hf.rd, hf.rs2, hrs2 h1]
    refine .of_init rfl ?_ ?_ <;> simp [Instr.reads, Instr.writes]
  · simp only [decode16, hop, h3 ▸ f3, hb, h12 h0, hf.rd, hf.rs2, h1, h2]
    exact .of_init rfl rfl rfl
  · simp only [decode16, hop, h3 ▸ f3, hb, h12 h0, hf.rd, hf.rs2, h1, hrd h2]
    refine .of_init rfl ?_ ?_ <;> simp [Instr.reads, Instr.writes]
  · simp only [decode16, hop, h3 ▸ f3, hb, h12 h0, hf.rd, hf.rs2, hrs2 h1, and_false]
    refine .of_init rfl ?_ ?_ <;> simp [Instr.reads, Instr.writes]

theorem decodesTo_expandQ2 (hop : n &&& 3 = 2) (h : expandQ2 w = some i) :
    DecodesTo (decode16 addr n) i := by
  have f3 := hf.funct3
  have hcr := decodesTo_crForms hf addr i hop
  unfold expandQ2 at h hcr
  split at h
  case h_5 h3 => exact hcr h3 (by rw [h3]; exact h)
  case h_9 => exact absurd h (by simp)
  case h_1 h3 =>
    split_ifs at h
    obtain rfl := Option.some.inj h
    simp only [decode16, hop, h3 ▸ f3, hf.rd]
    refine .of_init rfl ?_ ?_ <;> simp [Instr.reads, Instr.writes]
  case h_3 h3 =>
    split_ifs at h
    obtain rfl := Option.some.inj h
    simp only [decode16, hop, h3 ▸ f3, hf.rd]
    refine .of_init rfl ?_ ?_ <;> simp [Instr.reads, Instr.writes]
  all_goals
    rename_i h3
    obtain rfl := Option.some.inj h
    simp only [decode16, hop, h3 ▸ f3, hf.rd, hf.rs2]
    refine .of_init rfl ?_ ?_ <;> simp [Instr.reads, Instr.writes]

end

/-! ## agreement of the two decoders -/

theorem decode_compressed {w : BitVec 16} (h : (w.extractLsb' 0 2).toNat ≠ 3) (addr : Nat)
    (text : String) : decode addr w.toNat text = { decode16 addr w.toNat with text := text } := by
  have hc : isCompressed w.toNat = true := by
    unfold isCompressed
    rw [(rvcFields w).op]
    exact bne_iff_ne.mpr h
  have hm : w.toNat &&& 0xFFFF = w.toNat := by
    rw [mask_16, Nat.mod_eq_of_lt w.isLt]
  unfold decode
  rw [hc, hm]
  rfl

theorem decodesTo_expand {w : BitVec 16} {i : Instr} (h : expand w = some i) (addr : Nat)
    (text : String) : DecodesTo (decode addr w.toNat text) i := by
  have hf := rvcFields w
  have hop := hf.op
  have hd : (w.extractLsb' 0 2).toNat ≠ 3 ∧ DecodesTo (decode16 addr w.toNat) i := by
    unfold expand at h
    split at h
    case h_1 h0 => exact ⟨by omega, decodesTo_expandQ0 hf addr i (h0 ▸ hop) rfl h⟩
    case h_2 h0 => exact ⟨by omega, decodesTo_expandQ1 hf addr i (h0 ▸ hop) h⟩
    case h_3 h0 => exact ⟨by omega, decodesTo_expandQ2 hf addr i (h0 ▸ hop) h⟩
    case h_4 => exact absurd h (by simp)
  rw [decode_compressed hd.1]
  exact ⟨hd.2.cls, hd.2.reads, hd.2.writes⟩

theorem expand_ne_csrImm {w : BitVec 16} {i : Instr} (h : expand w = some i) :
    ∀ op rd uimm csrNo, i ≠ .csrImm op rd uimm csrNo := by
  rintro op rd uimm csrNo rfl
  unfold expand expandQ0 expandQ1 expandQ2 at h
  repeat' split at h
  all_goals exact absurd h (by simp)

/-- **The compressed decoder agrees with the 32-bit decoder on the expansion of every word that
is not reserved.** -/
theorem decode_expand {w : BitVec 16} {i : Instr} (h : expand w = some i) (addr addr' : Nat)
    (text text' : String) :
    (decode addr w.toNat text).cls = (decode addr' i.encode.toNat text').cls ∧
    (decode addr w.toNat text).reads = (decode addr' i.encode.toNat text').reads ∧
    (decode addr w.toNat text).writes = (decode addr' i.encode.toNat text').writes := by
  have h16 := decodesTo_expand h addr text
  have h32 := decodesTo_encode i (expand_ne_csrImm h) addr' text'
  exact ⟨h16.cls.trans h32.cls.symm, h16.reads.trans h32.reads.symm,
    h16.writes.trans h32.writes.symm⟩

/-- `c.li x0, 4` (a HINT) and `addi x0, x0, 4` -/
theorem decode_expand_hint :
    (decode 0 (0x4011 : BitVec 16).toNat "").cls
        = (decode 0 (Instr.opImm .addi 0 0 4).encode.toNat "").cls ∧
    (decode 0 (0x4011 : BitVec 16).toNat "").reads
        = (decode 0 (Instr.opImm .addi 0 0 4).encode.toNat "").reads ∧
    (decode 0 (0x4011 : BitVec 16).toNat "").writes
        = (decode 0 (Instr.opImm .addi 0 0 4).encode.toNat "").writes :=
  decode_expand (by decide) 0 0 "" ""

end Starbug
