import Starbug.Isa.Encode
import Mathlib.Data.Finset.Lattice.Lemmas

/-!
# The decoder against the manual's operand table

`word32_fields` reads the fields of an encoded word back, `decodesTo_of_fields` reduces `decode`
on such a word to `decode32` on a word with these fields, and `decodesTo_encode` compares every
instruction form with the table of `Starbug.Isa.Encode`.  One family of forms differs: `csrrwi`,
`csrrsi`, `csrrci` carry a 5-bit immediate where `decode32` reads `rs1` (`decode_csrImm`).
-/

namespace Starbug
open Bits

/-! ## fields of a word -/

theorem word32_toNat (funct7 : BitVec 7) (rs2 rs1 : BitVec 5) (funct3 : BitVec 3)
    (rd : BitVec 5) (opcode : BitVec 7) : (word32 funct7 rs2 rs1 funct3 rd opcode).toNat
      = funct7.toNat * 2^25 + rs2.toNat * 2^20 + rs1.toNat * 2^15 + funct3.toNat * 2^12
        + rd.toNat * 2^7 + opcode.toNat := by
  unfold word32
  simp only [toNat_append_add]
  omega

/-- the shifts and masks of `decode32` give back the fields -/
theorem word32_fields (funct7 : BitVec 7) (rs2 rs1 : BitVec 5) (funct3 : BitVec 3)
    (rd : BitVec 5) (opcode : BitVec 7) {w : Nat}
    (hw : w = (word32 funct7 rs2 rs1 funct3 rd opcode).toNat) :
    w &&& 0x7F = opcode.toNat ∧ (w >>> 7) &&& 0x1F = rd.toNat ∧ (w >>> 15) &&& 0x1F = rs1.toNat ∧
      (w >>> 20) &&& 0x1F = rs2.toNat ∧ (w >>> 25) &&& 0x7F = funct7.toNat ∧
      (w >>> 27) &&& 0x1F = funct7.toNat / 4 := by
  rw [word32_toNat] at hw
  have h1 := funct7.isLt
  have h2 := rs2.isLt
  have h3 := rs1.isLt
  have h4 := funct3.isLt
  have h5 := rd.isLt
  have h6 := opcode.isLt
  simp only [mask_5, mask_7, Nat.shiftRight_eq_div_pow]
  omega

theorem isCompressed_word32 (funct7 : BitVec 7) (rs2 rs1 : BitVec 5) (funct3 : BitVec 3)
    (rd : BitVec 5) (opcode : BitVec 7) (h : opcode.toNat % 4 = 3) :
    isCompressed (word32 funct7 rs2 rs1 funct3 rd opcode).toNat = false := by
  have hm : (word32 funct7 rs2 rs1 funct3 rd opcode).toNat % 4 = 3 := by
    rw [word32_toNat]
    omega
  unfold isCompressed
  rw [mask_2, hm]
  rfl

/-! ## register sets -/

@[simp] theorem dropX0_nil : dropX0 [] = ∅ := rfl

@[simp] theorem dropX0_zero (l : List Nat) : dropX0 (0 :: l) = dropX0 l := by
  ext k
  simp only [mem_dropX0, List.mem_cons]
  constructor
  · rintro ⟨h | h, hk⟩
    · exact absurd h hk
    · exact ⟨h, hk⟩
  · rintro ⟨h, hk⟩
    exact ⟨Or.inr h, hk⟩

@[simp] theorem dropX0_x (r : BitVec 5) (l : List Nat) :
    dropX0 (r.toNat :: l) = xreg r ∪ dropX0 l := by
  ext k
  simp only [mem_dropX0, xreg, Finset.mem_union, List.mem_cons]
  by_cases h : r = 0
  · subst h
    simp
    omega
  · have hr : r.toNat ≠ 0 := fun h' => h (BitVec.eq_of_toNat_eq h')
    simp only [h, if_false, Finset.mem_singleton]
    constructor
    · rintro ⟨rfl | hl, hk⟩
      · exact Or.inl rfl
      · exact Or.inr ⟨hl, hk⟩
    · rintro (rfl | ⟨hl, hk⟩)
      · exact ⟨Or.inl rfl, hr⟩
      · exact ⟨Or.inr hl, hk⟩

@[simp] theorem dropX0_F (r : BitVec 5) (l : List Nat) :
    dropX0 (F r.toNat :: l) = freg r ∪ dropX0 l := by
  have hF : F r.toNat = fregBase + r.toNat := by
    unfold F
    rw [show r.toNat &&& 31 = r.toNat % 32 from mask_5 _, Nat.mod_eq_of_lt r.isLt]
  ext k
  simp only [mem_dropX0, freg, Finset.mem_union, List.mem_cons, Finset.mem_singleton, hF]
  constructor
  · rintro ⟨rfl | hl, hk⟩
    · exact Or.inl rfl
    · exact Or.inr ⟨hl, hk⟩
  · rintro (rfl | ⟨hl, hk⟩)
    · exact ⟨Or.inl rfl, by unfold fregBase; omega⟩
    · exact ⟨Or.inr hl, hk⟩

/-! ## the comparison -/

structure DecodesTo (insn : Insn) (i : Instr) : Prop where
  cls : insn.cls = i.cls
  reads : insn.reads = i.reads
  writes : insn.writes = i.writes

theorem DecodesTo.of_init {i : Instr} {addr w size : Nat} {cls : Cls} {rs ws : List Nat}
    (hc : cls = i.cls) (hr : dropX0 rs = i.reads) (hw : dropX0 ws = i.writes) :
    DecodesTo (.init addr w size cls rs ws) i :=
  ⟨hc, hr, hw⟩

/-- it is enough to run `decode32` on an abstract word with the fields of the encoding -/
theorem decodesTo_of_fields {i : Instr} {word : BitVec 32} {funct7 : BitVec 7}
    {rs2 rs1 : BitVec 5} {funct3 : BitVec 3} {rd : BitVec 5} {opcode : BitVec 7} {addr : Nat}
    {text : String} (hword : word = word32 funct7 rs2 rs1 funct3 rd opcode)
    (hop : opcode.toNat % 4 = 3)
    (h : ∀ w, w &&& 0x7F = opcode.toNat → (w >>> 7) &&& 0x1F = rd.toNat →
      (w >>> 15) &&& 0x1F = rs1.toNat → (w >>> 20) &&& 0x1F = rs2.toNat →
      (w >>> 25) &&& 0x7F = funct7.toNat → (w >>> 27) &&& 0x1F = funct7.toNat / 4 →
      DecodesTo (decode32 addr w) i) :
    DecodesTo (decode addr word.toNat text) i := by
  obtain ⟨h1, h2, h3, h4, h5, h6⟩ := word32_fields funct7 rs2 rs1 funct3 rd opcode rfl
  obtain ⟨hc, hr, hw⟩ := h _ h1 h2 h3 h4 h5 h6
  have hd : decode addr word.toNat text
      = { decode32 addr (word32 funct7 rs2 rs1 funct3 rd opcode).toNat with text := text } := by
    unfold decode
    rw [hword, isCompressed_word32 _ _ _ _ _ _ hop]
    rfl
  rw [hd]
  exact ⟨hc, hr, hw⟩

theorem decodesTo_encode (i : Instr) (hi : ∀ op rd uimm csrNo, i ≠ .csrImm op rd uimm csrNo)
    (addr : Nat) (text : String) : DecodesTo (decode addr i.encode.toNat text) i := by
  -- one case for each set of fields `decode32` looks at; `h1` to `h6` are the fields of the word
  cases i with
  | lui rd imm | auipc rd imm | jal rd imm =>
    refine decodesTo_of_fields rfl rfl (fun w h1 h2 _ _ _ _ => ?_)
    simp only [decode32, h1, h2]
    refine .of_init rfl ?_ ?_ <;> simp [Instr.reads, Instr.writes]
  | jalr rd rs1 imm | load op rd rs1 imm | opImm op rd rs1 imm | shiftImm op rd rs1 shamt
  | fence fm pred succ | ecall | ebreak | csr op rd rs1 csrNo | loadFp width rd rs1 imm =>
    refine decodesTo_of_fields rfl rfl (fun w h1 h2 h3 _ _ _ => ?_)
    simp only [decode32, h1, h2, h3]
    refine .of_init rfl ?_ ?_ <;> simp [Instr.reads, Instr.writes]
  | branch op rs1 rs2 imm | store op rs1 rs2 imm | storeFp width rs1 rs2 imm =>
    refine decodesTo_of_fields rfl rfl (fun w h1 _ h3 h4 _ _ => ?_)
    simp only [decode32, h1, h3, h4]
    refine .of_init rfl ?_ ?_ <;> simp [Instr.reads, Instr.writes]
  | lr aq rl rd rs1 | amo op aq rl rd rs1 rs2 =>
    refine decodesTo_of_fields rfl rfl (fun w h1 h2 h3 h4 _ _ => ?_)
    simp only [decode32, h1, h2, h3, h4]
    refine .of_init rfl ?_ ?_ <;> simp [Instr.reads, Instr.writes]
  | mul op rd rs1 rs2 | fcmp op rd rs1 rs2 =>
    refine decodesTo_of_fields rfl rfl (fun w h1 h2 h3 h4 h5 _ => ?_)
    simp only [decode32, h1, h2, h3, h4, h5]
    refine .of_init rfl ?_ ?_ <;> simp [Instr.reads, Instr.writes]
  | opReg op rd rs1 rs2 =>
    refine decodesTo_of_fields rfl rfl (fun w h1 h2 h3 h4 h5 _ => ?_)
    simp only [decode32, h1, h2, h3, h4, h5]
    refine .of_init ?_ ?_ ?_
    · cases op <;> rfl
    · simp [Instr.reads]
    · simp [Instr.writes]
  | fma op rd rs1 rs2 rs3 rm =>
    cases op
    all_goals
      refine decodesTo_of_fields rfl rfl (fun w h1 h2 h3 h4 h5 h6 => ?_)
      have hrs3 : (rs3 ++ (0 : BitVec 2)).toNat / 4 = rs3.toNat := by
        rw [toNat_append_add]
        simp
      simp only [decode32, h1, h2, h3, h4, h6, hrs3]
      refine .of_init rfl ?_ ?_ <;> simp [Instr.reads, Instr.writes]
  | farith op rd rs1 rs2 rm | fsel op rd rs1 rs2 =>
    cases op
    all_goals
      refine decodesTo_of_fields rfl rfl (fun w h1 h2 h3 h4 h5 _ => ?_)
      simp only [decode32, h1, h2, h3, h4, h5]
      refine .of_init rfl ?_ ?_ <;> simp [Instr.reads, Instr.writes]
  | fsqrt rd rs1 rm | fcvtToInt unsigned rd rs1 rm | fcvtFromInt unsigned rd rs1 rm
  | fmvToInt rd rs1 | fmvFromInt rd rs1 | fclass rd rs1 =>
    refine decodesTo_of_fields rfl rfl (fun w h1 h2 h3 _ h5 _ => ?_)
    simp only [decode32, h1, h2, h3, h5]
    refine .of_init rfl ?_ ?_ <;> simp [Instr.reads, Instr.writes]
  | csrImm op rd uimm csrNo => exact absurd rfl (hi op rd uimm csrNo)

/-- the immediate forms decode as the register forms: the immediate is taken for a register -/
theorem decode_csrImm (op : CsrOp) (rd uimm : BitVec 5) (csrNo : BitVec 12) (addr : Nat)
    (text : String) : DecodesTo (decode addr (Instr.csrImm op rd uimm csrNo).encode.toNat text)
      (.csr op rd uimm csrNo) := by
  refine decodesTo_of_fields rfl rfl (fun w h1 h2 h3 _ _ _ => ?_)
  simp only [decode32, h1, h2, h3]
  refine .of_init rfl ?_ ?_ <;> simp [Instr.reads, Instr.writes]

theorem xreg_eq_empty {r : BitVec 5} : xreg r = ∅ ↔ r = 0 := by
  unfold xreg
  split_ifs with h
  · exact iff_of_true rfl h
  · exact iff_of_false (Finset.singleton_ne_empty _) h

def Instr.CsrImmediate : Instr → Prop
  | .csrImm _ _ uimm _ => uimm ≠ 0
  | _ => False

/-- **`decode` gives the class and the operands of the manual on every instruction form and
every field value, except on a CSR instruction with a nonzero immediate.** -/
theorem decode_exact_iff (i : Instr) (addr : Nat) (text : String) :
    DecodesTo (decode addr i.encode.toNat text) i ↔ ¬ i.CsrImmediate := by
  cases i with
  | csrImm op rd uimm csrNo =>
    have hd := decode_csrImm op rd uimm csrNo addr text
    have hr : (decode addr (Instr.csrImm op rd uimm csrNo).encode.toNat text).reads = xreg uimm :=
      hd.reads
    show _ ↔ ¬ uimm ≠ 0
    rw [not_not, ← xreg_eq_empty, ← hr]
    exact ⟨fun h => h.reads, fun h => ⟨hd.cls, h, hd.writes⟩⟩
  | _ => exact iff_of_true (decodesTo_encode _ (by simp) addr text) id

/-- `fsrmi 3`, that is `csrrwi x0, frm, 3`: decoded as reading `x3` -/
theorem decode_fsrmi : (Instr.csrImm .csrrw 0 3 2).encode = 0x0021D073 ∧
    ¬ DecodesTo (decode 0 0x0021D073 "fsrmi 3") (.csrImm .csrrw 0 3 2) := by
  refine ⟨by decide, fun h => ?_⟩
  have hr : ({3} : Finset Nat) = ∅ := h.reads
  exact absurd hr (by decide)

end Starbug
