import Starbug.Vliw.Packetizer
import Starbug.Check.Analyse

/-!
# From the block to the listing (`StarbugVLIWAsmPrinterSnippet.cpp`)

The asm printer lowers a hint to `c.li x0, len`; `hintWord` is the encoding of that instruction.
Every other instruction is emitted by the assembler, which is not part of the source: `Encoder`
is what it emits, and `lower` lays the words out one behind the other, as the disassembler lists
them.
-/

namespace Starbug.Vliw

/-! ## hints -/

/-- `c.li x0, imm`: `imm[5]` at bit 12, `imm[4:0]` at bit 2 -/
def hintWord (len : Nat) : Nat :=
  0x4001 ||| (((len >>> 5) &&& 1) <<< 12) ||| ((len &&& 0x1F) <<< 2)

theorem hintLength_hintWord {n : Nat} (h1 : 1 ≤ n) (h63 : n < 64) :
    hintLength (hintWord n) = some n := by
  have hall : ∀ n < 64, n = 0 ∨ hintLength (hintWord n) = some n := by decide
  exact (hall n h63).resolve_left (by omega)

/-! ## the listing -/

/-- the word and the size emitted for an instruction, and what the disassembler prints for it -/
structure Encoder where
  word : MachineInstr → Nat
  size : MachineInstr → Nat
  text : MachineInstr → String
  hintText : Nat → String
  func : String

def Encoder.line (enc : Encoder) (addr : Nat) : Emitted → Line
  | .hint len => ⟨addr, hintWord len, 2, enc.hintText len, enc.func⟩
  | .inst mi => ⟨addr, enc.word mi, enc.size mi, enc.text mi, enc.func⟩

/-- the emitted block as a listing from `addr` on -/
def Encoder.lower (enc : Encoder) : Nat → List Emitted → List Line
  | _, [] => []
  | addr, e :: rest =>
    enc.line addr e :: lower enc (addr + (enc.line addr e).size) rest

def Encoder.stop (enc : Encoder) : Nat → List Emitted → Nat
  | addr, [] => addr
  | addr, e :: rest => stop enc (addr + (enc.line addr e).size) rest

@[simp] theorem Encoder.length_lower (enc : Encoder) (addr : Nat) (es : List Emitted) :
    (enc.lower addr es).length = es.length := by
  induction es generalizing addr with
  | nil => rfl
  | cons e rest ih => rw [Encoder.lower, List.length_cons, ih, List.length_cons]

theorem Encoder.lower_append (enc : Encoder) (addr : Nat) (a b : List Emitted) :
    enc.lower addr (a ++ b) = enc.lower addr a ++ enc.lower (enc.stop addr a) b := by
  induction a generalizing addr with
  | nil => rfl
  | cons e rest ih => rw [List.cons_append, Encoder.lower, ih, Encoder.lower, Encoder.stop]; rfl

end Starbug.Vliw
