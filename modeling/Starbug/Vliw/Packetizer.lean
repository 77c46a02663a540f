import Starbug.Vliw.Config
import Mathlib.Data.Finset.Basic
import Mathlib.Data.List.Infix

/-!
# The packetizer (`StarbugVLIWPacketizer.cpp`)

`packetizeBasicBlock` scans a basic block, collects packets and inserts a hint before the first
member of each packet it flushes.  The source holds pointers into the block and inserts behind
its own iterator; here a packet holds each member with its index in the original block, a hint is
recorded with the index it goes before, and `insertHints` builds the list that is left.
-/

namespace Starbug.Vliw

/-! ## machine instructions -/

/-- a register operand (use or def; register `0` is `NoRegister`), or another operand -/
inductive MachineOperand where
  | reg (r : Nat) (isDef : Bool)
  | other
  deriving DecidableEq

/-- what the pass asks a `MachineInstr`; `name` is `TII.getName(MI.getOpcode())` -/
structure MachineInstr where
  name : String
  operands : List MachineOperand
  isDebugInstr : Bool := false
  isMetaInstruction : Bool := false
  isBUNDLE : Bool := false
  isInlineAsm : Bool := false
  isCall : Bool := false
  isTerminator : Bool := false
  isPseudo : Bool := false
  hasUnmodeledSideEffects : Bool := false
  isBranch : Bool := false
  isReturn : Bool := false
  mayLoad : Bool := false
  mayStore : Bool := false
  deriving DecidableEq

def isPacketizableMI (mi : MachineInstr) : Bool :=
  if mi.isDebugInstr || mi.isMetaInstruction || mi.isBUNDLE then false
  else if mi.isInlineAsm || mi.isCall || mi.isTerminator || mi.isPseudo then false
  else if mi.hasUnmodeledSideEffects then false
  else true

/-- one operand of the loop of `collectRegAccesses` -/
def collectOperand (acc : Finset Nat × Finset Nat) (mo : MachineOperand) :
    Finset Nat × Finset Nat :=
  match mo with
  | .other => acc
  | .reg r isDef =>
    if r = 0 then acc
    else if isDef then (acc.1, insert r acc.2)
    else (insert r acc.1, acc.2)

def collectRegAccesses (mi : MachineInstr) : Finset Nat × Finset Nat :=
  mi.operands.foldl collectOperand (∅, ∅)

def hasPacketDependency (miUses miDefs packetUses packetDefs : Finset Nat) : Bool :=
  decide (∃ r ∈ miUses, r ∈ packetDefs) ||
    decide (∃ r ∈ miDefs, r ∈ packetDefs ∨ r ∈ packetUses)

/-- `Name.contains(sub)` -/
def nameContains (name sub : String) : Bool := decide (sub.toList <:+: name.toList)

def classifyOpClass (mi : MachineInstr) : OpClass :=
  if mi.isBranch || mi.isTerminator || mi.isCall || mi.isReturn then .branch
  else if mi.mayLoad then .load
  else if mi.mayStore then .store
  else if ["ADD", "SUB"].any (nameContains mi.name) then .aluAddSub
  else if ["MUL", "DIV", "REM"].any (nameContains mi.name) then .aluMulDiv
  else if ["SLL", "SRL", "SRA", "ROL", "ROR", "SH"].any (nameContains mi.name) then .aluShift
  else if ["CSR"].any (nameContains mi.name) then .csr
  else if ["MV", "LI", "COPY"].any (nameContains mi.name) then .move
  else if ["SLT", "SEQ", "SNE", "SGE", "SGT"].any (nameContains mi.name) then .compare
  else .any

/-! ## the pass -/

inductive Emitted where
  | hint (len : Nat)
  | inst (mi : MachineInstr)
  deriving DecidableEq

/-- the locals of `packetizeBasicBlock`, and the hints inserted so far: before which
instruction, of which length -/
structure State where
  packet : List (Nat × MachineInstr) := []
  packetLanes : List Nat := []
  packetUses : Finset Nat := ∅
  packetDefs : Finset Nat := ∅
  hints : List (Nat × Nat) := []
  changed : Bool := false

/-- the first free legal lane as an `int`, `-1` if there is none -/
def tryAssignLane (cfg : StarbugVLIWConfig) (packetLanes : List Nat) (cls : OpClass) : Int :=
  match (List.range cfg.maxBundleWidth).find? fun lane =>
      cfg.isLaneLegal lane cls && !packetLanes.contains lane with
  | some lane => (BitVec.ofNat 32 lane).toInt
  | none => -1

def shouldEmitHint (cfg : StarbugVLIWConfig) (packetSize : Nat) : Bool :=
  let isSingle := packetSize == 1
  let isFull := packetSize == cfg.maxBundleWidth
  if isFull then true
  else if !isSingle && cfg.scheduler.allowShortPackets then true
  else isSingle && cfg.scheduler.emitSingleInstructionHints

def flushPacket (cfg : StarbugVLIWConfig) (st : State) : State :=
  match st.packet with
  | [] => st
  | first :: _ =>
    if shouldEmitHint cfg st.packet.length then
      { hints := st.hints ++ [(first.1, st.packet.length)], changed := true }
    else { hints := st.hints, changed := st.changed }

/-- `Packet.push_back(&MI)` and what follows it in the loop body -/
def pushBack (cfg : StarbugVLIWConfig) (st : State) (mi : MachineInstr) (idx lane : Nat) :
    State :=
  let acc := collectRegAccesses mi
  let st := { st with
    packet := st.packet ++ [(idx, mi)]
    packetLanes := st.packetLanes ++ [lane]
    packetUses := st.packetUses ∪ acc.1
    packetDefs := st.packetDefs ∪ acc.2 }
  if cfg.maxBundleWidth ≤ st.packet.length then flushPacket cfg st else st

/-- the loop body -/
def step (cfg : StarbugVLIWConfig) (st : State) (x : MachineInstr × Nat) : State :=
  let (mi, idx) := x
  if !isPacketizableMI mi then flushPacket cfg st
  else
    let acc := collectRegAccesses mi
    let st :=
      if !st.packet.isEmpty && hasPacketDependency acc.1 acc.2 st.packetUses st.packetDefs then
        flushPacket cfg st
      else st
    let cls := classifyOpClass mi
    let lane := tryAssignLane cfg st.packetLanes cls
    if lane < 0 then
      let st := flushPacket cfg st
      let lane := tryAssignLane cfg st.packetLanes cls
      if lane < 0 then st else pushBack cfg st mi idx lane.toNat
    else pushBack cfg st mi idx lane.toNat

/-- the instructions from index `k` on, each behind the hints inserted before it -/
def insertHints (k : Nat) (block : List MachineInstr) (hints : List (Nat × Nat)) :
    List Emitted :=
  (block.zipIdx k).flatMap fun (mi, i) =>
    (hints.filter (·.1 = i)).map (fun h => .hint h.2) ++ [.inst mi]

/-- the block the pass leaves, and whether it changed it -/
def packetizeBasicBlock (cfg : StarbugVLIWConfig) (block : List MachineInstr) :
    List Emitted × Bool :=
  let st := flushPacket cfg (block.zipIdx.foldl (step cfg) {})
  (insertHints 0 block st.hints, st.changed)

end Starbug.Vliw
