import Starbug.Vliw.Exec
import Starbug.Vliw.Structure
import Starbug.Lib.Simulation

/-!
# The pass on a function (`runOnMachineFunction`)

The pass goes over the blocks of a function, unless the subtarget or `skipFunction` turns it off.
A run of the function goes from block to block: it falls through to the next one or leaves a block
for another, and ends where there is no block.

`runOnMachineFunction_runs_same`: the function the pass leaves has exactly the runs of the function
it was given, through the same blocks and the same states, whatever the fetch unit decides about
each hint on each visit.
-/

namespace Starbug.Vliw
open Footprint

/-! ## the pass -/

/-- what the pass asks of a function: the subtarget, `skipFunction`, and the blocks in order -/
structure MachineFunction where
  hasStarbugVLIW : Bool
  skipFunction : Bool
  blocks : List (List MachineInstr)

/-- the body of the loop over the blocks -/
def packetizeNext (cfg : StarbugVLIWConfig) (r : List (List Emitted) × Bool)
    (block : List MachineInstr) : List (List Emitted) × Bool :=
  let r' := packetizeBasicBlock cfg block
  (r.1 ++ [r'.1], r.2 || r'.2)

/-- the blocks the pass leaves, and whether it changed one -/
def runOnMachineFunction (cfg : StarbugVLIWConfig) (mf : MachineFunction) :
    List (List Emitted) × Bool :=
  if !mf.hasStarbugVLIW || mf.skipFunction then (mf.blocks.map (List.map .inst), false)
  else mf.blocks.foldl (packetizeNext cfg) ([], false)

theorem foldl_packetizeNext (cfg : StarbugVLIWConfig) (blocks : List (List MachineInstr))
    (r : List (List Emitted) × Bool) :
    blocks.foldl (packetizeNext cfg) r
      = (r.1 ++ blocks.map fun b => (packetizeBasicBlock cfg b).1,
        r.2 || blocks.any fun b => (packetizeBasicBlock cfg b).2) := by
  induction blocks generalizing r with
  | nil =>
    rw [List.foldl_nil, List.map_nil, List.append_nil, List.any_nil, Bool.or_false]
  | cons b blocks ih =>
    rw [List.foldl_cons, ih, packetizeNext, List.map_cons, List.any_cons, Bool.or_assoc,
      List.append_assoc]
    rfl

/-- the pass reports a change exactly if there is a hint in what it leaves -/
theorem runOnMachineFunction_changed_iff (cfg : StarbugVLIWConfig) (mf : MachineFunction) :
    (runOnMachineFunction cfg mf).2 = true
      ↔ ∃ es ∈ (runOnMachineFunction cfg mf).1, ∃ n, .hint n ∈ es := by
  unfold runOnMachineFunction
  split_ifs with hoff
  · have hnone : ∀ es ∈ mf.blocks.map (List.map Emitted.inst), ∀ n, .hint n ∉ es := by
      intro es hes n hn
      obtain ⟨b, -, rfl⟩ := List.mem_map.mp hes
      obtain ⟨m, -, hm⟩ := List.mem_map.mp hn
      cases hm
    exact ⟨fun h => h.elim, fun ⟨es, hes, n, hn⟩ => absurd hn (hnone es hes n)⟩
  · rw [foldl_packetizeNext, Bool.false_or, List.any_eq_true, List.nil_append]
    constructor
    · intro h
      obtain ⟨b, hb, hchanged⟩ := h
      exact ⟨_, List.mem_map_of_mem hb, (changed_iff cfg b).mp hchanged⟩
    · intro h
      obtain ⟨es, hes, hn⟩ := h
      obtain ⟨b, hb, rfl⟩ := List.mem_map.mp hes
      exact ⟨b, hb, (changed_iff cfg b).mpr hn⟩

/-! ## runs of a function -/

section
variable {V M : Type*}

/-- where control goes from block `k`; an index without a block is outside the function -/
def Outcome.after (k : Nat) : Outcome V M Nat → Nat × Footprint.State Nat V M
  | .next s => (k + 1, s)
  | .leave s x => (x, s)

/-- the block control is in, and where it goes from there -/
def visit (tgt : Target V M Nat) (blocks : List (List MachineInstr))
    (c : Nat × Footprint.State Nat V M) : Option (Nat × (Nat × Footprint.State Nat V M)) :=
  blocks[c.1]?.map fun block => (c.1, (runBlock tgt block c.2).after c.1)

/-- the same in emitted blocks; `accepts` decides about the hints of a visit, by the visits before
it and the state -/
def Visits (tgt : Target V M Nat) (out : List (List Emitted))
    (accepts : List Nat → Nat × Footprint.State Nat V M → Nat → Bool) (h : List Nat)
    (c : Nat × Footprint.State Nat V M) (k : Nat) (c' : Nat × Footprint.State Nat V M) : Prop :=
  k = c.1 ∧ ∃ es o, out[k]? = some es ∧ Exec tgt (accepts h c) es c.2 o ∧ c' = o.after k

/-- a block without hints -/
theorem exec_insts_iff {tgt : Target V M Nat} {accept : Nat → Bool} (block : List MachineInstr)
    (s : Footprint.State Nat V M) (o : Outcome V M Nat) :
    Exec tgt accept (block.map .inst) s o ↔ o = runBlock tgt block s := by
  induction block generalizing s with
  | nil => exact Exec.nil_iff
  | cons m block ih =>
    rw [List.map_cons, Exec.inst_iff, runBlock]
    cases tgt.step m s with
    | next t => exact ih t
    | leave t x => exact Iff.rfl

/-- an emitted block that was packetized or left alone has the outcome of the block -/
theorem exec_block_iff (opts : CommandLine) (tgt : Target V M Nat) (accept : Nat → Bool)
    (mf : MachineFunction) (k : Nat) (s : Footprint.State Nat V M) (o : Outcome V M Nat) :
    (∃ es, (runOnMachineFunction (baseConfig opts) mf).1[k]? = some es ∧ Exec tgt accept es s o)
      ↔ ∃ block, mf.blocks[k]? = some block ∧ o = runBlock tgt block s := by
  have hpack : ∀ block, Exec tgt accept (packetizeBasicBlock (baseConfig opts) block).1 s o
      ↔ o = runBlock tgt block s := by
    intro block
    rw [(packetizeBasicBlock_eq (baseConfig opts) block).1,
      exec_groups_iff (groups_wellFormed _ block), groups_block]
  -- either way block `k` of the result is made from block `k`
  have hmap : ∀ f : List MachineInstr → List Emitted,
      (∀ block, Exec tgt accept (f block) s o ↔ o = runBlock tgt block s) →
      ((∃ es, (mf.blocks.map f)[k]? = some es ∧ Exec tgt accept es s o)
        ↔ ∃ block, mf.blocks[k]? = some block ∧ o = runBlock tgt block s) := by
    intro f hf
    rw [List.getElem?_map]
    cases mf.blocks[k]? with
    | none =>
      constructor
      · intro h
        obtain ⟨es, hes, -⟩ := h
        cases hes
      · intro h
        obtain ⟨b, hb, -⟩ := h
        cases hb
    | some block =>
      constructor
      · intro h
        obtain ⟨es, hes, hexec⟩ := h
        obtain rfl := Option.some.inj hes
        exact ⟨block, rfl, (hf block).mp hexec⟩
      · intro h
        obtain ⟨b, hb, ho⟩ := h
        obtain rfl := Option.some.inj hb
        exact ⟨f block, rfl, (hf block).mpr ho⟩
  unfold runOnMachineFunction
  split_ifs with hoff
  · exact hmap _ fun block => exec_insts_iff block s o
  · rw [foldl_packetizeNext, List.nil_append]
    exact hmap _ hpack

/-- one visit of an emitted block is the visit of the block -/
theorem visits_iff {opts : CommandLine} (tgt : Target V M Nat) (mf : MachineFunction)
    (accepts : List Nat → Nat × Footprint.State Nat V M → Nat → Bool) (h : List Nat)
    (c : Nat × Footprint.State Nat V M) (k : Nat) (c' : Nat × Footprint.State Nat V M) :
    Visits tgt (runOnMachineFunction (baseConfig opts) mf).1 accepts h c k c'
      ↔ visit tgt mf.blocks c = some (k, c') := by
  have hblock := exec_block_iff opts tgt (accepts h c) mf
  unfold visit
  rw [Option.map_eq_some_iff]
  constructor
  · intro hv
    obtain ⟨rfl, es, o, hes, hexec, rfl⟩ := hv
    obtain ⟨block, hb, rfl⟩ := (hblock c.1 c.2 o).mp ⟨es, hes, hexec⟩
    exact ⟨block, hb, rfl⟩
  · intro hv
    obtain ⟨block, hb, heq⟩ := hv
    obtain ⟨rfl, rfl⟩ := Prod.mk.inj heq
    obtain ⟨es, hes, hexec⟩ := (hblock c.1 c.2 _).mpr ⟨block, hb, rfl⟩
    exact ⟨rfl, es, _, hes, hexec, rfl⟩

/-- **Without an override the function the pass leaves has exactly the runs of the function it was
given: the same blocks, in the same order, with the same states between them, whatever the fetch
unit decides about each hint on each visit.** -/
theorem runOnMachineFunction_runs_same {opts : CommandLine} (ho : opts.laneOpClasses = [])
    {cfg : StarbugVLIWConfig} (hr : Returns opts cfg) (tgt : Target V M Nat)
    (mf : MachineFunction) (accepts : List Nat → Nat × Footprint.State Nat V M → Nat → Bool)
    (c d : Nat × Footprint.State Nat V M) (ks : List Nat) :
    Simulation.Run (Visits tgt (runOnMachineFunction cfg mf).1 accepts) c ks d
      ↔ Simulation.Trace (visit tgt mf.blocks) c ks d := by
  obtain rfl := (returns_iff_of_empty ho cfg).mp hr
  exact Simulation.run_iff_trace fun h c k c' => visits_iff tgt mf accepts h c k c'

end

/-! ## a block that runs twice -/

/-- a load, an addition to register 13, and a branch -/
def countLoop : List MachineInstr :=
  [{ name := "LW", operands := [.reg 11 true, .reg 12 false, .other], mayLoad := true },
    { name := "ADD", operands := [.reg 13 true, .reg 13 false, .reg 14 false] },
    { name := "BNE", operands := [.reg 13 false, .other], isBranch := true, isTerminator := true }]

def countFunction : MachineFunction where
  hasStarbugVLIW := true
  skipFunction := false
  blocks := [countLoop]

/-- `sumTarget`, with a branch to block 0 while register 13 is below 20 -/
def loopTarget : Target Nat (Nat → Nat) Nat where
  op := sumTarget.op
  other _ s := if s.regs 13 < 20 then .leave s 0 else .next s
  pcRel := sumTarget.pcRel
  op_reads := sumTarget.op_reads
  op_writes := sumTarget.op_writes
  op_mem := sumTarget.op_mem
  alu_pcRel := sumTarget.alu_pcRel

/-- the first visit of the packet issues at once, the second one after the other -/
theorem runOnMachineFunction_runs_same_count : ∃ t,
    Simulation.Run (Visits loopTarget (runOnMachineFunction (baseConfig {}) countFunction).1
      fun h _ _ => h.isEmpty) (0, ⟨fun r => if r = 14 then 10 else 0, fun a => a⟩) [0, 0] (1, t) :=
  ⟨_, (runOnMachineFunction_runs_same rfl ((returns_iff_of_empty rfl _).mpr rfl) loopTarget
    countFunction _ _ _ _).mpr ⟨_, rfl, _, rfl, rfl⟩⟩

end Starbug.Vliw
