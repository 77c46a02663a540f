import Starbug.Vliw.Lanes
import Starbug.Lib.Footprint
import Mathlib.Algebra.BigOperators.Group.Finset.Basic

/-!
# The packetizer preserves the meaning of a block

`Target` is what is assumed of the instructions: a packetizable one is an operation whose
footprint is its register uses and defs, it touches memory only if it may load or store, it never
leaves the block, and it is not PC-relative if its class is one of the three ALU classes.  So
different `Register` values do not alias.  The other instructions may do anything, also leave the
block.

`runBlock` executes a block in order.  `Exec accept` executes the list the packetizer leaves:
`accept` says for each hint, by what is behind it, whether the fetch unit forms the bundle.  An
accepted hint issues the next instructions at once, position `i` in lane `i`; memory, control and
PC-relative work is lost in a worker lane.

`exec_packetizeBasicBlock_iff`: whatever the fetch unit decides, the list has exactly the outcome
of the block.
-/

namespace Starbug.Vliw
open Footprint

section
variable {V M T : Type*}

/-! ## the target -/

/-- control reaches the end of the code, or leaves it for `x` -/
inductive Outcome (V M T : Type*) where
  | next (s : Footprint.State Nat V M)
  | leave (s : Footprint.State Nat V M) (x : T)

/-- what machine instructions do; registers are `Register` values -/
structure Target (V M T : Type*) where
  op : MachineInstr → Op Nat V M
  other : MachineInstr → Footprint.State Nat V M → Outcome V M T
  pcRel : MachineInstr → Bool
  op_reads : ∀ mi, isPacketizableMI mi = true → (op mi).reads ⊆ mi.uses
  op_writes : ∀ mi, isPacketizableMI mi = true → (op mi).writes ⊆ mi.defs
  op_mem : ∀ mi, isPacketizableMI mi = true → (op mi).usesMem →
    mi.mayLoad = true ∨ mi.mayStore = true
  alu_pcRel : ∀ mi, isPacketizableMI mi = true → (classifyOpClass mi).isALU = true →
    pcRel mi = false

variable (tgt : Target V M T)

def Target.step (mi : MachineInstr) (s : Footprint.State Nat V M) : Outcome V M T :=
  if isPacketizableMI mi then .next ((tgt.op mi).run s) else tgt.other mi s

def runBlock : List MachineInstr → Footprint.State Nat V M → Outcome V M T
  | [], s => .next s
  | mi :: rest, s =>
    match tgt.step mi s with
    | .next t => runBlock rest t
    | .leave t x => .leave t x

/-! ## the emitted list -/

/-- memory, control or PC-relative work -/
def Target.lostInWorker (mi : MachineInstr) : Bool :=
  mi.mayLoad || mi.mayStore || mi.isBranch || mi.isTerminator || mi.isCall || mi.isReturn
    || tgt.pcRel mi

def Target.laneOp (mi : MachineInstr) (lane : Nat) : Op Nat V M :=
  if lane = 0 then tgt.op mi
  else if tgt.lostInWorker mi then Op.idle
  else tgt.op mi

def Target.lanes (ms : List MachineInstr) : List (Op Nat V M) :=
  ms.zipIdx.map fun (mi, lane) => tgt.laneOp mi lane

/-- executions of an emitted list; `accept k` decides the hint with `k` elements behind it -/
inductive Exec (accept : Nat → Bool) :
    List Emitted → Footprint.State Nat V M → Outcome V M T → Prop
  | nil (s : Footprint.State Nat V M) : Exec accept [] s (.next s)
  | inst {mi : MachineInstr} {rest : List Emitted} {s t : Footprint.State Nat V M}
      {o : Outcome V M T} (h : tgt.step mi s = .next t) (hrest : Exec accept rest t o) :
      Exec accept (.inst mi :: rest) s o
  | leave {mi : MachineInstr} {s t : Footprint.State Nat V M} {x : T} (rest : List Emitted)
      (h : tgt.step mi s = .leave t x) : Exec accept (.inst mi :: rest) s (.leave t x)
  | decline {n : Nat} {rest : List Emitted} {s : Footprint.State Nat V M} {o : Outcome V M T}
      (ha : accept rest.length = false) (hrest : Exec accept rest s o) :
      Exec accept (.hint n :: rest) s o
  | accepted {ms : List MachineInstr} {rest : List Emitted} {s t : Footprint.State Nat V M}
      {o : Outcome V M T} (ha : accept (ms.map Emitted.inst ++ rest).length = true)
      (hp : ∀ m ∈ ms, isPacketizableMI m = true) (hi : Issue (tgt.lanes ms) s t)
      (hrest : Exec accept rest t o) :
      Exec accept (.hint ms.length :: (ms.map Emitted.inst ++ rest)) s o

variable {tgt} {accept : Nat → Bool}

/-! ## reading an execution -/

theorem Exec.nil_iff {s : Footprint.State Nat V M} {o : Outcome V M T} :
    Exec tgt accept [] s o ↔ o = .next s := by
  constructor
  · intro h
    cases h
    rfl
  · rintro rfl
    exact Exec.nil s

theorem Exec.inst_iff {mi : MachineInstr} {rest : List Emitted} {s : Footprint.State Nat V M}
    {o : Outcome V M T} : Exec tgt accept (.inst mi :: rest) s o
      ↔ match tgt.step mi s with
        | .next t => Exec tgt accept rest t o
        | .leave t x => o = .leave t x := by
  cases hs : tgt.step mi s with
  | next t =>
    constructor
    · intro h
      cases h with
      | inst h hrest =>
        rw [hs] at h
        cases h
        exact hrest
      | leave rest h =>
        rw [hs] at h
        cases h
    · exact fun h => Exec.inst hs h
  | leave t x =>
    constructor
    · intro h
      cases h with
      | inst h hrest =>
        rw [hs] at h
        cases h
      | leave rest h =>
        rw [hs] at h
        cases h
        rfl
    · rintro rfl
      exact Exec.leave rest hs

theorem Exec.hint_iff {ms : List MachineInstr} (hms : ∀ m ∈ ms, isPacketizableMI m = true)
    {rest : List Emitted} {s : Footprint.State Nat V M} {o : Outcome V M T} :
    Exec tgt accept (.hint ms.length :: (ms.map Emitted.inst ++ rest)) s o
      ↔ if accept (ms.map Emitted.inst ++ rest).length = true then
          ∃ t, Issue (tgt.lanes ms) s t ∧ Exec tgt accept rest t o
        else Exec tgt accept (ms.map Emitted.inst ++ rest) s o := by
  have hinj : Function.Injective Emitted.inst := fun a b h => Emitted.inst.inj h
  constructor
  · generalize hn : ms.length = n
    generalize hl : ms.map Emitted.inst ++ rest = l
    intro h
    cases h with
    | decline ha hrest =>
      rw [if_neg (by rw [ha]; exact Bool.false_ne_true)]
      exact hrest
    | accepted ha hp hi hrest =>
      rename_i ms' rest' t
      rw [if_pos ha]
      -- the instructions the hint counts are the ones that follow it
      obtain ⟨hm, hr⟩ := List.append_inj hl (by simp [hn])
      obtain rfl := List.map_injective_iff.mpr hinj hm
      subst hr
      exact ⟨t, hi, hrest⟩
  · intro h
    split_ifs at h with ha
    · obtain ⟨t, hi, hrest⟩ := h
      exact Exec.accepted ha hms hi hrest
    · exact Exec.decline (Bool.eq_false_iff.mpr ha) h

/-! ## instructions without a hint -/

theorem runBlock_append {ms : List MachineInstr} (hms : ∀ m ∈ ms, isPacketizableMI m = true)
    (rest : List MachineInstr) (s : Footprint.State Nat V M) :
    runBlock tgt (ms ++ rest) s = runBlock tgt rest (seq (ms.map tgt.op) s) := by
  induction ms generalizing s with
  | nil => rfl
  | cons m ms ih =>
    have hstep : tgt.step m s = .next ((tgt.op m).run s) := if_pos (hms m List.mem_cons_self)
    rw [List.cons_append, runBlock, hstep]
    exact ih (fun m' h' => hms m' (List.mem_cons_of_mem _ h')) _

theorem Exec.insts_iff {ms : List MachineInstr} (hms : ∀ m ∈ ms, isPacketizableMI m = true)
    {rest : List Emitted} {s : Footprint.State Nat V M} {o : Outcome V M T} :
    Exec tgt accept (ms.map Emitted.inst ++ rest) s o
      ↔ Exec tgt accept rest (seq (ms.map tgt.op) s) o := by
  induction ms generalizing s with
  | nil => exact Iff.rfl
  | cons m ms ih =>
    have hstep : tgt.step m s = .next ((tgt.op m).run s) := if_pos (hms m List.mem_cons_self)
    rw [List.map_cons, List.cons_append, Exec.inst_iff, hstep]
    exact ih fun m' h' => hms m' (List.mem_cons_of_mem _ h')

/-! ## a packet issued at once -/

theorem lanes_eq_ops {ms : List MachineInstr} (hms : ∀ m ∈ ms, isPacketizableMI m = true)
    (hw : WorkersALU ms) : tgt.lanes ms = ms.map tgt.op := by
  have hop : ∀ x ∈ ms.zipIdx, tgt.laneOp x.1 x.2 = tgt.op x.1 := by
    rintro ⟨m, lane⟩ hx
    by_cases h0 : lane = 0
    · exact if_pos h0
    · have hm := hms m (List.fst_mem_of_mem_zipIdx hx)
      have halu := hw m (mem_zipIdx_tail.mpr ⟨lane, h0, hx⟩)
      obtain ⟨hb, hl, hs⟩ := flags_of_isALU halu
      have hlost : tgt.lostInWorker m = false := by
        simp only [Bool.or_eq_false_iff] at hb
        simp [Target.lostInWorker, hb, hl, hs, tgt.alu_pcRel m hm halu]
      show (if lane = 0 then tgt.op m else if tgt.lostInWorker m then Op.idle else tgt.op m) = _
      rw [if_neg h0, hlost, if_neg Bool.false_ne_true]
  calc tgt.lanes ms
      = ms.zipIdx.map fun x => tgt.op x.1 := List.map_congr_left hop
    _ = (ms.zipIdx.map Prod.fst).map tgt.op := (List.map_map).symm
    _ = ms.map tgt.op := by rw [List.zipIdx_map_fst]

theorem ops_independent {ms : List MachineInstr} (hms : ∀ m ∈ ms, isPacketizableMI m = true)
    (hi : ms.Pairwise FullyIndependent) (hw : WorkersALU ms) :
    Independent (ms.map tgt.op) := by
  refine List.pairwise_map.mpr (List.pairwise_iff_getElem.mpr fun i j hil hjl hij => ?_)
  have hind := List.pairwise_iff_getElem.mp hi i j hil hjl hij
  have hmi := hms _ (List.getElem_mem hil)
  have hmj := hms _ (List.getElem_mem hjl)
  have hj : ms[j] ∈ ms.tail :=
    mem_zipIdx_tail.mpr ⟨j, by omega,
      List.mem_zipIdx_iff_getElem?.mpr (List.getElem?_eq_getElem hjl)⟩
  refine ⟨?_, ?_, ?_⟩
  · exact Set.disjoint_of_subset (tgt.op_writes _ hmi) (tgt.op_reads _ hmj)
      (Finset.disjoint_coe.mpr hind.raw)
  · exact Set.disjoint_of_subset (tgt.op_writes _ hmi) (tgt.op_writes _ hmj)
      (Finset.disjoint_coe.mpr hind.waw)
  · rintro ⟨-, hmem⟩
    obtain ⟨-, hl, hs⟩ := flags_of_isALU (hw _ hj)
    rcases tgt.op_mem _ hmj hmem with h | h
    · rw [hl] at h
      cases h
    · rw [hs] at h
      cases h

/-- **A packet of the override-free configuration, issued at once, is the packet in order.** -/
theorem issue_packet_iff {opts : CommandLine} {p : Packet}
    (hp : p.WellFormed (baseConfig opts)) (s t : Footprint.State Nat V M) :
    Issue (tgt.lanes p.members) s t ↔ t = seq (p.members.map tgt.op) s := by
  have hw := hp.workersALU
  rw [lanes_eq_ops hp.packetizable hw]
  exact issue_iff_seq (ops_independent hp.packetizable hp.independent hw) s t

/-! ## the whole block -/

/-- one group in front, whatever is decided about its hint -/
theorem exec_group_iff {opts : CommandLine} {g : Group} (hg : g.WellFormed (baseConfig opts))
    {rest : List Emitted} {block : List MachineInstr} {o : Outcome V M T}
    (ih : ∀ t, Exec tgt accept rest t o ↔ o = runBlock tgt block t)
    (s : Footprint.State Nat V M) :
    Exec tgt accept (g.emit (baseConfig opts) ++ rest) s o
      ↔ o = runBlock tgt (g.block ++ block) s := by
  cases g with
  | bare m =>
    show Exec tgt accept (.inst m :: rest) s o ↔ o = runBlock tgt (m :: block) s
    rw [Exec.inst_iff, runBlock]
    cases tgt.step m s with
    | next t => exact ih t
    | leave t x => exact Iff.rfl
  | packet p =>
    have hp := hg.2
    have hseq : Exec tgt accept (p.members.map .inst ++ rest) s o
        ↔ o = runBlock tgt (p.members ++ block) s := by
      rw [Exec.insts_iff hp.packetizable, ih, runBlock_append hp.packetizable]
    by_cases hs : shouldEmitHint (baseConfig opts) p.members.length = true
    · rw [Group.emit_packet hs, List.cons_append, Exec.hint_iff hp.packetizable]
      split_ifs
      · -- accepted: one outcome of the issue, the one of the sequence
        simp only [issue_packet_iff hp, exists_eq_left]
        rw [ih]
        show o = _ ↔ o = runBlock tgt (p.members ++ block) s
        rw [runBlock_append hp.packetizable]
      · exact hseq
    · rw [Group.emit_packet_bare hs]
      exact hseq

theorem exec_groups_iff {opts : CommandLine} {gs : List Group}
    (hgs : ∀ g ∈ gs, g.WellFormed (baseConfig opts)) (s : Footprint.State Nat V M)
    (o : Outcome V M T) :
    Exec tgt accept (gs.flatMap (Group.emit (baseConfig opts))) s o
      ↔ o = runBlock tgt (gs.flatMap Group.block) s := by
  induction gs generalizing s with
  | nil => exact Exec.nil_iff
  | cons g gs ih =>
    rw [List.flatMap_cons, List.flatMap_cons]
    exact exec_group_iff (hgs g List.mem_cons_self)
      (fun t => ih (fun g' h' => hgs g' (List.mem_cons_of_mem _ h')) t) s

/-- **Without an override, the list the packetizer leaves has exactly the outcome of the block,
whatever the fetch unit decides about each hint.** -/
theorem exec_packetizeBasicBlock_iff {opts : CommandLine} (ho : opts.laneOpClasses = [])
    {cfg : StarbugVLIWConfig} (hr : Returns opts cfg) (tgt : Target V M T) (accept : Nat → Bool)
    (block : List MachineInstr) (s : Footprint.State Nat V M) (o : Outcome V M T) :
    Exec tgt accept (packetizeBasicBlock cfg block).1 s o ↔ o = runBlock tgt block s := by
  obtain rfl := (returns_iff_of_empty ho cfg).mp hr
  rw [(packetizeBasicBlock_eq (baseConfig opts) block).1,
    exec_groups_iff (groups_wellFormed _ block), groups_block]

end

/-! ## a load and an addition, issued at once -/

/-- the def of a load is the memory at its use, the def of another instruction the sum of its
uses -/
def sumTarget : Target Nat (Nat → Nat) Unit where
  op mi :=
    { reads := mi.uses
      writes := mi.defs
      usesMem := mi.mayLoad = true
      run := fun s => { s with
        regs := fun r =>
          if r ∈ mi.defs then
            if mi.mayLoad then s.mem (mi.uses.sum s.regs) else mi.uses.sum s.regs
          else s.regs r }
      frame := fun s r hr => if_neg fun h => hr (Finset.mem_coe.mpr h)
      mem_frame := fun _ _ => rfl
      local_regs := fun s t hr hm r hw => by
        have hsum : mi.uses.sum s.regs = mi.uses.sum t.regs :=
          Finset.sum_congr rfl fun r h => hr r (Finset.mem_coe.mpr h)
        simp only [if_pos (Finset.mem_coe.mp hw), hsum]
        by_cases hl : mi.mayLoad = true
        · rw [if_pos hl, if_pos hl, hm hl]
        · rw [if_neg hl, if_neg hl]
      local_mem := fun s t _ hm hu => hm hu }
  other _ s := .next s
  pcRel _ := false
  op_reads _ _ := Set.Subset.rfl
  op_writes _ _ := Set.Subset.rfl
  op_mem _ _ h := Or.inl h
  alu_pcRel _ _ _ := rfl

theorem exec_packetizeBasicBlock_lwAdd :
    Exec sumTarget (fun _ => true) (packetizeBasicBlock (baseConfig {}) lwAdd).1
      ⟨fun r => r, fun a => a + 100⟩ (runBlock sumTarget lwAdd ⟨fun r => r, fun a => a + 100⟩) :=
  (exec_packetizeBasicBlock_iff rfl ((returns_iff_of_empty rfl _).mpr rfl) sumTarget _ lwAdd _
    _).mpr rfl

end Starbug.Vliw
