import Starbug.Vliw.Agree
import Mathlib.Data.Set.Function

/-!
# Registers that alias

The pass compares `Register` values by identity.  A target may have several values for one
architectural register (`F10_F` and `F10_D` are both `f10`); the hardware and the checker know
architectural registers only.  `arch` maps the one to the other, and `0` is `x0`.

* `packets_hazardFree_iff`   on every block over the registers `regs` all hinted packets are free
                             of architectural RAW and WAW exactly if no two of the registers have
                             a common architectural register other than `x0`, or at most one lane
                             is usable.
-/

namespace Starbug.Vliw

/-! ## hazards on architectural registers -/

/-- no register `a` defines has an architectural register in common with one the later `b` uses or
defines, except `x0` -/
def ArchIndependent (arch : Nat → Nat) (a b : MachineInstr) : Prop :=
  ∀ r ∈ a.defs, ∀ s ∈ b.uses ∪ b.defs, arch r = arch s → arch r = 0

/-- `d` is what the checker decodes for `mi` -/
structure SeenAs (arch : Nat → Nat) (mi : MachineInstr) (d : Insn) : Prop where
  reads : d.reads = (mi.uses.image arch).erase 0
  writes : d.writes = (mi.defs.image arch).erase 0

/-- in the packet `ms` there is no RAW and no WAW, and the checker finds none in its bundle -/
structure HazardFree (arch : Nat → Nat) (ms : List MachineInstr) : Prop where
  independent : ms.Pairwise (ArchIndependent arch)
  verified : ∀ ds, List.Forall₂ (SeenAs arch) ms ds → forPairs pairErrors 0 ds = []

/-- every hint of the list is followed by a packet that is free of hazards -/
def PacketsHazardFree (arch : Nat → Nat) (out : List Emitted) : Prop :=
  ∀ a n b, out = a ++ .hint n :: b → HazardFree arch ((b.take n).filterMap Emitted.inst?)

/-- two of the registers that are not `x0` never name one architectural register -/
def AliasFree (regs : Set Nat) (arch : Nat → Nat) : Prop :=
  Set.InjOn arch {r | r ∈ regs ∧ r ≠ 0 ∧ arch r ≠ 0}

/-- the block uses and defines registers of `regs` only -/
def Over (regs : Set Nat) (block : List MachineInstr) : Prop :=
  ∀ mi ∈ block, ∀ r ∈ mi.uses ∪ mi.defs, r ∈ regs

section
variable {cfg : StarbugVLIWConfig} {arch : Nat → Nat} {regs : Set Nat}

/-! ## independent as the checker sees it -/

theorem disjoint_image_erase {s t : Finset Nat}
    (h : ∀ r ∈ s, ∀ r' ∈ t, arch r = arch r' → arch r = 0) :
    Disjoint ((s.image arch).erase 0) ((t.image arch).erase 0) := by
  rw [Finset.disjoint_left]
  intro x hx hx'
  obtain ⟨hx0, hx⟩ := Finset.mem_erase.mp hx
  obtain ⟨-, hx'⟩ := Finset.mem_erase.mp hx'
  obtain ⟨r, hr, rfl⟩ := Finset.mem_image.mp hx
  obtain ⟨r', hr', heq⟩ := Finset.mem_image.mp hx'
  exact hx0 (h r hr r' hr' heq.symm)

theorem ArchIndependent.regIndependent {a b : MachineInstr} (h : ArchIndependent arch a b)
    {d e : Insn} (hd : SeenAs arch a d) (he : SeenAs arch b e) : RegIndependent d e where
  raw := by
    rw [hd.writes, he.reads]
    exact disjoint_image_erase fun r hr s hs => h r hr s (Finset.mem_union_left _ hs)
  waw := by
    rw [hd.writes, he.writes]
    exact disjoint_image_erase fun r hr s hs => h r hr s (Finset.mem_union_right _ hs)

theorem exists_seenAs {ms : List MachineInstr} {ds : List Insn}
    (h : List.Forall₂ (SeenAs arch) ms ds) {d : Insn} (hd : d ∈ ds) :
    ∃ m ∈ ms, SeenAs arch m d := by
  induction h with
  | nil => cases hd
  | cons hm _ ih =>
    rcases List.mem_cons.mp hd with rfl | hd
    · exact ⟨_, List.mem_cons_self, hm⟩
    · obtain ⟨m, hmem, hm'⟩ := ih hd
      exact ⟨m, List.mem_cons_of_mem _ hmem, hm'⟩

theorem pairwise_regIndependent {ms : List MachineInstr} {ds : List Insn}
    (h : List.Forall₂ (SeenAs arch) ms ds) (hind : ms.Pairwise (ArchIndependent arch)) :
    ds.Pairwise RegIndependent := by
  induction h with
  | nil => exact List.Pairwise.nil
  | cons hm hrest ih =>
    obtain ⟨hhead, htail⟩ := List.pairwise_cons.mp hind
    refine List.Pairwise.cons (fun d hd => ?_) (ih htail)
    obtain ⟨b, hb, hbd⟩ := exists_seenAs hrest hd
    exact (hhead b hb).regIndependent hm hbd

theorem hazardFree_iff {ms : List MachineInstr} :
    HazardFree arch ms ↔ ms.Pairwise (ArchIndependent arch) := by
  refine ⟨HazardFree.independent, fun hind => ⟨hind, fun ds hds => ?_⟩⟩
  exact (forPairs_eq_nil pairErrors_eq_nil 0 ds).mpr (pairwise_regIndependent hds hind)

/-! ## without aliases -/

theorem ne_zero_of_mem_accesses {mi : MachineInstr} {r : Nat} (h : r ∈ mi.uses ∪ mi.defs) :
    r ≠ 0 := by
  have hinsert : ∀ r, ¬ r = 0 → ∀ acc : Finset Nat × Finset Nat, 0 ∉ acc.1 ∪ acc.2 →
      0 ∉ insert r (acc.1 ∪ acc.2) := by
    intro r h0 acc hacc h
    exact (Finset.mem_insert.mp h).elim (fun h => h0 h.symm) hacc
  have hfold : ∀ (mos : List MachineOperand) (acc : Finset Nat × Finset Nat),
      0 ∉ acc.1 ∪ acc.2 → 0 ∉ (mos.foldl collectOperand acc).1
        ∪ (mos.foldl collectOperand acc).2 := by
    intro mos
    induction mos with
    | nil => exact fun _ h => h
    | cons mo mos ih =>
      intro acc hacc
      refine ih _ ?_
      cases mo with
      | other => exact hacc
      | reg r isDef =>
        unfold collectOperand
        simp only
        split_ifs with h0 hd
        · exact hacc
        · rw [Finset.union_insert]
          exact hinsert r h0 acc hacc
        · rw [Finset.insert_union]
          exact hinsert r h0 acc hacc
  rintro rfl
  exact hfold mi.operands (∅, ∅) (by simp) h

/-- what is independent by name is independent, where no two names alias -/
theorem FullyIndependent.archIndependent {a b : MachineInstr} (h : FullyIndependent a b)
    (hfree : AliasFree regs arch) (ha : ∀ r ∈ a.uses ∪ a.defs, r ∈ regs)
    (hb : ∀ r ∈ b.uses ∪ b.defs, r ∈ regs) : ArchIndependent arch a b := by
  intro r hr s hs heq
  by_contra h0
  have hra : r ∈ a.uses ∪ a.defs := Finset.mem_union_right _ hr
  have hrs : r = s := hfree ⟨ha r hra, ne_zero_of_mem_accesses hra, h0⟩
    ⟨hb s hs, ne_zero_of_mem_accesses hs, heq ▸ h0⟩ heq
  subst hrs
  rcases Finset.mem_union.mp hs with hs | hs
  · exact Finset.disjoint_left.mp h.raw hr hs
  · exact Finset.disjoint_left.mp h.waw hr hs

theorem mem_of_packet {block : List MachineInstr} {p : Packet} (hp : .packet p ∈ groups cfg block)
    {m : MachineInstr} (hm : m ∈ p.members) : m ∈ block := by
  rw [← groups_block cfg block]
  exact List.mem_flatMap.mpr ⟨_, hp, hm⟩

theorem packetsHazardFree_of_packets {block : List MachineInstr}
    (h : ∀ p, .packet p ∈ groups cfg block → p.members.Pairwise (ArchIndependent arch)) :
    PacketsHazardFree arch (packetizeBasicBlock cfg block).1 := by
  intro a n b hout
  rw [(packetizeBasicBlock_eq cfg block).1] at hout
  obtain ⟨p, hp, rfl, -, rest, rfl⟩ := flatMap_emit_eq_append_hint hout
  rw [filterMap_take_insts, hazardFree_iff]
  exact h p hp

theorem pairwise_of_length_le_one {ms : List MachineInstr} (h : ms.length ≤ 1)
    (R : MachineInstr → MachineInstr → Prop) : ms.Pairwise R := by
  cases ms with
  | nil => exact List.Pairwise.nil
  | cons m ms =>
    obtain rfl : ms = [] := List.length_eq_zero_iff.mp (Nat.le_zero.mp (Nat.le_of_succ_le_succ h))
    exact List.pairwise_singleton R m

/-! ## two names of one register -/

/-- an instruction of class `c` that defines `r` and does nothing else -/
def writer (c : OpClass) (r : Nat) : MachineInstr := { sample c 0 with operands := [.reg r true] }

theorem writer_spec (c : OpClass) {r : Nat} (hr : r ≠ 0) :
    isPacketizableMI (writer c r) = true ∧ classifyOpClass (writer c r) = c
      ∧ (writer c r).uses = ∅ ∧ (writer c r).defs = {r} := by
  have hcls : classifyOpClass (writer c r) = classifyOpClass (sample c 0) := by
    cases c <;> rfl
  refine ⟨by cases c <;> rfl, hcls.trans (sample_spec c 0).2.1, ?_, ?_⟩
  · simp [MachineInstr.uses, collectRegAccesses, writer, collectOperand, hr]
  · simp [MachineInstr.defs, collectRegAccesses, writer, collectOperand, hr]

theorem writer_independent (c c' : OpClass) {r s : Nat} (hr : r ≠ 0) (hs : s ≠ 0) (hrs : r ≠ s) :
    FullyIndependent (writer c r) (writer c' s) := by
  obtain ⟨-, -, hu, hd⟩ := writer_spec c hr
  obtain ⟨-, -, hu', hd'⟩ := writer_spec c' hs
  refine ⟨?_, ?_, ?_⟩
  · rw [hu']
    exact Finset.disjoint_empty_right _
  · rw [hd, hd', Finset.disjoint_singleton]
    exact hrs
  · rw [hu]
    exact Finset.disjoint_empty_left _

/-- the two lowest usable lanes take a pair of instructions -/
theorem exists_lanesFor_two (hN : cfg.numLanes < 2 ^ 32) (h : ¬ (usableLanes cfg).length ≤ 1) :
    2 ≤ cfg.numLanes ∧ ∃ c c' ls, LanesFor cfg [] [c, c'] ls := by
  have hsplit : usableLanes cfg = [] ++ ((usableLanes cfg).take 2 ++ (usableLanes cfg).drop 2) :=
    (List.take_append_drop 2 _).symm
  obtain ⟨cs, hlen, hcs⟩ := lanesFor_usable hN hsplit
  have hle := usableLanes_length_le cfg
  rw [List.length_take] at hlen
  obtain ⟨c, c', rfl⟩ : ∃ c c', cs = [c, c'] := List.length_eq_two.mp (by omega)
  exact ⟨by omega, c, c', _, hcs⟩

/-- two instructions that write one register under two names are put into one packet -/
theorem not_packetsHazardFree {opts : CommandLine} (h : Sane opts cfg)
    (htwo : ¬ (usableLanes cfg).length ≤ 1) {r s : Nat} (hr : r ≠ 0) (hs : s ≠ 0) (hrs : r ≠ s)
    (heq : arch r = arch s) (h0 : arch r ≠ 0) :
    ∃ block, (∀ mi ∈ block, ∀ t ∈ mi.uses ∪ mi.defs, t = r ∨ t = s)
      ∧ ¬ PacketsHazardFree arch (packetizeBasicBlock cfg block).1 := by
  obtain ⟨hw, c, c', ls, hls⟩ := exists_lanesFor_two h.numLanes_lt htwo
  obtain ⟨hpk, hcls, hu, hd⟩ := writer_spec c hr
  obtain ⟨hpk', hcls', hu', hd'⟩ := writer_spec c' hs
  have hpks : ∀ m ∈ [writer c r, writer c' s], isPacketizableMI m = true := by
    simp [hpk, hpk']
  have hind : [writer c r, writer c' s].Pairwise FullyIndependent :=
    List.pairwise_pair.mpr (writer_independent c c' hr hs hrs)
  have hlanes : LanesFor cfg [] ([writer c r, writer c' s].map classifyOpClass) ls := by
    rw [List.map_cons, List.map_singleton, hcls, hcls']
    exact hls
  have hout : (packetizeBasicBlock cfg [writer c r, writer c' s]).1
      = .hint 2 :: [writer c r, writer c' s].map .inst :=
    output_of_lanesFor (List.cons_ne_nil _ _) hw hpks hind hlanes
      (shouldEmitHint_of_two_le h.short (Nat.le_refl 2))
  refine ⟨[writer c r, writer c' s], ?_, fun hfree => ?_⟩
  · simp [hu, hd, hu', hd']
  · have hpair : [writer c r, writer c' s].Pairwise (ArchIndependent arch) :=
      (hfree [] 2 _ hout).independent
    have hrs' := List.pairwise_pair.mp hpair
    refine h0 (hrs' r ?_ s ?_ heq)
    · rw [hd]
      exact Finset.mem_singleton_self r
    · rw [hd']
      exact Finset.mem_union_right _ (Finset.mem_singleton_self s)

/-! ## every block -/

/-- **On every block over `regs` all hinted packets are free of hazards, as the hardware and the
checker see them, exactly if no two registers alias or at most one lane is usable.** -/
theorem packets_hazardFree_iff {opts : CommandLine} (h : Returns opts cfg) (regs : Set Nat)
    (arch : Nat → Nat) :
    (∀ block, Over regs block → PacketsHazardFree arch (packetizeBasicBlock cfg block).1)
      ↔ AliasFree regs arch ∨ (usableLanes cfg).length ≤ 1 := by
  have hsane := h.sane
  constructor
  · intro hall
    by_contra hcon
    obtain ⟨halias, htwo⟩ := not_or.mp hcon
    refine halias fun r hr s hs heq => ?_
    obtain ⟨hr, hr0, hrx⟩ := hr
    obtain ⟨hs, hs0, -⟩ := hs
    by_contra hrs
    obtain ⟨block, hblock, hbad⟩ := not_packetsHazardFree hsane htwo hr0 hs0 hrs heq hrx
    refine hbad (hall block fun mi hmi t ht => ?_)
    rcases hblock mi hmi t ht with rfl | rfl
    · exact hr
    · exact hs
  · intro hcond block hblock
    apply packetsHazardFree_of_packets
    intro p hp
    have hw := (packet_wellFormed hp).2
    rcases hcond with hfree | hone
    · refine hw.independent.imp_of_mem fun ha hb hab => ?_
      exact hab.archIndependent hfree (hblock _ (mem_of_packet hp ha))
        (hblock _ (mem_of_packet hp hb))
    · exact pairwise_of_length_le_one (Nat.le_trans (hw.length_le hsane.numLanes_lt) hone) _

end

/-- `X0`–`X31` are `1`–`32`, `F0_F`–`F31_F` are `33`–`64` and `F0_D`–`F31_D` are `65`–`96`; the
checker numbers them `x0`–`x31` and `f0`–`f31` -/
def riscvArch (r : Nat) : Nat := if r ≤ 64 then r - 1 else r - 33

theorem packets_hazardFree_iff_single :
    PacketsHazardFree riscvArch (packetizeBasicBlock (baseConfig {}) lwAdd).1 := by
  have hfree : AliasFree (Set.Icc 1 64) riscvArch := by
    rintro r ⟨⟨h1, h2⟩, -, -⟩ s ⟨⟨h1', h2'⟩, -, -⟩ heq
    unfold riscvArch at heq
    rw [if_pos h2, if_pos h2'] at heq
    omega
  have hover : Over (Set.Icc 1 64) lwAdd := by
    have hall : ∀ mi ∈ lwAdd, ∀ r ∈ mi.uses ∪ mi.defs, 1 ≤ r ∧ r ≤ 64 := by decide
    exact hall
  exact (packets_hazardFree_iff ((returns_iff_of_empty rfl _).mpr rfl) _ _).mpr (Or.inl hfree)
    lwAdd hover

/-- `FADD_D F10_D, F11_D, F12_D` and `FADD_S F13_F, F10_F, F14_F` -/
def mixedAdds : List MachineInstr :=
  [{ name := "FADD_D", operands := [.reg 75 true, .reg 76 false, .reg 77 false, .other] },
    { name := "FADD_S", operands := [.reg 46 true, .reg 43 false, .reg 47 false, .other] }]

/-- the second reads what the first writes; both get one hint, and the checker reports the RAW on
their words -/
theorem mixedAdds_one_packet :
    Returns {} (baseConfig {})
      ∧ ¬ PacketsHazardFree riscvArch (packetizeBasicBlock (baseConfig {}) mixedAdds).1
      ∧ ¬ RegIndependent (decode 2 0x02C5F553 "fadd.d fa0,fa1,fa2")
          (decode 6 0x00E576D3 "fadd.s fa3,fa0,fa4") := by
  refine ⟨(returns_iff_of_empty rfl _).mpr rfl, fun h => ?_, by decide⟩
  have hout : (packetizeBasicBlock (baseConfig {}) mixedAdds).1
      = [] ++ .hint 2 :: mixedAdds.map .inst := by decide
  have hpair : mixedAdds.Pairwise (ArchIndependent riscvArch) := (h [] 2 _ hout).independent
  have hind := List.pairwise_pair.mp hpair
  exact absurd (hind 75 (by decide) 43 (by decide) (by decide)) (by decide)

end Starbug.Vliw
