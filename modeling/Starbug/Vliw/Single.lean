import Starbug.Vliw.Lanes

/-!
# Hints of length 1

`flushPacket` asks first whether a packet is FULL and only then whether it is SINGLE.  Where the
configuration is one lane wide both hold of the same packet.

* `mem_groups_of_one_lane`         one lane wide, every instruction that lane 0 takes is a packet;
* `single_hints_suppressed_iff`    with single hints switched off, no hint of length 1 is inserted
                                   exactly if there are two lanes or lane 0 takes nothing.
-/

namespace Starbug.Vliw

section
variable {cfg : StarbugVLIWConfig}

/-! ## one lane -/

theorem shouldEmitHint_one (hoff : cfg.scheduler.emitSingleInstructionHints = false) :
    shouldEmitHint cfg 1 = true ↔ cfg.numLanes = 1 := by
  unfold shouldEmitHint StarbugVLIWConfig.maxBundleWidth
  rw [hoff]
  by_cases h1 : cfg.numLanes = 1
  · rw [h1]
    exact iff_of_true rfl rfl
  · have hfull : (1 == cfg.numLanes) = false := beq_false_of_ne (Ne.symm h1)
    rw [hfull]
    exact iff_of_false Bool.false_ne_true h1

/-- no packet stays open -/
theorem groupStep_of_one_lane (h1 : cfg.numLanes = 1) (mi : MachineInstr) :
    (groupStep cfg {} mi).2 = {} := by
  unfold groupStep
  cases hj : join cfg {} mi with
  | none => rfl
  | some p' =>
    have hfull : cfg.maxBundleWidth ≤ p'.members.length := by
      rw [join_members hj, List.length_append, List.length_singleton]
      show cfg.numLanes ≤ _
      omega
    show (settle cfg p').2 = {}
    rw [settle, if_pos hfull]

theorem mem_groupStep_of_one_lane (h1 : cfg.numLanes = 1) {mi : MachineInstr}
    (hpk : isPacketizableMI mi = true)
    (hlegal : cfg.isLaneLegal 0 (classifyOpClass mi) = true) :
    .packet ⟨[(mi, 0)]⟩ ∈ (groupStep cfg {} mi).1 := by
  have htakes : Takes cfg 0 (classifyOpClass mi) := ⟨by omega, by decide, hlegal⟩
  have hfree : freeLane cfg [] (classifyOpClass mi) = some 0 :=
    (freeLane_eq_some (by omega)).mpr
      ⟨htakes, List.not_mem_nil, fun l hl => absurd hl (Nat.not_lt_zero l)⟩
  have hj : join cfg {} mi = some ⟨[(mi, 0)]⟩ := by
    have hjoin : join cfg {} mi = (freeLane cfg [] (classifyOpClass mi)).map
        fun lane => ⟨[] ++ [(mi, lane)]⟩ := join_of_independent hpk (hasPacketDependency_nil mi)
    rw [hjoin, hfree]
    rfl
  have hfull : cfg.maxBundleWidth ≤ (Packet.mk [(mi, 0)]).members.length := by
    show cfg.numLanes ≤ 1
    omega
  unfold groupStep
  rw [hj]
  show _ ∈ (settle cfg ⟨[(mi, 0)]⟩).1
  rw [settle, if_pos hfull]
  exact List.mem_singleton.mpr rfl

/-- **One lane wide, every instruction that lane 0 takes is a packet of its own.** -/
theorem mem_groups_of_one_lane (h1 : cfg.numLanes = 1) {block : List MachineInstr}
    {mi : MachineInstr} (hmi : mi ∈ block) (hpk : isPacketizableMI mi = true)
    (hlegal : cfg.isLaneLegal 0 (classifyOpClass mi) = true) :
    .packet ⟨[(mi, 0)]⟩ ∈ groups cfg block := by
  unfold groups
  induction block with
  | nil => exact absurd hmi List.not_mem_nil
  | cons x rest ih =>
    rw [groupsFrom, groupStep_of_one_lane h1]
    apply List.mem_append.mpr
    rcases List.mem_cons.mp hmi with rfl | hmi
    · exact Or.inl (mem_groupStep_of_one_lane h1 hpk hlegal)
    · exact Or.inr (ih hmi)

/-! ## single hints -/

/-- lane 0 takes no instruction of the block -/
def LaneZeroIdle (cfg : StarbugVLIWConfig) (block : List MachineInstr) : Prop :=
  ∀ mi ∈ block, isPacketizableMI mi = true → cfg.isLaneLegal 0 (classifyOpClass mi) = false

theorem single_hint_iff (hN : cfg.numLanes < 2 ^ 32)
    (hoff : cfg.scheduler.emitSingleInstructionHints = false) (block : List MachineInstr) :
    .hint 1 ∈ (packetizeBasicBlock cfg block).1
      ↔ cfg.numLanes = 1 ∧ ¬ LaneZeroIdle cfg block := by
  rw [mem_hint_iff]
  constructor
  · rintro ⟨p, hp, hlen, hs⟩
    have h1 := (shouldEmitHint_one hoff).mp hs
    obtain ⟨-, hw⟩ := packet_wellFormed hp
    obtain ⟨⟨mi, lane⟩, hslot⟩ : ∃ s, p.slots = [s] := by
      apply List.length_eq_one_iff.mp
      rw [hlen]
      exact (List.length_map _).symm
    have hmem : mi ∈ p.members := by
      unfold Packet.members
      rw [hslot]
      exact List.mem_cons_self
    have htakes : Takes cfg lane (classifyOpClass mi) := hw.takes hN (hslot ▸ List.mem_cons_self)
    have hzero : lane = 0 := by
      have hlt := htakes.lt
      omega
    have hblock : mi ∈ block := by
      rw [← groups_block cfg block]
      exact List.mem_flatMap.mpr ⟨_, hp, hmem⟩
    refine ⟨h1, fun hidle => ?_⟩
    have hlegal := htakes.legal
    rw [hzero, hidle mi hblock (hw.packetizable mi hmem)] at hlegal
    cases hlegal
  · rintro ⟨h1, hbusy⟩
    unfold LaneZeroIdle at hbusy
    push Not at hbusy
    obtain ⟨mi, hmi, hpk, hlegal⟩ := hbusy
    rw [ne_eq, Bool.not_eq_false] at hlegal
    exact ⟨_, mem_groups_of_one_lane h1 hmi hpk hlegal, rfl, (shouldEmitHint_one hoff).mpr h1⟩

/-- **With single hints switched off, a block gets no hint of length 1 exactly if there are two
lanes or lane 0 takes none of its instructions; and no block gets one exactly if there are two
lanes or lane 0 takes no class.** -/
theorem single_hints_suppressed_iff {opts : CommandLine} (h : Returns opts cfg)
    (hoff : cfg.scheduler.emitSingleInstructionHints = false) :
    (∀ block, .hint 1 ∉ (packetizeBasicBlock cfg block).1
        ↔ 2 ≤ cfg.numLanes ∨ LaneZeroIdle cfg block)
      ∧ ((∀ block, .hint 1 ∉ (packetizeBasicBlock cfg block).1)
        ↔ 2 ≤ cfg.numLanes ∨ ∀ c, cfg.isLaneLegal 0 c = false) := by
  have hpos := h.sane.numLanes_pos
  have hone : ∀ block, .hint 1 ∉ (packetizeBasicBlock cfg block).1
      ↔ 2 ≤ cfg.numLanes ∨ LaneZeroIdle cfg block := by
    intro block
    have hwidth : cfg.numLanes ≠ 1 ↔ 2 ≤ cfg.numLanes := by omega
    rw [single_hint_iff h.sane.numLanes_lt hoff, not_and_or, not_not, ← ne_eq, hwidth]
  refine ⟨hone, fun hall => ?_, fun hcond block => ?_⟩
  · by_cases h2 : 2 ≤ cfg.numLanes
    · exact Or.inl h2
    · right
      intro c
      have hidle := ((hone [sample c 0]).mp (hall _)).resolve_left h2
      rw [← (sample_spec c 0).2.1]
      exact hidle _ List.mem_cons_self (sample_spec c 0).1
  · apply (hone block).mpr
    rcases hcond with h2 | hidle
    · exact Or.inl h2
    · exact Or.inr fun mi _ _ => hidle _

end

theorem single_hints_suppressed_iff_default :
    .hint 1 ∉ (packetizeBasicBlock (baseConfig {}) fiveAdds).1 :=
  (single_hints_suppressed_iff ((returns_iff_of_empty rfl _).mpr rfl) rfl).2.mpr
    (Or.inl (by decide)) fiveAdds

/-- `-starbug-vliw-lanes=1`, one instruction: the packet is full -/
theorem one_lane_hint : Returns { lanes := 1 } (baseConfig { lanes := 1 })
    ∧ (baseConfig { lanes := 1 }).scheduler.emitSingleInstructionHints = false
    ∧ .hint 1 ∈ (packetizeBasicBlock (baseConfig { lanes := 1 }) (fiveAdds.take 1)).1 := by
  refine ⟨(returns_iff_of_empty rfl _).mpr rfl, rfl, ?_⟩
  decide

end Starbug.Vliw
