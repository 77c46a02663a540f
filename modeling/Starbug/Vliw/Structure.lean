import Starbug.Vliw.Agree
import Starbug.Vliw.Override

/-!
# The structure of the emitted packets

What the block looks like that the pass leaves: the block itself with hints in it, each in front
of a packet of independent instructions that were given distinct legal lanes, and that is as long
as the next instruction allows.

* `structured_iff`           the one thing that can fail is the last: `tryAssignLane` returns a
                             lane from `2^31` on as a negative `int`, and the instruction does not
                             join although that lane is free and legal;
* `packets_structured_iff`   the same, and on which configurations it never fails.

`closed_next` and `closed_of_join_none` say which packets are closed: those that are full, and
those that are open in front of an instruction that does not join.
-/

namespace Starbug.Vliw

/-! ## what is to hold -/

/-- the packet `ms` under a hint, with the lanes `ls` that its members were given in order; `next`
is the instruction behind it -/
structure HintedPacket (cfg : StarbugVLIWConfig) (ms : List MachineInstr) (ls : List Nat)
    (next : Option MachineInstr) : Prop where
  packetizable : ∀ m ∈ ms, isPacketizableMI m = true
  independent : ms.Pairwise FullyIndependent
  given : LanesFor cfg [] (ms.map classifyOpClass) ls
  distinct : ls.Nodup
  legal : List.Forall₂
    (fun m lane => lane < cfg.numLanes ∧ cfg.isLaneLegal lane (classifyOpClass m) = true) ms ls
  maximal : ms.length = cfg.numLanes ∨ ∀ x ∈ next, isPacketizableMI x = false
    ∨ (∃ m ∈ ms, ¬ FullyIndependent m x)
    ∨ ∀ lane < cfg.numLanes, cfg.isLaneLegal lane (classifyOpClass x) = true → lane ∈ ls

/-- the result `r` of the pass on `block` -/
structure Structured (cfg : StarbugVLIWConfig) (block : List MachineInstr)
    (r : List Emitted × Bool) : Prop where
  erased : r.1.filterMap Emitted.inst? = block
  hinted : ∀ a n b, r.1 = a ++ .hint n :: b → ∃ ms ls rest, b = ms.map .inst ++ rest
    ∧ ms.length = n ∧ HintedPacket cfg ms ls (rest.filterMap Emitted.inst?).head?
  apart : ∀ a n b m c, r.1 = a ++ .hint n :: (b ++ .hint m :: c) → n ≤ b.length
  changed : r.2 = true ↔ ∃ n, .hint n ∈ r.1

/-- no instruction that could join an open packet that gets a hint is kept from it by a lane that
is negative as an `int`; `-1` is returned when there is no lane -/
def LanesFit (cfg : StarbugVLIWConfig) (block : List MachineInstr) : Prop :=
  ∀ pre x post, block = pre ++ x :: post → (scanned cfg pre).packet ≠ [] →
    shouldEmitHint cfg (scanned cfg pre).packet.length = true → isPacketizableMI x = true →
    hasPacketDependency x.uses x.defs (scanned cfg pre).packetUses (scanned cfg pre).packetDefs
      = false →
    -1 ≤ tryAssignLane cfg (scanned cfg pre).packetLanes (classifyOpClass x)

section
variable {cfg : StarbugVLIWConfig}

/-! ## which packets are closed -/

theorem full_of_mem_settle {p p' : Packet} (h : .packet p ∈ (settle cfg p').1) :
    cfg.maxBundleWidth ≤ p.members.length := by
  unfold settle at h
  split_ifs at h with hfull
  · unfold Packet.close at h
    split_ifs at h
    · cases h
    · obtain rfl : p = p' := Group.packet.inj (List.mem_singleton.mp h)
      exact hfull
  · cases h

theorem full_of_mem_restart {p : Packet} {mi : MachineInstr}
    (h : .packet p ∈ (restart cfg mi).1) : cfg.maxBundleWidth ≤ p.members.length := by
  unfold restart at h
  cases hj : join cfg {} mi with
  | none =>
    rw [hj] at h
    cases List.mem_singleton.mp h
  | some p' =>
    rw [hj] at h
    exact full_of_mem_settle h

/-- the packets one step closes are full, except for the one that was open -/
theorem closed_of_step {p q : Packet} {mi : MachineInstr} {gs₁ gs₂ : List Group}
    (h : (groupStep cfg q mi).1 = gs₁ ++ .packet p :: gs₂) :
    cfg.maxBundleWidth ≤ p.members.length ∨ (gs₁ = [] ∧ p = q ∧ join cfg q mi = none) := by
  have hmem : .packet p ∈ (groupStep cfg q mi).1 :=
    h ▸ List.mem_append_right _ List.mem_cons_self
  cases hj : join cfg q mi with
  | some q' =>
    rw [groupStep, hj] at hmem
    exact Or.inl (full_of_mem_settle hmem)
  | none =>
    rw [groupStep_of_join_none hj] at h
    unfold Packet.close at h
    split_ifs at h with hq
    · have h' : (restart cfg mi).1 = gs₁ ++ .packet p :: gs₂ := h
      exact Or.inl (full_of_mem_restart (h' ▸ List.mem_append_right _ List.mem_cons_self))
    · cases gs₁ with
      | nil =>
        obtain ⟨hp, -⟩ := List.cons.inj h
        exact Or.inr ⟨rfl, (Group.packet.inj hp).symm, rfl⟩
      | cons g gs₁ =>
        have h' : (restart cfg mi).1 = gs₁ ++ .packet p :: gs₂ := (List.cons.inj h).2
        exact Or.inl (full_of_mem_restart (h' ▸ List.mem_append_right _ List.mem_cons_self))

/-- **A packet that is closed is full, or ends the block, or was open in front of an instruction
that does not join it.** -/
theorem closed_next {p q : Packet} {block : List MachineInstr} {gs₁ gs₂ : List Group}
    (h : groupsFrom cfg q block = gs₁ ++ .packet p :: gs₂) :
    cfg.maxBundleWidth ≤ p.members.length ∨ gs₂.flatMap Group.block = []
      ∨ ∃ pre x post, block = pre ++ x :: post ∧ openAfter cfg q pre = p
        ∧ join cfg p x = none ∧ gs₂.flatMap Group.block = x :: post := by
  induction block generalizing q gs₁ with
  | nil =>
    rw [groupsFrom] at h
    unfold Packet.close at h
    split_ifs at h
    · exact absurd h.symm (List.append_ne_nil_of_right_ne_nil _ (List.cons_ne_nil _ _))
    · cases gs₁ with
      | nil =>
        obtain ⟨-, rfl⟩ := List.cons.inj h
        exact Or.inr (Or.inl rfl)
      | cons g gs₁ =>
        obtain ⟨-, h⟩ := List.cons.inj h
        exact absurd h.symm (List.append_ne_nil_of_right_ne_nil _ (List.cons_ne_nil _ _))
  | cons mi rest ih =>
    -- the instructions in front of `gs₂` are those up to `p`
    have hblock := groupsFrom_block cfg q (mi :: rest)
    rw [h, List.flatMap_append, List.flatMap_cons] at hblock
    rw [groupsFrom] at h
    have hrest : ∀ gs', groupsFrom cfg (groupStep cfg q mi).2 rest = gs' ++ .packet p :: gs₂ →
        cfg.maxBundleWidth ≤ p.members.length ∨ gs₂.flatMap Group.block = []
          ∨ ∃ pre x post, mi :: rest = pre ++ x :: post ∧ openAfter cfg q pre = p
            ∧ join cfg p x = none ∧ gs₂.flatMap Group.block = x :: post := by
      intro gs' h'
      rcases ih h' with hfull | hend | ⟨pre, x, post, rfl, hopen, hj, hnext⟩
      · exact Or.inl hfull
      · exact Or.inr (Or.inl hend)
      · exact Or.inr (Or.inr ⟨mi :: pre, x, post, rfl, hopen, hj, hnext⟩)
    rcases List.append_eq_append_iff.mp h with ⟨gs', -, h'⟩ | ⟨gs', h1, h2⟩
    · exact hrest gs' h'
    · cases gs' with
      | nil => exact hrest [] h2.symm
      | cons g gs' =>
        obtain ⟨rfl, rfl⟩ := List.cons.inj h2
        rcases closed_of_step h1 with hfull | ⟨rfl, rfl, hj⟩
        · exact Or.inl hfull
        · refine Or.inr (Or.inr ⟨[], mi, rest, rfl, rfl, hj, ?_⟩)
          exact List.append_cancel_left hblock

/-- a packet that is open in front of an instruction that does not join is closed there -/
theorem closed_of_join_none {q p : Packet} {pre : List MachineInstr} {x : MachineInstr}
    (hp : openAfter cfg q pre = p) (hne : p.members ≠ []) (hj : join cfg p x = none)
    (post : List MachineInstr) :
    ∃ gs₁ gs₂, groupsFrom cfg q (pre ++ x :: post) = gs₁ ++ .packet p :: gs₂
      ∧ gs₂.flatMap Group.block = x :: post := by
  induction pre generalizing q with
  | nil =>
    obtain rfl : q = p := hp
    have hblock := groupsFrom_block cfg q (x :: post)
    rw [groupsFrom, groupStep_of_join_none hj, q.close_eq hne] at hblock
    refine ⟨[], _, ?_, List.append_cancel_left hblock⟩
    rw [List.nil_append, groupsFrom, groupStep_of_join_none hj, q.close_eq hne]
    rfl
  | cons mi pre ih =>
    obtain ⟨gs₁, gs₂, h, hblock⟩ := ih hp
    refine ⟨(groupStep cfg q mi).1 ++ gs₁, gs₂, ?_, hblock⟩
    rw [List.cons_append, groupsFrom, h, List.append_assoc]

/-! ## the lane of an instruction that does not join -/

/-- what the value of `tryAssignLane` says about the free lanes -/
theorem tryAssignLane_cases (hN : cfg.numLanes < 2 ^ 32) (lanes : List Nat) (c : OpClass) :
    0 ≤ tryAssignLane cfg lanes c
      ∨ (tryAssignLane cfg lanes c = -1
        ∧ ∀ lane < cfg.numLanes, cfg.isLaneLegal lane c = true → lane ∈ lanes)
      ∨ (tryAssignLane cfg lanes c < -1 ∧ ∃ lane, 2 ^ 31 ≤ lane ∧ lane < cfg.numLanes
        ∧ cfg.isLaneLegal lane c = true ∧ lane ∉ lanes) := by
  rw [tryAssignLane_eq]
  cases hf : (List.range cfg.numLanes).find? (laneTest cfg lanes c) with
  | none =>
    refine Or.inr (Or.inl ⟨rfl, fun lane hlane => ?_⟩)
    have hnone := List.find?_eq_none.mp hf lane (List.mem_range.mpr hlane)
    exact laneTest_eq_false.mp (Bool.eq_false_iff.mpr hnone)
  | some lane =>
    have hlt : lane < cfg.numLanes := List.mem_range.mp (List.mem_of_find?_eq_some hf)
    have ht : laneTest cfg lanes c lane = true := List.find?_some hf
    obtain ⟨hlegal, hfree⟩ := Bool.and_eq_true_iff.mp ht
    rw [Option.map_some, Option.getD_some, toInt_ofNat32 (Nat.lt_trans hlt hN)]
    by_cases h31 : lane < 2 ^ 31
    · rw [if_pos h31]
      exact Or.inl (Int.natCast_nonneg lane)
    · rw [if_neg h31]
      refine Or.inr (Or.inr ⟨by omega, lane, Nat.not_lt.mp h31, hlt, hlegal, ?_⟩)
      simpa using hfree

theorem freeLane_of_neg {lanes : List Nat} {c : OpClass} (h : tryAssignLane cfg lanes c < 0) :
    freeLane cfg lanes c = none :=
  if_pos h

/-! ## the lanes of a packet -/

theorem LanesFor.unique {ls₀ ls ls' : List Nat} {cs : List OpClass} (h : LanesFor cfg ls₀ cs ls)
    (h' : LanesFor cfg ls₀ cs ls') : ls = ls' := by
  induction h generalizing ls' with
  | nil ls₀ =>
    cases h'
    rfl
  | cons hl _ ih =>
    cases h' with
    | cons hl' h' =>
      obtain rfl := Option.some.inj (hl.symm.trans hl')
      rw [ih h']

theorem Packet.WellFormed.lanesFor {p : Packet} (h : p.WellFormed cfg) :
    LanesFor cfg [] (p.members.map classifyOpClass) p.lanes := by
  have hsuffix : ∀ a b, p.slots = a ++ b → LanesFor cfg (a.map Prod.snd)
      ((b.map Prod.fst).map classifyOpClass) (b.map Prod.snd) := by
    intro a b
    induction b generalizing a with
    | nil => exact fun _ => LanesFor.nil _
    | cons x b ih =>
      intro hs
      have hrest := ih (a ++ [x]) (by rw [hs, List.append_assoc]; rfl)
      rw [List.map_append] at hrest
      exact LanesFor.cons (h.greedy a x.1 x.2 b hs) hrest
  exact hsuffix [] p.slots rfl

theorem Packet.WellFormed.legal {p : Packet} (h : p.WellFormed cfg)
    (hN : cfg.numLanes < 2 ^ 32) :
    List.Forall₂ (fun m lane => lane < cfg.numLanes
      ∧ cfg.isLaneLegal lane (classifyOpClass m) = true) p.members p.lanes := by
  unfold Packet.members Packet.lanes
  rw [List.forall₂_map_left_iff, List.forall₂_map_right_iff, List.forall₂_same]
  rintro ⟨m, lane⟩ hm
  exact ⟨(h.takes hN hm).lt, (h.takes hN hm).legal⟩

/-- a packet with a free lane below the lane count is not full -/
theorem Packet.WellFormed.length_lt {p : Packet} (h : p.WellFormed cfg)
    (hN : cfg.numLanes < 2 ^ 32) {lane : Nat} (hlt : lane < cfg.numLanes)
    (hfree : lane ∉ p.lanes) : p.members.length < cfg.numLanes := by
  have hnodup : (lane :: p.lanes).Nodup := List.nodup_cons.mpr ⟨hfree, h.lanes_nodup hN⟩
  have hsub : lane :: p.lanes ⊆ List.range cfg.numLanes := by
    intro l hl
    rcases List.mem_cons.mp hl with rfl | hl
    · exact List.mem_range.mpr hlt
    · obtain ⟨⟨m, l'⟩, hm, rfl⟩ := List.mem_map.mp hl
      exact List.mem_range.mpr (h.takes hN hm).lt
  have hle := (hnodup.subperm hsub).length_le
  rw [List.length_cons, List.length_range, p.length_lanes] at hle
  exact hle

theorem Packet.WellFormed.length_le_numLanes {p : Packet} (h : p.WellFormed cfg)
    (hN : cfg.numLanes < 2 ^ 32) : p.members.length ≤ cfg.numLanes :=
  Nat.le_trans (h.length_le hN) (usableLanes_length_le cfg)

/-- `LanesFit`, of the packets instead of the locals -/
theorem lanesFit_iff {block : List MachineInstr} : LanesFit cfg block
    ↔ ∀ pre x post, block = pre ++ x :: post → (openAfter cfg {} pre).members ≠ [] →
      shouldEmitHint cfg (openAfter cfg {} pre).members.length = true →
      isPacketizableMI x = true → (∀ m ∈ (openAfter cfg {} pre).members, FullyIndependent m x) →
      -1 ≤ tryAssignLane cfg (openAfter cfg {} pre).lanes (classifyOpClass x) := by
  refine forall₄_congr fun pre x post _ => ?_
  obtain ⟨k, h⟩ := scanned_holds cfg pre
  rw [h.uses, h.defs, h.lanes, h.length, hasPacketDependency_eq_false]
  refine imp_congr (not_congr ?_) Iff.rfl
  rw [← List.length_eq_zero_iff, ← List.length_eq_zero_iff, h.length]

theorem openAfter_wellFormed {p : Packet} (h : p.WellFormed cfg) (pre : List MachineInstr) :
    (openAfter cfg p pre).WellFormed cfg := by
  induction pre generalizing p with
  | nil => exact h
  | cons mi pre ih => exact ih (groupStep_wellFormed h mi).2

/-! ## one block -/

theorem filterMap_emit (gs : List Group) :
    (gs.flatMap (Group.emit cfg)).filterMap Emitted.inst? = gs.flatMap Group.block := by
  induction gs with
  | nil => rfl
  | cons g gs ih =>
    have hhints : ((g.hint cfg).map Emitted.hint).filterMap Emitted.inst? = [] := by
      rw [List.filterMap_map]
      exact List.filterMap_eq_nil_iff.mpr fun _ _ => rfl
    rw [List.flatMap_cons, List.filterMap_append, ih, Group.emit, List.filterMap_append, hhints,
      filterMap_inst, List.nil_append, List.flatMap_cons]

theorem hintedPacket_of_maximal {p : Packet} (h : p.WellFormed cfg) (hN : cfg.numLanes < 2 ^ 32)
    {next : Option MachineInstr}
    (hmax : p.members.length = cfg.numLanes ∨ ∀ x ∈ next, isPacketizableMI x = false
      ∨ (∃ m ∈ p.members, ¬ FullyIndependent m x)
      ∨ ∀ lane < cfg.numLanes, cfg.isLaneLegal lane (classifyOpClass x) = true →
        lane ∈ p.lanes) :
    HintedPacket cfg p.members p.lanes next where
  packetizable := h.packetizable
  independent := h.independent
  given := h.lanesFor
  distinct := h.lanes_nodup hN
  legal := h.legal hN
  maximal := hmax

/-- an instruction that does not join has a reason to, unless its lane is negative -/
theorem maximal_of_join_none {p : Packet} (hN : cfg.numLanes < 2 ^ 32) {x : MachineInstr}
    (hj : join cfg p x = none)
    (hfit : isPacketizableMI x = true → (∀ m ∈ p.members, FullyIndependent m x) →
      -1 ≤ tryAssignLane cfg p.lanes (classifyOpClass x)) :
    isPacketizableMI x = false ∨ (∃ m ∈ p.members, ¬ FullyIndependent m x)
      ∨ ∀ lane < cfg.numLanes, cfg.isLaneLegal lane (classifyOpClass x) = true →
        lane ∈ p.lanes := by
  by_cases hpk : isPacketizableMI x = true
  · by_cases hind : ∀ m ∈ p.members, FullyIndependent m x
    · refine Or.inr (Or.inr ?_)
      rw [join_of_independent hpk (hasPacketDependency_eq_false.mpr hind),
        Option.map_eq_none_iff] at hj
      have hge := hfit hpk hind
      rcases tryAssignLane_cases hN p.lanes (classifyOpClass x) with h0 | ⟨-, h⟩ | ⟨hlt, -⟩
      · rw [freeLane, if_neg (Int.not_lt.mpr h0)] at hj
        cases hj
      · exact h
      · omega
    · obtain ⟨m, hm⟩ := not_forall.mp hind
      obtain ⟨hm, hdep⟩ := Classical.not_imp.mp hm
      exact Or.inr (Or.inl ⟨m, hm, hdep⟩)
  · exact Or.inl (Bool.eq_false_iff.mpr hpk)

theorem hinted_of_lanesFit (hN : cfg.numLanes < 2 ^ 32) {block : List MachineInstr}
    (hfit : LanesFit cfg block) {a b : List Emitted} {n : Nat}
    (h : (packetizeBasicBlock cfg block).1 = a ++ .hint n :: b) :
    ∃ ms ls rest, b = ms.map .inst ++ rest ∧ ms.length = n
      ∧ HintedPacket cfg ms ls (rest.filterMap Emitted.inst?).head? := by
  rw [(packetizeBasicBlock_eq cfg block).1] at h
  obtain ⟨gs₁, p, gs₂, hgs, rfl, hs, rfl⟩ := flatMap_emit_split h
  have hp : .packet p ∈ groups cfg block :=
    hgs ▸ List.mem_append_right _ List.mem_cons_self
  obtain ⟨hne, hw⟩ := packet_wellFormed hp
  refine ⟨p.members, p.lanes, _, rfl, rfl, hintedPacket_of_maximal hw hN ?_⟩
  rw [filterMap_emit]
  rcases closed_next hgs with hfull | hend | ⟨pre, x, post, hblock, rfl, hj, hnext⟩
  · exact Or.inl (Nat.le_antisymm (hw.length_le_numLanes hN) hfull)
  · rw [hend]
    exact Or.inr fun x hx => by cases hx
  · rw [hnext]
    refine Or.inr fun y hy => ?_
    obtain rfl : x = y := Option.some.inj hy
    exact maximal_of_join_none hN hj (lanesFit_iff.mp hfit pre x post hblock hne hs)

/-- the next `n` elements being instructions, the next hint is behind them -/
theorem length_le_of_insts {ms : List MachineInstr} {b c rest : List Emitted} {m : Nat}
    (h : b ++ .hint m :: c = ms.map .inst ++ rest) : ms.length ≤ b.length := by
  by_contra hlt
  have hget := congrArg (·[b.length]?) h
  simp only [List.getElem?_append_right (Nat.le_refl b.length), Nat.sub_self,
    List.getElem?_cons_zero] at hget
  rw [List.getElem?_append_left (by rw [List.length_map]; omega)] at hget
  exact hint_notMem_insts m ms (List.mem_of_getElem? hget.symm)

theorem changed_iff (cfg : StarbugVLIWConfig) (block : List MachineInstr) :
    (packetizeBasicBlock cfg block).2 = true
      ↔ ∃ n, .hint n ∈ (packetizeBasicBlock cfg block).1 := by
  obtain ⟨hout, hchanged⟩ := packetizeBasicBlock_eq cfg block
  rw [hchanged, hout]
  constructor
  · rintro ⟨g, hg, hne⟩
    obtain ⟨n, hn⟩ := List.exists_mem_of_ne_nil _ hne
    exact ⟨n, List.mem_flatMap.mpr ⟨g, hg, List.mem_append_left _ (List.mem_map_of_mem hn)⟩⟩
  · rintro ⟨n, hn⟩
    obtain ⟨g, hg, hn⟩ := List.mem_flatMap.mp hn
    refine ⟨g, hg, fun h0 => ?_⟩
    unfold Group.emit at hn
    rw [h0] at hn
    exact hint_notMem_insts n g.block hn

/-- **Whatever the configuration, the structure is there if all lanes fit.** -/
theorem structured_of_lanesFit (hN : cfg.numLanes < 2 ^ 32) {block : List MachineInstr}
    (hfit : LanesFit cfg block) : Structured cfg block (packetizeBasicBlock cfg block) := by
  constructor
  case erased =>
    rw [(packetizeBasicBlock_eq cfg block).1, filterMap_emit]
    exact groups_block cfg block
  case hinted => exact fun a n b h => hinted_of_lanesFit hN hfit h
  case apart =>
    intro a n b m c h
    obtain ⟨ms, -, rest, heq, rfl, -⟩ := hinted_of_lanesFit hN hfit h
    exact length_le_of_insts heq
  case changed => exact changed_iff cfg block

/-- the packet in front of an instruction with a negative lane is not maximal -/
theorem lanesFit_of_structured (hN : cfg.numLanes < 2 ^ 32) {block : List MachineInstr}
    (h : Structured cfg block (packetizeBasicBlock cfg block)) : LanesFit cfg block := by
  rw [lanesFit_iff]
  rintro pre x post rfl hne hs hpk hind
  have hw := openAfter_wellFormed (Packet.wellFormed_empty cfg) pre
  rcases tryAssignLane_cases hN (openAfter cfg {} pre).lanes (classifyOpClass x) with
    h0 | ⟨h1, -⟩ | ⟨hlt, lane, -, hlane, hlegal, hfree⟩
  · exact Int.le_trans (by decide) h0
  · exact Int.le_of_eq h1.symm
  · have hj : join cfg (openAfter cfg {} pre) x = none := by
      rw [join_of_independent hpk (hasPacketDependency_eq_false.mpr hind),
        freeLane_of_neg (Int.lt_trans hlt (by decide))]
      rfl
    obtain ⟨gs₁, gs₂, hgs, hnext⟩ := closed_of_join_none rfl hne hj post
    have hout := (packetizeBasicBlock_eq cfg (pre ++ x :: post)).1
    rw [groups, hgs, List.flatMap_append, List.flatMap_cons, Group.emit_packet hs,
      List.cons_append] at hout
    obtain ⟨ms, ls, rest, heq, hlen, hms⟩ := h.hinted _ _ _ hout
    -- the packet that `Structured` speaks of is this one
    obtain ⟨hmap, rfl⟩ := List.append_inj heq (by rw [List.length_map, List.length_map, hlen])
    obtain rfl : (openAfter cfg {} pre).members = ms :=
      List.map_injective_iff.mpr (fun _ _ => Emitted.inst.inj) hmap
    obtain rfl : (openAfter cfg {} pre).lanes = ls := hw.lanesFor.unique hms.given
    exfalso
    rcases hms.maximal with hfull | hmax
    · exact absurd hfull (Nat.ne_of_lt (hw.length_lt hN hlane hfree))
    · rw [filterMap_emit, hnext] at hmax
      rcases hmax x rfl with hx | ⟨m, hm, hdep⟩ | hx
      · rw [hpk] at hx
        cases hx
      · exact hdep (hind m hm)
      · exact hfree (hx lane hlane hlegal)

theorem structured_iff (hN : cfg.numLanes < 2 ^ 32) (block : List MachineInstr) :
    Structured cfg block (packetizeBasicBlock cfg block) ↔ LanesFit cfg block :=
  ⟨lanesFit_of_structured hN, structured_of_lanesFit hN⟩

/-! ## every block of a configuration -/

/-- a lane from `2^31` on takes a class -/
def HasHighLane (cfg : StarbugVLIWConfig) : Prop :=
  ∃ c lane, 2 ^ 31 ≤ lane ∧ lane < cfg.numLanes ∧ cfg.isLaneLegal lane c = true

/-- no packet ever gets a hint, if the lanes are more than one -/
def NoHints (cfg : StarbugVLIWConfig) : Prop :=
  usableLanes cfg = []
    ∨ ((usableLanes cfg).length ≤ 1 ∧ cfg.scheduler.emitSingleInstructionHints = false)

theorem lanesFit_of_noHighLane (hN : cfg.numLanes < 2 ^ 32)
    (h : ¬ HasHighLane cfg ∨ NoHints cfg) (block : List MachineInstr) : LanesFit cfg block := by
  rw [lanesFit_iff]
  intro pre x post _ hne hs _ _
  have hw := openAfter_wellFormed (Packet.wellFormed_empty cfg) pre
  rcases tryAssignLane_cases hN (openAfter cfg {} pre).lanes (classifyOpClass x) with
    h0 | ⟨h1, -⟩ | ⟨-, lane, hhigh, hlane, hlegal, -⟩
  · exact Int.le_trans (by decide) h0
  · exact Int.le_of_eq h1.symm
  · exfalso
    have hle := hw.length_le hN
    have hpos : 1 ≤ (openAfter cfg {} pre).members.length := List.length_pos_iff.mpr hne
    rcases h with hno | hnone | ⟨hone, hoff⟩
    · exact hno ⟨_, lane, hhigh, hlane, hlegal⟩
    · rw [hnone, List.length_nil] at hle
      omega
    · -- a single instruction gets no hint, as the machine has more lanes
      have hlen : (openAfter cfg {} pre).members.length = 1 := by omega
      have hN1 : (1 == cfg.maxBundleWidth) = false :=
        beq_false_of_ne (by unfold StarbugVLIWConfig.maxBundleWidth; omega)
      rw [hlen] at hs
      simp [shouldEmitHint, hN1, hoff] at hs

theorem openAfter_of_fills {p q : Packet} {ms : List MachineInstr} (h : Fills cfg p ms q)
    (hw : q.members.length < cfg.numLanes) : openAfter cfg p ms = q := by
  induction h with
  | nil p => rfl
  | cons hj h ih =>
    rename_i p p' q m ms
    have hlen := congrArg List.length h.members
    rw [List.length_append] at hlen
    have hopen : settle cfg p' = ([], p') :=
      if_neg (by unfold StarbugVLIWConfig.maxBundleWidth; omega)
    show openAfter cfg (groupStep cfg p m).2 ms = q
    rw [groupStep, hj]
    show openAfter cfg (settle cfg p').2 ms = q
    rw [hopen]
    exact ih hw

theorem Fills.wellFormed {p q : Packet} {ms : List MachineInstr} (h : Fills cfg p ms q)
    (hp : p.WellFormed cfg) : q.WellFormed cfg := by
  induction h with
  | nil p => exact hp
  | cons hj _ ih => exact ih (join_wellFormed hj hp)

theorem LanesFor.length_eq {ls₀ ls : List Nat} {cs : List OpClass} (h : LanesFor cfg ls₀ cs ls) :
    cs.length = ls.length := by
  induction h with
  | nil ls₀ => rfl
  | cons _ _ ih => exact congrArg Nat.succ ih

/-- a packet that gets a hint, and an instruction whose only free legal lane is a high one -/
theorem not_lanesFit {ms : List MachineInstr} {x : MachineInstr} {ls : List Nat} {lane : Nat}
    (hN : cfg.numLanes < 2 ^ 32) (hpk : ∀ m ∈ ms ++ [x], isPacketizableMI m = true)
    (hind : (ms ++ [x]).Pairwise FullyIndependent)
    (hls : LanesFor cfg [] (ms.map classifyOpClass) ls) (hne : ms ≠ [])
    (hs : shouldEmitHint cfg ms.length = true) (hlane : lane < cfg.numLanes)
    (hlegal : cfg.isLaneLegal lane (classifyOpClass x) = true) (hfree : lane ∉ ls)
    (hnone : freeLane cfg ls (classifyOpClass x) = none) : ¬ LanesFit cfg (ms ++ [x]) := by
  obtain ⟨hindms, -, hcross⟩ := List.pairwise_append.mp hind
  have hf := fills_of_lanesFor (p := {}) (fun m hm => hpk m (List.mem_append_left _ hm)) hindms hls
  have hm : (⟨ms.zip ls⟩ : Packet).members = ms := hf.members
  have hlanes : (⟨ms.zip ls⟩ : Packet).lanes = ls := by
    have hlen := hls.length_eq
    rw [List.length_map] at hlen
    exact List.map_snd_zip (Nat.le_of_eq hlen.symm)
  have hw : (⟨ms.zip ls⟩ : Packet).WellFormed cfg := hf.wellFormed (Packet.wellFormed_empty cfg)
  have hopen : openAfter cfg {} ms = ⟨ms.zip ls⟩ :=
    openAfter_of_fills hf (hw.length_lt hN hlane (hlanes.symm ▸ hfree))
  intro hfit
  rw [lanesFit_iff] at hfit
  have hge := hfit ms x [] rfl
  rw [hopen, hm, hlanes] at hge
  have hge := hge hne hs (hpk x (List.mem_append_right _ List.mem_cons_self))
    fun m hm => hcross m hm x List.mem_cons_self
  rcases tryAssignLane_cases hN ls (classifyOpClass x) with h0 | ⟨-, hall⟩ | ⟨hlt, -⟩
  · rw [freeLane, if_neg (Int.not_lt.mpr h0)] at hnone
    cases hnone
  · exact hfree (hall lane hlane hlegal)
  · omega

/-- a packet on all usable lanes gets a hint, unless there are never hints -/
theorem shouldEmitHint_of_hints (hshort : cfg.scheduler.allowShortPackets = true)
    (h : ¬ NoHints cfg) : shouldEmitHint cfg (usableLanes cfg).length = true := by
  obtain ⟨hsome, hmore⟩ := not_or.mp h
  have hpos : 1 ≤ (usableLanes cfg).length := List.length_pos_iff.mpr hsome
  by_cases htwo : 2 ≤ (usableLanes cfg).length
  · exact shouldEmitHint_of_two_le hshort htwo
  · have hone : (usableLanes cfg).length = 1 := by omega
    have hon : cfg.scheduler.emitSingleInstructionHints = true := by
      by_contra hoff
      exact hmore ⟨Nat.le_of_eq hone, Bool.eq_false_iff.mpr hoff⟩
    rw [hone]
    simp [shouldEmitHint, hon]

/-- a block that puts an instruction on every usable lane, and one more of a class that a high
lane takes -/
theorem exists_not_lanesFit (hN : cfg.numLanes < 2 ^ 32)
    (hshort : cfg.scheduler.allowShortPackets = true) (hhigh : HasHighLane cfg)
    (hhints : ¬ NoHints cfg) : ∃ block, ¬ LanesFit cfg block := by
  obtain ⟨c, lane, h31, hlane, hlegal⟩ := hhigh
  obtain ⟨cs, hlen, hcs⟩ := lanesFor_usable (a := []) (b := usableLanes cfg) (c := []) hN
    (List.append_nil _).symm
  have hpos : 1 ≤ cs.length := hlen ▸ List.length_pos_iff.mpr (not_or.mp hhints).1
  have hfree : lane ∉ usableLanes cfg := by
    intro hl
    obtain ⟨d, hd⟩ := mem_usableLanes.mp hl
    exact absurd hd.int (Nat.not_lt.mpr h31)
  have hnone : freeLane cfg (usableLanes cfg) c = none :=
    (freeLane_eq_none hN).mpr fun l hl => mem_usableLanes.mpr ⟨c, hl⟩
  have hemit : shouldEmitHint cfg cs.length = true := hlen ▸ shouldEmitHint_of_hints hshort hhints
  have hsplit : samples 0 (cs ++ [c]) = samples 0 cs ++ [sample c cs.length] := by
    simp [samples, List.zipIdx_append]
  have hpk : ∀ m ∈ samples 0 (cs ++ [c]), isPacketizableMI m = true := samples_packetizable
  have hind := samples_independent 0 (cs ++ [c])
  have hcls := (sample_spec c cs.length).2.1
  rw [hsplit] at hpk hind
  have hlanes : LanesFor cfg [] ((samples 0 cs).map classifyOpClass) (usableLanes cfg) := by
    rw [map_classifyOpClass_samples]
    exact hcs
  refine ⟨_, not_lanesFit hN hpk hind hlanes ?_ ?_ hlane ?_ hfree ?_⟩
  · intro h0
    have hzero := congrArg List.length h0
    rw [length_samples, List.length_nil] at hzero
    omega
  · rw [length_samples]
    exact hemit
  · rw [hcls]
    exact hlegal
  · rw [hcls]
    exact hnone

/-- **For each block the emitted packets are structured exactly if no lane that an instruction
could join at is negative as an `int`; for a configuration this is so on every block exactly if
no lane from `2^31` on takes a class or there are never hints.** -/
theorem packets_structured_iff {opts : CommandLine} (h : Returns opts cfg) :
    (∀ block, Structured cfg block (packetizeBasicBlock cfg block) ↔ LanesFit cfg block)
      ∧ ((∀ block, Structured cfg block (packetizeBasicBlock cfg block))
        ↔ ¬ HasHighLane cfg ∨ NoHints cfg) := by
  have hsane := h.sane
  have hN := hsane.numLanes_lt
  refine ⟨structured_iff hN, ⟨fun hall => ?_, fun hcond block => ?_⟩⟩
  · by_contra hcon
    obtain ⟨hhigh, hhints⟩ := not_or.mp hcon
    obtain ⟨block, hbad⟩ := exists_not_lanesFit hN hsane.short (not_not.mp hhigh) hhints
    exact hbad ((structured_iff hN block).mp (hall block))
  · exact (structured_iff hN block).mpr (lanesFit_of_noHighLane hN hcond block)

end

theorem packets_structured_iff_default :
    Structured (baseConfig {}) lwAdd (packetizeBasicBlock (baseConfig {}) lwAdd) := by
  have hlow : ¬ HasHighLane (baseConfig {}) := by
    rintro ⟨c, lane, h31, hlane, -⟩
    have h4 : lane < 4 := hlane
    omega
  exact (packets_structured_iff ((returns_iff_of_empty rfl _).mpr rfl)).2.mpr (Or.inl hlow) lwAdd

/-! ## a lane that is passed over -/

/-- `-starbug-vliw-lanes=2147483649 -starbug-vliw-lane-op-classes='2147483648:any'` -/
def wide : CommandLine :=
  { eightLanes with
    lanes := 2147483649
    laneOpClasses := "2147483648:any".toList
    lanes_lt := by decide }

def wideConfig : StarbugVLIWConfig :=
  { baseConfig wide with
    lanes := (baseConfig wide).lanes.set 2147483648 ⟨2147483648, (0 : ClassSet).set .any⟩ }

theorem wide_returns : Returns wide wideConfig :=
  ⟨1, fromCommandLine_single wide.laneOpClasses (by decide) (by decide) (by decide) (by decide)⟩

theorem wide_numLanes : wideConfig.numLanes = 2147483649 :=
  Nat.max_eq_right (by decide)

theorem wide_legal {lane : Nat} (h : lane < 2147483649) (c : OpClass) :
    wideConfig.isLaneLegal lane c
      = if lane = 2147483648 then true else lane == 0 || c.isALU := by
  have hlen : 2147483648 < (baseConfig wide).lanes.length := by
    rw [baseConfig_length]
    exact lt_max_of_lt_right (by decide)
  have hany : (((0 : ClassSet).set .any).test .any || ((0 : ClassSet).set .any).test c) = true := by
    cases c <;> decide
  rw [wideConfig, isLaneLegal_set hlen, hany,
    isLaneLegal_baseConfig wide (Nat.lt_of_lt_of_eq h wide_numLanes.symm)]

/-- `lwAdd` and `LW x15, 0(x11)` -/
def lwAddLw : List MachineInstr :=
  lwAdd ++ [{ name := "LW", operands := [.reg 16 true, .reg 12 false, .other], mayLoad := true }]

theorem wide_takes {lane : Nat} (h : lane < 2 ^ 31) {c : OpClass} :
    Takes wideConfig lane c ↔ lane = 0 ∨ c.isALU = true := by
  have hlt : lane < 2147483649 := by omega
  have hlegal : wideConfig.isLaneLegal lane c = true ↔ lane = 0 ∨ c.isALU = true := by
    rw [wide_legal hlt, if_neg (by omega), Bool.or_eq_true, beq_iff_eq]
  constructor
  · exact fun ht => hlegal.mp ht.legal
  · exact fun hc => ⟨Nat.lt_of_lt_of_eq hlt wide_numLanes.symm, h, hlegal.mpr hc⟩

/-- the second load could go to lane `2^31`, but the packet of the others is closed in front
of it -/
theorem wide_not_maximal :
    Returns wide wideConfig
      ∧ ¬ Structured wideConfig lwAddLw (packetizeBasicBlock wideConfig lwAddLw) := by
  have hN : wideConfig.numLanes < 2 ^ 32 := by
    rw [wide_numLanes]
    decide
  have hlanes : LanesFor wideConfig [] (lwAdd.map classifyOpClass) [0, 1] := by
    have hcls : lwAdd.map classifyOpClass = [.load, .aluAddSub] := by decide
    have hload : freeLane wideConfig [] .load = some 0 := by
      refine (freeLane_eq_some hN).mpr ⟨(wide_takes (by decide)).mpr (Or.inl rfl), ?_, ?_⟩
      · exact List.not_mem_nil
      · exact fun l hl => absurd hl (Nat.not_lt_zero l)
    have hadd : freeLane wideConfig [0] .aluAddSub = some 1 := by
      refine (freeLane_eq_some hN).mpr ⟨(wide_takes (by decide)).mpr (Or.inr rfl), ?_, ?_⟩
      · decide
      · intro l hl _
        obtain rfl : l = 0 := by omega
        exact List.mem_cons_self
    rw [hcls]
    exact LanesFor.cons hload (LanesFor.cons hadd (LanesFor.nil _))
  have hnone : freeLane wideConfig [0, 1] .load = none := by
    refine (freeLane_eq_none hN).mpr fun l hl => ?_
    obtain rfl : l = 0 := ((wide_takes hl.int).mp hl).resolve_right (by decide)
    exact List.mem_cons_self
  have hlane : 2147483648 < wideConfig.numLanes := by
    rw [wide_numLanes]
    decide
  have hlegal : wideConfig.isLaneLegal 2147483648 .load = true := by
    rw [wide_legal (by decide), if_pos rfl]
  have hpk : ∀ m ∈ lwAddLw, isPacketizableMI m = true := by decide
  have hind : lwAddLw.Pairwise FullyIndependent := by decide
  have hemit : shouldEmitHint wideConfig lwAdd.length = true :=
    shouldEmitHint_of_two_le rfl (Nat.le_refl 2)
  refine ⟨wide_returns, fun h => ?_⟩
  exact not_lanesFit hN hpk hind hlanes (List.cons_ne_nil _ _) hemit hlane hlegal (by decide)
    hnone (lanesFit_of_structured hN h)

end Starbug.Vliw
