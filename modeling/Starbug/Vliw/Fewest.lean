import Starbug.Vliw.Structure
import Starbug.Lib.Greedy

/-!
# The packetizer divides a block into the fewest issues

A division of a block is any way to cut it, in order, into parts of which each issues at once: a
single instruction, or packetizable and fully independent instructions of which the `i`-th is
legal in lane `i`.  `issues` counts what the emitted list takes on a core that forms every bundle.

* `packetizeBasicBlock_fewest`   where the lanes take fewer classes the higher they are, the list
                                 the pass leaves takes as few issues as any division allows;
* `packetizeBasicBlock_antitone` a configuration that takes whatever another one takes never
                                 leaves a longer list.
-/

namespace Starbug.Vliw

/-! ## divisions of a block -/

/-- the `i`-th instruction is one that the pass can give lane `i` -/
structure Legal (cfg : StarbugVLIWConfig) (ms : List MachineInstr) : Prop where
  packetizable : ∀ m ∈ ms, isPacketizableMI m = true
  independent : ms.Pairwise FullyIndependent
  lanes : ∀ i m, ms[i]? = some m → Takes cfg i (classifyOpClass m)

/-- what issues at once -/
def IssuesAtOnce (cfg : StarbugVLIWConfig) (ms : List MachineInstr) : Prop :=
  ms.length ≤ 1 ∨ Legal cfg ms

/-- the issues of an emitted list where every hint is taken; the first `k` elements have issued -/
def issuesFrom : Nat → List Emitted → Nat
  | _, [] => 0
  | k + 1, _ :: rest => issuesFrom k rest
  | 0, .hint n :: rest => issuesFrom n rest + 1
  | 0, .inst _ :: rest => issuesFrom 0 rest + 1

def issues (es : List Emitted) : Nat := issuesFrom 0 es

section
variable {cfg : StarbugVLIWConfig}

theorem Takes.of_lt (hd : Descending cfg) {i j : Nat} (hij : i ≤ j) {c : OpClass}
    (h : Takes cfg j c) : Takes cfg i c := by
  rcases Nat.lt_or_eq_of_le hij with hlt | rfl
  · exact ⟨Nat.lt_trans hlt h.lt, Nat.lt_trans hlt h.int, hd c i j hlt h⟩
  · exact h

theorem hereditary_issuesAtOnce (hd : Descending cfg) :
    Greedy.Hereditary (IssuesAtOnce cfg) := by
  intro u v huv hv
  rcases hv with hone | hlegal
  · exact Or.inl (Nat.le_trans huv.length_le hone)
  · obtain ⟨s, t, rfl⟩ := huv
    refine Or.inr ⟨fun m hm => ?_, ?_, fun i m hm => ?_⟩
    · exact hlegal.packetizable m (List.mem_append_left t (List.mem_append_right s hm))
    · exact hlegal.independent.sublist
        ((List.sublist_append_right s u).trans (List.sublist_append_left (s ++ u) t))
    · have hi : i < u.length := (List.getElem?_eq_some_iff.mp hm).1
      refine (hlegal.lanes (s.length + i) m ?_).of_lt hd (Nat.le_add_left i s.length)
      rw [List.append_assoc, List.getElem?_append_right (Nat.le_add_right _ _),
        Nat.add_sub_cancel_left, List.getElem?_append_left hi]
      exact hm

/-! ## the groups of the pass are a division -/

theorem Packet.WellFormed.issuesAtOnce {p : Packet} (h : p.WellFormed cfg)
    (hN : cfg.numLanes < 2 ^ 32) (hd : Descending cfg) : Legal cfg p.members where
  packetizable := h.packetizable
  independent := h.independent
  lanes := fun _ _ hm => h.takes_position hN hd hm

theorem divides_groups (hN : cfg.numLanes < 2 ^ 32) (hd : Descending cfg)
    (block : List MachineInstr) :
    Greedy.Divides (IssuesAtOnce cfg) block ((groups cfg block).map Group.block) where
  flatten := by
    rw [← List.flatMap_def]
    exact groups_block cfg block
  parts := by
    intro ms hms
    obtain ⟨g, hg, rfl⟩ := List.mem_map.mp hms
    cases g with
    | bare m => exact Or.inl (Nat.le_refl 1)
    | packet p => exact Or.inr ((groups_wellFormed cfg block _ hg).2.issuesAtOnce hN hd)

/-- the lanes of a packet are its positions -/
theorem Packet.WellFormed.lane_lt {p : Packet} (h : p.WellFormed cfg)
    (hN : cfg.numLanes < 2 ^ 32) (hd : Descending cfg) {lane : Nat} (hl : lane ∈ p.lanes) :
    lane < p.members.length := by
  obtain ⟨⟨m, l⟩, hmem, rfl⟩ := List.mem_map.mp hl
  obtain ⟨a, b, hs⟩ := List.append_of_mem hmem
  rw [h.lane_eq hN hd a m l b hs]
  unfold Packet.members
  rw [List.length_map, hs, List.length_append, List.length_cons]
  omega

/-- an instruction that could issue with the open packet joins it -/
theorem join_ne_none (hN : cfg.numLanes < 2 ^ 32) (hd : Descending cfg) {p : Packet}
    (hp : p.WellFormed cfg) {x : MachineInstr} (hx : Legal cfg (p.members ++ [x])) :
    join cfg p x ≠ none := by
  have hmem : x ∈ p.members ++ [x] := List.mem_append_right _ List.mem_cons_self
  have hind : ∀ m ∈ p.members, FullyIndependent m x := fun m hm =>
    (List.pairwise_append.mp hx.independent).2.2 m hm x List.mem_cons_self
  have htakes : Takes cfg p.members.length (classifyOpClass x) := by
    apply hx.lanes
    rw [List.getElem?_append_right (Nat.le_refl _), Nat.sub_self]
    rfl
  rw [join_of_independent (hx.packetizable x hmem) (hasPacketDependency_eq_false.mpr hind)]
  intro hnone
  have hfull := (freeLane_eq_none hN).mp (Option.map_eq_none_iff.mp hnone)
  exact Nat.lt_irrefl _ (hp.lane_lt hN hd (hfull _ htakes))

theorem maximal_groups (hN : cfg.numLanes < 2 ^ 32) (hd : Descending cfg)
    (block : List MachineInstr) :
    Greedy.Maximal (IssuesAtOnce cfg) ((groups cfg block).map Group.block) where
  nonempty := by
    intro ms hms
    obtain ⟨g, hg, rfl⟩ := List.mem_map.mp hms
    exact (groups_wellFormed cfg block g hg).block_ne_nil
  closed := by
    intro a ms b x post heq hb hlong
    obtain ⟨gs₁, gs, hgs, rfl, hgs'⟩ := List.map_eq_append_iff.mp heq
    obtain ⟨g, gs₂, rfl, rfl, rfl⟩ := List.map_eq_cons_iff.mp hgs'
    rw [← List.flatMap_def] at hb
    have hwf : g.WellFormed cfg :=
      groups_wellFormed cfg block g (hgs ▸ List.mem_append_right gs₁ List.mem_cons_self)
    have hne : 1 ≤ g.block.length := List.length_pos_iff.mpr hwf.block_ne_nil
    have hlegal : Legal cfg (g.block ++ [x]) := by
      apply hlong.resolve_left
      rw [List.length_append, List.length_singleton]
      omega
    cases g with
    | bare m =>
      -- the instruction alone was turned away by the empty packet
      have hpre : Legal cfg [m] := by
        refine ⟨fun y hy => hlegal.packetizable y (List.mem_append_left [x] hy),
          List.pairwise_singleton _ m, fun i y hy => hlegal.lanes i y ?_⟩
        obtain ⟨hi, -⟩ := List.getElem?_eq_some_iff.mp hy
        rw [show (Group.bare m).block = [m] from rfl, List.getElem?_append_left hi]
        exact hy
      exact join_ne_none hN hd (Packet.wellFormed_empty cfg) hpre hwf
    | packet p =>
      rcases closed_next hgs with hfull | hend | ⟨pre, x', post', -, -, hj, hnext⟩
      · have hlane : Takes cfg p.members.length (classifyOpClass x) := by
          apply hlegal.lanes
          rw [show (Group.packet p).block = p.members from rfl,
            List.getElem?_append_right (Nat.le_refl _), Nat.sub_self]
          rfl
        exact absurd hfull (Nat.not_le.mpr hlane.lt)
      · rw [hend] at hb
        cases hb
      · rw [hb] at hnext
        obtain ⟨rfl, -⟩ := List.cons.inj hnext
        exact join_ne_none hN hd hwf.2 hlegal hj

/-! ## the issues of the emitted list -/

theorem issuesFrom_issued (ms : List MachineInstr) (rest : List Emitted) :
    issuesFrom ms.length (ms.map .inst ++ rest) = issues rest := by
  induction ms with
  | nil => rfl
  | cons m ms ih => exact ih

/-- a hint and the packet it counts -/
theorem issues_hint (ms : List MachineInstr) (rest : List Emitted) :
    issues (.hint ms.length :: (ms.map .inst ++ rest)) = issues rest + 1 :=
  congrArg (· + 1) (issuesFrom_issued ms rest)

theorem issues_emit (hs : cfg.scheduler.allowShortPackets = true) {g : Group}
    (hg : g.WellFormed cfg) (rest : List Emitted) :
    issues (g.emit cfg ++ rest) = issues rest + 1 := by
  cases g with
  | bare m => rfl
  | packet p =>
    by_cases hh : shouldEmitHint cfg p.members.length = true
    · rw [Group.emit_packet hh, List.cons_append]
      exact issues_hint p.members rest
    · -- a packet without a hint has one member
      obtain ⟨m, ms, hm⟩ := List.exists_cons_of_ne_nil hg.block_ne_nil
      have hm' : p.members = m :: ms := hm
      cases ms with
      | nil =>
        rw [Group.emit_packet_bare hh, hm']
        rfl
      | cons m' ms =>
        have htwo : 2 ≤ p.members.length := by
          rw [hm', List.length_cons, List.length_cons]
          omega
        exact absurd (shouldEmitHint_of_two_le hs htwo) hh

theorem issues_groups (hs : cfg.scheduler.allowShortPackets = true) {gs : List Group}
    (hgs : ∀ g ∈ gs, g.WellFormed cfg) : issues (gs.flatMap (Group.emit cfg)) = gs.length := by
  induction gs with
  | nil => rfl
  | cons g gs ih =>
    rw [List.flatMap_cons, issues_emit hs (hgs g List.mem_cons_self),
      ih fun g' h' => hgs g' (List.mem_cons_of_mem g h'), List.length_cons]

theorem issues_packetizeBasicBlock (hs : cfg.scheduler.allowShortPackets = true)
    (block : List MachineInstr) :
    issues (packetizeBasicBlock cfg block).1 = ((groups cfg block).map Group.block).length := by
  rw [(packetizeBasicBlock_eq cfg block).1, issues_groups hs (groups_wellFormed cfg block),
    List.length_map]

/-- **The list the pass leaves takes as few issues as any division of the block.** -/
theorem packetizeBasicBlock_fewest {opts : CommandLine} (h : Returns opts cfg)
    (hd : Descending cfg) (block : List MachineInstr) :
    IsLeast {n | ∃ parts, Greedy.Divides (IssuesAtOnce cfg) block parts ∧ parts.length = n}
      (issues (packetizeBasicBlock cfg block).1) := by
  have hsane := h.sane
  rw [issues_packetizeBasicBlock hsane.short]
  exact (divides_groups hsane.numLanes_lt hd block).isLeast (hereditary_issuesAtOnce hd)
    (maximal_groups hsane.numLanes_lt hd block)

/-- **A configuration that takes on each lane what another one takes there never leaves a list
that takes more issues.** -/
theorem packetizeBasicBlock_antitone {opts opts' : CommandLine} {cfg' : StarbugVLIWConfig}
    (h : Returns opts cfg) (h' : Returns opts' cfg') (hd : Descending cfg)
    (hd' : Descending cfg') (hle : ∀ lane c, Takes cfg lane c → Takes cfg' lane c)
    (block : List MachineInstr) :
    issues (packetizeBasicBlock cfg' block).1 ≤ issues (packetizeBasicBlock cfg block).1 := by
  have hsane := h.sane
  have hsane' := h'.sane
  have himp : ∀ ms, IssuesAtOnce cfg ms → IssuesAtOnce cfg' ms := by
    intro ms hms
    refine hms.imp_right fun hlegal => ⟨hlegal.packetizable, hlegal.independent, ?_⟩
    exact fun i m hm => hle i _ (hlegal.lanes i m hm)
  rw [issues_packetizeBasicBlock hsane.short, issues_packetizeBasicBlock hsane'.short]
  exact Greedy.length_le_of_imp (hereditary_issuesAtOnce hd') himp
    (divides_groups hsane'.numLanes_lt hd' block) (maximal_groups hsane'.numLanes_lt hd' block)
    (divides_groups hsane.numLanes_lt hd block)

end

/-! ## a load and an addition -/

theorem packetizeBasicBlock_fewest_lwAdd :
    IsLeast {n | ∃ parts, Greedy.Divides (IssuesAtOnce (baseConfig {})) lwAdd parts
      ∧ parts.length = n} 1 := by
  have hr : Returns {} (baseConfig {}) := (returns_iff_of_empty rfl _).mpr rfl
  have hone : issues (packetizeBasicBlock (baseConfig {}) lwAdd).1 = 1 := by decide
  rw [← hone]
  exact packetizeBasicBlock_fewest hr (descending_baseConfig {}) lwAdd

/-- with one lane there are two issues -/
theorem packetizeBasicBlock_antitone_lwAdd :
    issues (packetizeBasicBlock (baseConfig {}) lwAdd).1
      ≤ issues (packetizeBasicBlock (baseConfig { lanes := 1 }) lwAdd).1 := by
  have hr : Returns {} (baseConfig {}) := (returns_iff_of_empty rfl _).mpr rfl
  have hr₁ : Returns { lanes := 1 } (baseConfig { lanes := 1 }) :=
    (returns_iff_of_empty rfl _).mpr rfl
  refine packetizeBasicBlock_antitone hr₁ hr (descending_baseConfig _) (descending_baseConfig _)
    ?_ lwAdd
  intro lane c h
  have hzero : lane = 0 := Nat.lt_one_iff.mp h.lt
  subst hzero
  exact ⟨by decide, by decide, by cases c <;> rfl⟩

end Starbug.Vliw
