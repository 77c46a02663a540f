import Starbug.Vliw.Groups
import Starbug.Vliw.Lower
import Mathlib.Data.List.Nodup
import Mathlib.Order.Basic

/-!
# What the lanes of a packet say about its hint

A packet remembers the lane of each member, but only its length reaches the emitted block, where
lane is position.

* `hints_legal_iff`      on every block all hints are legal by POSITION exactly if the lanes take
                         fewer classes the higher they are, or no packet of two can arise;
* `hints_honoured_iff`   on every block all hints are ones the fetch unit honours exactly if at
                         most four lanes are usable.

For the converse directions `samples` builds a block of independent instructions with given
classes, and `output_samples` says that it is left behind one hint.
-/

namespace Starbug.Vliw

/-! ## the lanes of a well-formed packet -/

section
variable {cfg : StarbugVLIWConfig} {p : Packet}

theorem Packet.length_lanes (p : Packet) : p.lanes.length = p.members.length := by
  simp [lanes, members]

theorem Packet.WellFormed.takes (h : p.WellFormed cfg) (hN : cfg.numLanes < 2 ^ 32)
    {m : MachineInstr} {lane : Nat} (hm : (m, lane) ∈ p.slots) :
    Takes cfg lane (classifyOpClass m) := by
  obtain ⟨a, b, hs⟩ := List.append_of_mem hm
  exact ((freeLane_eq_some hN).mp (h.greedy a m lane b hs)).1

theorem Packet.WellFormed.lanes_nodup (h : p.WellFormed cfg) (hN : cfg.numLanes < 2 ^ 32) :
    p.lanes.Nodup := by
  have hprefix : ∀ a b, p.slots = a ++ b → (a.map Prod.snd).Nodup := by
    intro a
    induction a using List.reverseRecOn with
    | nil => exact fun _ _ => List.nodup_nil
    | append_singleton a x ih =>
      intro b hs
      have hs' : p.slots = a ++ (x.1, x.2) :: b := by
        rw [hs, List.append_assoc]
        rfl
      have hfree := ((freeLane_eq_some hN).mp (h.greedy a x.1 x.2 b hs')).2.1
      rw [List.map_append, List.nodup_append]
      refine ⟨ih _ hs', List.nodup_singleton _, fun l hl l' hl' heq => hfree ?_⟩
      rw [List.map_singleton, List.mem_singleton] at hl'
      rw [← hl', ← heq]
      exact hl
  exact hprefix p.slots [] (List.append_nil _).symm

def OpClass.all : List OpClass :=
  [.any, .aluAddSub, .aluMulDiv, .aluShift, .load, .store, .branch, .compare, .move, .csr]

theorem OpClass.mem_all (c : OpClass) : c ∈ OpClass.all := by
  cases c <;> decide

def usableLanes (cfg : StarbugVLIWConfig) : List Nat :=
  (List.range cfg.numLanes).filter fun lane =>
    decide (lane < 2 ^ 31) && OpClass.all.any (cfg.isLaneLegal lane)

theorem mem_usableLanes {lane : Nat} : lane ∈ usableLanes cfg ↔ ∃ c, Takes cfg lane c := by
  unfold usableLanes
  rw [List.mem_filter, List.mem_range, Bool.and_eq_true_iff, decide_eq_true_iff, List.any_eq_true]
  constructor
  · rintro ⟨h1, h2, c, -, h3⟩
    exact ⟨c, h1, h2, h3⟩
  · rintro ⟨c, h1, h2, h3⟩
    exact ⟨h1, h2, c, c.mem_all, h3⟩

theorem usableLanes_nodup (cfg : StarbugVLIWConfig) : (usableLanes cfg).Nodup :=
  List.nodup_range.filter _

theorem Packet.WellFormed.length_le (h : p.WellFormed cfg) (hN : cfg.numLanes < 2 ^ 32) :
    p.members.length ≤ (usableLanes cfg).length := by
  rw [← p.length_lanes]
  refine ((h.lanes_nodup hN).subperm fun l hl => ?_).length_le
  obtain ⟨⟨m, l'⟩, hm, rfl⟩ := List.mem_map.mp hl
  exact mem_usableLanes.mpr ⟨_, h.takes hN hm⟩

/-- a lane that takes a class is preceded by lanes that take it -/
def Descending (cfg : StarbugVLIWConfig) : Prop :=
  ∀ c i j, i < j → Takes cfg j c → cfg.isLaneLegal i c = true

/-- **With descending lanes, lane is position.** -/
theorem Packet.WellFormed.lane_eq (h : p.WellFormed cfg) (hN : cfg.numLanes < 2 ^ 32)
    (hd : Descending cfg) : ∀ a m lane b, p.slots = a ++ (m, lane) :: b → lane = a.length := by
  -- the lanes before a member are `0, 1, …`
  have hprefix : ∀ a b, p.slots = a ++ b → a.map Prod.snd = List.range a.length := by
    intro a
    induction a using List.reverseRecOn with
    | nil => exact fun _ _ => rfl
    | append_singleton a x ih =>
      intro b hs
      have hs' : p.slots = a ++ (x.1, x.2) :: b := by
        rw [hs, List.append_assoc]
        rfl
      have hlane := ih _ hs'
      have hgreedy := h.greedy a x.1 x.2 b hs'
      rw [hlane] at hgreedy
      obtain ⟨htakes, hfree, hmin⟩ := (freeLane_eq_some hN).mp hgreedy
      have hge : a.length ≤ x.2 := Nat.not_lt.mp fun hlt => hfree (List.mem_range.mpr hlt)
      have hle : ¬ a.length < x.2 := fun hlt => by
        have hmem := hmin a.length hlt ⟨Nat.lt_trans hlt htakes.lt,
          Nat.lt_trans hlt htakes.int, hd _ _ _ hlt htakes⟩
        exact absurd (List.mem_range.mp hmem) (Nat.lt_irrefl _)
      have heq : x.2 = a.length := Nat.le_antisymm (Nat.not_lt.mp hle) hge
      rw [List.map_append, hlane, List.length_append, List.length_singleton, List.range_succ,
        ← heq]
      rfl
  intro a m lane b hs
  have h1 := hprefix (a ++ [(m, lane)]) b (by rw [hs, List.append_assoc]; rfl)
  rw [List.map_append, hprefix a _ hs, List.length_append, List.length_singleton,
    List.range_succ] at h1
  exact (List.cons.inj (List.append_inj' h1 rfl).2).1

theorem Packet.WellFormed.takes_position (h : p.WellFormed cfg) (hN : cfg.numLanes < 2 ^ 32)
    (hd : Descending cfg) {i : Nat} {m : MachineInstr} (hm : p.members[i]? = some m) :
    Takes cfg i (classifyOpClass m) := by
  unfold Packet.members at hm
  rw [List.getElem?_map, Option.map_eq_some_iff] at hm
  obtain ⟨⟨m', lane⟩, hs, rfl⟩ := hm
  obtain ⟨hi, hget⟩ := List.getElem?_eq_some_iff.mp hs
  have hsplit : p.slots = p.slots.take i ++ (m', lane) :: p.slots.drop (i + 1) := by
    rw [← hget, ← List.drop_eq_getElem_cons hi, List.take_append_drop]
  have hlane := h.lane_eq hN hd _ _ _ _ hsplit
  rw [List.length_take_of_le (Nat.le_of_lt hi)] at hlane
  rw [← hlane]
  exact h.takes hN (List.mem_of_getElem? hs)

end

/-! ## without an override -/

theorem descending_baseConfig (opts : CommandLine) : Descending (baseConfig opts) := by
  intro c i j hij hj
  have hlegal := hj.legal
  have hj0 : (j == 0) = false := beq_false_of_ne (by omega)
  rw [isLaneLegal_baseConfig opts hj.lt, hj0, Bool.false_or] at hlegal
  rw [isLaneLegal_baseConfig opts (Nat.lt_trans hij hj.lt), hlegal, Bool.or_true]

/-- what is not in lane 0 is ALU work -/
def WorkersALU (ms : List MachineInstr) : Prop :=
  ∀ m ∈ ms.tail, (classifyOpClass m).isALU = true

theorem flags_of_isALU {mi : MachineInstr} (h : (classifyOpClass mi).isALU = true) :
    (mi.isBranch || mi.isTerminator || mi.isCall || mi.isReturn) = false
      ∧ mi.mayLoad = false ∧ mi.mayStore = false := by
  have hb : (mi.isBranch || mi.isTerminator || mi.isCall || mi.isReturn) = false := by
    by_contra hc
    rw [classifyOpClass, if_pos (Bool.not_eq_false _ ▸ hc)] at h
    cases h
  have hl : mi.mayLoad = false := by
    by_contra hc
    rw [classifyOpClass, hb, if_neg Bool.false_ne_true, if_pos (Bool.not_eq_false _ ▸ hc)] at h
    cases h
  have hs : mi.mayStore = false := by
    by_contra hc
    rw [classifyOpClass, hb, hl, if_neg Bool.false_ne_true, if_neg Bool.false_ne_true,
      if_pos (Bool.not_eq_false _ ▸ hc)] at h
    cases h
  exact ⟨hb, hl, hs⟩

theorem Packet.WellFormed.workersALU {opts : CommandLine} {p : Packet}
    (h : p.WellFormed (baseConfig opts)) : WorkersALU p.members := by
  intro m hm
  obtain ⟨i, hi, hmem⟩ := mem_zipIdx_tail.mp hm
  have htakes := h.takes_position (baseConfig_numLanes_lt opts) (descending_baseConfig opts)
    (List.mem_zipIdx_iff_getElem?.mp hmem)
  have hlegal := htakes.legal
  rw [isLaneLegal_baseConfig opts htakes.lt, beq_false_of_ne hi, Bool.false_or] at hlegal
  exact hlegal

/-! ## hints that are legal by position, hints that are honoured -/

/-- the `i`-th instruction behind a hint is legal in lane `i` -/
def HintsLegal (cfg : StarbugVLIWConfig) (out : List Emitted) : Prop :=
  ∀ a n b, out = a ++ .hint n :: b → ∀ i < n,
    ∃ m, b[i]? = some (.inst m) ∧ cfg.isLaneLegal i (classifyOpClass m) = true

/-- the fetch unit forms a bundle of the length of each hint, which `hint_length` reads back -/
def HintsHonoured (out : List Emitted) : Prop :=
  ∀ n, .hint n ∈ out → 1 ≤ n ∧ n ≤ maxBundle ∧ hintLength (hintWord n) = some n

section
variable {cfg : StarbugVLIWConfig}

theorem hintsLegal_of_packets {block : List MachineInstr}
    (h : ∀ p, .packet p ∈ groups cfg block → shouldEmitHint cfg p.members.length = true →
      ∀ i m, p.members[i]? = some m → cfg.isLaneLegal i (classifyOpClass m) = true) :
    HintsLegal cfg (packetizeBasicBlock cfg block).1 := by
  intro a n b hout i hi
  rw [(packetizeBasicBlock_eq cfg block).1] at hout
  obtain ⟨p, hp, rfl, hs, rest, rfl⟩ := flatMap_emit_eq_append_hint hout
  refine ⟨p.members[i], ?_, h p hp hs i _ (List.getElem?_eq_getElem hi)⟩
  rw [List.getElem?_append_left (by rwa [List.length_map]), List.getElem?_map,
    List.getElem?_eq_getElem hi]
  rfl

theorem mem_hint_iff {block : List MachineInstr} {n : Nat} :
    .hint n ∈ (packetizeBasicBlock cfg block).1
      ↔ ∃ p, .packet p ∈ groups cfg block ∧ n = p.members.length
        ∧ shouldEmitHint cfg n = true := by
  rw [(packetizeBasicBlock_eq cfg block).1]
  constructor
  · intro h
    obtain ⟨a, b, hout⟩ := List.append_of_mem h
    obtain ⟨p, hp, hn, hs, -⟩ := flatMap_emit_eq_append_hint hout
    exact ⟨p, hp, hn, hs⟩
  · rintro ⟨p, hp, rfl, hs⟩
    refine List.mem_flatMap.mpr ⟨_, hp, List.mem_append_left _ ?_⟩
    simp [Group.hint, hs]

theorem packet_wellFormed {block : List MachineInstr} {p : Packet}
    (hp : .packet p ∈ groups cfg block) : p.members ≠ [] ∧ p.WellFormed cfg := by
  obtain ⟨hne, hw⟩ := groups_wellFormed cfg block _ hp
  exact ⟨fun h => hne (List.map_eq_nil_iff.mp h), hw⟩

/-! ## a block that becomes one packet -/

/-- `ms` join `p` one after the other and make it `q` -/
inductive Fills (cfg : StarbugVLIWConfig) : Packet → List MachineInstr → Packet → Prop
  | nil (p : Packet) : Fills cfg p [] p
  | cons {p p' q : Packet} {m : MachineInstr} {ms : List MachineInstr}
      (hj : join cfg p m = some p') (h : Fills cfg p' ms q) : Fills cfg p (m :: ms) q

theorem Fills.members {p q : Packet} {ms : List MachineInstr} (h : Fills cfg p ms q) :
    q.members = p.members ++ ms := by
  induction h with
  | nil p => exact (List.append_nil _).symm
  | cons hj _ ih => rw [ih, join_members hj, List.append_assoc]; rfl

theorem groupsFrom_of_fills {p q : Packet} {ms : List MachineInstr} (h : Fills cfg p ms q)
    (hw : q.members.length ≤ cfg.numLanes) : groupsFrom cfg p ms = q.close := by
  induction h with
  | nil p => rfl
  | cons hj h ih =>
    rename_i p p' q m ms
    have hlen := congrArg List.length h.members
    rw [List.length_append] at hlen
    by_cases hfull : cfg.numLanes ≤ p'.members.length
    · -- the packet is full, and nothing is left
      obtain rfl : ms = [] := List.length_eq_zero_iff.mp (by omega)
      cases h
      simp [groupsFrom, groupStep, hj, settle, StarbugVLIWConfig.maxBundleWidth, hfull,
        Packet.close]
    · have hopen : settle cfg p' = ([], p') := if_neg hfull
      simp only [groupsFrom, groupStep, hj, hopen, List.nil_append]
      exact ih hw

/-- `ls` are the lanes that instructions of the classes `cs` get behind the lanes `ls₀` -/
inductive LanesFor (cfg : StarbugVLIWConfig) : List Nat → List OpClass → List Nat → Prop
  | nil (ls₀ : List Nat) : LanesFor cfg ls₀ [] []
  | cons {ls₀ ls : List Nat} {c : OpClass} {cs : List OpClass} {l : Nat}
      (hl : freeLane cfg ls₀ c = some l) (h : LanesFor cfg (ls₀ ++ [l]) cs ls) :
      LanesFor cfg ls₀ (c :: cs) (l :: ls)

/-- an instruction of class `c` that defines register `k + 2` and uses register `1` -/
def sample (c : OpClass) (k : Nat) : MachineInstr :=
  let operands := [.reg (k + 2) true, .reg 1 false]
  match c with
  | .any => { name := "XOR", operands }
  | .aluAddSub => { name := "ADDI", operands }
  | .aluMulDiv => { name := "MUL", operands }
  | .aluShift => { name := "SLL", operands }
  | .load => { name := "LW", operands, mayLoad := true }
  | .store => { name := "SC_W", operands, mayStore := true }
  | .branch => { name := "BEQ", operands, isBranch := true }
  | .compare => { name := "SLT", operands }
  | .move => { name := "C_MV", operands }
  | .csr => { name := "CSRRS", operands }

theorem sample_spec (c : OpClass) (k : Nat) :
    isPacketizableMI (sample c k) = true ∧ classifyOpClass (sample c k) = c
      ∧ (sample c k).uses = {1} ∧ (sample c k).defs = {k + 2} := by
  have hops : (sample c k).operands = [.reg (k + 2) true, .reg 1 false] := by
    cases c <;> rfl
  -- the class does not depend on the operands
  have hcls : classifyOpClass (sample c k) = classifyOpClass (sample c 0) := by
    cases c <;> rfl
  have hcls0 : classifyOpClass (sample c 0) = c := by
    cases c <;> decide
  refine ⟨by cases c <;> rfl, hcls.trans hcls0, ?_, ?_⟩
  · simp [MachineInstr.uses, collectRegAccesses, hops, collectOperand]
  · simp [MachineInstr.defs, collectRegAccesses, hops, collectOperand]

theorem sample_independent {c c' : OpClass} {k k' : Nat} (h : k < k') :
    FullyIndependent (sample c k) (sample c' k') := by
  obtain ⟨-, -, hu, hd⟩ := sample_spec c k
  obtain ⟨-, -, hu', hd'⟩ := sample_spec c' k'
  refine ⟨?_, ?_, ?_⟩
  · rw [hd, hu', Finset.disjoint_singleton]
    omega
  · rw [hd, hd', Finset.disjoint_singleton]
    omega
  · rw [hu, hd', Finset.disjoint_singleton]
    omega

def samples (k : Nat) (cs : List OpClass) : List MachineInstr :=
  (cs.zipIdx k).map fun (c, i) => sample c i

@[simp] theorem length_samples (k : Nat) (cs : List OpClass) :
    (samples k cs).length = cs.length := by
  simp [samples]

theorem fills_of_lanesFor {p : Packet} {ms : List MachineInstr} {ls : List Nat}
    (hpk : ∀ m ∈ ms, isPacketizableMI m = true)
    (hind : (p.members ++ ms).Pairwise FullyIndependent)
    (h : LanesFor cfg p.lanes (ms.map classifyOpClass) ls) :
    Fills cfg p ms ⟨p.slots ++ ms.zip ls⟩ := by
  induction ms generalizing p ls with
  | nil =>
    cases h
    rw [List.zip_nil_left, List.append_nil]
    exact Fills.nil p
  | cons m ms ih =>
    cases h with
    | cons hl h =>
      rename_i ls l
      have hdep : hasPacketDependency m.uses m.defs (usesOf p.members) (defsOf p.members)
          = false :=
        hasPacketDependency_eq_false.mpr fun a ha =>
          (List.pairwise_append.mp hind).2.2 a ha m List.mem_cons_self
      have hj : join cfg p m = some ⟨p.slots ++ [(m, l)]⟩ := by
        rw [join_of_independent (hpk m List.mem_cons_self) hdep, hl]
        rfl
      have hlanes : (⟨p.slots ++ [(m, l)]⟩ : Packet).lanes = p.lanes ++ [l] := List.map_append
      have hind' : ((⟨p.slots ++ [(m, l)]⟩ : Packet).members ++ ms).Pairwise FullyIndependent := by
        rw [join_members hj, List.append_assoc]
        exact hind
      have hrest := ih (fun m' h' => hpk m' (List.mem_cons_of_mem _ h')) hind' (hlanes ▸ h)
      rw [List.append_assoc] at hrest
      exact Fills.cons hj hrest

/-- **Independent instructions whose classes get lanes become one packet.** -/
theorem groups_of_lanesFor {ms : List MachineInstr} {ls : List Nat} (hne : ms ≠ [])
    (hw : ms.length ≤ cfg.numLanes) (hpk : ∀ m ∈ ms, isPacketizableMI m = true)
    (hind : ms.Pairwise FullyIndependent) (h : LanesFor cfg [] (ms.map classifyOpClass) ls) :
    ∃ p, groups cfg ms = [.packet p] ∧ p.members = ms := by
  have hf := fills_of_lanesFor (p := {}) hpk hind h
  have hm : _ = ms := hf.members
  refine ⟨_, ?_, hm⟩
  rw [groups, groupsFrom_of_fills hf (by rw [hm]; exact hw)]
  exact Packet.close_eq (by rw [hm]; exact hne)

/-- **… and are left behind one hint.** -/
theorem output_of_lanesFor {ms : List MachineInstr} {ls : List Nat} (hne : ms ≠ [])
    (hw : ms.length ≤ cfg.numLanes) (hpk : ∀ m ∈ ms, isPacketizableMI m = true)
    (hind : ms.Pairwise FullyIndependent) (h : LanesFor cfg [] (ms.map classifyOpClass) ls)
    (hs : shouldEmitHint cfg ms.length = true) :
    (packetizeBasicBlock cfg ms).1 = .hint ms.length :: ms.map .inst := by
  obtain ⟨p, hp, rfl⟩ := groups_of_lanesFor hne hw hpk hind h
  rw [(packetizeBasicBlock_eq cfg _).1, hp, List.flatMap_singleton, Group.emit_packet hs]

theorem map_classifyOpClass_samples (k : Nat) (cs : List OpClass) :
    (samples k cs).map classifyOpClass = cs := by
  induction cs generalizing k with
  | nil => rfl
  | cons c cs ih => exact congrArg₂ List.cons (sample_spec c k).2.1 (ih (k + 1))

theorem mem_samples {k : Nat} {cs : List OpClass} {m : MachineInstr} (h : m ∈ samples k cs) :
    ∃ c k', k ≤ k' ∧ m = sample c k' := by
  obtain ⟨⟨c, k'⟩, hc, rfl⟩ := List.mem_map.mp h
  exact ⟨c, k', (List.mem_zipIdx hc).1, rfl⟩

theorem samples_packetizable {k : Nat} {cs : List OpClass} :
    ∀ m ∈ samples k cs, isPacketizableMI m = true := by
  intro m hm
  obtain ⟨c, k', -, rfl⟩ := mem_samples hm
  exact (sample_spec c k').1

theorem samples_independent (k : Nat) (cs : List OpClass) :
    (samples k cs).Pairwise FullyIndependent := by
  induction cs generalizing k with
  | nil => exact List.Pairwise.nil
  | cons c cs ih =>
    refine List.Pairwise.cons (fun m hm => ?_) (ih (k + 1))
    obtain ⟨c', k', hk, rfl⟩ := mem_samples hm
    exact sample_independent hk

theorem output_samples {cs : List OpClass} {ls : List Nat} (hcs : cs ≠ [])
    (hw : cs.length ≤ cfg.numLanes) (h : LanesFor cfg [] cs ls)
    (hs : shouldEmitHint cfg cs.length = true) :
    (packetizeBasicBlock cfg (samples 0 cs)).1
      = .hint cs.length :: (samples 0 cs).map .inst := by
  have hlen := length_samples 0 cs
  have hne : samples 0 cs ≠ [] := fun h0 => hcs (List.length_eq_zero_iff.mp (by
    rw [← hlen, h0, List.length_nil]))
  rw [← map_classifyOpClass_samples 0 cs] at h
  rw [output_of_lanesFor hne (hlen ▸ hw) samples_packetizable (samples_independent 0 cs) h
    (hlen ▸ hs), hlen]

/-! ## when all hints are honoured -/

/-- the lowest usable lanes can be filled in order -/
theorem lanesFor_usable (hN : cfg.numLanes < 2 ^ 32) {a b c : List Nat}
    (h : usableLanes cfg = a ++ (b ++ c)) :
    ∃ cs, cs.length = b.length ∧ LanesFor cfg a cs b := by
  have hsorted : (usableLanes cfg).Pairwise (· < ·) := List.pairwise_lt_range.filter _
  induction b generalizing a with
  | nil => exact ⟨[], rfl, LanesFor.nil a⟩
  | cons u b ih =>
    obtain ⟨cl, hcl⟩ := mem_usableLanes.mp (h ▸ List.mem_append_right a List.mem_cons_self)
    obtain ⟨cs, hlen, hcs⟩ := ih (a := a ++ [u]) (by rw [h, List.append_assoc]; rfl)
    rw [h, List.pairwise_append] at hsorted
    obtain ⟨-, hrest, hcross⟩ := hsorted
    have hfree : u ∉ a := fun hu => Nat.lt_irrefl u (hcross u hu u List.mem_cons_self)
    have hmin : ∀ u' < u, Takes cfg u' cl → u' ∈ a := by
      intro u' hlt htakes
      have hmem : u' ∈ a ++ (u :: b ++ c) := h ▸ mem_usableLanes.mpr ⟨cl, htakes⟩
      refine (List.mem_append.mp hmem).resolve_right fun hr => ?_
      rcases List.mem_cons.mp hr with rfl | hr
      · exact Nat.lt_irrefl _ hlt
      · exact Nat.lt_asymm hlt ((List.pairwise_cons.mp hrest).1 u' hr)
    exact ⟨cl :: cs, congrArg Nat.succ hlen,
      LanesFor.cons ((freeLane_eq_some hN).mpr ⟨hcl, hfree, hmin⟩) hcs⟩

theorem usableLanes_length_le (cfg : StarbugVLIWConfig) :
    (usableLanes cfg).length ≤ cfg.numLanes := by
  refine Nat.le_trans (List.length_filter_le _ _) ?_
  rw [List.length_range]

/-- **On every block all hints have a length from 1 to 4, which `hint_length` reads back, exactly
if at most four lanes are usable.** -/
theorem hints_honoured_iff {opts : CommandLine} (h : Returns opts cfg) :
    (∀ block, HintsHonoured (packetizeBasicBlock cfg block).1)
      ↔ (usableLanes cfg).length ≤ 4 := by
  have hsane := h.sane
  constructor
  · intro hall
    by_contra h5
    -- five usable lanes are filled by five independent instructions
    have hsplit : usableLanes cfg = [] ++ ((usableLanes cfg).take 5 ++ (usableLanes cfg).drop 5) :=
      (List.take_append_drop 5 _).symm
    obtain ⟨cs, hlen, hcs⟩ := lanesFor_usable hsane.numLanes_lt hsplit
    have h5' : cs.length = 5 := by
      rw [hlen, List.length_take]
      omega
    have hw : cs.length ≤ cfg.numLanes := by
      have hle := usableLanes_length_le cfg
      omega
    have hne : cs ≠ [] := fun h0 => by
      rw [h0] at h5'
      cases h5'
    have hs : shouldEmitHint cfg cs.length = true :=
      shouldEmitHint_of_two_le hsane.short (by omega)
    have hhint : Emitted.hint 5 ∈ (packetizeBasicBlock cfg (samples 0 cs)).1 := by
      rw [output_samples hne hw hcs hs, h5']
      exact List.mem_cons_self
    exact absurd (hall _ 5 hhint).2.1 (by decide)
  · intro h4 block n hn
    obtain ⟨p, hp, rfl, -⟩ := mem_hint_iff.mp hn
    obtain ⟨hne, hw⟩ := packet_wellFormed hp
    have hle : p.members.length ≤ 4 := Nat.le_trans (hw.length_le hsane.numLanes_lt) h4
    have hpos : 1 ≤ p.members.length := List.length_pos_iff.mpr hne
    exact ⟨hpos, hle, hintLength_hintWord hpos (by omega)⟩

/-- five instructions `ADD xN, x1, x2`, register `xN` being the operand `N + 1` -/
def fiveAdds : List MachineInstr :=
  [11, 12, 13, 14, 15].map fun r =>
    { name := "ADD", operands := [.reg r true, .reg 2 false, .reg 3 false] }

theorem hints_honoured_iff_default :
    HintsHonoured (packetizeBasicBlock (baseConfig {}) fiveAdds).1 :=
  (hints_honoured_iff ((returns_iff_of_empty rfl _).mpr rfl)).mpr (by decide) fiveAdds

/-- `-starbug-vliw-lanes=8` -/
def eightLanes : CommandLine := { lanes := 8 }

theorem eightLanes_hint_five :
    Returns eightLanes (baseConfig eightLanes)
      ∧ ¬ HintsHonoured (packetizeBasicBlock (baseConfig eightLanes) fiveAdds).1 := by
  refine ⟨(returns_iff_of_empty rfl _).mpr rfl, fun h => ?_⟩
  have hmem : Emitted.hint 5 ∈ (packetizeBasicBlock (baseConfig eightLanes) fiveAdds).1 := by
    decide
  exact absurd (h 5 hmem).2.1 (by decide)

/-! ## when all hints are legal by position -/

theorem lanesFor_replicate {c : OpClass} (ls₀ ls : List Nat) {l : Nat}
    (h : LanesFor cfg ls₀ (List.replicate ls.length c) ls)
    (hl : freeLane cfg (ls₀ ++ ls) c = some l) :
    LanesFor cfg ls₀ (List.replicate (ls.length + 1) c) (ls ++ [l]) := by
  induction ls generalizing ls₀ with
  | nil =>
    rw [List.append_nil] at hl
    exact LanesFor.cons hl (LanesFor.nil _)
  | cons x ls ih =>
    cases h with
    | cons hx h =>
      refine LanesFor.cons hx (ih _ h ?_)
      rw [List.append_assoc]
      exact hl

/-- a hinted block of samples with one that its position does not allow -/
theorem not_hintsLegal {cs : List OpClass} {ls : List Nat} (hw : cs.length ≤ cfg.numLanes)
    (h : LanesFor cfg [] cs ls) (hs : shouldEmitHint cfg cs.length = true) {i : Nat} {c : OpClass}
    (hi : cs[i]? = some c) (hl : cfg.isLaneLegal i c = false) :
    ¬ HintsLegal cfg (packetizeBasicBlock cfg (samples 0 cs)).1 := by
  obtain ⟨hlt, -⟩ := List.getElem?_eq_some_iff.mp hi
  have hne : cs ≠ [] := List.length_pos_iff.mp (Nat.lt_of_le_of_lt (Nat.zero_le i) hlt)
  have hout : (packetizeBasicBlock cfg (samples 0 cs)).1
      = [] ++ .hint cs.length :: (samples 0 cs).map .inst := output_samples hne hw h hs
  have hget : ((samples 0 cs).map Emitted.inst)[i]? = some (.inst (sample c i)) := by
    simp [samples, hi]
  intro hlegal
  obtain ⟨m, hm', hlegal⟩ := hlegal _ _ _ hout i hlt
  obtain rfl : sample c i = m := Emitted.inst.inj (Option.some.inj (hget.symm.trans hm'))
  rw [(sample_spec c i).2.1, hl] at hlegal
  cases hlegal

/-- if the lanes below `i` take `c` and some later lane does, `i + 1` instructions of class `c`
get lanes -/
theorem lanesFor_class (hN : cfg.numLanes < 2 ^ 32) {c : OpClass} {i j : Nat} (hij : i < j)
    (hj : Takes cfg j c) (hbelow : ∀ k < i, cfg.isLaneLegal k c = true) :
    ∃ l, LanesFor cfg [] (List.replicate (i + 1) c) (List.range i ++ [l]) := by
  have hrange : ∀ k ≤ i, LanesFor cfg [] (List.replicate k c) (List.range k) := by
    intro k
    induction k with
    | zero => exact fun _ => LanesFor.nil []
    | succ k ih =>
      intro hk
      have hfree : freeLane cfg (List.range k) c = some k := by
        have hkj : k < j := by omega
        refine (freeLane_eq_some hN).mpr
          ⟨⟨Nat.lt_trans hkj hj.lt, Nat.lt_trans hkj hj.int, hbelow k hk⟩, ?_, ?_⟩
        · exact fun hmem => Nat.lt_irrefl k (List.mem_range.mp hmem)
        · exact fun l hl _ => List.mem_range.mpr hl
      have hk' := ih (Nat.le_of_lt hk)
      rw [List.range_succ]
      have hrep := lanesFor_replicate [] (List.range k)
        (by rwa [List.length_range]) hfree
      rwa [List.length_range] at hrep
  cases hf : freeLane cfg (List.range i) c with
  | none =>
    have hmem := (freeLane_eq_none hN).mp hf j hj
    exact absurd (List.mem_range.mp hmem) (Nat.lt_asymm hij)
  | some l =>
    have hrep := lanesFor_replicate [] (List.range i)
      (by rw [List.length_range]; exact hrange i (Nat.le_refl i)) hf
    rw [List.length_range] at hrep
    exact ⟨l, hrep⟩

theorem hintsLegal_of_descending (hN : cfg.numLanes < 2 ^ 32) (hd : Descending cfg)
    (block : List MachineInstr) : HintsLegal cfg (packetizeBasicBlock cfg block).1 := by
  refine hintsLegal_of_packets fun p hp _ i m hm => ?_
  exact ((packet_wellFormed hp).2.takes_position hN hd hm).legal

/-- with one usable lane, and no hints for single instructions, only a packet that fills the
machine gets a hint -/
theorem hintsLegal_of_single (hN : cfg.numLanes < 2 ^ 32)
    (hoff : cfg.scheduler.emitSingleInstructionHints = false)
    (hone : (usableLanes cfg).length ≤ 1) (block : List MachineInstr) :
    HintsLegal cfg (packetizeBasicBlock cfg block).1 := by
  refine hintsLegal_of_packets fun p hp hs i m hm => ?_
  obtain ⟨hne, hw⟩ := packet_wellFormed hp
  have hle := Nat.le_trans (hw.length_le hN) hone
  have hpos : 1 ≤ p.members.length := List.length_pos_iff.mpr hne
  have hlen : p.members.length = 1 := Nat.le_antisymm hle hpos
  have hN1 : cfg.numLanes = 1 := by
    rw [hlen] at hs
    have h1 : 1 = cfg.numLanes := by
      simpa [shouldEmitHint, hoff, StarbugVLIWConfig.maxBundleWidth] using hs
    exact h1.symm
  obtain ⟨hi, hget⟩ := List.getElem?_eq_some_iff.mp hm
  obtain rfl : i = 0 := by omega
  obtain ⟨⟨m', lane⟩, hslot, rfl⟩ := List.mem_map.mp (List.mem_of_getElem? hm)
  have htakes := hw.takes hN hslot
  have hlane : lane = 0 := by
    have hlt := htakes.lt
    omega
  exact hlane ▸ htakes.legal

/-- the lowest lane that is passed over for a class a later lane takes -/
theorem exists_first_gap (h : ¬ Descending cfg) : ∃ c i j, i < j ∧ Takes cfg j c
    ∧ cfg.isLaneLegal i c = false ∧ ∀ k < i, cfg.isLaneLegal k c = true := by
  obtain ⟨c, hex⟩ : ∃ c i, cfg.isLaneLegal i c = false ∧ ∃ j, i < j ∧ Takes cfg j c := by
    by_contra hnone
    refine h fun c i j hij hj => ?_
    by_contra hlegal
    exact hnone ⟨c, i, Bool.eq_false_iff.mpr hlegal, j, hij, hj⟩
  classical
  obtain ⟨hi, j, hij, hj⟩ := Nat.find_spec hex
  refine ⟨c, Nat.find hex, j, hij, hj, hi, fun k hk => ?_⟩
  by_contra hlegal
  exact Nat.find_min hex hk ⟨Bool.eq_false_iff.mpr hlegal, j, Nat.lt_trans hk hij, hj⟩

theorem exists_usable_ne (h : ¬ (usableLanes cfg).length ≤ 1) (l : Nat) :
    ∃ u ∈ usableLanes cfg, u ≠ l := by
  by_contra hnone
  have hsub : usableLanes cfg ⊆ [l] := fun u hu => by
    by_contra hul
    exact hnone ⟨u, hu, fun heq => hul (List.mem_singleton.mpr heq)⟩
  exact h ((usableLanes_nodup cfg).subperm hsub).length_le

/-- **On every block all hints are legal by position exactly if each class a lane takes is legal in
all lanes before it, or single instructions get no hint and at most one lane is usable.** -/
theorem hints_legal_iff {opts : CommandLine} (h : Returns opts cfg) :
    (∀ block, HintsLegal cfg (packetizeBasicBlock cfg block).1)
      ↔ Descending cfg
        ∨ (cfg.scheduler.emitSingleInstructionHints = false ∧ (usableLanes cfg).length ≤ 1) := by
  have hsane := h.sane
  have hN := hsane.numLanes_lt
  constructor
  · intro hall
    by_contra hcon
    obtain ⟨hdesc, hsingle⟩ := not_or.mp hcon
    obtain ⟨c, i, j, hij, hj, hi, hbelow⟩ := exists_first_gap hdesc
    obtain ⟨l, hls⟩ := lanesFor_class hN hij hj hbelow
    have hjN := hj.lt
    have hw : (List.replicate (i + 1) c).length ≤ cfg.numLanes := by
      rw [List.length_replicate]
      omega
    have hget : (List.replicate (i + 1) c)[i]? = some c := by simp
    by_cases hemit : shouldEmitHint cfg (i + 1) = true
    · refine not_hintsLegal hw hls ?_ hget hi (hall _)
      rwa [List.length_replicate]
    · -- a single instruction without a hint: a second one is put next to it
      have hi0 : i = 0 := by
        by_contra hne
        exact hemit (shouldEmitHint_of_two_le hsane.short (by omega))
      subst hi0
      have hoff : cfg.scheduler.emitSingleInstructionHints = false := by
        by_contra hon
        exact hemit (by simp [shouldEmitHint, hon])
      obtain ⟨u, hu, hul⟩ := exists_usable_ne (fun hone => hsingle ⟨hoff, hone⟩) l
      obtain ⟨d, hd⟩ := mem_usableLanes.mp hu
      have hl : freeLane cfg [] c = some l := by
        cases hls with
        | cons hl _ => exact hl
      cases hf : freeLane cfg [l] d with
      | none => exact hul (List.mem_singleton.mp ((freeLane_eq_none hN).mp hf u hd))
      | some l' =>
        have hls' : LanesFor cfg [] [c, d] [l, l'] :=
          LanesFor.cons hl (LanesFor.cons hf (LanesFor.nil _))
        have hw' : [c, d].length ≤ cfg.numLanes := by
          show 2 ≤ cfg.numLanes
          omega
        exact not_hintsLegal hw' hls' (shouldEmitHint_of_two_le hsane.short (Nat.le_refl 2))
          (i := 0) rfl hi (hall _)
  · rintro (hdesc | ⟨hoff, hone⟩)
    · exact hintsLegal_of_descending hN hdesc
    · exact hintsLegal_of_single hN hoff hone

/-- `LW x10, 0(x11)` and `ADD x12, x13, x14`, register `xN` being the operand `N + 1` -/
def lwAdd : List MachineInstr :=
  [{ name := "LW", operands := [.reg 11 true, .reg 12 false, .other], mayLoad := true },
    { name := "ADD", operands := [.reg 13 true, .reg 14 false, .reg 15 false] }]

theorem hints_legal_iff_default :
    HintsLegal (baseConfig {}) (packetizeBasicBlock (baseConfig {}) lwAdd).1 :=
  (hints_legal_iff ((returns_iff_of_empty rfl _).mpr rfl)).mpr
    (Or.inl (descending_baseConfig {})) lwAdd

/-- `-starbug-vliw-lane-op-classes='0:alu;1:any'` -/
def swapped : CommandLine := { laneOpClasses := "0:alu;1:any".toList }

def swappedConfig : StarbugVLIWConfig :=
  { baseConfig {} with lanes := [⟨0, (0 : ClassSet).setALU⟩, ⟨1, (0 : ClassSet).set .any⟩,
      makeALULane 2, makeALULane 3] }

/-- the load was given lane 1, but it comes first -/
theorem swapped_load_at_position_zero :
    Returns swapped swappedConfig
      ∧ ¬ HintsLegal swappedConfig (packetizeBasicBlock swappedConfig lwAdd).1 := by
  refine ⟨⟨10, by decide⟩, fun h => ?_⟩
  have hout : (packetizeBasicBlock swappedConfig lwAdd).1
      = [] ++ .hint 2 :: lwAdd.map .inst := by decide
  obtain ⟨m, hm, hlegal⟩ := h _ _ _ hout 0 (by decide)
  obtain rfl := Emitted.inst.inj (Option.some.inj hm)
  exact absurd hlegal (by decide)

end

end Starbug.Vliw
