import Starbug.Vliw.Packetizer
import Mathlib.Data.Finset.Disjoint
import Mathlib.Data.Finset.Lattice.Basic
import Mathlib.Data.List.Basic

/-!
# The packetizer without positions: a block falls into groups

`groupsFrom cfg p block` is what the loop does to `block` with the packet `p` open, without
pointers, sets or a list of hints: an instruction joins the open packet (`join`), or the packet
is closed and the instruction opens a new one, or stays bare.

* `packetizeBasicBlock_eq`   the pass leaves exactly the groups, each with its hint;
* `groups_block`             the groups are the block, in order;
* `groups_wellFormed`        every packet among them is `WellFormed`: its members are
                             packetizable and fully independent, and each was given the first
                             lane that was free and legal.
-/

namespace Starbug.Vliw

/-! ## one instruction against a packet -/

def MachineInstr.uses (mi : MachineInstr) : Finset Nat := (collectRegAccesses mi).1

def MachineInstr.defs (mi : MachineInstr) : Finset Nat := (collectRegAccesses mi).2

/-- no RAW, no WAW, no WAR between `a` and a later `b` -/
structure FullyIndependent (a b : MachineInstr) : Prop where
  raw : Disjoint a.defs b.uses
  waw : Disjoint a.defs b.defs
  war : Disjoint a.uses b.defs

instance (a b : MachineInstr) : Decidable (FullyIndependent a b) :=
  decidable_of_iff (Disjoint a.defs b.uses ∧ Disjoint a.defs b.defs ∧ Disjoint a.uses b.defs)
    ⟨fun h => ⟨h.1, h.2.1, h.2.2⟩, fun h => ⟨h.raw, h.waw, h.war⟩⟩

def usesOf (ms : List MachineInstr) : Finset Nat := ms.foldl (fun s m => s ∪ m.uses) ∅

def defsOf (ms : List MachineInstr) : Finset Nat := ms.foldl (fun s m => s ∪ m.defs) ∅

theorem mem_foldl_union {f : MachineInstr → Finset Nat} {ms : List MachineInstr}
    {s : Finset Nat} {r : Nat} :
    r ∈ ms.foldl (fun s m => s ∪ f m) s ↔ r ∈ s ∨ ∃ m ∈ ms, r ∈ f m := by
  induction ms generalizing s with
  | nil => simp
  | cons m ms ih =>
    rw [List.foldl_cons, ih, Finset.mem_union, List.exists_mem_cons_iff, or_assoc]

theorem mem_usesOf {ms : List MachineInstr} {r : Nat} :
    r ∈ usesOf ms ↔ ∃ m ∈ ms, r ∈ m.uses := by
  simp [usesOf, mem_foldl_union]

theorem mem_defsOf {ms : List MachineInstr} {r : Nat} :
    r ∈ defsOf ms ↔ ∃ m ∈ ms, r ∈ m.defs := by
  simp [defsOf, mem_foldl_union]

/-- the accumulated sets see a dependency exactly if some member has one -/
theorem hasPacketDependency_eq_false {ms : List MachineInstr} {m : MachineInstr} :
    hasPacketDependency m.uses m.defs (usesOf ms) (defsOf ms) = false
      ↔ ∀ a ∈ ms, FullyIndependent a m := by
  unfold hasPacketDependency
  rw [Bool.or_eq_false_iff, decide_eq_false_iff_not, decide_eq_false_iff_not]
  constructor
  · rintro ⟨h1, h2⟩ a ha
    refine ⟨?_, ?_, ?_⟩
    · rw [Finset.disjoint_left]
      exact fun r hd hu => h1 ⟨r, hu, mem_defsOf.mpr ⟨a, ha, hd⟩⟩
    · rw [Finset.disjoint_left]
      exact fun r hd hd' => h2 ⟨r, hd', Or.inl (mem_defsOf.mpr ⟨a, ha, hd⟩)⟩
    · rw [Finset.disjoint_left]
      exact fun r hu hd => h2 ⟨r, hd, Or.inr (mem_usesOf.mpr ⟨a, ha, hu⟩)⟩
  · intro h
    refine ⟨?_, ?_⟩
    · rintro ⟨r, hu, hd⟩
      obtain ⟨a, ha, hd⟩ := mem_defsOf.mp hd
      exact Finset.disjoint_left.mp (h a ha).raw hd hu
    · rintro ⟨r, hd, hd' | hu⟩
      · obtain ⟨a, ha, hd'⟩ := mem_defsOf.mp hd'
        exact Finset.disjoint_left.mp (h a ha).waw hd' hd
      · obtain ⟨a, ha, hu⟩ := mem_usesOf.mp hu
        exact Finset.disjoint_left.mp (h a ha).war hu hd

theorem hasPacketDependency_nil (m : MachineInstr) :
    hasPacketDependency m.uses m.defs (usesOf []) (defsOf []) = false :=
  hasPacketDependency_eq_false.mpr fun _ ha => absurd ha List.not_mem_nil

/-! ## lanes -/

/-- the pass can put an instruction of class `c` on `lane`: legal, below the lane count, and not
negative as an `int` -/
structure Takes (cfg : StarbugVLIWConfig) (lane : Nat) (c : OpClass) : Prop where
  lt : lane < cfg.numLanes
  int : lane < 2 ^ 31
  legal : cfg.isLaneLegal lane c = true

/-- `tryAssignLane`, with `none` for a negative result -/
def freeLane (cfg : StarbugVLIWConfig) (lanes : List Nat) (c : OpClass) : Option Nat :=
  if tryAssignLane cfg lanes c < 0 then none else some (tryAssignLane cfg lanes c).toNat

theorem toInt_ofNat32 {n : Nat} (h : n < 2 ^ 32) :
    (BitVec.ofNat 32 n).toInt = if n < 2 ^ 31 then (n : Int) else (n : Int) - 2 ^ 32 := by
  rw [BitVec.toInt_eq_toNat_cond, BitVec.toNat_ofNat, Nat.mod_eq_of_lt h]
  split_ifs <;> omega

def laneTest (cfg : StarbugVLIWConfig) (lanes : List Nat) (c : OpClass) (lane : Nat) : Bool :=
  cfg.isLaneLegal lane c && !lanes.contains lane

theorem laneTest_eq_false {cfg : StarbugVLIWConfig} {lanes : List Nat} {c : OpClass}
    {lane : Nat} : laneTest cfg lanes c lane = false
      ↔ (cfg.isLaneLegal lane c = true → lane ∈ lanes) := by
  simp [laneTest]

theorem tryAssignLane_eq (cfg : StarbugVLIWConfig) (lanes : List Nat) (c : OpClass) :
    tryAssignLane cfg lanes c
      = (((List.range cfg.numLanes).find? (laneTest cfg lanes c)).map
          fun lane => (BitVec.ofNat 32 lane).toInt).getD (-1) := by
  have hloop : ((List.range cfg.maxBundleWidth).find? fun lane =>
      cfg.isLaneLegal lane c && !lanes.contains lane)
        = (List.range cfg.numLanes).find? (laneTest cfg lanes c) := rfl
  unfold tryAssignLane
  rw [hloop]
  cases (List.range cfg.numLanes).find? (laneTest cfg lanes c) with
  | none => rfl
  | some lane => rfl

/-- the lane the loop finds, unless it is negative as an `int` -/
theorem freeLane_eq {cfg : StarbugVLIWConfig} (hN : cfg.numLanes < 2 ^ 32) (lanes : List Nat)
    (c : OpClass) : freeLane cfg lanes c
      = ((List.range cfg.numLanes).find? (laneTest cfg lanes c)).filter (· < 2 ^ 31) := by
  rw [freeLane, tryAssignLane_eq]
  cases hf : (List.range cfg.numLanes).find? (laneTest cfg lanes c) with
  | none => rfl
  | some l =>
    have hl : l < 2 ^ 32 := Nat.lt_trans (List.mem_range.mp (List.mem_of_find?_eq_some hf)) hN
    rw [Option.map_some, Option.getD_some, toInt_ofNat32 hl, Option.filter_some]
    by_cases h31 : l < 2 ^ 31
    · have hnn : ¬ (l : Int) < 0 := Int.not_lt.mpr (Int.natCast_nonneg l)
      rw [if_pos h31, if_neg hnn, if_pos (decide_eq_true h31), Int.toNat_natCast]
    · have hneg : (l : Int) - 2 ^ 32 < 0 := by omega
      rw [if_neg h31, if_pos hneg, if_neg (by simpa using h31)]

/-- **`freeLane` is the first free lane that takes the class.** -/
theorem freeLane_eq_some {cfg : StarbugVLIWConfig} (hN : cfg.numLanes < 2 ^ 32)
    {lanes : List Nat} {c : OpClass} {l : Nat} :
    freeLane cfg lanes c = some l
      ↔ Takes cfg l c ∧ l ∉ lanes ∧ ∀ l' < l, Takes cfg l' c → l' ∈ lanes := by
  rw [freeLane_eq hN, Option.filter_eq_some_iff, List.find?_range_eq_some, List.mem_range,
    decide_eq_true_eq]
  constructor
  · rintro ⟨⟨ht, hlt, hmin⟩, hint⟩
    obtain ⟨hlegal, hfree⟩ := Bool.and_eq_true_iff.mp ht
    refine ⟨⟨hlt, hint, hlegal⟩, by simpa using hfree, fun l' hl' h' => ?_⟩
    exact laneTest_eq_false.mp ((Bool.not_eq_true' _).mp (hmin l' hl')) h'.legal
  · rintro ⟨h, hfree, hmin⟩
    refine ⟨⟨by simp [laneTest, h.legal, hfree], h.lt, fun l' hl' => ?_⟩, h.int⟩
    refine (Bool.not_eq_true' _).mpr (laneTest_eq_false.mpr fun hlegal => hmin l' hl' ?_)
    exact ⟨Nat.lt_trans hl' h.lt, Nat.lt_trans hl' h.int, hlegal⟩

theorem freeLane_eq_none {cfg : StarbugVLIWConfig} (hN : cfg.numLanes < 2 ^ 32)
    {lanes : List Nat} {c : OpClass} :
    freeLane cfg lanes c = none ↔ ∀ l, Takes cfg l c → l ∈ lanes := by
  constructor
  · intro hnone l
    -- the first free lane that takes the class would be returned
    induction l using Nat.strong_induction_on with
    | _ l ih =>
      intro hl
      by_contra hfree
      rw [(freeLane_eq_some hN).mpr ⟨hl, hfree, ih⟩] at hnone
      cases hnone
  · intro h
    cases hf : freeLane cfg lanes c with
    | none => rfl
    | some l =>
      obtain ⟨hl, hfree, -⟩ := (freeLane_eq_some hN).mp hf
      exact absurd (h l hl) hfree

/-! ## groups -/

/-- the members, each with the lane it was given -/
structure Packet where
  slots : List (MachineInstr × Nat) := []

def Packet.members (p : Packet) : List MachineInstr := p.slots.map Prod.fst

def Packet.lanes (p : Packet) : List Nat := p.slots.map Prod.snd

/-- an instruction outside every packet, or a packet that was flushed -/
inductive Group where
  | bare (mi : MachineInstr)
  | packet (p : Packet)

/-- the packet with `mi` in it, if `mi` may join -/
def join (cfg : StarbugVLIWConfig) (p : Packet) (mi : MachineInstr) : Option Packet :=
  if isPacketizableMI mi
      && !hasPacketDependency mi.uses mi.defs (usesOf p.members) (defsOf p.members) then
    (freeLane cfg p.lanes (classifyOpClass mi)).map
      fun lane => ⟨p.slots ++ [(mi, lane)]⟩
  else none

def Packet.close (p : Packet) : List Group := if p.slots = [] then [] else [.packet p]

/-- a packet that has reached the width is closed -/
def settle (cfg : StarbugVLIWConfig) (p : Packet) : List Group × Packet :=
  if cfg.maxBundleWidth ≤ p.members.length then (p.close, {}) else ([], p)

/-- one instruction: the groups it closes, and the packet open behind it -/
def groupStep (cfg : StarbugVLIWConfig) (p : Packet) (mi : MachineInstr) :
    List Group × Packet :=
  match join cfg p mi with
  | some p' => settle cfg p'
  | none =>
    match join cfg {} mi with
    | some p' => (p.close ++ (settle cfg p').1, (settle cfg p').2)
    | none => (p.close ++ [.bare mi], {})

def groupsFrom (cfg : StarbugVLIWConfig) : Packet → List MachineInstr → List Group
  | p, [] => p.close
  | p, mi :: rest => (groupStep cfg p mi).1 ++ groupsFrom cfg (groupStep cfg p mi).2 rest

def groups (cfg : StarbugVLIWConfig) (block : List MachineInstr) : List Group :=
  groupsFrom cfg {} block

def Group.block : Group → List MachineInstr
  | .bare mi => [mi]
  | .packet p => p.members

def Group.hint (cfg : StarbugVLIWConfig) : Group → List Nat
  | .bare _ => []
  | .packet p => if shouldEmitHint cfg p.members.length then [p.members.length] else []

def Group.emit (cfg : StarbugVLIWConfig) (g : Group) : List Emitted :=
  (g.hint cfg).map .hint ++ g.block.map .inst

theorem shouldEmitHint_of_two_le {cfg : StarbugVLIWConfig}
    (hs : cfg.scheduler.allowShortPackets = true) {n : Nat} (hn : 2 ≤ n) :
    shouldEmitHint cfg n = true := by
  have h1 : (n == 1) = false := beq_false_of_ne (by omega)
  simp [shouldEmitHint, h1, hs]

theorem Group.emit_packet {cfg : StarbugVLIWConfig} {p : Packet}
    (h : shouldEmitHint cfg p.members.length = true) :
    (Group.packet p).emit cfg = .hint p.members.length :: p.members.map .inst := by
  simp [emit, hint, block, h]

theorem Group.emit_packet_bare {cfg : StarbugVLIWConfig} {p : Packet}
    (h : ¬ shouldEmitHint cfg p.members.length = true) :
    (Group.packet p).emit cfg = p.members.map .inst := by
  simp [emit, hint, block, h]

theorem Packet.close_block (p : Packet) : p.close.flatMap Group.block = p.members := by
  by_cases hp : p.slots = []
  · simp [close, members, hp]
  · simp [close, Group.block, hp]

/-- the hints of groups that start at index `k` -/
def hintsFrom (cfg : StarbugVLIWConfig) : Nat → List Group → List (Nat × Nat)
  | _, [] => []
  | k, g :: gs => (g.hint cfg).map (k, ·) ++ hintsFrom cfg (k + g.block.length) gs

theorem hintsFrom_append (cfg : StarbugVLIWConfig) (k : Nat) (a b : List Group) :
    hintsFrom cfg k (a ++ b)
      = hintsFrom cfg k a ++ hintsFrom cfg (k + (a.flatMap Group.block).length) b := by
  induction a generalizing k with
  | nil => rfl
  | cons g a ih =>
    rw [List.cons_append, hintsFrom, hintsFrom, ih, List.append_assoc, List.flatMap_cons,
      List.length_append, Nat.add_assoc]

/-! ## the loop of the source makes the groups -/

/-- the locals `st` hold the packet `p`, whose first member is at index `k` -/
structure Holds (st : State) (p : Packet) (k : Nat) : Prop where
  packet : st.packet = (p.members.zipIdx k).map Prod.swap
  lanes : st.packetLanes = p.lanes
  uses : st.packetUses = usesOf p.members
  defs : st.packetDefs = defsOf p.members

/-- from `st`, with the open packet at `k`, to `st'`: the hints of the groups `gs` were inserted,
and `p'` is open behind them -/
structure Tracks (cfg : StarbugVLIWConfig) (st st' : State) (k : Nat) (gs : List Group)
    (p' : Packet) : Prop where
  hints : st'.hints = st.hints ++ hintsFrom cfg k gs
  changed : st'.changed = true ↔ st.changed = true ∨ hintsFrom cfg k gs ≠ []
  holds : Holds st' p' (k + (gs.flatMap Group.block).length)

theorem Tracks.trans {cfg : StarbugVLIWConfig} {st st' st'' : State} {k : Nat}
    {gs gs' : List Group} {p p' : Packet} (h : Tracks cfg st st' k gs p)
    (h' : Tracks cfg st' st'' (k + (gs.flatMap Group.block).length) gs' p') :
    Tracks cfg st st'' k (gs ++ gs') p' where
  hints := by rw [h'.hints, h.hints, hintsFrom_append, List.append_assoc]
  changed := by
    rw [h'.changed, h.changed, hintsFrom_append, or_assoc, ne_eq, ne_eq, ne_eq,
      List.append_eq_nil_iff, not_and_or]
  holds := by
    rw [List.flatMap_append, List.length_append, ← Nat.add_assoc]
    exact h'.holds

theorem Holds.length {st : State} {p : Packet} {k : Nat} (h : Holds st p k) :
    st.packet.length = p.members.length := by
  rw [h.packet, List.length_map, List.length_zipIdx]

theorem Tracks.refl (cfg : StarbugVLIWConfig) {st : State} {p : Packet} {k : Nat}
    (h : Holds st p k) : Tracks cfg st st k [] p where
  hints := (List.append_nil _).symm
  changed := by simp [hintsFrom]
  holds := h

theorem Packet.eq_empty {p : Packet} (h : p.members = []) : p = {} := by
  obtain ⟨slots⟩ := p
  obtain rfl : slots = [] := List.map_eq_nil_iff.mp h
  rfl

theorem Packet.close_eq {p : Packet} (h : p.members ≠ []) : p.close = [.packet p] :=
  if_neg fun h0 => h (List.map_eq_nil_iff.mpr h0)

theorem flushPacket_tracks (cfg : StarbugVLIWConfig) {st : State} {p : Packet} {k : Nat}
    (h : Holds st p k) : Tracks cfg st (flushPacket cfg st) k p.close {} := by
  cases hm : p.members with
  | nil =>
    obtain rfl := Packet.eq_empty hm
    have hp : st.packet = [] := h.packet
    have hf : flushPacket cfg st = st := by simp only [flushPacket, hp]
    rw [hf]
    exact Tracks.refl cfg h
  | cons m ms =>
    have hp : st.packet = (k, m) :: (ms.zipIdx (k + 1)).map Prod.swap := by
      rw [h.packet, hm]
      rfl
    have hlen : st.packet.length = p.members.length := h.length
    have hne : p.members ≠ [] := hm ▸ List.cons_ne_nil m ms
    have hclose : hintsFrom cfg k p.close
        = if shouldEmitHint cfg st.packet.length then [(k, st.packet.length)] else [] := by
      rw [p.close_eq hne, hlen]
      simp only [hintsFrom, Group.hint, List.append_nil]
      split_ifs <;> rfl
    unfold flushPacket
    simp only [hp]
    rw [← hp]
    by_cases hs : shouldEmitHint cfg st.packet.length = true
    · rw [if_pos hs] at hclose ⊢
      refine ⟨by rw [hclose], by simp [hclose], ⟨rfl, rfl, rfl, rfl⟩⟩
    · rw [if_neg hs] at hclose ⊢
      exact ⟨by rw [hclose, List.append_nil], by simp [hclose], ⟨rfl, rfl, rfl, rfl⟩⟩

theorem Tracks.bare (cfg : StarbugVLIWConfig) {st : State} {k : Nat} (h : Holds st {} k)
    (mi : MachineInstr) : Tracks cfg st st k [.bare mi] {} where
  hints := (List.append_nil _).symm
  changed := by simp [hintsFrom, Group.hint]
  holds := ⟨h.packet, h.lanes, h.uses, h.defs⟩

theorem pushBack_tracks (cfg : StarbugVLIWConfig) {st : State} {p : Packet} {k : Nat}
    (h : Holds st p k) (mi : MachineInstr) (lane : Nat) :
    Tracks cfg st (pushBack cfg st mi (k + p.members.length) lane) k
      (settle cfg ⟨p.slots ++ [(mi, lane)]⟩).1 (settle cfg ⟨p.slots ++ [(mi, lane)]⟩).2 := by
  have hmem : (⟨p.slots ++ [(mi, lane)]⟩ : Packet).members = p.members ++ [mi] :=
    List.map_append
  have hpushed : Holds
      { st with
        packet := st.packet ++ [(k + p.members.length, mi)]
        packetLanes := st.packetLanes ++ [lane]
        packetUses := st.packetUses ∪ mi.uses
        packetDefs := st.packetDefs ∪ mi.defs }
      ⟨p.slots ++ [(mi, lane)]⟩ k := by
    refine ⟨?_, ?_, ?_, ?_⟩
    · rw [hmem, List.zipIdx_append, List.map_append, ← h.packet]
      rfl
    · show st.packetLanes ++ [lane] = (p.slots ++ [(mi, lane)]).map Prod.snd
      rw [h.lanes, List.map_append]
      rfl
    · rw [hmem, usesOf, List.foldl_append, h.uses]
      rfl
    · rw [hmem, defsOf, List.foldl_append, h.defs]
      rfl
  have hlen := hpushed.length
  unfold pushBack settle
  by_cases hfull : cfg.maxBundleWidth ≤ (⟨p.slots ++ [(mi, lane)]⟩ : Packet).members.length
  · rw [if_pos hfull]
    simp only [hlen, if_pos hfull]
    obtain ⟨h1, h2, h3⟩ := flushPacket_tracks cfg hpushed
    exact ⟨h1, h2, h3⟩
  · rw [if_neg hfull]
    simp only [hlen, if_neg hfull]
    obtain ⟨h1, h2, h3⟩ := Tracks.refl cfg hpushed
    exact ⟨h1, h2, h3⟩

/-- what an instruction does when no packet is open -/
def restart (cfg : StarbugVLIWConfig) (mi : MachineInstr) : List Group × Packet :=
  match join cfg {} mi with
  | some p' => settle cfg p'
  | none => ([.bare mi], {})

/-- an instruction that does not join closes the packet and starts afresh -/
theorem groupStep_of_join_none {cfg : StarbugVLIWConfig} {p : Packet} {mi : MachineInstr}
    (hj : join cfg p mi = none) :
    groupStep cfg p mi = (p.close ++ (restart cfg mi).1, (restart cfg mi).2) := by
  rw [groupStep, hj, restart]
  cases join cfg {} mi <;> rfl

theorem join_of_independent {cfg : StarbugVLIWConfig} {p : Packet} {mi : MachineInstr}
    (hmi : isPacketizableMI mi = true)
    (hd : hasPacketDependency mi.uses mi.defs (usesOf p.members) (defsOf p.members) = false) :
    join cfg p mi = (freeLane cfg p.lanes (classifyOpClass mi)).map
      fun lane => ⟨p.slots ++ [(mi, lane)]⟩ := by
  simp [join, hmi, hd]

theorem join_of_dependent {cfg : StarbugVLIWConfig} {p : Packet} {mi : MachineInstr}
    (hd : hasPacketDependency mi.uses mi.defs (usesOf p.members) (defsOf p.members) = true) :
    join cfg p mi = none := by
  simp [join, hd]

theorem join_of_not_packetizable {cfg : StarbugVLIWConfig} {p : Packet} {mi : MachineInstr}
    (h : isPacketizableMI mi = false) : join cfg p mi = none := by
  simp [join, h]

theorem restart_tracks (cfg : StarbugVLIWConfig) {st : State} {k : Nat} (h : Holds st {} k)
    {mi : MachineInstr} (hmi : isPacketizableMI mi = true) :
    Tracks cfg st
      (if tryAssignLane cfg st.packetLanes (classifyOpClass mi) < 0 then st
        else pushBack cfg st mi k (tryAssignLane cfg st.packetLanes (classifyOpClass mi)).toNat)
      k (restart cfg mi).1 (restart cfg mi).2 := by
  have hlanes : st.packetLanes = [] := h.lanes
  have hjoin : join cfg {} mi
      = (freeLane cfg [] (classifyOpClass mi)).map fun lane => ⟨[(mi, lane)]⟩ :=
    join_of_independent hmi (hasPacketDependency_nil mi)
  rw [restart, hjoin, hlanes]
  unfold freeLane
  by_cases hl : tryAssignLane cfg [] (classifyOpClass mi) < 0
  · rw [if_pos hl, if_pos hl]
    exact Tracks.bare cfg h mi
  · rw [if_neg hl, if_neg hl]
    exact pushBack_tracks cfg h mi _

theorem step_of_dependent {cfg : StarbugVLIWConfig} {st : State} {p : Packet} {k : Nat}
    (h : Holds st p k) {mi : MachineInstr} (hmi : isPacketizableMI mi = true)
    (hd : hasPacketDependency mi.uses mi.defs (usesOf p.members) (defsOf p.members) = true)
    (idx : Nat) :
    step cfg st (mi, idx)
      = if tryAssignLane cfg (flushPacket cfg st).packetLanes (classifyOpClass mi) < 0 then
          flushPacket cfg st
        else pushBack cfg (flushPacket cfg st) mi idx
          (tryAssignLane cfg (flushPacket cfg st).packetLanes (classifyOpClass mi)).toNat := by
  have hd' : hasPacketDependency (collectRegAccesses mi).1 (collectRegAccesses mi).2
      st.packetUses st.packetDefs = true := by
    rw [h.uses, h.defs]
    exact hd
  have hne : st.packet.isEmpty = false := by
    rw [Bool.eq_false_iff, ne_eq, List.isEmpty_iff, ← List.length_eq_zero_iff, h.length]
    intro h0
    rw [List.length_eq_zero_iff.mp h0, hasPacketDependency_nil] at hd
    cases hd
  -- a second flush finds nothing
  have hidle : flushPacket cfg (flushPacket cfg st) = flushPacket cfg st := by
    have hp : (flushPacket cfg st).packet = [] := (flushPacket_tracks cfg h).holds.packet
    rw [flushPacket, hp]
  simp only [step, hmi, hd', hne, hidle, Bool.not_true, Bool.not_false, Bool.and_self,
    Bool.false_eq_true, if_true, if_false]
  split_ifs <;> rfl

theorem step_of_independent {cfg : StarbugVLIWConfig} {st : State} {p : Packet} {k : Nat}
    (h : Holds st p k) {mi : MachineInstr} (hmi : isPacketizableMI mi = true)
    (hd : hasPacketDependency mi.uses mi.defs (usesOf p.members) (defsOf p.members) = false)
    (idx : Nat) :
    step cfg st (mi, idx)
      = if tryAssignLane cfg st.packetLanes (classifyOpClass mi) < 0 then
          if tryAssignLane cfg (flushPacket cfg st).packetLanes (classifyOpClass mi) < 0 then
            flushPacket cfg st
          else pushBack cfg (flushPacket cfg st) mi idx
            (tryAssignLane cfg (flushPacket cfg st).packetLanes (classifyOpClass mi)).toNat
        else pushBack cfg st mi idx
          (tryAssignLane cfg st.packetLanes (classifyOpClass mi)).toNat := by
  have hd' : hasPacketDependency (collectRegAccesses mi).1 (collectRegAccesses mi).2
      st.packetUses st.packetDefs = false := by
    rw [h.uses, h.defs]
    exact hd
  simp only [step, hmi, hd', Bool.not_true, Bool.and_false, Bool.false_eq_true, if_false]

/-- **One turn of the loop is one `groupStep`.** -/
theorem step_tracks (cfg : StarbugVLIWConfig) {st : State} {p : Packet} {k : Nat}
    (h : Holds st p k) (mi : MachineInstr) :
    Tracks cfg st (step cfg st (mi, k + p.members.length)) k (groupStep cfg p mi).1
      (groupStep cfg p mi).2 := by
  have hflush := flushPacket_tracks cfg h
  cases hmi : isPacketizableMI mi with
  | false =>
    have hstep : step cfg st (mi, k + p.members.length) = flushPacket cfg st := by
      simp [step, hmi]
    rw [hstep, groupStep_of_join_none (join_of_not_packetizable hmi), restart,
      join_of_not_packetizable hmi]
    exact hflush.trans (Tracks.bare cfg hflush.holds mi)
  | true =>
    -- after a flush the instruction starts afresh
    have hrestart := hflush.trans (restart_tracks cfg hflush.holds hmi)
    rw [p.close_block] at hrestart
    cases hd : hasPacketDependency mi.uses mi.defs (usesOf p.members) (defsOf p.members) with
    | true =>
      rw [step_of_dependent h hmi hd, groupStep_of_join_none (join_of_dependent hd)]
      exact hrestart
    | false =>
      have hj : join cfg p mi = (freeLane cfg p.lanes (classifyOpClass mi)).map
          fun lane => ⟨p.slots ++ [(mi, lane)]⟩ := join_of_independent hmi hd
      rw [← h.lanes] at hj
      unfold freeLane at hj
      rw [step_of_independent h hmi hd]
      by_cases hl : tryAssignLane cfg st.packetLanes (classifyOpClass mi) < 0
      · rw [if_pos hl] at hj ⊢
        rw [groupStep_of_join_none hj]
        exact hrestart
      · rw [if_neg hl] at hj ⊢
        rw [groupStep, hj]
        exact pushBack_tracks cfg h mi _

/-! ## the groups are the block -/

theorem join_slots {cfg : StarbugVLIWConfig} {p p' : Packet} {mi : MachineInstr}
    (h : join cfg p mi = some p') :
    ∃ lane, freeLane cfg p.lanes (classifyOpClass mi) = some lane
      ∧ p' = ⟨p.slots ++ [(mi, lane)]⟩ := by
  unfold join at h
  split_ifs at h
  obtain ⟨lane, hlane, rfl⟩ := Option.map_eq_some_iff.mp h
  exact ⟨lane, hlane, rfl⟩

theorem join_members {cfg : StarbugVLIWConfig} {p p' : Packet} {mi : MachineInstr}
    (h : join cfg p mi = some p') : p'.members = p.members ++ [mi] := by
  obtain ⟨lane, -, rfl⟩ := join_slots h
  exact List.map_append

theorem settle_block (cfg : StarbugVLIWConfig) (p : Packet) :
    (settle cfg p).1.flatMap Group.block ++ (settle cfg p).2.members = p.members := by
  unfold settle
  split_ifs
  · rw [Packet.close_block]
    exact List.append_nil _
  · rfl

theorem groupStep_block (cfg : StarbugVLIWConfig) (p : Packet) (mi : MachineInstr) :
    (groupStep cfg p mi).1.flatMap Group.block ++ (groupStep cfg p mi).2.members
      = p.members ++ [mi] := by
  unfold groupStep
  cases hj : join cfg p mi with
  | some p' => exact (settle_block cfg p').trans (join_members hj)
  | none =>
    cases hj' : join cfg {} mi with
    | some p' =>
      simp only [List.flatMap_append, Packet.close_block, List.append_assoc, settle_block]
      rw [join_members hj']
      rfl
    | none =>
      simp only [List.flatMap_append, Packet.close_block, List.append_assoc]
      rfl

theorem groupsFrom_block (cfg : StarbugVLIWConfig) (p : Packet) (block : List MachineInstr) :
    (groupsFrom cfg p block).flatMap Group.block = p.members ++ block := by
  induction block generalizing p with
  | nil => rw [groupsFrom, Packet.close_block, List.append_nil]
  | cons mi rest ih =>
    rw [groupsFrom, List.flatMap_append, ih, ← List.append_assoc, groupStep_block,
      List.append_assoc]
    rfl

/-- **The groups are the block, in order.** -/
theorem groups_block (cfg : StarbugVLIWConfig) (block : List MachineInstr) :
    (groups cfg block).flatMap Group.block = block :=
  groupsFrom_block cfg {} block

/-- the index of the next instruction, counted from the packet that is then open -/
theorem groupStep_index (cfg : StarbugVLIWConfig) (p : Packet) (mi : MachineInstr) (k : Nat) :
    k + ((groupStep cfg p mi).1.flatMap Group.block).length
      + (groupStep cfg p mi).2.members.length = k + p.members.length + 1 := by
  have hb := congrArg List.length (groupStep_block cfg p mi)
  rw [List.length_append, List.length_append, List.length_singleton] at hb
  omega

theorem loop_tracks (cfg : StarbugVLIWConfig) (block : List MachineInstr) {st : State}
    {p : Packet} {k : Nat} (h : Holds st p k) :
    Tracks cfg st
      (flushPacket cfg ((block.zipIdx (k + p.members.length)).foldl (step cfg) st)) k
      (groupsFrom cfg p block) {} := by
  induction block generalizing st p k with
  | nil => exact flushPacket_tracks cfg h
  | cons mi rest ih =>
    have hstep := step_tracks cfg h mi
    have hrest := ih hstep.holds
    rw [groupStep_index] at hrest
    exact hstep.trans hrest

/-! ## the open packet -/

/-- the locals of the loop behind `block` -/
def scanned (cfg : StarbugVLIWConfig) (block : List MachineInstr) : State :=
  block.zipIdx.foldl (step cfg) {}

/-- the packet that is open behind `block` -/
def openAfter (cfg : StarbugVLIWConfig) (p : Packet) (block : List MachineInstr) : Packet :=
  block.foldl (fun p mi => (groupStep cfg p mi).2) p

theorem loop_holds {cfg : StarbugVLIWConfig} (block : List MachineInstr) {st : State} {p : Packet} {k : Nat}
    (h : Holds st p k) :
    ∃ k', Holds ((block.zipIdx (k + p.members.length)).foldl (step cfg) st)
      (openAfter cfg p block) k' := by
  induction block generalizing st p k with
  | nil => exact ⟨k, h⟩
  | cons mi rest ih =>
    have hstep := (step_tracks cfg h mi).holds
    obtain ⟨k', hrest⟩ := ih hstep
    rw [groupStep_index] at hrest
    exact ⟨k', hrest⟩

theorem scanned_holds (cfg : StarbugVLIWConfig) (block : List MachineInstr) :
    ∃ k, Holds (scanned cfg block) (openAfter cfg {} block) k := by
  have hstart : Holds {} {} 0 := ⟨rfl, rfl, rfl, rfl⟩
  exact loop_holds block hstart

/-! ## inserting the hints -/

theorem insertHints_append (k : Nat) (a b : List MachineInstr) (hs : List (Nat × Nat)) :
    insertHints k (a ++ b) hs = insertHints k a hs ++ insertHints (k + a.length) b hs := by
  unfold insertHints
  rw [List.zipIdx_append, List.flatMap_append]

/-- only the hints at the instructions' own indices count -/
theorem insertHints_congr {k : Nat} {a : List MachineInstr} {hs hs' : List (Nat × Nat)}
    (h : ∀ i, k ≤ i → i < k + a.length → hs.filter (·.1 = i) = hs'.filter (·.1 = i)) :
    insertHints k a hs = insertHints k a hs' := by
  induction a generalizing k with
  | nil => rfl
  | cons m a ih =>
    have hhead := h k (Nat.le_refl k) (by rw [List.length_cons]; omega)
    have htail := ih (k := k + 1) fun i h1 h2 => h i (by omega) (by rw [List.length_cons]; omega)
    show (hs.filter (·.1 = k)).map (fun h => Emitted.hint h.2) ++ [.inst m]
        ++ insertHints (k + 1) a hs
      = (hs'.filter (·.1 = k)).map (fun h => Emitted.hint h.2) ++ [.inst m]
        ++ insertHints (k + 1) a hs'
    rw [hhead, htail]

theorem insertHints_nil (k : Nat) (a : List MachineInstr) :
    insertHints k a [] = a.map .inst := by
  induction a generalizing k with
  | nil => rfl
  | cons m a ih => exact congrArg (.inst m :: ·) (ih (k + 1))

theorem le_of_mem_hintsFrom {cfg : StarbugVLIWConfig} {k : Nat} {gs : List Group} {h : Nat × Nat}
    (hh : h ∈ hintsFrom cfg k gs) : k ≤ h.1 := by
  induction gs generalizing k with
  | nil => cases hh
  | cons g gs ih =>
    rcases List.mem_append.mp hh with hh | hh
    · obtain ⟨n, -, rfl⟩ := List.mem_map.mp hh
      exact Nat.le_refl k
    · exact Nat.le_trans (Nat.le_add_right _ _) (ih hh)

theorem insertHints_group (cfg : StarbugVLIWConfig) (k : Nat) {g : Group} (hg : g.block ≠ []) :
    insertHints k g.block ((g.hint cfg).map (k, ·)) = g.emit cfg := by
  obtain ⟨m, ms, hm⟩ := List.exists_cons_of_ne_nil hg
  have hhead : ((g.hint cfg).map (k, ·)).filter (·.1 = k) = (g.hint cfg).map (k, ·) := by
    rw [List.filter_eq_self]
    intro h hh
    obtain ⟨n, -, rfl⟩ := List.mem_map.mp hh
    exact decide_eq_true rfl
  have htail : insertHints (k + 1) ms ((g.hint cfg).map (k, ·)) = ms.map .inst := by
    rw [← insertHints_nil (k + 1) ms]
    refine insertHints_congr fun i hi _ => ?_
    rw [List.filter_nil, List.filter_eq_nil_iff]
    intro h hh
    obtain ⟨n, -, rfl⟩ := List.mem_map.mp hh
    simp only [decide_eq_true_eq]
    omega
  unfold Group.emit
  rw [hm]
  show (((g.hint cfg).map (k, ·)).filter (·.1 = k)).map (fun h => Emitted.hint h.2) ++ [.inst m]
      ++ insertHints (k + 1) ms ((g.hint cfg).map (k, ·)) = _
  rw [hhead, htail, List.map_map, List.append_assoc]
  rfl

theorem insertHints_hintsFrom (cfg : StarbugVLIWConfig) (k : Nat) {gs : List Group}
    (hgs : ∀ g ∈ gs, g.block ≠ []) :
    insertHints k (gs.flatMap Group.block) (hintsFrom cfg k gs) = gs.flatMap (Group.emit cfg) := by
  induction gs generalizing k with
  | nil => rfl
  | cons g gs ih =>
    have hg := hgs g List.mem_cons_self
    have hpos : 0 < g.block.length := List.length_pos_iff.mpr hg
    have hfirst : insertHints k g.block (hintsFrom cfg k (g :: gs)) = g.emit cfg := by
      rw [← insertHints_group cfg k hg]
      refine insertHints_congr fun i _ hi => ?_
      rw [hintsFrom, List.filter_append, List.append_right_eq_self, List.filter_eq_nil_iff]
      intro h hh
      have hle := le_of_mem_hintsFrom hh
      simp only [decide_eq_true_eq]
      omega
    have hsecond : insertHints (k + g.block.length) (gs.flatMap Group.block)
        (hintsFrom cfg k (g :: gs)) = gs.flatMap (Group.emit cfg) := by
      rw [← ih (k + g.block.length) fun g' h' => hgs g' (List.mem_cons_of_mem _ h')]
      refine insertHints_congr fun i hi _ => ?_
      rw [hintsFrom, List.filter_append, List.append_left_eq_self, List.filter_eq_nil_iff]
      intro h hh
      obtain ⟨n, -, rfl⟩ := List.mem_map.mp hh
      simp only [decide_eq_true_eq]
      omega
    rw [List.flatMap_cons, insertHints_append, hfirst, hsecond, List.flatMap_cons]

/-! ## the packets are well formed -/

/-- what the members of a packet have in common; a lane is the first that was free and takes the
class when its member joined -/
structure Packet.WellFormed (cfg : StarbugVLIWConfig) (p : Packet) : Prop where
  packetizable : ∀ m ∈ p.members, isPacketizableMI m = true
  independent : p.members.Pairwise FullyIndependent
  greedy : ∀ a m lane b, p.slots = a ++ (m, lane) :: b →
    freeLane cfg (a.map Prod.snd) (classifyOpClass m) = some lane

def Group.WellFormed (cfg : StarbugVLIWConfig) : Group → Prop
  | .bare mi => join cfg {} mi = none
  | .packet p => p.slots ≠ [] ∧ p.WellFormed cfg

theorem Packet.wellFormed_empty (cfg : StarbugVLIWConfig) : Packet.WellFormed cfg {} where
  packetizable := fun _ h => absurd h List.not_mem_nil
  independent := List.Pairwise.nil
  greedy := fun a m lane b h => by simp at h

theorem join_wellFormed {cfg : StarbugVLIWConfig} {p p' : Packet} {mi : MachineInstr}
    (hj : join cfg p mi = some p') (h : p.WellFormed cfg) : p'.WellFormed cfg := by
  have hm := join_members hj
  obtain ⟨lane, hlane, hp'⟩ := join_slots hj
  have hcond : isPacketizableMI mi = true
      ∧ hasPacketDependency mi.uses mi.defs (usesOf p.members) (defsOf p.members) = false := by
    unfold join at hj
    split_ifs at hj with hc
    rwa [Bool.and_eq_true_iff, Bool.not_eq_true'] at hc
  refine ⟨?_, ?_, ?_⟩
  · intro m hmem
    rw [hm] at hmem
    rcases List.mem_append.mp hmem with hmem | hmem
    · exact h.packetizable m hmem
    · rw [List.mem_singleton.mp hmem]
      exact hcond.1
  · rw [hm, List.pairwise_append]
    refine ⟨h.independent, List.pairwise_singleton _ _, fun a ha b hb => ?_⟩
    rw [List.mem_singleton.mp hb]
    exact hasPacketDependency_eq_false.mp hcond.2 a ha
  · intro a m l b hsplit
    rw [hp'] at hsplit
    rcases List.eq_nil_or_concat b with rfl | ⟨b', x, rfl⟩
    · -- the new slot
      obtain ⟨rfl, hx⟩ := List.append_inj' hsplit rfl
      obtain ⟨rfl, rfl⟩ := Prod.mk.inj (List.cons.inj hx).1
      exact hlane
    · -- an old one
      refine h.greedy a m l b' ?_
      have hassoc : p.slots ++ [(mi, lane)] = (a ++ (m, l) :: b') ++ [x] :=
        hsplit.trans (by simp)
      exact (List.append_inj' hassoc rfl).1

theorem close_wellFormed {cfg : StarbugVLIWConfig} {p : Packet} (h : p.WellFormed cfg) :
    ∀ g ∈ p.close, g.WellFormed cfg := by
  intro g hg
  unfold Packet.close at hg
  split_ifs at hg with h0
  · cases hg
  · rw [List.mem_singleton.mp hg]
    exact ⟨h0, h⟩

theorem settle_wellFormed {cfg : StarbugVLIWConfig} {p : Packet} (h : p.WellFormed cfg) :
    (∀ g ∈ (settle cfg p).1, g.WellFormed cfg) ∧ (settle cfg p).2.WellFormed cfg := by
  unfold settle
  split_ifs
  · exact ⟨close_wellFormed h, Packet.wellFormed_empty cfg⟩
  · exact ⟨fun g hg => absurd hg List.not_mem_nil, h⟩

theorem groupStep_wellFormed {cfg : StarbugVLIWConfig} {p : Packet} (h : p.WellFormed cfg)
    (mi : MachineInstr) :
    (∀ g ∈ (groupStep cfg p mi).1, g.WellFormed cfg)
      ∧ (groupStep cfg p mi).2.WellFormed cfg := by
  unfold groupStep
  cases hj : join cfg p mi with
  | some p' => exact settle_wellFormed (join_wellFormed hj h)
  | none =>
    have hclose := close_wellFormed h
    cases hj' : join cfg {} mi with
    | some p' =>
      have hp' := settle_wellFormed (join_wellFormed hj' (Packet.wellFormed_empty cfg))
      refine ⟨fun g hg => ?_, hp'.2⟩
      exact (List.mem_append.mp hg).elim (hclose g) (hp'.1 g)
    | none =>
      refine ⟨fun g hg => ?_, Packet.wellFormed_empty cfg⟩
      rcases List.mem_append.mp hg with hg | hg
      · exact hclose g hg
      · rw [List.mem_singleton.mp hg]
        exact hj'

theorem groupsFrom_wellFormed {cfg : StarbugVLIWConfig} {p : Packet} (h : p.WellFormed cfg)
    (block : List MachineInstr) : ∀ g ∈ groupsFrom cfg p block, g.WellFormed cfg := by
  induction block generalizing p with
  | nil => exact close_wellFormed h
  | cons mi rest ih =>
    have hstep := groupStep_wellFormed h mi
    intro g hg
    rcases List.mem_append.mp hg with hg | hg
    · exact hstep.1 g hg
    · exact ih hstep.2 g hg

/-- **Every group is a well-formed packet or an instruction that can open none.** -/
theorem groups_wellFormed (cfg : StarbugVLIWConfig) (block : List MachineInstr) :
    ∀ g ∈ groups cfg block, g.WellFormed cfg :=
  groupsFrom_wellFormed (Packet.wellFormed_empty cfg) block

theorem Group.WellFormed.block_ne_nil {cfg : StarbugVLIWConfig} {g : Group}
    (h : g.WellFormed cfg) : g.block ≠ [] := by
  cases g with
  | bare mi => exact List.cons_ne_nil mi []
  | packet p => exact fun h0 => h.1 (List.map_eq_nil_iff.mp h0)

/-- **The pass leaves the groups, each behind its hint, and reports a change exactly if it
inserted one.** -/
theorem packetizeBasicBlock_eq (cfg : StarbugVLIWConfig) (block : List MachineInstr) :
    (packetizeBasicBlock cfg block).1 = (groups cfg block).flatMap (Group.emit cfg)
      ∧ ((packetizeBasicBlock cfg block).2 = true
        ↔ ∃ g ∈ groups cfg block, g.hint cfg ≠ []) := by
  have hstart : Holds {} {} 0 := ⟨rfl, rfl, rfl, rfl⟩
  have h := loop_tracks cfg block hstart
  have hins := insertHints_hintsFrom cfg 0
    fun g hg => (groups_wellFormed cfg block g hg).block_ne_nil
  have hnil : ∀ k gs, hintsFrom cfg k gs = [] ↔ ∀ g ∈ gs, g.hint cfg = [] := by
    intro k gs
    induction gs generalizing k with
    | nil => simp [hintsFrom]
    | cons g gs ih => rw [hintsFrom, List.append_eq_nil_iff, ih, List.map_eq_nil_iff,
        List.forall_mem_cons]
  rw [groups_block] at hins
  constructor
  · show insertHints 0 block _ = _
    rw [← hins]
    exact congrArg (insertHints 0 block) (h.hints.trans (List.nil_append _))
  · have hch := h.changed
    have hfalse : ¬ (({} : State).changed = true) := Bool.false_ne_true
    rw [or_iff_right hfalse, ne_eq, hnil, not_forall₂] at hch
    exact hch.trans (exists_congr fun g => exists_prop)

/-! ## reading the hints off -/

theorem hint_notMem_insts (n : Nat) (ms : List MachineInstr) :
    Emitted.hint n ∉ ms.map Emitted.inst := by
  intro h
  obtain ⟨m, -, hm⟩ := List.mem_map.mp h
  cases hm

/-- a hint in the emission of one group is the first thing in it, and counts its members -/
theorem emit_eq_append_hint {cfg : StarbugVLIWConfig} {g : Group} {a c : List Emitted} {n : Nat}
    (h : g.emit cfg = a ++ .hint n :: c) :
    ∃ p, g = .packet p ∧ n = p.members.length ∧ shouldEmitHint cfg n = true ∧ a = []
      ∧ c = p.members.map .inst := by
  have hno : ∀ (ms : List MachineInstr) a, ms.map Emitted.inst ≠ a ++ .hint n :: c := fun ms a heq =>
    hint_notMem_insts n ms (heq ▸ List.mem_append_right a List.mem_cons_self)
  cases g with
  | bare m => exact absurd h (hno [m] a)
  | packet p =>
    unfold Group.emit Group.hint Group.block at h
    simp only at h
    split_ifs at h with hs
    · cases a with
      | nil =>
        obtain ⟨hn, hc⟩ := List.cons.inj h
        obtain rfl : p.members.length = n := Emitted.hint.inj hn
        exact ⟨p, rfl, rfl, hs, rfl, hc.symm⟩
      | cons x a => exact absurd (List.cons.inj h).2 (hno p.members a)
    · exact absurd h (hno p.members a)

/-- **A hint in the emitted groups belongs to a packet, whose members follow it, and then the
groups behind it.** -/
theorem flatMap_emit_split {cfg : StarbugVLIWConfig} {gs : List Group} {a b : List Emitted}
    {n : Nat} (h : gs.flatMap (Group.emit cfg) = a ++ .hint n :: b) :
    ∃ gs₁ p gs₂, gs = gs₁ ++ .packet p :: gs₂ ∧ n = p.members.length
      ∧ shouldEmitHint cfg n = true
      ∧ b = p.members.map .inst ++ gs₂.flatMap (Group.emit cfg) := by
  induction gs generalizing a with
  | nil => simp at h
  | cons g gs ih =>
    have hrest : ∀ a', gs.flatMap (Group.emit cfg) = a' ++ .hint n :: b →
        ∃ gs₁ p gs₂, g :: gs = gs₁ ++ .packet p :: gs₂ ∧ n = p.members.length
          ∧ shouldEmitHint cfg n = true
          ∧ b = p.members.map .inst ++ gs₂.flatMap (Group.emit cfg) := by
      intro a' h'
      obtain ⟨gs₁, p, gs₂, rfl, hp⟩ := ih h'
      exact ⟨g :: gs₁, p, gs₂, rfl, hp⟩
    rw [List.flatMap_cons] at h
    rcases List.append_eq_append_iff.mp h with ⟨a', -, h'⟩ | ⟨c, h1, h2⟩
    · exact hrest a' h'
    · cases c with
      | nil => exact hrest [] h2.symm
      | cons x c =>
        obtain ⟨rfl, rfl⟩ := List.cons.inj h2
        obtain ⟨p, rfl, hn, hs, -, rfl⟩ := emit_eq_append_hint h1
        exact ⟨[], p, gs, rfl, hn, hs, rfl⟩

theorem flatMap_emit_eq_append_hint {cfg : StarbugVLIWConfig} {gs : List Group}
    {a b : List Emitted} {n : Nat} (h : gs.flatMap (Group.emit cfg) = a ++ .hint n :: b) :
    ∃ p, .packet p ∈ gs ∧ n = p.members.length ∧ shouldEmitHint cfg n = true
      ∧ ∃ rest, b = p.members.map .inst ++ rest := by
  obtain ⟨gs₁, p, gs₂, rfl, hn, hs, hb⟩ := flatMap_emit_split h
  exact ⟨p, List.mem_append_right _ List.mem_cons_self, hn, hs, _, hb⟩

end Starbug.Vliw
