import Starbug.Vliw.Lanes
import Starbug.Vliw.Lower
import Mathlib.Data.Finset.Image

/-!
# The packetizer and the bundle checker agree

The block the packetizer leaves is emitted word by word (`Encoder.lower`) and read back by
`analyse`.  `Encodes` is what is assumed of the assembler and the decoder on one instruction: its
word is not a HINT, the decoder reads off its register uses and defs under an injective numbering,
and an instruction of one of the three ALU classes decodes to work that any lane may do.

`analyse_packetizeBasicBlock`: without an override and with at most four lanes, the scan finds
exactly the inserted hints, in order, each with the members of its packet, and the check records
no error.
-/

namespace Starbug.Vliw

/-! ## what is assumed of the assembler -/

/-- the classes that every lane executes -/
def workerClasses : List Cls := [.alu, .mul, .fpu, .fpdiv]

/-- the emission of `mi` as one word, against what the pass knows of it: `num` numbers the
registers, and the word decodes to the operands, to no HINT, and to a class of every lane if `mi`
is ALU work -/
structure Encodes (enc : Encoder) (num : Nat → Nat) (mi : MachineInstr) : Prop where
  not_hint : enc.size mi = 2 → hintLength (enc.word mi) = none
  reads : ∀ addr text, (decode addr (enc.word mi) text).reads = (mi.uses.image num).erase 0
  writes : ∀ addr text, (decode addr (enc.word mi) text).writes = (mi.defs.image num).erase 0
  alu : (classifyOpClass mi).isALU = true →
    ∀ addr text, (decode addr (enc.word mi) text).cls ∈ workerClasses

/-! ## the hints of an emitted list -/

def Emitted.inst? : Emitted → Option MachineInstr
  | .hint _ => none
  | .inst mi => some mi

/-- the hints of the list emitted at `addr`: the address, the length, and the instructions among
the next `len` elements -/
def hintedPackets (enc : Encoder) : Nat → List Emitted → List (Nat × Nat × List MachineInstr)
  | _, [] => []
  | addr, .hint len :: rest =>
    (addr, len, (rest.take len).filterMap Emitted.inst?)
      :: hintedPackets enc (addr + 2) rest
  | addr, .inst mi :: rest => hintedPackets enc (addr + enc.size mi) rest

/-- `b` is the bundle of a hint: at its address, of its length, with exactly the instructions it
counts as members, and without errors -/
structure BundleOf (enc : Encoder) (x : Nat × Nat × List MachineInstr) (b : Bundle) : Prop where
  hintAddr : b.hintAddr = x.1
  declaredLen : b.declaredLen = x.2.1
  length : x.2.2.length = x.2.1
  members : b.members = (enc.lower (x.1 + 2) (x.2.2.map .inst)).map Line.decode
  errors : b.errors = []

section
variable {enc : Encoder} {num : Nat → Nat}

theorem filterMap_inst (ms : List MachineInstr) :
    (ms.map Emitted.inst).filterMap Emitted.inst? = ms := by
  rw [List.filterMap_map]
  exact List.filterMap_some

theorem filterMap_take_insts (ms : List MachineInstr) (rest : List Emitted) :
    ((ms.map Emitted.inst ++ rest).take ms.length).filterMap Emitted.inst? = ms := by
  rw [List.take_append_of_le_length (by rw [List.length_map]),
    List.take_of_length_le (by rw [List.length_map]), filterMap_inst]

theorem hintedPackets_insts (addr : Nat) (ms : List MachineInstr) (rest : List Emitted) :
    hintedPackets enc addr (ms.map .inst ++ rest)
      = hintedPackets enc (enc.stop addr (ms.map .inst)) rest := by
  induction ms generalizing addr with
  | nil => rfl
  | cons m ms ih => exact ih _

theorem hintedPackets_hint (addr : Nat) (ms : List MachineInstr) (rest : List Emitted) :
    hintedPackets enc addr (.hint ms.length :: (ms.map .inst ++ rest))
      = (addr, ms.length, ms) :: hintedPackets enc (enc.stop (addr + 2) (ms.map .inst)) rest := by
  rw [hintedPackets, filterMap_take_insts, hintedPackets_insts]

/-! ## what the scan sees -/

theorem Encodes.hint_line {mi : MachineInstr} (h : Encodes enc num mi) (addr : Nat) :
    (enc.line addr (.inst mi)).hint = none := by
  unfold Line.hint
  split_ifs with hs
  · exact h.not_hint hs
  · rfl

theorem hints_insts {ms : List MachineInstr} (h : ∀ m ∈ ms, Encodes enc num m) (addr : Nat)
    (rest : List Line) :
    hints (enc.lower addr (ms.map .inst) ++ rest) = hints rest := by
  induction ms generalizing addr with
  | nil => rfl
  | cons m ms ih =>
    have hm := (h m List.mem_cons_self).hint_line addr
    show hints (enc.line addr (.inst m) :: (enc.lower _ (ms.map .inst) ++ rest)) = _
    rw [hints, Sweep.headers_cons_none _ hm]
    exact ih (fun m' h' => h m' (List.mem_cons_of_mem _ h')) _

/-- a hint the fetch unit honours owns the lines of its packet -/
theorem hints_hint {ms : List MachineInstr} (hpos : 1 ≤ ms.length) (h4 : ms.length ≤ 4)
    (addr addr' : Nat) (rest : List Line) :
    hints (enc.line addr (.hint ms.length) :: (enc.lower addr' (ms.map .inst) ++ rest))
      = (enc.line addr (.hint ms.length), ms.length, enc.lower addr' (ms.map .inst))
        :: hints rest := by
  have hlen : (enc.lower addr' (ms.map .inst)).length = ms.length := by
    rw [Encoder.length_lower, List.length_map]
  have hhint : (enc.line addr (.hint ms.length)).hint
      = some (enc.lower addr' (ms.map .inst)).length := by
    rw [hlen]
    exact hintLength_hintWord hpos (by omega)
  rw [hints, Sweep.headers_block _ hhint, hlen]
  rfl

/-! ## what the check sees -/

theorem getElem?_decode_lower {addr : Nat} {ms : List MachineInstr} {i : Nat} {d : Insn}
    (h : ((enc.lower addr (ms.map .inst)).map Line.decode)[i]? = some d) :
    ∃ m, ms[i]? = some m ∧ ∃ addr text, d = decode addr (enc.word m) text := by
  induction ms generalizing addr i with
  | nil => simp [Encoder.lower] at h
  | cons m ms ih =>
    cases i with
    | zero => exact ⟨m, rfl, addr, enc.text m, (Option.some.inj h).symm⟩
    | succ i => exact ih h

theorem disjoint_image (hinj : Function.Injective num) {s t : Finset Nat} (h : Disjoint s t) :
    Disjoint ((s.image num).erase 0) ((t.image num).erase 0) :=
  ((Finset.disjoint_image hinj).mpr h).mono (Finset.erase_subset _ _) (Finset.erase_subset _ _)

theorem FullyIndependent.decode {a b : MachineInstr} (h : FullyIndependent a b)
    (hinj : Function.Injective num) (ha : Encodes enc num a) (hb : Encodes enc num b)
    (addr addr' : Nat) (text text' : String) :
    RegIndependent (decode addr (enc.word a) text) (Starbug.decode addr' (enc.word b) text') where
  raw := by
    rw [ha.writes, hb.reads]
    exact disjoint_image hinj h.raw
  waw := by
    rw [ha.writes, hb.writes]
    exact disjoint_image hinj h.waw

theorem isLane0Only_of_worker {i : Insn} (h : i.cls ∈ workerClasses) : i.isLane0Only = false := by
  unfold Insn.isLane0Only
  revert h
  cases i.cls <;> decide

theorem clean_lower (hinj : Function.Injective num) {ms : List MachineInstr}
    (henc : ∀ m ∈ ms, Encodes enc num m) (hind : ms.Pairwise FullyIndependent)
    (hw : WorkersALU ms) (addr : Nat) :
    Clean ((enc.lower addr (ms.map .inst)).map Line.decode) := by
  constructor
  · intro d hd
    obtain ⟨i, hi, hmem⟩ := mem_zipIdx_tail.mp hd
    obtain ⟨m, hm, addr', text, rfl⟩ :=
      getElem?_decode_lower (List.mem_zipIdx_iff_getElem?.mp hmem)
    have hmt : m ∈ ms.tail := mem_zipIdx_tail.mpr ⟨i, hi, List.mem_zipIdx_iff_getElem?.mpr hm⟩
    exact isLane0Only_of_worker ((henc m (List.mem_of_getElem? hm)).alu (hw m hmt) addr' text)
  · refine List.pairwise_iff_getElem.mpr fun i j hi hj hij => ?_
    obtain ⟨a, ha, addr₁, text₁, hda⟩ := getElem?_decode_lower (List.getElem?_eq_getElem hi)
    obtain ⟨b, hb, addr₂, text₂, hdb⟩ := getElem?_decode_lower (List.getElem?_eq_getElem hj)
    obtain ⟨hia, rfl⟩ := List.getElem?_eq_some_iff.mp ha
    obtain ⟨hib, rfl⟩ := List.getElem?_eq_some_iff.mp hb
    rw [hda, hdb]
    exact (List.pairwise_iff_getElem.mp hind i j hia hib hij).decode hinj
      (henc _ (List.getElem_mem hia)) (henc _ (List.getElem_mem hib)) addr₁ addr₂ text₁ text₂

theorem bundleOf_cut (hinj : Function.Injective num) {ms : List MachineInstr}
    (henc : ∀ m ∈ ms, Encodes enc num m) (hind : ms.Pairwise FullyIndependent)
    (hw : WorkersALU ms) (h4 : ms.length ≤ 4) (addr : Nat) (L : Int) :
    BundleOf enc (addr, ms.length, ms)
      (checkBundle (cut (enc.line addr (.hint ms.length), ms.length,
        enc.lower (addr + 2) (ms.map .inst))) L).1 where
  hintAddr := by rw [checkBundle_hintAddr]; rfl
  declaredLen := by rw [checkBundle_declaredLen]; rfl
  length := rfl
  members := by rw [checkBundle_members]; rfl
  errors := by
    refine (checkBundle_errors_iff _ L).mpr ⟨rfl, accepted_cut.mpr ⟨h4, ?_, ?_⟩⟩
    · rw [Encoder.length_lower, List.length_map]
    · exact clean_lower hinj henc hind hw (addr + 2)

/-! ## the whole block -/

/-- the bundles of the sweep are those of the hinted packets -/
theorem forall₂_groups {opts : CommandLine} (h4 : opts.lanes ≤ 4)
    (hinj : Function.Injective num) {gs : List Group}
    (hgs : ∀ g ∈ gs, g.WellFormed (baseConfig opts))
    (henc : ∀ g ∈ gs, ∀ m ∈ g.block, Encodes enc num m) (addr : Nat) (L : Int) :
    List.Forall₂ (BundleOf enc) (hintedPackets enc addr (gs.flatMap (Group.emit (baseConfig opts))))
      ((hints (enc.lower addr (gs.flatMap (Group.emit (baseConfig opts))))).map
        fun x => (checkBundle (cut x) L).1) := by
  induction gs generalizing addr with
  | nil => exact List.Forall₂.nil
  | cons g gs ih =>
    have hg := hgs g List.mem_cons_self
    have hge := henc g List.mem_cons_self
    have hrest := ih (fun g' h' => hgs g' (List.mem_cons_of_mem _ h'))
      fun g' h' => henc g' (List.mem_cons_of_mem _ h')
    -- without a hint the instructions are passed over
    have hbare : ∀ addr, List.Forall₂ (BundleOf enc)
        (hintedPackets enc addr
          (g.block.map .inst ++ gs.flatMap (Group.emit (baseConfig opts))))
        ((hints (enc.lower addr
          (g.block.map .inst ++ gs.flatMap (Group.emit (baseConfig opts))))).map
          fun x => (checkBundle (cut x) L).1) := by
      intro addr
      rw [hintedPackets_insts, Encoder.lower_append, hints_insts hge]
      exact hrest _
    rw [List.flatMap_cons]
    cases g with
    | bare m => exact hbare addr
    | packet p =>
      obtain ⟨hne, hp⟩ := hg
      have hpos : 1 ≤ p.members.length :=
        List.length_pos_iff.mpr fun h => hne (List.map_eq_nil_iff.mp h)
      have hlen : p.members.length ≤ 4 := by
        have hle := hp.length_le (baseConfig_numLanes_lt opts)
        have hN : (baseConfig opts).numLanes ≤ 4 := Nat.max_le.mpr ⟨by decide, h4⟩
        exact Nat.le_trans hle (Nat.le_trans (usableLanes_length_le _) hN)
      by_cases hs : shouldEmitHint (baseConfig opts) p.members.length = true
      · rw [Group.emit_packet hs, List.cons_append, hintedPackets_hint, Encoder.lower, Encoder.lower_append,
          hints_hint hpos hlen, List.map_cons]
        exact List.Forall₂.cons
          (bundleOf_cut hinj hge hp.independent hp.workersALU hlen addr L) (hrest _)
      · rw [Group.emit_packet_bare hs]
        exact hbare addr

/-- **Without an override and with at most four lanes, the scan of the emitted block returns
(unless the line size is zero) exactly one bundle for each inserted hint, in order: of its length,
with the instructions of its packet as members, and without errors.** -/
theorem analyse_packetizeBasicBlock {opts : CommandLine} (ho : opts.laneOpClasses = [])
    (h4 : opts.lanes ≤ 4) {cfg : StarbugVLIWConfig} (hr : Returns opts cfg)
    (hinj : Function.Injective num) {block : List MachineInstr}
    (henc : ∀ mi ∈ block, Encodes enc num mi) (addr : Nat) (L : Int) :
    (L ≠ 0 → ∃ r, analyse (enc.lower addr (packetizeBasicBlock cfg block).1) L = .ok r)
    ∧ ∀ bs cov, analyse (enc.lower addr (packetizeBasicBlock cfg block).1) L = .ok (bs, cov) →
      List.Forall₂ (BundleOf enc) (hintedPackets enc addr (packetizeBasicBlock cfg block).1) bs := by
  obtain rfl := (returns_iff_of_empty ho cfg).mp hr
  refine ⟨analyse_returns _, fun bs cov h => ?_⟩
  rw [analyse_eq h, (packetizeBasicBlock_eq (baseConfig opts) block).1]
  refine forall₂_groups h4 hinj (groups_wellFormed _ block) (fun g hg m hm => ?_) addr L
  refine henc m ?_
  rw [← groups_block (baseConfig opts) block]
  exact List.mem_flatMap.mpr ⟨g, hg, hm⟩

end

/-! ## one packet, emitted and read back -/

/-- the register operand `N + 1` is `xN` -/
def regNumber (r : Nat) : Nat := if r = 0 then 64 else if r ≤ 64 then r - 1 else r

theorem regNumber_injective : Function.Injective regNumber := by
  intro a b h
  unfold regNumber at h
  split_ifs at h <;> omega

def lwAddEncoder : Encoder where
  word mi := if mi.mayLoad then 0x0005A503 else 0x00E68633
  size _ := 4
  text _ := ""
  hintText _ := ""
  func := ""

theorem lwAdd_encodes : ∀ mi ∈ lwAdd, Encodes lwAddEncoder regNumber mi := by
  have hlw : Encodes lwAddEncoder regNumber lwAdd[0] := by
    refine ⟨by decide, fun addr text => ?_, fun addr text => ?_, fun h => ?_⟩
    · have h : (decode 0 0x0005A503 "").reads = (lwAdd[0].uses.image regNumber).erase 0 := by
        decide
      exact h
    · have h : (decode 0 0x0005A503 "").writes = (lwAdd[0].defs.image regNumber).erase 0 := by
        decide
      exact h
    · exact absurd h (by decide)
  have hadd : Encodes lwAddEncoder regNumber lwAdd[1] := by
    refine ⟨by decide, fun addr text => ?_, fun addr text => ?_, fun _ addr text => ?_⟩
    · have h : (decode 0 0x00E68633 "").reads = (lwAdd[1].uses.image regNumber).erase 0 := by
        decide
      exact h
    · have h : (decode 0 0x00E68633 "").writes = (lwAdd[1].defs.image regNumber).erase 0 := by
        decide
      exact h
    · have h : (decode 0 0x00E68633 "").cls ∈ workerClasses := by decide
      exact h
  exact List.forall_mem_cons.mpr ⟨hlw, List.forall_mem_cons.mpr ⟨hadd, fun _ h => by cases h⟩⟩

theorem analyse_packetizeBasicBlock_lwAdd : ∃ bs cov,
    analyse (lwAddEncoder.lower 0x80000000 (packetizeBasicBlock (baseConfig {}) lwAdd).1) 64
        = .ok (bs, cov)
      ∧ List.Forall₂ (BundleOf lwAddEncoder) [(0x80000000, 2, lwAdd)] bs := by
  have hr : Returns {} (baseConfig {}) := (returns_iff_of_empty rfl _).mpr rfl
  have hmain := analyse_packetizeBasicBlock rfl (by decide) hr regNumber_injective lwAdd_encodes
    0x80000000 64
  obtain ⟨⟨bs, cov⟩, h⟩ := hmain.1 (by decide)
  have hpackets : hintedPackets lwAddEncoder 0x80000000
      (packetizeBasicBlock (baseConfig {}) lwAdd).1 = [(0x80000000, 2, lwAdd)] := by
    decide
  exact ⟨bs, cov, h, hpackets ▸ hmain.2 bs cov h⟩

end Starbug.Vliw
