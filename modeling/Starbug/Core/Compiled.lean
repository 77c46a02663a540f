import Starbug.Core.Machine
import Starbug.Check.Profile
import Starbug.Vliw.Agree
import Starbug.Vliw.Function

/-!
# From the pass to the core

A function that the pass leaves is assembled, laid out block behind block, and run.  `Hinted` is
what the pass guarantees of the emitted list and `Assembles` what is assumed of the assembler, under
a numbering of the `Register` values without aliases; then the listing is `Verified` without the
checker having been asked.

`compiled_runs_as_stock`: on the STARBUG core the emitted function runs as it runs on a stock
core, whatever the fetch unit decides, and wherever control enters it.
-/

namespace Starbug.Vliw

/-! ## what is assumed of the assembler -/

/-- besides `Encodes`: the word says its own length, and what the pass packs does not decode to a
branch, a jump or a system instruction -/
structure Assembles (enc : Encoder) (num : Nat → Nat) (mi : MachineInstr) : Prop where
  encodes : Encodes enc num mi
  sized : enc.size mi = wordLength (enc.word mi)
  straight : isPacketizableMI mi = true →
    ∀ addr text, (decode addr (enc.word mi) text).cls ∉ steering

/-! ## what the pass emits -/

/-- instructions, and hints of at most four in front of packets of their length -/
inductive Hinted : List Emitted → Prop
  | nil : Hinted []
  | inst {m : MachineInstr} {rest : List Emitted} : Hinted rest → Hinted (.inst m :: rest)
  | packet {ms : List MachineInstr} {rest : List Emitted} : ms ≠ [] → ms.length ≤ 4 →
      (∀ m ∈ ms, isPacketizableMI m = true) → ms.Pairwise FullyIndependent → WorkersALU ms →
      Hinted rest → Hinted (.hint ms.length :: (ms.map .inst ++ rest))

theorem Hinted.insts {rest : List Emitted} (h : Hinted rest) (ms : List MachineInstr) :
    Hinted (ms.map .inst ++ rest) := by
  induction ms with
  | nil => exact h
  | cons m ms ih => exact ih.inst

theorem Hinted.append {a b : List Emitted} (ha : Hinted a) (hb : Hinted b) : Hinted (a ++ b) := by
  induction ha with
  | nil => exact hb
  | inst _ ih => exact ih.inst
  | packet hne h4 hp hi hw _ ih =>
    rw [List.cons_append, List.append_assoc]
    exact .packet hne h4 hp hi hw ih

theorem Hinted.flatten {es : List (List Emitted)} (h : ∀ e ∈ es, Hinted e) :
    Hinted es.flatten := by
  induction es with
  | nil => exact .nil
  | cons e es ih =>
    rw [List.flatten_cons]
    exact (h e List.mem_cons_self).append (ih fun e' h' => h e' (List.mem_cons_of_mem e h'))

theorem hinted_groups {opts : CommandLine} (h4 : opts.lanes ≤ 4) {gs : List Group}
    (hgs : ∀ g ∈ gs, g.WellFormed (baseConfig opts)) :
    Hinted (gs.flatMap (Group.emit (baseConfig opts))) := by
  induction gs with
  | nil => exact .nil
  | cons g gs ih =>
    have hrest := ih fun g' h' => hgs g' (List.mem_cons_of_mem g h')
    have hg := hgs g List.mem_cons_self
    rw [List.flatMap_cons]
    cases g with
    | bare m => exact hrest.inst
    | packet p =>
      have hp := hg.2
      have hne : p.members ≠ [] := hg.block_ne_nil
      have hlen : p.members.length ≤ 4 := by
        have hN : (baseConfig opts).numLanes ≤ 4 := Nat.max_le.mpr ⟨by decide, h4⟩
        exact Nat.le_trans (hp.length_le_numLanes (baseConfig_numLanes_lt opts)) hN
      by_cases hs : shouldEmitHint (baseConfig opts) p.members.length = true
      · rw [Group.emit_packet hs, List.cons_append]
        exact .packet hne hlen hp.packetizable hp.independent hp.workersALU hrest
      · rw [Group.emit_packet_bare hs]
        exact hrest.insts p.members

theorem hinted_runOnMachineFunction {opts : CommandLine} (h4 : opts.lanes ≤ 4)
    (mf : MachineFunction) : Hinted (runOnMachineFunction (baseConfig opts) mf).1.flatten := by
  apply Hinted.flatten
  unfold runOnMachineFunction
  split_ifs with hoff
  · intro e he
    obtain ⟨block, -, rfl⟩ := List.mem_map.mp he
    rw [← List.append_nil (block.map Emitted.inst)]
    exact Hinted.nil.insts block
  · rw [foldl_packetizeNext, List.nil_append]
    intro e he
    obtain ⟨block, -, rfl⟩ := List.mem_map.mp he
    rw [(packetizeBasicBlock_eq (baseConfig opts) block).1]
    exact hinted_groups h4 (groups_wellFormed _ block)

/-- the instructions of the result are those of the function -/
theorem inst_mem_runOnMachineFunction {cfg : StarbugVLIWConfig} {mf : MachineFunction}
    {m : MachineInstr} (h : .inst m ∈ (runOnMachineFunction cfg mf).1.flatten) :
    ∃ block ∈ mf.blocks, m ∈ block := by
  obtain ⟨es, hes, hm⟩ := List.mem_flatten.mp h
  unfold runOnMachineFunction at hes
  split_ifs at hes with hoff
  · obtain ⟨block, hb, rfl⟩ := List.mem_map.mp hes
    obtain ⟨m', hm', heq⟩ := List.mem_map.mp hm
    obtain rfl := Emitted.inst.inj heq
    exact ⟨block, hb, hm'⟩
  · rw [foldl_packetizeNext, List.nil_append] at hes
    obtain ⟨block, hb, rfl⟩ := List.mem_map.mp hes
    refine ⟨block, hb, ?_⟩
    have hfilter : (packetizeBasicBlock cfg block).1.filterMap Emitted.inst? = block := by
      rw [(packetizeBasicBlock_eq cfg block).1, filterMap_emit, groups_block]
    rw [← hfilter]
    exact List.mem_filterMap.mpr ⟨_, hm, rfl⟩

/-! ## the listing -/

section
variable {enc : Encoder} {num : Nat → Nat}

theorem le_addr_lower {es : List Emitted} {a : Nat} {l : Line} (hl : l ∈ enc.lower a es) :
    a ≤ l.addr := by
  induction es generalizing a with
  | nil => exact absurd hl List.not_mem_nil
  | cons e es ih =>
    rcases List.mem_cons.mp hl with rfl | hl
    · cases e with
      | hint n => exact Nat.le_refl a
      | inst m => exact Nat.le_refl a
    · exact Nat.le_trans (Nat.le_add_right _ _) (ih hl)

theorem exists_of_mem_lower {es : List Emitted} {a : Nat} {l : Line} (hl : l ∈ enc.lower a es) :
    ∃ e ∈ es, ∃ a', l = enc.line a' e := by
  induction es generalizing a with
  | nil => exact absurd hl List.not_mem_nil
  | cons e es ih =>
    rcases List.mem_cons.mp hl with rfl | hl
    · exact ⟨e, List.mem_cons_self, a, rfl⟩
    · obtain ⟨e', he', h⟩ := ih hl
      exact ⟨e', List.mem_cons_of_mem e he', h⟩

theorem wordLength_pos (w : Nat) : 0 < wordLength w := by
  unfold wordLength
  split_ifs
  · exact Nat.two_pos
  · exact Nat.succ_pos 3

/-- elements that have a size are laid out at distinct addresses -/
theorem nodup_addr_lower {es : List Emitted} (a : Nat)
    (hpos : ∀ e ∈ es, ∀ a, 0 < (enc.line a e).size) :
    ((enc.lower a es).map Line.addr).Nodup := by
  induction es generalizing a with
  | nil => exact List.nodup_nil
  | cons e es ih =>
    have haddr : (enc.line a e).addr = a := by
      cases e with
      | hint n => rfl
      | inst m => rfl
    refine List.nodup_cons.mpr ⟨fun hmem => ?_, ih _ fun e' h' => hpos e' (List.mem_cons_of_mem e h')⟩
    obtain ⟨l, hl, heq⟩ := List.mem_map.mp hmem
    have hle := le_addr_lower hl
    have hsize := hpos e List.mem_cons_self a
    rw [heq, haddr] at hle
    omega

/-- sized instructions are laid out one where the other ends -/
theorem contiguous_lower {ms : List MachineInstr} (a : Nat)
    (hs : ∀ m ∈ ms, enc.size m = wordLength (enc.word m)) :
    ContiguousFrom a ((enc.lower a (ms.map .inst)).map Line.decode) := by
  induction ms generalizing a with
  | nil => exact trivial
  | cons m ms ih =>
    have hnext : (decode a (enc.word m) (enc.text m)).addr
        + (decode a (enc.word m) (enc.text m)).size = a + enc.size m := by
      rw [decode_addr, decode_size, hs m List.mem_cons_self]
    refine ⟨decode_addr _ _ _, ?_⟩
    show ContiguousFrom ((decode a (enc.word m) (enc.text m)).addr
      + (decode a (enc.word m) (enc.text m)).size) _
    rw [hnext]
    exact ih _ fun m' h' => hs m' (List.mem_cons_of_mem m h')

/-- the sweep over the listing cuts the packets -/
theorem hints_lower {es : List Emitted} (h : Hinted es)
    (henc : ∀ m, .inst m ∈ es → Encodes enc num m) (a : Nat) {x : Line × Nat × List Line}
    (hx : x ∈ hints (enc.lower a es)) :
    ∃ ms a', ms ≠ [] ∧ ms.length ≤ 4 ∧ (∀ m ∈ ms, .inst m ∈ es)
      ∧ (∀ m ∈ ms, isPacketizableMI m = true) ∧ ms.Pairwise FullyIndependent ∧ WorkersALU ms
      ∧ x = (enc.line a' (.hint ms.length), ms.length, enc.lower (a' + 2) (ms.map .inst)) := by
  induction h generalizing a with
  | nil => exact absurd hx List.not_mem_nil
  | @inst m rest _ ih =>
    have hm := (henc m List.mem_cons_self).hint_line a
    have hx' : x ∈ hints (enc.line a (.inst m) :: enc.lower (a + enc.size m) rest) := hx
    rw [hints, Sweep.headers_cons_none _ hm] at hx'
    obtain ⟨ms, a', hne, h4, hin, hrest⟩ :=
      ih (fun m' h' => henc m' (List.mem_cons_of_mem _ h')) _ hx'
    exact ⟨ms, a', hne, h4, fun m' h' => List.mem_cons_of_mem _ (hin m' h'), hrest⟩
  | @packet ms rest hne h4 hp hi hw _ ih =>
    have hms : ∀ m ∈ ms, Emitted.inst m ∈ Emitted.hint ms.length :: (ms.map .inst ++ rest) :=
      fun m hm => List.mem_cons_of_mem _ (List.mem_append_left _ (List.mem_map_of_mem hm))
    have hpos : 1 ≤ ms.length := List.length_pos_iff.mpr hne
    rw [Encoder.lower, Encoder.lower_append, hints_hint hpos h4] at hx
    rcases List.mem_cons.mp hx with rfl | hx
    · exact ⟨ms, a, hne, h4, hms, hp, hi, hw, rfl⟩
    · have hsub : ∀ m, Emitted.inst m ∈ rest →
          Emitted.inst m ∈ Emitted.hint ms.length :: (ms.map .inst ++ rest) :=
        fun m hm => List.mem_cons_of_mem _ (List.mem_append_right _ hm)
      obtain ⟨ms', a', hne', h4', hin, hrest⟩ := ih (fun m hm => henc m (hsub m hm)) _ hx
      exact ⟨ms', a', hne', h4', fun m hm => hsub m (hin m hm), hrest⟩

/-- no member of a packet is a HINT, so the sweep finds every HINT -/
theorem Hinted.swept {es : List Emitted} (h : Hinted es)
    (henc : ∀ m, .inst m ∈ es → Encodes enc num m) (a : Nat) {l : Line}
    (hl : l ∈ enc.lower a es) {n : Nat} (hn : l.hint = some n) :
    ∃ x ∈ hints (enc.lower a es), x.1 = l := by
  obtain ⟨p, hpieces, hmem⟩ : ∃ p ∈ Sweep.pieces Line.hint (enc.lower a es), l ∈ p.elems := by
    rw [← Sweep.flatMap_elems_pieces Line.hint (enc.lower a es)] at hl
    exact List.mem_flatMap.mp hl
  have hfits := Sweep.fits_of_mem_pieces Line.hint hpieces
  cases p with
  | lone l' =>
    obtain rfl := List.mem_singleton.mp hmem
    rw [show l.hint = none from hfits] at hn
    cases hn
  | group l' n' ms' =>
    have hx : (l', n', ms') ∈ hints (enc.lower a es) := by
      unfold hints
      rw [← Sweep.filterMap_header_pieces]
      exact List.mem_filterMap.mpr ⟨_, hpieces, rfl⟩
    rcases List.mem_cons.mp hmem with rfl | hin'
    · exact ⟨_, hx, rfl⟩
    · obtain ⟨ms, a', -, -, hins, -, -, -, heq⟩ := hints_lower h henc a hx
      obtain ⟨-, rfl⟩ := Prod.mk.inj (Prod.mk.inj heq).2
      obtain ⟨e, he, a'', rfl⟩ := exists_of_mem_lower hin'
      obtain ⟨m, hm, rfl⟩ := List.mem_map.mp he
      rw [(henc m (hins m hm)).hint_line a''] at hn
      cases hn

/-- **What the pass emits is verified.** -/
theorem Hinted.verified (hinj : Function.Injective num) {es : List Emitted} (h : Hinted es)
    (hasm : ∀ m, .inst m ∈ es → Assembles enc num m) (a : Nat) {L : Int} {bs : List Bundle}
    {cov : Finset Nat} (hr : analyse (enc.lower a es) L = .ok (bs, cov)) :
    Verified (enc.lower a es) bs := by
  have henc : ∀ m, .inst m ∈ es → Encodes enc num m := fun m hm => (hasm m hm).encodes
  have hbundle : ∀ b ∈ bs, ∃ ms a', ms ≠ [] ∧ ms.length ≤ 4 ∧ (∀ m ∈ ms, .inst m ∈ es)
      ∧ (∀ m ∈ ms, isPacketizableMI m = true) ∧ ms.Pairwise FullyIndependent ∧ WorkersALU ms
      ∧ b = (checkBundle (cut (enc.line a' (.hint ms.length), ms.length,
        enc.lower (a' + 2) (ms.map .inst))) L).1 := by
    intro b hb
    rw [analyse_eq hr] at hb
    obtain ⟨x, hx, rfl⟩ := List.mem_map.mp hb
    obtain ⟨ms, a', hne, h4, hin, hp, hi, hw, rfl⟩ := hints_lower h henc a hx
    exact ⟨ms, a', hne, h4, hin, hp, hi, hw, rfl⟩
  constructor
  case addrs =>
    apply nodup_addr_lower
    intro e he a'
    cases e with
    | hint n => exact Nat.two_pos
    | inst m =>
      show 0 < enc.size m
      rw [(hasm m he).sized]
      exact wordLength_pos _
  case safe =>
    intro b hb
    obtain ⟨ms, a', -, h4, hin, -, hi, hw, rfl⟩ := hbundle b hb
    exact (bundleOf_cut hinj (fun m hm => henc m (hin m hm)) hi hw h4 a' L).errors
  case contiguous =>
    intro b hb
    obtain ⟨ms, a', -, -, hin, -, -, -, rfl⟩ := hbundle b hb
    unfold Bundle.Contiguous
    rw [checkBundle_hintAddr, checkBundle_members]
    exact contiguous_lower (a' + 2) fun m hm => (hasm m (hin m hm)).sized
  case lane0 =>
    intro b hb i hi
    obtain ⟨ms, a', -, -, hin, hp, -, -, rfl⟩ := hbundle b hb
    rw [checkBundle_members] at hi
    have hget : ((enc.lower (a' + 2) (ms.map .inst)).map Line.decode)[0]? = some i := by
      rw [← List.head?_eq_getElem?]
      exact hi
    obtain ⟨m, hm, a'', text, rfl⟩ := getElem?_decode_lower hget
    have hmem : m ∈ ms := List.mem_of_getElem? hm
    exact (hasm m (hin m hmem)).straight (hp m hmem) a'' text
  case swept =>
    intro l hl n hn _
    obtain ⟨x, hx, rfl⟩ := h.swept henc a hl hn
    refine ⟨(checkBundle (cut x) L).1, ?_, checkBundle_hintAddr _ _⟩
    rw [analyse_eq hr]
    exact List.mem_map_of_mem hx

theorem verified_runOnMachineFunction {opts : CommandLine} (ho : opts.laneOpClasses = [])
    (h4 : opts.lanes ≤ 4) {cfg : StarbugVLIWConfig} (hr : Returns opts cfg)
    (hinj : Function.Injective num) {mf : MachineFunction}
    (hasm : ∀ block ∈ mf.blocks, ∀ m ∈ block, Assembles enc num m) (addr : Nat) {L : Int}
    {bs : List Bundle} {cov : Finset Nat}
    (h : analyse (enc.lower addr (runOnMachineFunction cfg mf).1.flatten) L = .ok (bs, cov)) :
    Verified (enc.lower addr (runOnMachineFunction cfg mf).1.flatten) bs := by
  obtain rfl := (returns_iff_of_empty ho cfg).mp hr
  refine (hinted_runOnMachineFunction h4 mf).verified hinj (fun m hm => ?_) addr h
  obtain ⟨block, hb, hmb⟩ := inst_mem_runOnMachineFunction hm
  exact hasm block hb m hmb

/-- **Without an override and with at most four lanes, the function the pass leaves, laid out block
behind block at any address, runs on the STARBUG core as it runs on a stock core: over the same
lines to the same states, and to the same end, whatever the fetch unit decides and wherever
control enters it.** -/
theorem compiled_runs_as_stock {V M : Type*} {opts : CommandLine} (ho : opts.laneOpClasses = [])
    (h4 : opts.lanes ≤ 4) {cfg : StarbugVLIWConfig} (hr : Returns opts cfg)
    (hinj : Function.Injective num) {mf : MachineFunction}
    (hasm : ∀ block ∈ mf.blocks, ∀ m ∈ block, Assembles enc num m) (addr : Nat) (H : Hart V M)
    (takes : List Slot → Core V M → Bool) (c : Core V M) :
    RunsAsStock H (enc.lower addr (runOnMachineFunction cfg mf).1.flatten) takes c := by
  obtain ⟨⟨bs, cov⟩, hscan⟩ := analyse_returns
    (enc.lower addr (runOnMachineFunction cfg mf).1.flatten)
    (L := defaultIcacheLineBytes) (by decide)
  have hv := verified_runOnMachineFunction ho h4 hr hinj hasm addr hscan
  exact hv.runsAsStock hscan takes c

end

/-! ## a load and an addition -/

theorem lwAdd_assembles : ∀ m ∈ lwAdd, Assembles lwAddEncoder regNumber m := by
  have hlw : Assembles lwAddEncoder regNumber lwAdd[0] := by
    refine ⟨lwAdd_encodes _ (by simp), by decide, fun _ addr text => ?_⟩
    have h : (decode 0 0x0005A503 "").cls ∉ steering := by decide
    exact h
  have hadd : Assembles lwAddEncoder regNumber lwAdd[1] := by
    refine ⟨lwAdd_encodes _ (by simp), by decide, fun _ addr text => ?_⟩
    have h : (decode 0 0x00E68633 "").cls ∉ steering := by decide
    exact h
  exact List.forall_mem_cons.mpr ⟨hlw, List.forall_mem_cons.mpr ⟨hadd, fun _ h => by cases h⟩⟩

theorem compiled_runs_as_stock_lwAdd :
    RunsAsStock addiHart (lwAddEncoder.lower 0x80000000
      (runOnMachineFunction (baseConfig {}) ⟨true, false, [lwAdd, lwAdd]⟩).1.flatten)
      (fun h _ => h.isEmpty) addiStart :=
  compiled_runs_as_stock rfl (by decide) ((returns_iff_of_empty rfl _).mpr rfl) regNumber_injective
    (fun block hb m hm => by
      have hblock : block = lwAdd := by
        simpa using hb
      exact lwAdd_assembles m (hblock ▸ hm)) 0x80000000 addiHart _ addiStart

end Starbug.Vliw
