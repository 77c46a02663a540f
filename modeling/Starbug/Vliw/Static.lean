import Starbug.Check.Summary
import Starbug.Vliw.Fewest
import Starbug.Vliw.Function
import Mathlib.Algebra.Order.Field.Rat
import Mathlib.Algebra.Order.Field.Basic

/-!
# The static account of a compiled function

`summarise` of the function that the pass leaves, laid out between code that no pass touches.  The
issues that it counts are the parts of a division of the blocks: a packet that is hinted and that
the fetch unit can take is one part, and every other instruction is a part of its own.

`staticIlp_le_of_lanes`: a pass for fewer lanes never gets a higher static ILP, and one for more
than four lanes never gets a higher one than a pass for four.
-/

namespace Starbug

/-! ## the account of a listing, cut by cut -/

/-- the bundles of a scan -/
def bundlesOf (insns : List Line) (L : Int) : List Bundle :=
  (hints insns).map fun x => (checkBundle (cut x) L).1

/-- the lines that are no HINT, the issues, and the bundles that are not safe -/
structure Costs (insns : List Line) (L : Int) (payload slots bad : Nat) : Prop where
  payload : insns.length = (bundlesOf insns L).length + payload
  slots : insns.length + ((bundlesOf insns L).filter Bundle.safe).length
    = (bundlesOf insns L).length + bundledInsns (bundlesOf insns L) + slots
  bad : ((bundlesOf insns L).filter fun b => !b.safe).length = bad

section
variable {L : Int} {payload slots bad : Nat} {rest : List Line}

theorem costs_nil (L : Int) : Costs [] L 0 0 0 := ⟨rfl, rfl, rfl⟩

theorem Costs.lone (h : Costs rest L payload slots bad) {l : Line} (hl : l.hint = none) :
    Costs (l :: rest) L (payload + 1) (slots + 1) bad := by
  have hscan : bundlesOf (l :: rest) L = bundlesOf rest L := by
    unfold bundlesOf hints
    rw [Sweep.headers_cons_none _ hl]
  obtain ⟨hpayload, hslots, hbad⟩ := h
  constructor
  · rw [hscan, List.length_cons]
    omega
  · rw [hscan, List.length_cons]
    omega
  · rw [hscan, hbad]

theorem Costs.lones (h : Costs rest L payload slots bad) {ls : List Line}
    (hls : ∀ l ∈ ls, l.hint = none) :
    Costs (ls ++ rest) L (ls.length + payload) (ls.length + slots) bad := by
  induction ls with
  | nil =>
    rw [List.nil_append, List.length_nil, Nat.zero_add, Nat.zero_add]
    exact h
  | cons l ls ih =>
    obtain ⟨hl, hls⟩ := List.forall_mem_cons.mp hls
    have hcons := (ih hls).lone hl
    rw [List.length_cons, Nat.add_right_comm _ 1, Nat.add_right_comm _ 1]
    exact hcons

theorem bundlesOf_packet {l : Line} {ms : List Line} (hl : l.hint = some ms.length) :
    bundlesOf (l :: (ms ++ rest)) L
      = (checkBundle (cut (l, ms.length, ms)) L).1 :: bundlesOf rest L := by
  unfold bundlesOf hints
  rw [Sweep.headers_block _ hl, List.map_cons]

theorem Costs.bundle (h : Costs rest L payload slots bad) {l : Line} {ms : List Line}
    (hl : l.hint = some ms.length)
    (hsafe : (checkBundle (cut (l, ms.length, ms)) L).1.safe = true) :
    Costs (l :: (ms ++ rest)) L (ms.length + payload) (slots + 1) bad := by
  have hlen : (checkBundle (cut (l, ms.length, ms)) L).1.members.length = ms.length := by
    rw [checkBundle_members]
    exact List.length_map _
  obtain ⟨hpayload, hslots, hbad⟩ := h
  unfold bundledInsns at hslots
  constructor
  · rw [bundlesOf_packet hl, List.length_cons, List.length_append, List.length_cons]
    omega
  · unfold bundledInsns
    rw [bundlesOf_packet hl, List.filter_cons_of_pos hsafe, List.map_cons, List.sum_cons, hlen,
      List.length_cons, List.length_append, List.length_cons, List.length_cons]
    omega
  · rw [bundlesOf_packet hl, List.filter_cons_of_neg (by rw [hsafe]; decide), hbad]

theorem Costs.declined (h : Costs rest L payload slots bad) {l : Line} {ms : List Line}
    (hl : l.hint = some ms.length)
    (hfail : ¬ (checkBundle (cut (l, ms.length, ms)) L).1.safe = true) :
    Costs (l :: (ms ++ rest)) L (ms.length + payload) (ms.length + slots) (bad + 1) := by
  obtain ⟨hpayload, hslots, hbad⟩ := h
  unfold bundledInsns at hslots
  constructor
  · rw [bundlesOf_packet hl, List.length_cons, List.length_append, List.length_cons]
    omega
  · unfold bundledInsns
    rw [bundlesOf_packet hl, List.filter_cons_of_neg hfail, List.length_cons, List.length_append,
      List.length_cons]
    omega
  · have hnot : (!(checkBundle (cut (l, ms.length, ms)) L).1.safe) = true := by
      rw [Bool.not_eq_true] at hfail
      rw [hfail]
      rfl
    rw [bundlesOf_packet hl, List.filter_cons_of_pos (p := fun b : Bundle => !b.safe) hnot,
      List.length_cons, hbad]

theorem Costs.summary {insns : List Line} {bs : List Bundle} {cov : Finset Nat}
    (h : Costs insns L payload slots bad) (hscan : analyse insns L = .ok (bs, cov)) :
    (summarise insns bs cov).staticIlp = (if slots = 0 then 0 else (payload : Rat) / slots)
      ∧ (summarise insns bs cov).unsafeBundles = bad := by
  obtain ⟨hpayload, hslots, hbad⟩ := h
  have hbs : bs = bundlesOf insns L := analyse_eq hscan
  rw [← hbs] at hpayload hslots hbad
  have hp : (insns.length : Int) - bs.length = payload := by
    omega
  have hs : (insns.length : Int) - bs.length - bundledInsns bs + (bs.filter Bundle.safe).length
      = slots := by
    omega
  refine ⟨?_, hbad⟩
  show (if (insns.length : Int) - bs.length - bundledInsns bs + (bs.filter Bundle.safe).length = 0
    then (0 : Rat) else _ / _) = _
  rw [hs, hp]
  exact if_congr Int.natCast_eq_zero rfl rfl

end

namespace Vliw

/-! ## the parts that the account counts -/

/-- a packet that is bundled, or instructions that issue alone -/
def Group.parts (cfg : StarbugVLIWConfig) : Group → List (List MachineInstr)
  | .bare m => [[m]]
  | .packet p =>
    if shouldEmitHint cfg p.members.length = true ∧ p.members.length ≤ maxBundle then [p.members]
    else p.members.map fun m => [m]

/-- the groups of a function; one that the pass leaves alone has no packets -/
def functionGroups (cfg : StarbugVLIWConfig) (mf : MachineFunction) : List Group :=
  if !mf.hasStarbugVLIW || mf.skipFunction then mf.blocks.flatten.map .bare
  else mf.blocks.flatMap (groups cfg)

section
variable {cfg : StarbugVLIWConfig}

theorem Group.parts_packet (p : Packet) : (Group.packet p).parts cfg
    = if shouldEmitHint cfg p.members.length = true ∧ p.members.length ≤ maxBundle
      then [p.members] else p.members.map fun m => [m] := rfl

theorem Group.flatten_parts (g : Group) : (g.parts cfg).flatten = g.block := by
  cases g with
  | bare m => rfl
  | packet p =>
    rw [Group.parts_packet]
    split_ifs
    · exact List.flatten_singleton
    · rw [← List.flatMap_def, List.flatMap_singleton']
      rfl

theorem flatten_flatMap_parts (gs : List Group) :
    (gs.flatMap (Group.parts cfg)).flatten = gs.flatMap Group.block := by
  rw [List.flatMap_def, List.flatten_flatten, List.map_map]
  have hparts : List.flatten ∘ Group.parts cfg = Group.block := funext Group.flatten_parts
  rw [hparts, ← List.flatMap_def]

theorem flatten_runOnMachineFunction (cfg : StarbugVLIWConfig) (mf : MachineFunction) :
    (runOnMachineFunction cfg mf).1.flatten
      = (functionGroups cfg mf).flatMap (Group.emit cfg) := by
  unfold runOnMachineFunction functionGroups
  split_ifs with hoff
  · show (mf.blocks.map (List.map Emitted.inst)).flatten = _
    rw [← List.map_flatten, List.flatMap_map]
    exact List.map_eq_flatMap
  · rw [foldl_packetizeNext, List.nil_append]
    induction mf.blocks with
    | nil => rfl
    | cons block blocks ih =>
      rw [List.map_cons, List.flatten_cons, ih, List.flatMap_cons, List.flatMap_append,
        (packetizeBasicBlock_eq cfg block).1]

theorem functionGroups_packet (mf : MachineFunction) {p : Packet}
    (hp : .packet p ∈ functionGroups cfg mf) : (Group.packet p).WellFormed cfg := by
  unfold functionGroups at hp
  split_ifs at hp
  · obtain ⟨m, -, h⟩ := List.mem_map.mp hp
    cases h
  · obtain ⟨block, -, hg⟩ := List.mem_flatMap.mp hp
    exact groups_wellFormed cfg block _ hg

theorem block_functionGroups (cfg : StarbugVLIWConfig) (mf : MachineFunction) :
    (functionGroups cfg mf).flatMap Group.block = mf.blocks.flatten := by
  unfold functionGroups
  split_ifs with hoff
  · rw [List.flatMap_map]
    exact List.flatMap_singleton' _
  · induction mf.blocks with
    | nil => rfl
    | cons block blocks ih =>
      rw [List.flatMap_cons, List.flatMap_append, ih, groups_block, List.flatten_cons]

end

/-! ## the listing of a function -/

/-- a hinted packet that the fetch unit does not take -/
def Group.tooLong (cfg : StarbugVLIWConfig) : Group → Bool
  | .bare _ => false
  | .packet p => shouldEmitHint cfg p.members.length && decide (maxBundle < p.members.length)

section
variable {cfg : StarbugVLIWConfig} {p : Packet}

theorem Group.length_parts_hinted (hs : shouldEmitHint cfg p.members.length = true) :
    ((Group.packet p).parts cfg).length
      = if p.members.length ≤ maxBundle then 1 else p.members.length := by
  rw [Group.parts_packet]
  by_cases hmax : p.members.length ≤ maxBundle
  · rw [if_pos ⟨hs, hmax⟩, if_pos hmax]
    rfl
  · rw [if_neg fun h => hmax h.2, if_neg hmax, List.length_map]

theorem Group.tooLong_hinted (hs : shouldEmitHint cfg p.members.length = true) :
    (Group.packet p).tooLong cfg = decide (maxBundle < p.members.length) := by
  show (shouldEmitHint cfg p.members.length && decide _) = _
  rw [hs, Bool.true_and]

theorem Group.length_parts_bare (hs : ¬ shouldEmitHint cfg p.members.length = true) :
    ((Group.packet p).parts cfg).length = p.members.length := by
  rw [Group.parts_packet, if_neg fun h => hs h.1, List.length_map]

theorem Group.not_tooLong (hs : ¬ shouldEmitHint cfg p.members.length = true) :
    ¬ (Group.packet p).tooLong cfg = true := by
  intro h
  exact hs (Bool.and_eq_true_iff.mp h).1

end

section
variable {enc : Encoder} {num : Nat → Nat} {opts : CommandLine} {L : Int}

theorem length_lower_insts (addr : Nat) (ms : List MachineInstr) :
    (enc.lower addr (ms.map .inst)).length = ms.length := by
  rw [Encoder.length_lower, List.length_map]

theorem hint_lower_insts {ms : List MachineInstr} (henc : ∀ m ∈ ms, Encodes enc num m)
    (addr : Nat) : ∀ l ∈ enc.lower addr (ms.map .inst), l.hint = none := by
  induction ms generalizing addr with
  | nil => exact fun l hl => absurd hl List.not_mem_nil
  | cons m ms ih =>
    obtain ⟨hm, hms⟩ := List.forall_mem_cons.mp henc
    exact List.forall_mem_cons.mpr ⟨hm.hint_line addr, ih hms _⟩

/-- instructions that issue alone -/
theorem costs_insts {ms : List MachineInstr} (henc : ∀ m ∈ ms, Encodes enc num m) (addr : Nat)
    {rest : List Line} {payload slots bad : Nat} (h : Costs rest L payload slots bad) :
    Costs (enc.lower addr (ms.map .inst) ++ rest) L (ms.length + payload) (ms.length + slots)
      bad := by
  have hlones := h.lones (hint_lower_insts henc addr)
  rw [length_lower_insts] at hlones
  exact hlones

/-- a packet behind its hint -/
theorem costs_hint {p : Packet} (hp : (Group.packet p).WellFormed (baseConfig opts))
    (h64 : opts.lanes < 64) (hinj : Function.Injective num)
    (henc : ∀ m ∈ p.members, Encodes enc num m) (addr : Nat) {rest : List Line}
    {payload slots bad : Nat} (h : Costs rest L payload slots bad) :
    Costs (enc.line addr (.hint p.members.length)
        :: (enc.lower (addr + 2) (p.members.map .inst) ++ rest)) L
      (p.members.length + payload)
      ((if p.members.length ≤ maxBundle then 1 else p.members.length) + slots)
      (bad + if maxBundle < p.members.length then 1 else 0) := by
  have hpos : 1 ≤ p.members.length := List.length_pos_iff.mpr hp.block_ne_nil
  have hle : p.members.length ≤ max 1 opts.lanes :=
    hp.2.length_le_numLanes (baseConfig_numLanes_lt opts)
  have hhint : (enc.line addr (.hint p.members.length)).hint
      = some (enc.lower (addr + 2) (p.members.map .inst)).length := by
    rw [length_lower_insts]
    exact hintLength_hintWord hpos (by omega)
  by_cases hmax : p.members.length ≤ maxBundle
  · have hbundle := bundleOf_cut hinj henc hp.2.independent hp.2.workersALU hmax addr L
    have hsafe : (checkBundle (cut (enc.line addr (.hint p.members.length), p.members.length,
        enc.lower (addr + 2) (p.members.map .inst))) L).1.safe = true :=
      List.isEmpty_iff.mpr hbundle.errors
    rw [if_pos hmax, if_neg (Nat.not_lt.mpr hmax), Nat.add_comm 1 slots]
    have hcons := h.bundle hhint (by rw [length_lower_insts]; exact hsafe)
    rw [length_lower_insts] at hcons
    exact hcons
  · have hfail : ¬ (checkBundle (cut (enc.line addr (.hint p.members.length), p.members.length,
        enc.lower (addr + 2) (p.members.map .inst))) L).1.safe = true := by
      intro hsafe
      have hacc := ((checkBundle_errors_iff _ L).mp (List.isEmpty_iff.mp hsafe)).2
      exact hmax hacc.declared
    rw [if_neg hmax, if_pos (Nat.not_le.mp hmax)]
    have hcons := h.declined hhint (by rw [length_lower_insts]; exact hfail)
    rw [length_lower_insts] at hcons
    exact hcons

theorem costs_group {g : Group}
    (hg : ∀ p, g = .packet p → (Group.packet p).WellFormed (baseConfig opts))
    (h64 : opts.lanes < 64) (hinj : Function.Injective num)
    (henc : ∀ m ∈ g.block, Encodes enc num m) (addr : Nat) {rest : List Line}
    {payload slots bad : Nat} (h : Costs rest L payload slots bad) :
    Costs (enc.lower addr (g.emit (baseConfig opts)) ++ rest) L (g.block.length + payload)
      ((g.parts (baseConfig opts)).length + slots)
      (bad + if g.tooLong (baseConfig opts) = true then 1 else 0) := by
  cases g with
  | bare m => exact costs_insts (show ∀ x ∈ [m], Encodes enc num x from henc) addr h
  | packet p =>
    by_cases hs : shouldEmitHint (baseConfig opts) p.members.length = true
    · have hcosts := costs_hint (hg p rfl) h64 hinj henc addr h
      rw [Group.emit_packet hs, Group.length_parts_hinted hs, Group.tooLong_hinted hs]
      simp only [decide_eq_true_eq]
      exact hcosts
    · have hcosts := costs_insts henc addr h
      rw [Group.emit_packet_bare hs, Group.length_parts_bare hs, if_neg (Group.not_tooLong hs),
        Nat.add_zero]
      exact hcosts

/-- **The account of the groups of a function: its instructions, and one issue for each part.** -/
theorem costs_groups {gs : List Group}
    (hgs : ∀ p, .packet p ∈ gs → (Group.packet p).WellFormed (baseConfig opts))
    (h64 : opts.lanes < 64) (hinj : Function.Injective num)
    (henc : ∀ g ∈ gs, ∀ m ∈ g.block, Encodes enc num m) (addr : Nat) {post : List Line}
    (hpost : ∀ l ∈ post, l.hint = none) :
    Costs (enc.lower addr (gs.flatMap (Group.emit (baseConfig opts))) ++ post) L
      ((gs.flatMap Group.block).length + post.length)
      ((gs.flatMap (Group.parts (baseConfig opts))).length + post.length)
      (gs.countP (Group.tooLong (baseConfig opts))) := by
  induction gs generalizing addr with
  | nil =>
    have hlones := (costs_nil L).lones hpost
    rw [List.append_nil] at hlones
    show Costs post L (0 + post.length) (0 + post.length) 0
    rw [Nat.zero_add]
    exact hlones
  | cons g gs ih =>
    obtain ⟨hg, hrest⟩ := List.forall_mem_cons.mp henc
    have hcosts := costs_group (fun p hp => hgs p (hp ▸ List.mem_cons_self)) h64 hinj hg addr
      (ih (fun p hp => hgs p (List.mem_cons_of_mem g hp)) hrest
        (enc.stop addr (g.emit (baseConfig opts))))
    rw [List.flatMap_cons, List.flatMap_cons, List.flatMap_cons, List.length_append,
      List.length_append, Nat.add_assoc, Nat.add_assoc, List.countP_cons, Encoder.lower_append,
      List.append_assoc]
    exact hcosts

end

/-! ## the parts are a division for four lanes -/

section
variable {opts opts' : CommandLine}

theorem takes_baseConfig (hle : min opts.lanes 4 ≤ opts'.lanes) {i : Nat} {c : OpClass}
    (hi : i < 4) (h : Takes (baseConfig opts) i c) : Takes (baseConfig opts') i c := by
  have hlt : i < max 1 opts.lanes := h.lt
  have hlt' : i < (baseConfig opts').numLanes := by
    show i < max 1 opts'.lanes
    omega
  refine ⟨hlt', h.int, ?_⟩
  have hlegal := h.legal
  rw [isLaneLegal_baseConfig opts h.lt] at hlegal
  rw [isLaneLegal_baseConfig opts' hlt']
  exact hlegal

theorem Group.parts_issueAtOnce (hle : min opts.lanes 4 ≤ opts'.lanes) {g : Group}
    (hg : ∀ p, g = .packet p → (Group.packet p).WellFormed (baseConfig opts)) :
    ∀ ms ∈ g.parts (baseConfig opts), IssuesAtOnce (baseConfig opts') ms := by
  intro ms hms
  cases g with
  | bare m =>
    obtain rfl := List.mem_singleton.mp hms
    exact Or.inl (Nat.le_refl 1)
  | packet p =>
    have hp := (hg p rfl).2
    rw [Group.parts_packet] at hms
    split_ifs at hms with hb
    · obtain rfl := List.mem_singleton.mp hms
      refine Or.inr ⟨hp.packetizable, hp.independent, fun i m hm => ?_⟩
      have hi : i < p.members.length := (List.getElem?_eq_some_iff.mp hm).1
      exact takes_baseConfig hle (Nat.lt_of_lt_of_le hi hb.2)
        (hp.takes_position (baseConfig_numLanes_lt opts) (descending_baseConfig opts) hm)
    · obtain ⟨m, -, rfl⟩ := List.mem_map.mp hms
      exact Or.inl (Nat.le_refl 1)

/-- no division of a block has fewer parts than it has groups -/
theorem length_groups_le (hle : min opts.lanes 4 ≤ opts'.lanes) (block : List MachineInstr) :
    (groups (baseConfig opts') block).length
      ≤ ((groups (baseConfig opts) block).flatMap (Group.parts (baseConfig opts))).length := by
  have hdivides : Greedy.Divides (IssuesAtOnce (baseConfig opts')) block
      ((groups (baseConfig opts) block).flatMap (Group.parts (baseConfig opts))) := by
    constructor
    · rw [flatten_flatMap_parts]
      exact groups_block (baseConfig opts) block
    · intro ms hms
      obtain ⟨g, hg, hmem⟩ := List.mem_flatMap.mp hms
      refine Group.parts_issueAtOnce hle (fun p hp => ?_) ms hmem
      exact groups_wellFormed _ block _ (hp ▸ hg)
  have hN := baseConfig_numLanes_lt opts'
  have hd := descending_baseConfig opts'
  have hlen := (divides_groups hN hd block).length_le (hereditary_issuesAtOnce hd)
    (maximal_groups hN hd block) hdivides
  rw [List.length_map] at hlen
  exact hlen

/-- where there are at most four lanes a group is one part -/
theorem Group.length_parts_eq_one (h4 : opts'.lanes ≤ 4) {g : Group}
    (hg : g.WellFormed (baseConfig opts')) : (g.parts (baseConfig opts')).length = 1 := by
  cases g with
  | bare m => rfl
  | packet p =>
    have hle : p.members.length ≤ max 1 opts'.lanes :=
      hg.2.length_le_numLanes (baseConfig_numLanes_lt opts')
    have hpos : 1 ≤ p.members.length := List.length_pos_iff.mpr hg.block_ne_nil
    have hmax : p.members.length ≤ maxBundle := by
      show p.members.length ≤ 4
      omega
    by_cases hs : shouldEmitHint (baseConfig opts') p.members.length = true
    · rw [Group.length_parts_hinted hs, if_pos hmax]
    · -- a packet without a hint has one member
      rw [Group.length_parts_bare hs]
      by_contra hne
      exact hs (shouldEmitHint_of_two_le rfl (by omega))

theorem Group.not_tooLong_of_four (h4 : opts'.lanes ≤ 4) {g : Group}
    (hg : ∀ p, g = .packet p → (Group.packet p).WellFormed (baseConfig opts')) :
    ¬ g.tooLong (baseConfig opts') = true := by
  cases g with
  | bare m => exact Bool.false_ne_true
  | packet p =>
    intro h
    have hlong : 4 < p.members.length := of_decide_eq_true (Bool.and_eq_true_iff.mp h).2
    have hle : p.members.length ≤ max 1 opts'.lanes :=
      (hg p rfl).2.length_le_numLanes (baseConfig_numLanes_lt opts')
    omega

/-- the parts of a function under the two configurations -/
theorem length_parts_le (hle : min opts.lanes 4 ≤ opts'.lanes) (h4 : opts'.lanes ≤ 4)
    (mf : MachineFunction) :
    ((functionGroups (baseConfig opts') mf).flatMap (Group.parts (baseConfig opts'))).length
      ≤ ((functionGroups (baseConfig opts) mf).flatMap (Group.parts (baseConfig opts))).length := by
  unfold functionGroups
  split_ifs with hoff
  · rw [List.flatMap_map, List.flatMap_map]
    exact Nat.le_refl _
  · induction mf.blocks with
    | nil => exact Nat.le_refl _
    | cons block blocks ih =>
      have hone : ((groups (baseConfig opts') block).flatMap
          (Group.parts (baseConfig opts'))).length = (groups (baseConfig opts') block).length := by
        rw [List.length_flatMap, List.map_congr_left (g := fun _ => 1) fun g hg =>
          Group.length_parts_eq_one h4 (groups_wellFormed _ block g hg)]
        simp
      have hblock := length_groups_le hle block
      rw [List.flatMap_cons, List.flatMap_cons, List.flatMap_append, List.flatMap_append,
        List.length_append, List.length_append, hone]
      omega

end

/-! ## the numbers of a program -/

/-- the code around a function, that no pass touches -/
structure Around where
  pre : List Line
  addr : Nat
  post : List Line
  plain : ∀ l ∈ pre ++ post, l.hint = none

def Around.size (a : Around) : Nat := a.pre.length + a.post.length

/-- the listing of the program with the function as the pass leaves it -/
def Around.link (a : Around) (enc : Encoder) (cfg : StarbugVLIWConfig) (mf : MachineFunction) :
    List Line :=
  a.pre ++ (enc.lower a.addr (runOnMachineFunction cfg mf).1.flatten ++ a.post)

section
variable {enc : Encoder} {num : Nat → Nat} {opts opts' : CommandLine} {mf : MachineFunction}

/-- the issues of a program: the parts of its function, and what is around it -/
def staticSlots (opts : CommandLine) (mf : MachineFunction) (a : Around) : Nat :=
  ((functionGroups (baseConfig opts) mf).flatMap (Group.parts (baseConfig opts))).length + a.size

theorem costs_link (h64 : opts.lanes < 64) (hinj : Function.Injective num)
    (henc : ∀ block ∈ mf.blocks, ∀ m ∈ block, Encodes enc num m) (a : Around) (L : Int) :
    Costs (a.link enc (baseConfig opts) mf) L (mf.blocks.flatten.length + a.size)
      (staticSlots opts mf a)
      ((functionGroups (baseConfig opts) mf).countP (Group.tooLong (baseConfig opts))) := by
  obtain ⟨hpre, hpost⟩ := List.forall_mem_append.mp a.plain
  have hmem : ∀ g ∈ functionGroups (baseConfig opts) mf, ∀ m ∈ g.block, Encodes enc num m := by
    intro g hg m hm
    have hflat : m ∈ mf.blocks.flatten := by
      rw [← block_functionGroups (baseConfig opts) mf]
      exact List.mem_flatMap.mpr ⟨g, hg, hm⟩
    obtain ⟨block, hb, hmb⟩ := List.mem_flatten.mp hflat
    exact henc block hb m hmb
  have hcosts := (costs_groups (L := L) (fun p hp => functionGroups_packet mf hp) h64 hinj hmem
    a.addr hpost).lones hpre
  rw [block_functionGroups] at hcosts
  unfold Around.link staticSlots Around.size
  rw [flatten_runOnMachineFunction, Nat.add_left_comm, Nat.add_left_comm _ a.pre.length]
  exact hcosts

/-- a program without issues has no instructions -/
theorem payload_of_staticSlots {a : Around} (h : staticSlots opts mf a = 0) :
    mf.blocks.flatten.length + a.size = 0 := by
  obtain ⟨hparts, hsize⟩ := Nat.add_eq_zero_iff.mp h
  rw [← block_functionGroups (baseConfig opts) mf, ← flatten_flatMap_parts,
    List.length_eq_zero_iff.mp hparts, hsize]
  rfl

/-- **Without an override: a pass for at most four lanes gets, for the same function in a program
of the same size, no lower static ILP than a pass for fewer lanes, and one for four lanes no lower
one than a pass for any number of lanes that a hint can say.  None of its bundles is unsafe.** -/
theorem staticIlp_le_of_lanes (ho : opts.laneOpClasses = []) (ho' : opts'.laneOpClasses = [])
    {cfg cfg' : StarbugVLIWConfig} (hr : Returns opts cfg) (hr' : Returns opts' cfg')
    (h64 : opts.lanes < 64) (h4 : opts'.lanes ≤ 4) (hle : min opts.lanes 4 ≤ opts'.lanes)
    (hinj : Function.Injective num)
    (henc : ∀ block ∈ mf.blocks, ∀ m ∈ block, Encodes enc num m) {a a' : Around}
    (hsize : a.size = a'.size) {L L' : Int} {bs bs' : List Bundle} {cov cov' : Finset Nat}
    (h : analyse (a.link enc cfg mf) L = .ok (bs, cov))
    (h' : analyse (a'.link enc cfg' mf) L' = .ok (bs', cov')) :
    (summarise (a.link enc cfg mf) bs cov).staticIlp
        ≤ (summarise (a'.link enc cfg' mf) bs' cov').staticIlp
      ∧ (summarise (a'.link enc cfg' mf) bs' cov').unsafeBundles = 0 := by
  obtain rfl := (returns_iff_of_empty ho cfg).mp hr
  obtain rfl := (returns_iff_of_empty ho' cfg').mp hr'
  obtain ⟨hilp, -⟩ := (costs_link h64 hinj henc a L).summary h
  obtain ⟨hilp', hbad'⟩ := (costs_link (by omega) hinj henc a' L').summary h'
  rw [hilp, hilp', hbad']
  constructor
  · have hslots : staticSlots opts' mf a' ≤ staticSlots opts mf a := by
      unfold staticSlots
      rw [hsize]
      exact Nat.add_le_add_right (length_parts_le hle h4 mf) a'.size
    rw [hsize]
    by_cases hzero : staticSlots opts' mf a' = 0
    · have hnone := payload_of_staticSlots hzero
      rw [hnone, if_pos hzero, Nat.cast_zero, zero_div, ite_self]
    · have hpos : 0 < staticSlots opts' mf a' := Nat.pos_of_ne_zero hzero
      rw [if_neg hzero, if_neg (by omega)]
      exact div_le_div_of_nonneg_left (Nat.cast_nonneg _) (Nat.cast_pos.mpr hpos)
        (Nat.cast_le.mpr hslots)
  · apply List.countP_eq_zero.mpr
    intro g hg
    exact Group.not_tooLong_of_four h4 fun p hp => functionGroups_packet mf (hp ▸ hg)

end

end Vliw

end Starbug
