import Starbug.Core.Compiled
import Starbug.Core.Cycles
import Starbug.Text.Histogram
import Starbug.Text.Listing

/-!
# The tools on what `objdump` and Spike print

`bundleCheckMain`, `profileMain` and `straddleMain` are the three programs from the texts they read
to what they return.

* `compiled_passes_check`       whatever a function that the pass leaves is printed as, the bundle
                                check ends with status 0 on it;
* `profileMain_counts_issues`   the profile of a program that halts, taken from the print of its
                                listing and the print of its run on a stock core, has the number of
                                issues that the STARBUG core takes;
* `straddleMain_counts_issues`  from the same prints, the straddle tool has what a core loses that
                                declines the bundles that are not in one line.
-/

namespace Starbug

open Regex Bench

/-! ## the source -/

/-- the exit status of `starbug_bundle_check.py` -/
def bundleCheckMain (objdump : Text) (icacheLineBytes : Int) : Except PyError Nat :=
  match analyse (disassemble objdump) icacheLineBytes with
  | .error e => .error e
  | .ok (bundles, _) => .ok (if (bundles.filter fun b => !b.safe) ≠ [] then 1 else 0)

def fallbackIsa : Text := "rv32imafc_zicsr".toList

def badIsa : Text := "bad --isa option".toList

/-- `args.isa or isa_from_elf(args.elf) or FALLBACK_ISA` -/
def usedIsa (isa elfIsa : Option Text) : Text :=
  (orElse (orElse isa elfIsa) (some fallbackIsa)).getD fallbackIsa

/-- the histogram and the text of the last run; `spike` are the two outputs of a run -/
def measured (spike : Text → Text × Text) (isa elfIsa : Option Text) : Counter Nat × Text :=
  let r := spikeHistogram (spike (usedIsa isa elfIsa)).1 (spike (usedIsa isa elfIsa)).2
  -- the ELF names an extension that this Spike does not know
  if r.1.items = [] ∧ badIsa <:+: r.2 ∧ orElse isa none = none then
    spikeHistogram (spike fallbackIsa).1 (spike fallbackIsa).2
  else r

inductive ProfileExit where
  /-- exit status 2 -/
  | noHistogram
  | done (profile : Option Profile)

/-- `main` of `starbug_profile.py` up to the report -/
def profileMain (objdump : Text) (spike : Text → Text × Text) (isa elfIsa : Option Text) :
    Except PyError ProfileExit :=
  let insns := disassemble objdump
  match analyse insns defaultIcacheLineBytes with
  | .error e => .error e
  | .ok (bundles, _) =>
    let hist := (measured spike isa elfIsa).1
    if hist.items = [] then .ok .noHistogram
    else .ok (.done (profile insns bundles (Counter.get hist)))

/-- `main` of `starbug_straddle.py` up to the report -/
def straddleMain (objdump : Text) (spike : Text → Text × Text) (isa elfIsa : Option Text)
    (lineBytes : Int) : Except PyError Straddle :=
  match analyse (disassemble objdump) lineBytes with
  | .error e => .error e
  | .ok (bundles, _) => straddle bundles (Counter.get (measured spike isa elfIsa).1) lineBytes

/-! ## the bundle check -/

theorem bundleCheckMain_eq_zero {out : Text} {insns : List Line} {L : Int} {bs : List Bundle}
    {cov : Finset Nat} (hout : Spells "" (splitLines [] out) insns)
    (h : analyse insns L = .ok (bs, cov)) (hsafe : ∀ b ∈ bs, b.errors = []) :
    bundleCheckMain out L = .ok 0 := by
  have hnone : (bs.filter fun b => !b.safe) = [] := by
    apply List.filter_eq_nil_iff.mpr
    intro b hb
    unfold Bundle.safe
    rw [hsafe b hb]
    decide
  unfold bundleCheckMain
  rw [disassemble_of_spells hout, h]
  show Except.ok (if (bs.filter fun b => !b.safe) ≠ [] then 1 else 0) = _
  rw [hnone, if_neg (fun hne => hne rfl)]

/-! ## the histogram that is profiled -/

/-- `es` are the counts that Spike prints under the ISA that the tool ends up with -/
inductive Measures (spike : Text → Text × Text) (isa elfIsa : Option Text)
    (es : List (Nat × Nat)) : Prop
  | once : Prints (splitLines [] ((spike (usedIsa isa elfIsa)).1
      ++ (spike (usedIsa isa elfIsa)).2)) es → Measures spike isa elfIsa es
  | again : orElse isa none = none →
      badIsa <:+: (spike (usedIsa isa elfIsa)).1 ++ (spike (usedIsa isa elfIsa)).2 →
      Prints (splitLines [] ((spike (usedIsa isa elfIsa)).1
        ++ (spike (usedIsa isa elfIsa)).2)) [] →
      Prints (splitLines [] ((spike fallbackIsa).1 ++ (spike fallbackIsa).2)) es →
      Measures spike isa elfIsa es

theorem items_ne_nil {hist : Counter Nat} {a : Nat} (h : Counter.get hist a ≠ 0) :
    hist.items ≠ [] := by
  intro hnil
  apply h
  unfold Counter.get Dict.get?
  rw [hnil]
  rfl

theorem Measures.get {spike : Text → Text × Text} {isa elfIsa : Option Text}
    {es : List (Nat × Nat)} (hm : Measures spike isa elfIsa es) {a : Nat}
    (ha : countedAt es a ≠ 0) :
    ∀ a, Counter.get (measured spike isa elfIsa).1 a = countedAt es a := by
  unfold measured
  cases hm with
  | once hfirst =>
    have hne : (spikeHistogram (spike (usedIsa isa elfIsa)).1
        (spike (usedIsa isa elfIsa)).2).1.items ≠ [] := by
      apply items_ne_nil (a := a)
      rw [get_spikeHistogram hfirst]
      exact ha
    simp only [hne, false_and, if_false]
    exact get_spikeHistogram hfirst
  | again hisa hbad hfirst hsecond =>
    have hnil : (spikeHistogram (spike (usedIsa isa elfIsa)).1
        (spike (usedIsa isa elfIsa)).2).1.items = [] := by
      rw [spikeHistogram_eq hfirst]
      rfl
    have hretry : (spikeHistogram (spike (usedIsa isa elfIsa)).1
          (spike (usedIsa isa elfIsa)).2).1.items = []
        ∧ badIsa <:+: (spikeHistogram (spike (usedIsa isa elfIsa)).1
          (spike (usedIsa isa elfIsa)).2).2 ∧ orElse isa none = none := ⟨hnil, hbad, hisa⟩
    rw [if_pos hretry]
    exact get_spikeHistogram hsecond

/-- where the counts are those of a run, what is profiled is the histogram of the run -/
theorem Measures.get_histogram {spike : Text → Text × Text} {isa elfIsa : Option Text}
    {es : List (Nat × Nat)} (hm : Measures spike isa elfIsa es) {w : List Line} (hw : w ≠ [])
    (hes : ∀ a, countedAt es a = histogram w a) :
    Counter.get (measured spike isa elfIsa).1 = histogram w
      ∧ (measured spike isa elfIsa).1.items ≠ [] := by
  have hex : ∃ a, countedAt es a ≠ 0 := by
    obtain ⟨l, w', rfl⟩ := List.exists_cons_of_ne_nil hw
    refine ⟨l.addr, ?_⟩
    rw [hes]
    unfold histogram
    rw [List.map_cons, List.count_cons_self]
    exact Nat.succ_ne_zero _
  obtain ⟨a, ha⟩ := hex
  have hget := hm.get ha
  constructor
  · funext b
    rw [hget, hes]
  · apply items_ne_nil (a := a)
    rw [hget]
    exact ha

/-! ## the profile and the straddle tool -/

section
variable {V M : Type*} {insns : List Line} {bs : List Bundle} {cov : Finset Nat}

theorem profileMain_eq {objdump : Text} (hout : Spells "" (splitLines [] objdump) insns)
    (h : analyse insns defaultIcacheLineBytes = .ok (bs, cov)) {spike : Text → Text × Text}
    {isa elfIsa : Option Text} {es : List (Nat × Nat)} (hm : Measures spike isa elfIsa es)
    {w : List Line} (hw : w ≠ []) (hes : ∀ a, countedAt es a = histogram w a) :
    profileMain objdump spike isa elfIsa = .ok (.done (profile insns bs (histogram w))) := by
  obtain ⟨hhist, hne⟩ := hm.get_histogram hw hes
  unfold profileMain
  simp only [disassemble_of_spells hout, h]
  rw [if_neg hne, hhist]

/-- **The profile of a program that halts, over a verified listing: from the print of the listing
and the print of the run on a stock core, whatever ISA this was run under in the end.  Under every
fetch policy the STARBUG core takes the `issue_cycles` of this profile and one issue more for every
member that issues alone.** -/
theorem profileMain_counts_issues {objdump : Text}
    (hout : Spells "" (splitLines [] objdump) insns)
    (h : analyse insns defaultIcacheLineBytes = .ok (bs, cov)) (hv : Verified insns bs)
    (H : Hart V M) {c d : Core V M} {w : List Line}
    (htrace : Simulation.Trace (stock H insns) c w d) (hhalt : fetch insns d.pc = none)
    (hw : w ≠ []) {spike : Text → Text × Text} {isa elfIsa : Option Text}
    {es : List (Nat × Nat)} (hm : Measures spike isa elfIsa es)
    (hes : ∀ a, countedAt es a = histogram w a) :
    ∃ p, profileMain objdump spike isa elfIsa = .ok (.done (some p))
      ∧ ∀ takes : List Slot → Core V M → Bool,
        ∃ xs, Simulation.Run (Steps H insns takes) c xs d
          ∧ xs.length = p.issueCycles + xs.countP (Slot.strays (bundleMap bs)) := by
  have hrun : ∀ takes : List Slot → Core V M → Bool,
      ∃ xs p, Simulation.Run (Steps H insns takes) c xs d
        ∧ profile insns bs (histogram w) = some p
        ∧ xs.length = p.issueCycles + xs.countP (Slot.strays (bundleMap bs)) := by
    intro takes
    obtain ⟨xs, hxs, hlines, -, -⟩ := (hv.runsAsStock h takes c).halts w d htrace hhalt
    obtain ⟨p, hp, hlen⟩ := hv.profile_run h (hxs.forall fun hs => hv.step_of h hs)
    rw [hlines] at hp
    exact ⟨xs, p, hxs, hp, hlen⟩
  obtain ⟨-, p, -, hp, -⟩ := hrun fun _ _ => true
  refine ⟨p, ?_, fun takes => ?_⟩
  · rw [profileMain_eq hout h hm hw hes, hp]
  · obtain ⟨xs, p', hxs, hp', hlen⟩ := hrun takes
    obtain rfl := Option.some.inj (hp.symm.trans hp')
    exact ⟨xs, hxs, hlen⟩

/-- **The straddle tool on the same two prints, for every line size: where every member is reached
through its HINT, the core that declines exactly the bundles that are not in one line fills the
tool's live slots, and takes its "extra issue cycles" beyond the `issue_cycles` of the profile.** -/
theorem straddleMain_counts_issues {objdump : Text}
    (hout : Spells "" (splitLines [] objdump) insns)
    (h : analyse insns defaultIcacheLineBytes = .ok (bs, cov)) (hv : Verified insns bs)
    (H : Hart V M) {c d : Core V M} {w : List Line}
    (htrace : Simulation.Trace (stock H insns) c w d) (hhalt : fetch insns d.pc = none)
    (hw : w ≠ []) (hentry : ∀ b ∈ bs, ∀ i ∈ b.members, histogram w i.addr = histogram w b.hintAddr)
    {spike : Text → Text × Text} {isa elfIsa : Option Text} {es : List (Nat × Nat)}
    (hm : Measures spike isa elfIsa es) (hes : ∀ a, countedAt es a = histogram w a) {L : Int}
    (hL : 0 < L) :
    ∃ p s, profileMain objdump spike isa elfIsa = .ok (.done (some p))
      ∧ straddleMain objdump spike isa elfIsa L = .ok s
      ∧ ∃ xs, Simulation.Run (Steps H insns (lineLimited insns L)) c xs d
        ∧ (xs.map Slot.filled).sum = s.all.liveSlots
        ∧ (xs.length : Int) = p.issueCycles + (s.all.deadSlots - s.all.dead + s.all.dead) := by
  obtain ⟨xs, hxs, rfl, -, -⟩ :=
    (hv.runsAsStock h (lineLimited insns L) c).halts w d htrace hhalt
  obtain ⟨p, bs', cov', s, hp, h', hs, hlive, hlen⟩ := hv.straddle_run h hL
    (hxs.forall fun hs => hv.step_of h hs) (hxs.forall lineLimited_step) hentry
  refine ⟨p, s, ?_, ?_, xs, hxs, hlive, hlen⟩
  · rw [profileMain_eq hout h hm hw hes, hp]
  · unfold straddleMain
    simp only [disassemble_of_spells hout, h']
    rw [(hm.get_histogram hw hes).1, hs]

end

theorem listed_of_plain {ls : List Line} (h : ∀ l ∈ ls,
    (l.size = 2 ∧ l.word < 2 ^ 16 ∨ l.size = 4 ∧ l.word < 2 ^ 32) ∧ l.text = "" ∧ l.func = "") :
    Listed ls := by
  have hnil : OneLine "".toList := fun c hc => absurd hc List.not_mem_nil
  constructor
  case lines =>
    intro l hl
    obtain ⟨hword, htext, hfunc⟩ := h l hl
    refine ⟨hword, ?_, htext ▸ hnil, hfunc ▸ hnil⟩
    rw [htext]
    exact ⟨fun c hc => (by cases hc), fun c hc => (by cases hc)⟩
  case funcs =>
    apply List.pairwise_of_forall_mem_list
    intro l hl l' _ hne
    exact absurd (h l hl).2.2 hne

/-- a print with a line for each execution -/
theorem countedAt_ones {w : List Line} (h : ∀ l ∈ w, l.addr < 2 ^ 32) (a : Nat) :
    countedAt (w.map fun l => (l.addr, 1)) a = histogram w a := by
  induction w with
  | nil => rfl
  | cons l w ih =>
    obtain ⟨hl, hw⟩ := List.forall_mem_cons.mp h
    unfold histogram at ih ⊢
    rw [List.map_cons, countedAt_cons, ih hw, Nat.mod_eq_of_lt hl, List.map_cons, List.count_cons,
      Nat.add_comm]
    by_cases heq : a = l.addr
    · rw [if_pos heq, if_pos (beq_iff_eq.mpr heq.symm)]
    · rw [if_neg heq, if_neg fun hb => heq (beq_iff_eq.mp hb).symm]

/-- what Spike prints for a run of `twoAddi` -/
def addiSpike : Text → Text × Text :=
  fun _ => (unlines (((twoAddi 6).map fun l => (l.addr, 1)).map renderCount), [])

theorem addiSpike_measures :
    Measures addiSpike none none ((twoAddi 6).map fun l => (l.addr, 1)) := by
  apply Measures.once
  show Prints (splitLines [] (unlines _ ++ [])) _
  rw [List.append_nil]
  exact prints_renderCount _

theorem profileMain_counts_issues_addi : ∃ bs p,
    profileMain (render (twoAddi 6)) addiSpike none none = .ok (.done (some p))
      ∧ ∀ takes : List Slot → Core Nat Unit → Bool,
        ∃ xs, Simulation.Run (Steps addiHart (twoAddi 6) takes) addiStart xs addiStop
          ∧ xs.length = p.issueCycles + xs.countP (Slot.strays (bundleMap bs)) := by
  obtain ⟨⟨bs, cov⟩, h⟩ := analyse_returns (twoAddi 6) (L := defaultIcacheLineBytes) (by decide)
  exact ⟨bs, profileMain_counts_issues (spells_render (listed_of_plain (by decide))) h
    (twoAddi_verified h) addiHart (w := twoAddi 6) (c := addiStart) (d := addiStop)
    ⟨_, rfl, _, rfl, _, rfl, rfl⟩ rfl (List.cons_ne_nil _ _) addiSpike_measures
    (countedAt_ones (by decide))⟩

theorem straddleMain_counts_issues_addi : ∃ p s,
    profileMain (render (twoAddi 6)) addiSpike none none = .ok (.done (some p))
      ∧ straddleMain (render (twoAddi 6)) addiSpike none none 8 = .ok s
      ∧ ∃ xs, Simulation.Run (Steps addiHart (twoAddi 6) (lineLimited (twoAddi 6) 8))
          addiStart xs addiStop
        ∧ (xs.map Slot.filled).sum = s.all.liveSlots
        ∧ (xs.length : Int) = p.issueCycles + (s.all.deadSlots - s.all.dead + s.all.dead) := by
  obtain ⟨⟨bs, cov⟩, h⟩ := analyse_returns (twoAddi 6) (L := defaultIcacheLineBytes) (by decide)
  have hints_eq : hints (twoAddi 6)
      = [(⟨0, 0x4009, 2, "", ""⟩, 2, behind (twoAddi 6) 0 2)] := by decide
  have hentry : ∀ b ∈ bs, ∀ i ∈ b.members,
      histogram (twoAddi 6) i.addr = histogram (twoAddi 6) b.hintAddr := by
    rw [analyse_eq h, hints_eq]
    intro b hb
    obtain rfl := List.mem_singleton.mp hb
    rw [checkBundle_members, checkBundle_hintAddr]
    decide
  exact straddleMain_counts_issues (spells_render (listed_of_plain (by decide))) h
    (twoAddi_verified h) addiHart (w := twoAddi 6) (c := addiStart) (d := addiStop)
    ⟨_, rfl, _, rfl, _, rfl, rfl⟩ rfl (List.cons_ne_nil _ _) hentry addiSpike_measures
    (countedAt_ones (by decide)) (by decide)

namespace Vliw
section
variable {enc : Encoder} {num : Nat → Nat}

/-- **Without an override and with at most four lanes, the bundle check passes the function that
the pass leaves, at whatever address it is laid out, however it is printed, for every line size.** -/
theorem compiled_passes_check {opts : CommandLine} (ho : opts.laneOpClasses = [])
    (h4 : opts.lanes ≤ 4) {cfg : StarbugVLIWConfig} (hr : Returns opts cfg)
    (hinj : Function.Injective num) {mf : MachineFunction}
    (hasm : ∀ block ∈ mf.blocks, ∀ m ∈ block, Assembles enc num m) (addr : Nat) {out : Text}
    (hout : Spells "" (splitLines [] out)
      (enc.lower addr (runOnMachineFunction cfg mf).1.flatten)) {L : Int} (hL : L ≠ 0) :
    bundleCheckMain out L = .ok 0 := by
  obtain ⟨⟨bs, cov⟩, hscan⟩ :=
    analyse_returns (enc.lower addr (runOnMachineFunction cfg mf).1.flatten) hL
  have hv := verified_runOnMachineFunction ho h4 hr hinj hasm addr hscan
  exact bundleCheckMain_eq_zero hout hscan hv.safe

end

theorem compiled_passes_check_lwAdd :
    bundleCheckMain (render (lwAddEncoder.lower 0x80000000
      (runOnMachineFunction (baseConfig {}) ⟨true, false, [lwAdd, lwAdd]⟩).1.flatten)) 64
      = .ok 0 :=
  compiled_passes_check rfl (by decide) ((returns_iff_of_empty rfl _).mpr rfl) regNumber_injective
    (fun block hb m hm => by
      have hblock : block = lwAdd := by
        simpa using hb
      exact lwAdd_assembles m (hblock ▸ hm)) 0x80000000
    (spells_render (listed_of_plain (by decide))) (by decide)
end Vliw

end Starbug
