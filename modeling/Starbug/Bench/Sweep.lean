import Starbug.Bench.Run
import Starbug.Check.Profile
import Starbug.Vliw.Static

/-!
# The sweep (`bench/sweep.py`)

A kernel is built and checked once for every value of an axis: a loop unroll factor, whose binary
is also simulated, or the number of lanes that the compiler targets.  Ratios are exact and numbers
may have any number of digits: the range of `float` and CPython's limit on `int` are left out.

* `sweep_table`        what is recorded and printed of a kernel: every speedup is against the first
                       value that was measured, whatever builds and simulations fail;
* `sweep_lanes_peak`   over the lanes, no record has a higher static ILP than that of four lanes.
-/

namespace Starbug.Bench

open Regex

/-! ## the source -/

/-- `--axis` -/
inductive Axis where
  | unroll | lanes
deriving DecidableEq

/-- `values`, where none are given -/
def Axis.values : Axis → List Int
  | .unroll => [1, 2, 4, 8, 16, 32]
  | .lanes => [2, 3, 4, 6, 8]

def Axis.flags : Axis → Int → List String
  | .unroll, v => ["-mllvm", s!"-starbug-vliw-unroll-factor={v}",
      "-mllvm", "-starbug-vliw-force-unroll=true"]
  | .lanes, v => ["-mllvm", s!"-starbug-vliw-lanes={v}"]

def Axis.tag : Axis → Int → String
  | .unroll, v => s!"unroll{v}"
  | .lanes, v => s!"lanes{v}"

/-- what the tools answer: `World`, where `compile` has the flags and the output directory -/
structure SweepWorld where
  kernelExists : String → Bool
  compile : String → List String → String → Except Text String
  bundleCheck : String → Option Report × Text
  wsim : String → SimOutcome

/-- the fields that are there with `want_cycles` -/
structure Simulated where
  cycles : Option Nat
  instret : Option Nat
  checksum : Option Text
  simError : Option Text

structure SweepRecord where
  coveragePct : Rat
  staticIlp : Rat
  bundleSizes : List (Nat × Nat)
  unsafeCount : Nat
  sim : Option Simulated

def simulated (sim : Record) : Simulated := ⟨sim.cycles, sim.instret, sim.checksum, sim.error⟩

/-- `build_and_measure`; an error is the record of a build that failed -/
def buildAndMeasure (w : SweepWorld) (kernel : String) (flags : List String) (tag : String)
    (wantCycles : Bool) : Except Text SweepRecord :=
  match w.compile kernel flags s!"sweep_{tag}" with
  | .error err => .error (lastN 400 err)
  | .ok elf =>
    let data := validateBundles (w.bundleCheck elf)
    .ok { coveragePct := (data.stats.map Summary.bundleCoveragePct).getD 0
          staticIlp := (data.stats.map Summary.staticIlp).getD 0
          bundleSizes := (data.stats.map Summary.bundleSizeHistogram).getD []
          unsafeCount := (data.unsafeBundles.getD []).length
          sim := if wantCycles then some (simulated (simulate (w.wsim elf))) else none }

/-- `rec.get("cycles")` -/
def SweepRecord.cycles (r : SweepRecord) : Option Nat := r.sim.bind Simulated.cycles

/-- a line of the table; the speedup is exact, `none` is printed as `-` -/
structure SweepRow where
  coveragePct : Rat
  staticIlp : Rat
  unsafeCount : Nat
  cycles : Option Nat
  speedup : Option Rat

def sweepRow (refCycles : Option Nat) (r : SweepRecord) : SweepRow where
  coveragePct := r.coveragePct
  staticIlp := r.staticIlp
  unsafeCount := r.unsafeCount
  cycles := r.cycles
  speedup := ratio refCycles r.cycles

structure SweepResult where
  records : Dict Int (Except Text SweepRecord) := Dict.empty
  refCycles : Option Nat := none
  rows : List (Int × Except Text SweepRow) := []

/-- `if ref_cycles is None and cyc: ref_cycles = cyc` -/
def nextRef (refCycles cycles : Option Nat) : Option Nat :=
  if refCycles = none ∧ cycles.getD 0 ≠ 0 then cycles else refCycles

/-- the body of the loop over the values, on the record of one value -/
def SweepResult.next (s : SweepResult) (v : Int) : Except Text SweepRecord → SweepResult
  | .error err =>
    { s with records := s.records.set v (.error err)
             rows := s.rows ++ [(v, .error (err.take 60))] }
  | .ok r =>
    let refCycles := nextRef s.refCycles r.cycles
    { records := s.records.set v (.ok r)
      refCycles := refCycles
      rows := s.rows ++ [(v, .ok (sweepRow refCycles r))] }

/-- the record of one value -/
def measure (w : SweepWorld) (axis : Axis) (name : String) (v : Int) : Except Text SweepRecord :=
  buildAndMeasure w name (axis.flags v) (axis.tag v) (decide (axis = .unroll))

def sweepKernel (w : SweepWorld) (axis : Axis) (values : List Int) (name : String) : SweepResult :=
  values.foldl (fun s v => s.next v (measure w axis name v)) {}

/-- `args.values`, or those of the axis -/
def Axis.used (axis : Axis) (values : List Int) : List Int :=
  if values ≠ [] then values else axis.values

/-- the kernels that are there, each with its records and its table -/
def sweep (w : SweepWorld) (axis : Axis) (names : List String) (values : List Int) :
    Dict String SweepResult :=
  names.foldl (fun results name =>
    if w.kernelExists name then results.set name (sweepKernel w axis (axis.used values) name)
    else results) Dict.empty

/-! ## the table of a kernel -/

/-- the first number of cycles that is not zero -/
def firstCycles (cs : List (Option Nat)) : Option Nat :=
  (cs.find? fun cyc => decide (cyc.getD 0 ≠ 0)).join

def cyclesOf : Except Text SweepRecord → Option Nat
  | .error _ => none
  | .ok r => r.cycles

def sweepLine (refCycles : Option Nat) : Except Text SweepRecord → Except Text SweepRow
  | .error err => .error (err.take 60)
  | .ok r => .ok (sweepRow refCycles r)

theorem firstCycles_cons_zero {cyc : Option Nat} (h : cyc.getD 0 = 0) (cs : List (Option Nat)) :
    firstCycles (cyc :: cs) = firstCycles cs := by
  unfold firstCycles
  rw [List.find?_cons_of_neg (by simpa using h)]

theorem firstCycles_cons_pos {cyc : Option Nat} (h : cyc.getD 0 ≠ 0) (cs : List (Option Nat)) :
    firstCycles (cyc :: cs) = cyc := by
  unfold firstCycles
  rw [List.find?_cons_of_pos (by simpa using h)]
  rfl

/-- the reference behind a value, and what the values that follow would make of it -/
theorem nextRef_or (ref cyc : Option Nat) (cs : List (Option Nat)) :
    (nextRef ref cyc).or (firstCycles cs) = ref.or (firstCycles (cyc :: cs)) := by
  unfold nextRef
  by_cases hzero : cyc.getD 0 = 0
  · rw [if_neg fun h => h.2 hzero, firstCycles_cons_zero hzero]
  · rw [firstCycles_cons_pos hzero]
    cases ref with
    | some r => rfl
    | none =>
      rw [if_pos ⟨rfl, hzero⟩]
      cases cyc with
      | none => exact absurd rfl hzero
      | some n => rfl

theorem ratio_zero {cyc : Option Nat} (h : cyc.getD 0 = 0) (ref : Option Nat) :
    ratio ref cyc = none := by
  cases cyc with
  | none => cases ref <;> rfl
  | some n =>
    have hn : n = 0 := h
    subst hn
    cases ref with
    | none => rfl
    | some r => exact if_neg fun h => h.2 rfl

/-- a row that has a speedup has it against the reference of the whole table -/
theorem ratio_nextRef (ref cyc : Option Nat) (cs : List (Option Nat)) :
    ratio (nextRef ref cyc) cyc = ratio (ref.or (firstCycles (cyc :: cs))) cyc := by
  by_cases hzero : cyc.getD 0 = 0
  · rw [ratio_zero hzero, ratio_zero hzero]
  · have hset : (nextRef ref cyc).or (firstCycles cs) = nextRef ref cyc := by
      unfold nextRef
      cases ref with
      | some r => rfl
      | none =>
        rw [if_pos ⟨rfl, hzero⟩]
        cases cyc with
        | none => exact absurd rfl hzero
        | some n => rfl
    rw [← nextRef_or, hset]

theorem rows_foldl_next (record : Int → Except Text SweepRecord) (values : List Int)
    (s : SweepResult) : (values.foldl (fun s v => s.next v (record v)) s).rows
      = s.rows ++ values.map fun v =>
        (v, sweepLine (s.refCycles.or (firstCycles (values.map fun v => cyclesOf (record v))))
          (record v)) := by
  induction values generalizing s with
  | nil => exact (List.append_nil s.rows).symm
  | cons v values ih =>
    have href : (s.next v (record v)).refCycles.or
          (firstCycles (values.map fun v => cyclesOf (record v)))
        = s.refCycles.or (firstCycles ((v :: values).map fun v => cyclesOf (record v))) := by
      rw [List.map_cons, ← nextRef_or]
      cases record v with
      | error err =>
        show s.refCycles.or _ = (nextRef s.refCycles none).or _
        unfold nextRef
        rw [if_neg fun h => h.2 rfl]
      | ok r => rfl
    have hrow : (s.next v (record v)).rows = s.rows ++ [(v, sweepLine
        (s.refCycles.or (firstCycles ((v :: values).map fun v => cyclesOf (record v))))
        (record v))] := by
      rw [List.map_cons]
      cases record v with
      | error err => rfl
      | ok r =>
        show s.rows ++ [(v, Except.ok (sweepRow (nextRef s.refCycles r.cycles) r))] = _
        unfold sweepLine sweepRow
        rw [ratio_nextRef]
        rfl
    rw [List.foldl_cons, ih, href, hrow, List.append_assoc, List.map_cons]
    rfl

theorem records_foldl_next (record : Int → Except Text SweepRecord) (values : List Int)
    (s : SweepResult) : (values.foldl (fun s v => s.next v (record v)) s).records
      = values.foldl (fun d v => d.set v (record v)) s.records := by
  induction values generalizing s with
  | nil => rfl
  | cons v values ih =>
    have hnext : (s.next v (record v)).records = s.records.set v (record v) := by
      cases record v with
      | error err => rfl
      | ok r => rfl
    rw [List.foldl_cons, List.foldl_cons, ih, hnext]

section
variable {w : SweepWorld} {axis : Axis} {names : List String} {values : List Int} {name : String}

theorem get?_sweep : (sweep w axis names values).get? name
    = if name ∈ names ∧ w.kernelExists name = true
      then some (sweepKernel w axis (axis.used values) name) else none := by
  unfold sweep
  rw [← List.foldl_filter, Dict.get?_foldl_set, Dict.get?_empty]
  exact if_congr List.mem_filter rfl rfl

theorem get?_records (v : Int) : (sweepKernel w axis values name).records.get? v
    = if v ∈ values then some (measure w axis name v) else none := by
  unfold sweepKernel
  rw [records_foldl_next, Dict.get?_foldl_set]
  rfl

/-- **What a sweep records and prints of a kernel: the record of every value, and the row of every
value in order, where each speedup is against the first cycles that any of the values has.** -/
theorem sweep_table (w : SweepWorld) (axis : Axis) (names : List String) (values : List Int)
    (name : String) : (sweep w axis names values).get? name
      = (if name ∈ names ∧ w.kernelExists name = true
        then some (sweepKernel w axis (axis.used values) name) else none)
    ∧ ∀ values, (∀ v, (sweepKernel w axis values name).records.get? v
        = if v ∈ values then some (measure w axis name v) else none)
      ∧ (sweepKernel w axis values name).rows = values.map fun v => (v, sweepLine
        (firstCycles (values.map fun v => cyclesOf (measure w axis name v)))
        (measure w axis name v)) := by
  refine ⟨get?_sweep, fun values => ⟨get?_records, ?_⟩⟩
  unfold sweepKernel
  rw [rows_foldl_next]
  rfl

/-! ## the lanes -/

/-- for `v` lanes the pass leaves the function `mf`, linked between `size` instructions that no
pass touches, and the bundle check writes its report -/
inductive LaneBuild (w : SweepWorld) (name : String) (enc : Vliw.Encoder)
    (mf : Vliw.MachineFunction) (size : Nat) (v : Int) : Prop
  | intro {elf : String} {opts : Vliw.CommandLine} {cfg : Vliw.StarbugVLIWConfig}
      {a : Vliw.Around} {report : Report} :
      w.compile name (Axis.flags .lanes v) s!"sweep_{Axis.tag .lanes v}" = .ok elf →
      opts.laneOpClasses = [] → (opts.lanes : Int) = v → Vliw.Returns opts cfg → a.size = size →
      bundleReport elf (a.link enc cfg mf) defaultIcacheLineBytes = .ok report →
      (w.bundleCheck elf).1 = some report → LaneBuild w name enc mf size v

theorem bundleReport_ok {elf : String} {insns : List Line} {L : Int} {report : Report}
    (h : bundleReport elf insns L = .ok report) : ∃ bs cov, analyse insns L = .ok (bs, cov)
      ∧ report.stats = summarise insns bs cov
      ∧ report.unsafeBundles.length = (summarise insns bs cov).unsafeBundles := by
  unfold bundleReport at h
  cases hscan : analyse insns L with
  | error e =>
    rw [hscan] at h
    cases h
  | ok r =>
    obtain ⟨bs, cov⟩ := r
    rw [hscan] at h
    obtain rfl := Except.ok.inj h
    exact ⟨bs, cov, rfl, rfl, List.length_map _⟩

/-- the record of a build is what the report says -/
theorem measure_of_report {v : Int} {elf : String} {report : Report}
    (hc : w.compile name (axis.flags v) s!"sweep_{axis.tag v}" = .ok elf)
    (hreport : (w.bundleCheck elf).1 = some report) :
    ∃ r, measure w axis name v = .ok r ∧ r.staticIlp = report.stats.staticIlp
      ∧ r.unsafeCount = report.unsafeBundles.length := by
  have hdata : ∃ stderr, w.bundleCheck elf = (some report, stderr) :=
    ⟨(w.bundleCheck elf).2, Prod.ext hreport rfl⟩
  obtain ⟨stderr, hdata⟩ := hdata
  unfold measure buildAndMeasure
  simp only [hc, hdata]
  exact ⟨_, rfl, rfl, rfl⟩

/-- **Over the lanes: up to four lanes the static ILP that is recorded of a kernel does not fall,
and no value above four, of those that a hint can say, has a higher one than four lanes.** -/
theorem sweep_lanes_peak {enc : Vliw.Encoder} {num : Nat → Nat} {mf : Vliw.MachineFunction}
    {size : Nat} (hinj : Function.Injective num)
    (henc : ∀ block ∈ mf.blocks, ∀ m ∈ block, Vliw.Encodes enc num m) (hname : name ∈ names)
    (hexists : w.kernelExists name = true)
    (hb : ∀ v ∈ Axis.used .lanes values, LaneBuild w name enc mf size v) {v v' : Int}
    (hv : v ∈ Axis.used .lanes values) (hv' : v' ∈ Axis.used .lanes values) (h64 : v < 64)
    (h4 : v' ≤ 4) (hle : min v 4 ≤ v') :
    ∃ s r r', (sweep w .lanes names values).get? name = some s
      ∧ s.records.get? v = some (.ok r) ∧ s.records.get? v' = some (.ok r')
      ∧ r.staticIlp ≤ r'.staticIlp ∧ r'.unsafeCount = 0 := by
  obtain ⟨hc, ho, hlanes, hr, hsize, hcheck, hreport⟩ := hb v hv
  obtain ⟨hc', ho', hlanes', hr', hsize', hcheck', hreport'⟩ := hb v' hv'
  obtain ⟨r, hm, hilp, -⟩ := measure_of_report hc hreport
  obtain ⟨r', hm', hilp', hcount'⟩ := measure_of_report hc' hreport'
  obtain ⟨bs, cov, hscan, hstats, -⟩ := bundleReport_ok hcheck
  obtain ⟨bs', cov', hscan', hstats', hbad'⟩ := bundleReport_ok hcheck'
  obtain ⟨hpeak, hnone⟩ := Vliw.staticIlp_le_of_lanes ho ho' hr hr' (by omega) (by omega)
    (by omega) hinj henc (hsize.trans hsize'.symm) hscan hscan'
  refine ⟨_, r, r', get?_sweep.trans (if_pos ⟨hname, hexists⟩), ?_, ?_, ?_, ?_⟩
  · rw [get?_records, if_pos hv, hm]
  · rw [get?_records, if_pos hv', hm']
  · rw [hilp, hilp', hstats, hstats']
    exact hpeak
  · rw [hcount', hbad', hnone]

end

/-! ## a load and an addition, for four lanes and for six -/

def lwAddAround : Vliw.Around where
  pre := []
  addr := 0x80000000
  post := []
  plain := fun _ hl => absurd hl List.not_mem_nil

section
variable (four six : Vliw.CommandLine)

def lwAddOpts (elf : String) : Vliw.CommandLine := if elf = "sweep_lanes6" then six else four

def lwAddListing (elf : String) : List Line :=
  lwAddAround.link Vliw.lwAddEncoder (Vliw.baseConfig (lwAddOpts four six elf))
    ⟨true, false, [Vliw.lwAdd]⟩

def lwAddSweep : SweepWorld where
  kernelExists _ := true
  compile _ _ outdir := .ok outdir
  bundleCheck elf :=
    ((bundleReport elf (lwAddListing four six elf) defaultIcacheLineBytes).toOption, [])
  wsim _ := .timeout

theorem lwAddSweep_build {v : Int} {opts : Vliw.CommandLine} (hv : (opts.lanes : Int) = v)
    (hopts : lwAddOpts four six s!"sweep_{Axis.tag .lanes v}" = opts)
    (hempty : opts.laneOpClasses = []) :
    LaneBuild (lwAddSweep four six) "lwAdd" Vliw.lwAddEncoder ⟨true, false, [Vliw.lwAdd]⟩ 0 v := by
  subst hopts
  obtain ⟨r, hscan⟩ := analyse_returns (lwAddListing four six s!"sweep_{Axis.tag .lanes v}")
    (L := defaultIcacheLineBytes) (by decide)
  have hreport : ∃ report, bundleReport s!"sweep_{Axis.tag .lanes v}"
      (lwAddListing four six s!"sweep_{Axis.tag .lanes v}") defaultIcacheLineBytes
        = .ok report := by
    unfold bundleReport
    rw [hscan]
    exact ⟨_, rfl⟩
  obtain ⟨report, hreport⟩ := hreport
  refine .intro rfl hempty hv ((Vliw.returns_iff_of_empty hempty _).mpr rfl) rfl hreport ?_
  show (bundleReport _ _ _).toOption = _
  rw [hreport]
  rfl

end

theorem sweep_lanes_peak_lwAdd : ∃ s r r',
    (sweep (lwAddSweep {} { lanes := 6 }) .lanes ["lwAdd"] [4, 6]).get? "lwAdd" = some s
      ∧ s.records.get? 6 = some (.ok r) ∧ s.records.get? 4 = some (.ok r')
      ∧ r.staticIlp ≤ r'.staticIlp ∧ r'.unsafeCount = 0 := by
  have hencodes : ∀ block ∈ [Vliw.lwAdd], ∀ m ∈ block,
      Vliw.Encodes Vliw.lwAddEncoder Vliw.regNumber m :=
    List.forall_mem_singleton.mpr Vliw.lwAdd_encodes
  have hbuilds : ∀ v ∈ Axis.used .lanes [4, 6], LaneBuild (lwAddSweep {} { lanes := 6 }) "lwAdd"
      Vliw.lwAddEncoder ⟨true, false, [Vliw.lwAdd]⟩ 0 v := by
    intro v hv
    have hcases : v = 4 ∨ v = 6 := by
      simpa [Axis.used] using hv
    rcases hcases with rfl | rfl
    · exact lwAddSweep_build _ _ rfl (if_neg (by decide)) rfl
    · exact lwAddSweep_build _ _ rfl (if_pos (by decide)) rfl
  exact sweep_lanes_peak Vliw.regNumber_injective hencodes List.mem_cons_self rfl hbuilds
    (by decide) (by decide) (by decide) (by decide) (by decide)

end Starbug.Bench
