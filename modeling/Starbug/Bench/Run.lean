import Starbug.Check.Summary
import Starbug.Lib.Regex

/-!
# The benchmark run (`bench/run_bench.py`)

Every kernel is built twice, the STARBUG binary goes through the bundle verifier, and three
simulations are made: `baseline`, `starbug` and `compat`.  What a stage could not do is a missing
key of a record, and the next stage reads a default in its place.

`World` is what the tools that are run answer, and the order in which the simulations end.  Ratios
are exact and numbers may have any number of digits: the range of `float` and CPython's limit on
`int` are left out.

* `mem_jobs`       the simulations that are made: one for every run whose binary was built;
* `get?_measured`  the record of a kernel when the table is printed, whatever the order.
-/

namespace Starbug.Bench

open Regex

/-! ## what the tools answer -/

inductive Variant where
  | baseline | starbug
deriving DecidableEq

inductive Run where
  | baseline | starbug | compat
deriving DecidableEq

/-- the RTL configuration -/
inductive Config where
  | starbugScalar | starbug
deriving DecidableEq

structure Job where
  name : String
  run : Run
  elf : String
  config : Config
deriving DecidableEq

inductive SimOutcome where
  | timeout
  | output (stdout : Text)

/-- an entry of `unsafe` in the verifier's report -/
structure UnsafeBundle where
  hintAddr : Nat
  func : String
  declaredLen : Nat
  errors : List String

/-- what `starbug_bundle_check.py` writes with `--json` -/
structure Report where
  elf : String
  stats : Summary
  unsafeBundles : List UnsafeBundle

/-- the report on a listing -/
def bundleReport (elf : String) (insns : List Line) (icacheLineBytes : Int) :
    Except PyError Report :=
  match analyse insns icacheLineBytes with
  | .error e => .error e
  | .ok (bundles, covered) => .ok
    { elf := elf
      stats := summarise insns bundles covered
      unsafeBundles := (bundles.filter fun b => !b.safe).map fun b =>
        ⟨b.hintAddr, b.func, b.declaredLen, b.errors⟩ }

theorem bundleReport_unsafeBundles {elf : String} {insns : List Line} {L : Int} {report : Report}
    {bs : List Bundle} {cov : Finset Nat} (h : bundleReport elf insns L = .ok report)
    (hscan : analyse insns L = .ok (bs, cov)) :
    report.unsafeBundles = [] ↔ ∀ b ∈ bs, b.safe = true := by
  unfold bundleReport at h
  rw [hscan] at h
  obtain rfl := Except.ok.inj h
  rw [List.map_eq_nil_iff, List.filter_eq_nil_iff]
  simp only [Bool.not_eq_true', Bool.not_eq_false]

/-- `compile` is `compile_kernel`: an ELF, or the log where it returns `None`.  `bundleCheck` is what
can be read from the report file after the verifier has run, and its standard error. -/
structure World where
  compile : String → Variant → Except Text String
  bundleCheck : String → Option Report × Text
  wsim : Job → SimOutcome
  asCompleted : List Job → List Job
  asCompleted_perm : ∀ jobs, (asCompleted jobs).Perm jobs

/-! ## the records -/

/-- what `validate_bundles` returns -/
structure BundleData where
  error : Option Text := none
  stats : Option Summary := none
  unsafeBundles : Option (List UnsafeBundle) := none

/-- `entry["baseline"]`, `entry["starbug"]`; in `bundles`, `none` is the empty dictionary -/
structure Build where
  error : Option Text := none
  elf : Option String := none
  bundles : Option (Option Summary) := none
  unsafeBundles : Option (List UnsafeBundle) := none

/-- what `simulate` returns -/
structure Record where
  error : Option Text := none
  tail : Option Text := none
  name : Option Text := none
  cycles : Option Nat := none
  instret : Option Nat := none
  checksum : Option Text := none

structure Entry where
  kernel : String
  baseline : Build := {}
  starbug : Build := {}
  runs : Option (Dict Run Record) := none

/-! ## one kernel -/

def isHex (c : Char) : Bool :=
  c.isDigit || ('a' ≤ c && c ≤ 'f') || ('A' ≤ c && c ≤ 'F')

/-- `BENCH_RE` -/
def benchRe : List (Item Char) :=
  lit "STARBUG_BENCH".toList ++ .many 1 isSpace false
    :: (lit "name=".toList ++ .many 1 (fun c => !isSpace c) true :: .many 1 isSpace false
    :: (lit "cycles=".toList ++ .many 1 isDecimal true :: .many 1 isSpace false
    :: (lit "instret=".toList ++ .many 1 isDecimal true :: .many 1 isSpace false
    :: (lit "checksum=".toList ++ [.many 1 isHex true]))))

def isLineBreak (c : Char) : Bool :=
  c.toNat ∈ [0xA, 0xB, 0xC, 0xD, 0x1C, 0x1D, 0x1E, 0x85, 0x2028, 0x2029]

/-- `splitlines`; `line` is the line so far, from its end -/
def splitLines (line : Text) : Text → List Text
  | [] => if line = [] then [] else [line.reverse]
  | '\r' :: '\n' :: s => line.reverse :: splitLines [] s
  | c :: s => if isLineBreak c then line.reverse :: splitLines [] s else splitLines (c :: line) s

/-- `l[-n:]` -/
def lastN {α : Type} (n : Nat) (l : List α) : List α := l.drop (l.length - n)

def simulate : SimOutcome → Record
  | .timeout => { error := some "simulation timeout".toList }
  | .output stdout => match search benchRe stdout with
    | some [name, cycles, instret, checksum] =>
      { name := some name
        cycles := some (decimalValue cycles)
        instret := some (decimalValue instret)
        checksum := some (checksum.map Char.toLower) }
    | _ =>
      { error := some "no benchmark line found".toList
        tail := some (['\n'].intercalate (lastN 15 (splitLines [] stdout))) }

def validateBundles : Option Report × Text → BundleData
  | (some data, _) => { stats := some data.stats, unsafeBundles := some data.unsafeBundles }
  | (none, stderr) =>
    { error := some (if stderr = [] then "bundle check failed".toList else stderr) }

/-- `entry[variant]` -/
def built : Except Text String → Build
  | .ok elf => { elf := some elf }
  | .error err => { error := some (lastN 2000 err) }

def buildEntry (w : World) (name : String) : Entry where
  kernel := name
  baseline := built (w.compile name .baseline)
  starbug := built (w.compile name .starbug)

/-- the body of the loop that verifies -/
def verifyEntry (w : World) (e : Entry) : Entry :=
  match e.starbug.elf with
  | none => e
  | some elf =>
    let data := validateBundles (w.bundleCheck elf)
    { e with starbug := { e.starbug with bundles := some data.stats
                                         unsafeBundles := some (data.unsafeBundles.getD []) } }

/-- the body of the loop that submits the simulations -/
def entryJobs (name : String) (e : Entry) : List Job :=
  (match e.baseline.elf with
    | none => []
    | some elf => [⟨name, .baseline, elf, .starbugScalar⟩])
  ++ match e.starbug.elf with
    | none => []
    | some elf => [⟨name, .starbug, elf, .starbug⟩, ⟨name, .compat, elf, .starbugScalar⟩]

/-- `entry.setdefault("runs", {})[run] = rec` -/
def addRun (w : World) (e : Entry) (job : Job) : Entry :=
  { e with runs := some ((e.runs.getD Dict.empty).set job.run (simulate (w.wsim job))) }

/-! ## the stages -/

def build (w : World) (names : List String) : Dict String Entry :=
  names.foldl (fun results name => results.set name (buildEntry w name)) Dict.empty

def verify (w : World) (results : Dict String Entry) : Dict String Entry :=
  results.mapItems fun _ e => verifyEntry w e

def jobs (results : Dict String Entry) : List Job :=
  results.items.flatMap fun p => entryJobs p.1 p.2

/-- the loop over the simulations as they end -/
def collect (w : World) (results : Dict String Entry) (done : List Job) : Dict String Entry :=
  done.foldl (fun results job => results.modify job.name fun e => addRun w e job) results

/-- a line of the table; the ratios are exact, `none` is printed as `-` -/
structure Row where
  kernel : String
  baseCyc : Option Nat
  sbCyc : Option Nat
  compat : Option Nat
  speedup : Option Rat
  vsCompat : Option Rat
  cover : Rat
  ok : String

/-- `(a / b) if (a and b) else None` -/
def ratio (a b : Option Nat) : Option Rat :=
  match a, b with
  | some a, some b => if a ≠ 0 ∧ b ≠ 0 then some ((a : Rat) / b) else none
  | _, _ => none

/-- the body of the loop that prints the table -/
def row (name : String) (e : Entry) : Row :=
  let runs := e.runs.getD Dict.empty
  let base := (runs.get? .baseline).getD {}
  let sb := (runs.get? .starbug).getD {}
  let cm := (runs.get? .compat).getD {}
  let checks := ([base, sb, cm].filterMap Record.checksum).filter fun c => c ≠ []
  let ok := if checks ≠ [] ∧ checks.toFinset.card = 1 then "yes" else "NO"
  { kernel := name
    baseCyc := base.cycles
    sbCyc := sb.cycles
    compat := cm.cycles
    speedup := ratio base.cycles sb.cycles
    vsCompat := ratio cm.cycles sb.cycles
    cover := ((e.starbug.bundles.getD none).map Summary.bundleCoveragePct).getD 0
    ok := if e.starbug.unsafeBundles.getD [] ≠ [] then "NO" else ok }

/-- `sorted(results.items())`, whose keys differ -/
def sortedEntries (results : Dict String Entry) : List (String × Entry) :=
  results.items.mergeSort fun a b => decide (a.1 ≤ b.1)

structure Outcome where
  rows : List Row
  results : Dict String Entry
  status : Nat

def main (w : World) (skipSim : Bool) (names : List String) : Outcome :=
  -- `sys.exit("no kernels selected")`
  if names = [] then { rows := [], results := Dict.empty, status := 1 }
  else
    let results := verify w (build w names)
    let unsafeTotal := (results.items.map fun p => (p.2.starbug.unsafeBundles.getD []).length).sum
    if skipSim then
      { rows := [], results := results, status := if unsafeTotal = 0 then 0 else 1 }
    else
      let results := collect w results (w.asCompleted (jobs results))
      let bad := results.items.filter fun p => !(p.2.starbug.unsafeBundles.getD []).isEmpty
      { rows := (sortedEntries results).map fun p => row p.1 p.2
        results := results
        status := if bad = [] then 0 else 1 }

/-! ## what the runs of a kernel are -/

def Run.variant : Run → Variant
  | .baseline => .baseline
  | .starbug => .starbug
  | .compat => .starbug

def Run.config : Run → Config
  | .baseline => .starbugScalar
  | .starbug => .starbug
  | .compat => .starbugScalar

/-- the simulation of a run, where its binary was built -/
def World.job (w : World) (name : String) (run : Run) : Option Job :=
  match w.compile name run.variant with
  | .ok elf => some ⟨name, run, elf, run.config⟩
  | .error _ => none

/-- the record of a run that was made -/
def World.record (w : World) (name : String) (run : Run) : Option Record :=
  (w.job name run).map fun job => simulate (w.wsim job)

/-- the checksum a run printed -/
def World.checksum (w : World) (name : String) (run : Run) : Option Text :=
  (w.record name run).bind Record.checksum

/-- the verifier's report on the STARBUG binary -/
def World.report (w : World) (name : String) : Option Report :=
  match w.compile name .starbug with
  | .ok elf => (w.bundleCheck elf).1
  | .error _ => none

section
variable {w : World} {name : String}

theorem get?_build (w : World) (names : List String) (name : String) :
    (build w names).get? name = if name ∈ names then some (buildEntry w name) else none := by
  have hfold : ∀ d : Dict String Entry,
      (names.foldl (fun results name => results.set name (buildEntry w name)) d).get? name
        = if name ∈ names then some (buildEntry w name) else d.get? name := by
    induction names with
    | nil => exact fun d => rfl
    | cons n names ih =>
      intro d
      rw [List.foldl_cons, ih, Dict.get?_set]
      by_cases hmem : name ∈ names
      · simp [hmem]
      · by_cases hn : name = n
        · simp [hn]
        · simp [hmem, hn]
  exact hfold Dict.empty

theorem get?_verify (w : World) (names : List String) (name : String) :
    (verify w (build w names)).get? name
      = if name ∈ names then some (verifyEntry w (buildEntry w name)) else none := by
  unfold verify
  rw [Dict.get?_mapItems, get?_build]
  split_ifs
  · rfl
  · rfl

theorem built_elf (outcome : Except Text String) : (built outcome).elf = outcome.toOption := by
  cases outcome with
  | ok elf => rfl
  | error err => rfl

/-- the verifier's stage writes `bundles` and `unsafe` of the STARBUG build only -/
theorem verifyEntry_frame (w : World) (e : Entry) :
    (verifyEntry w e).baseline = e.baseline ∧ (verifyEntry w e).starbug.elf = e.starbug.elf
      ∧ (verifyEntry w e).runs = e.runs := by
  unfold verifyEntry
  cases h : e.starbug.elf with
  | none => exact ⟨rfl, h, rfl⟩
  | some elf => exact ⟨rfl, h, rfl⟩

/-- the unsafe bundles of the record are those of the report, and none where there is no report -/
theorem verifyEntry_unsafeBundles (w : World) (name : String) :
    (verifyEntry w (buildEntry w name)).starbug.unsafeBundles.getD []
      = ((w.report name).map Report.unsafeBundles).getD [] := by
  unfold verifyEntry World.report
  cases h : w.compile name .starbug with
  | error err =>
    have helf : (buildEntry w name).starbug = built (.error err) := congrArg built h
    rw [helf]
    show (buildEntry w name).starbug.unsafeBundles.getD [] = []
    rw [helf]
    rfl
  | ok elf =>
    have helf : (buildEntry w name).starbug = built (.ok elf) := congrArg built h
    rw [helf]
    show ((validateBundles (w.bundleCheck elf)).unsafeBundles.getD [])
      = ((w.bundleCheck elf).1.map Report.unsafeBundles).getD []
    obtain ⟨data, stderr⟩ := w.bundleCheck elf
    cases data with
    | none => rfl
    | some data => rfl

/-! ## the simulations -/

theorem entryJobs_eq (w : World) (name : String) :
    entryJobs name (verifyEntry w (buildEntry w name))
      = [Run.baseline, Run.starbug, Run.compat].filterMap (w.job name) := by
  obtain ⟨hbaseline, helf, -⟩ := verifyEntry_frame w (buildEntry w name)
  unfold entryJobs
  rw [hbaseline, helf]
  have hb : (buildEntry w name).baseline.elf = (w.compile name .baseline).toOption := built_elf _
  have hs : (buildEntry w name).starbug.elf = (w.compile name .starbug).toOption := built_elf _
  have hjob : ∀ run, w.job name run
      = (w.compile name run.variant).toOption.map fun elf => ⟨name, run, elf, run.config⟩ := by
    intro run
    unfold World.job
    cases w.compile name run.variant with
    | error err => rfl
    | ok elf => rfl
  have hj₀ : w.job name .baseline = (w.compile name .baseline).toOption.map fun elf =>
    ⟨name, .baseline, elf, .starbugScalar⟩ := hjob .baseline
  have hj₁ : w.job name .starbug = (w.compile name .starbug).toOption.map fun elf =>
    ⟨name, .starbug, elf, .starbug⟩ := hjob .starbug
  have hj₂ : w.job name .compat = (w.compile name .starbug).toOption.map fun elf =>
    ⟨name, .compat, elf, .starbugScalar⟩ := hjob .compat
  rw [hb, hs, List.filterMap_cons, List.filterMap_cons, List.filterMap_cons, hj₀, hj₁, hj₂]
  cases (w.compile name .baseline).toOption with
  | none => cases (w.compile name .starbug).toOption with
    | none => rfl
    | some elf => rfl
  | some elf => cases (w.compile name .starbug).toOption with
    | none => rfl
    | some elf' => rfl

theorem job_eq_some {run : Run} {job : Job} (h : w.job name run = some job) :
    job.name = name ∧ job.run = run := by
  unfold World.job at h
  cases hc : w.compile name run.variant with
  | error err =>
    rw [hc] at h
    exact absurd h.symm (Option.some_ne_none job)
  | ok elf =>
    rw [hc] at h
    obtain rfl := Option.some.inj h
    exact ⟨rfl, rfl⟩

theorem mem_jobs {names : List String} {job : Job} :
    job ∈ jobs (verify w (build w names))
      ↔ job.name ∈ names ∧ w.job job.name job.run = some job := by
  unfold jobs
  rw [List.mem_flatMap]
  constructor
  · rintro ⟨⟨name, e⟩, hp, hjob⟩
    have hget := Dict.mem_items.mp hp
    rw [get?_verify] at hget
    obtain ⟨hname, he⟩ := Option.ite_none_right_eq_some.mp hget
    obtain rfl := Option.some.inj he
    rw [entryJobs_eq] at hjob
    obtain ⟨run, -, hrun⟩ := List.mem_filterMap.mp hjob
    obtain ⟨rfl, rfl⟩ := job_eq_some hrun
    exact ⟨hname, hrun⟩
  · rintro ⟨hname, hrun⟩
    refine ⟨(job.name, verifyEntry w (buildEntry w job.name)), Dict.mem_items.mpr ?_, ?_⟩
    · rw [get?_verify, if_pos hname]
    · show job ∈ entryJobs job.name (verifyEntry w (buildEntry w job.name))
      rw [entryJobs_eq]
      refine List.mem_filterMap.mpr ⟨job.run, ?_, hrun⟩
      cases job.run with
      | baseline => simp
      | starbug => simp
      | compat => simp

/-- a simulation that ends is stored with its own kernel only -/
theorem get?_collect (w : World) (results : Dict String Entry) (done : List Job) (name : String) :
    (collect w results done).get? name = (results.get? name).map fun e =>
      (done.filter fun job => job.name = name).foldl (addRun w) e := by
  unfold collect
  induction done generalizing results with
  | nil => exact Option.map_id'.symm
  | cons job done ih =>
    rw [List.foldl_cons, ih, Dict.get?_modify, List.filter_cons]
    by_cases h : job.name = name
    · rw [if_pos h.symm, if_pos (decide_eq_true h), Option.map_map]
      rfl
    · rw [if_neg (Ne.symm h), if_neg (by simpa using h)]

theorem foldl_addRun (w : World) (js : List Job) (e : Entry) :
    (js.foldl (addRun w) e).starbug = e.starbug
      ∧ (js.foldl (addRun w) e).runs.getD Dict.empty
        = js.foldl (fun d job => d.set job.run (simulate (w.wsim job))) (e.runs.getD Dict.empty) := by
  induction js generalizing e with
  | nil => exact ⟨rfl, rfl⟩
  | cons job js ih => exact ih (addRun w e job)

/-- the runs of a kernel, stored in any order -/
theorem get?_stored {js : List Job} (hmem : ∀ job, job ∈ js ↔ w.job name job.run = some job)
    (run : Run) :
    (js.foldl (fun d job => d.set job.run (simulate (w.wsim job))) Dict.empty).get? run
      = w.record name run := by
  unfold World.record
  cases hjob : w.job name run with
  | none =>
    rw [Option.map_none, Option.eq_none_iff_forall_ne_some]
    intro rec hrec
    rcases Dict.stored_of_get? Job.run _ hrec with ⟨job, hj, hrun, -⟩ | hempty
    · rw [hmem, hrun, hjob] at hj
      exact absurd hj.symm (Option.some_ne_none job)
    · exact absurd hempty.symm (Option.some_ne_none rec)
  | some job =>
    have hrun := (job_eq_some hjob).2
    have hj : job ∈ js := by
      rw [hmem, hrun]
      exact hjob
    obtain ⟨rec, hrec⟩ := Dict.exists_get?_of_stored (d := Dict.empty) Job.run
      (fun job => simulate (w.wsim job)) (Or.inl ⟨job, hj, hrun⟩)
    rcases Dict.stored_of_get? Job.run _ hrec with ⟨job', hj', hrun', rfl⟩ | hempty
    · rw [hmem, hrun', hjob] at hj'
      obtain rfl := Option.some.inj hj'
      exact hrec
    · exact absurd hempty.symm (Option.some_ne_none rec)

/-- what is stored when the table is printed; nothing where no kernel is selected -/
theorem main_results (w : World) (names : List String) : (main w false names).results
    = collect w (verify w (build w names)) (w.asCompleted (jobs (verify w (build w names)))) := by
  unfold main
  by_cases hnil : names = []
  · subst hnil
    have hjobs : w.asCompleted (jobs (verify w (build w []))) = [] :=
      (w.asCompleted_perm []).eq_nil
    rw [hjobs]
    rfl
  · rw [if_neg hnil]
    rfl

theorem main_rows (w : World) (names : List String) : (main w false names).rows
    = (sortedEntries (main w false names).results).map fun p => row p.1 p.2 := by
  unfold main
  by_cases hnil : names = []
  · rw [if_pos hnil]
    show [] = ((Dict.empty.items.mergeSort _).map fun p : String × Entry => row p.1 p.2)
    rw [show (Dict.empty : Dict String Entry).items = [] from rfl, List.mergeSort_nil,
      List.map_nil]
  · rw [if_neg hnil]
    rfl

/-- **The record of a kernel when the table is printed.**  Whatever the order in which the
simulations ended, each run that was made has its record and no other run has one. -/
theorem get?_measured {names : List String} (hname : name ∈ names) :
    ∃ e, (main w false names).results.get? name = some e
      ∧ (∀ run, (e.runs.getD Dict.empty).get? run = w.record name run)
      ∧ e.starbug.unsafeBundles.getD [] = ((w.report name).map Report.unsafeBundles).getD [] := by
  let done := w.asCompleted (jobs (verify w (build w names)))
  let js := done.filter fun job => job.name = name
  let e := verifyEntry w (buildEntry w name)
  have hget : (main w false names).results.get? name = some (js.foldl (addRun w) e) := by
    rw [main_results, get?_collect, get?_verify, if_pos hname]
    rfl
  obtain ⟨hstarbug, hruns⟩ := foldl_addRun w js e
  have hnone : e.runs = none := (verifyEntry_frame w (buildEntry w name)).2.2
  rw [hnone, Option.getD_none] at hruns
  have hmem : ∀ job, job ∈ js ↔ w.job name job.run = some job := by
    intro job
    rw [List.mem_filter, (w.asCompleted_perm _).mem_iff, mem_jobs, decide_eq_true_iff]
    constructor
    · rintro ⟨⟨-, h⟩, hn⟩
      rwa [hn] at h
    · intro h
      have hn := (job_eq_some h).1
      rw [hn]
      exact ⟨⟨hname, h⟩, rfl⟩
  refine ⟨_, hget, fun run => ?_, ?_⟩
  · rw [hruns]
    exact get?_stored hmem run
  · rw [hstarbug]
    exact verifyEntry_unsafeBundles w name

end

end Starbug.Bench
