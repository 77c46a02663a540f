import Mathlib.Data.List.Sort
import Mathlib.Data.String.Basic
import Starbug.Bench.Verdict
import Starbug.Core.Link

/-!
# What the benchmark run prints and returns

The table is filled from records that the simulations store as they end, and the exit status from
what the verifier stored before them.

* `main_table`    the table has one row for each kernel, in order, and it and the exit status depend
                  on the answers of the tools only: not on the order in which simulations end;
* `main_linked`   where the STARBUG binaries are linked from functions that the pass left, verified
                  listings and code without HINTs, the exit status is 0.
-/

namespace Starbug.Bench

/-! ## the table -/

def World.cycles (w : World) (name : String) (run : Run) : Option Nat :=
  (w.record name run).bind Record.cycles

/-- the bundles that the verifier reported; none where its report cannot be read -/
def World.unsafeBundles (w : World) (name : String) : List UnsafeBundle :=
  ((w.report name).map Report.unsafeBundles).getD []

/-- the row of a kernel from the answers of the tools -/
def tableRow (w : World) (name : String) : Row where
  kernel := name
  baseCyc := w.cycles name .baseline
  sbCyc := w.cycles name .starbug
  compat := w.cycles name .compat
  speedup := ratio (w.cycles name .baseline) (w.cycles name .starbug)
  vsCompat := ratio (w.cycles name .compat) (w.cycles name .starbug)
  cover := ((w.report name).map fun report => report.stats.bundleCoveragePct).getD 0
  ok := if w.unsafeBundles name ≠ [] then "NO"
    else if w.checks name ≠ [] ∧ (w.checks name).toFinset.card = 1 then "yes" else "NO"

section
variable {w : World} {names : List String} {name : String}

theorem verifyEntry_bundles (w : World) (name : String) :
    (verifyEntry w (buildEntry w name)).starbug.bundles.getD none
      = (w.report name).map Report.stats := by
  unfold verifyEntry World.report
  cases h : w.compile name .starbug with
  | error err =>
    have helf : (buildEntry w name).starbug = built (.error err) := congrArg built h
    rw [helf]
    show (buildEntry w name).starbug.bundles.getD none = none
    rw [helf]
    rfl
  | ok elf =>
    have helf : (buildEntry w name).starbug = built (.ok elf) := congrArg built h
    rw [helf]
    show (validateBundles (w.bundleCheck elf)).stats = (w.bundleCheck elf).1.map Report.stats
    obtain ⟨data, stderr⟩ := w.bundleCheck elf
    cases data with
    | none => rfl
    | some data => rfl

/-- the simulations leave what the verifier stored -/
theorem starbug_measured {e : Entry} (h : (main w false names).results.get? name = some e) :
    e.starbug = (verifyEntry w (buildEntry w name)).starbug := by
  have hname := mem_of_measured h
  rw [main_results, get?_collect, get?_verify, if_pos hname] at h
  obtain rfl := Option.some.inj h
  exact (foldl_addRun w _ _).1

theorem row_eq {e : Entry} (h : (main w false names).results.get? name = some e) :
    row name e = tableRow w name := by
  have hstarbug := starbug_measured h
  obtain ⟨e', hget, hruns, hflags⟩ := get?_measured (w := w) (mem_of_measured h)
  obtain rfl := Option.some.inj (h.symm.trans hget)
  have hcycles : ∀ run, (((e.runs.getD Dict.empty).get? run).getD {}).cycles
      = w.cycles name run := by
    intro run
    rw [hruns]
    unfold World.cycles
    cases w.record name run with
    | none => rfl
    | some rec => rfl
  have hchecks := checks_eq hruns
  unfold Entry.records at hchecks
  have hcover : ((e.starbug.bundles.getD none).map Summary.bundleCoveragePct).getD 0
      = ((w.report name).map fun report => report.stats.bundleCoveragePct).getD 0 := by
    rw [hstarbug, verifyEntry_bundles, Option.map_map]
    rfl
  have hb := hcycles .baseline
  have hs := hcycles .starbug
  have hc := hcycles .compat
  unfold row tableRow World.unsafeBundles
  simp only [hb, hs, hc, hcover, hflags, ← hchecks]
  rfl

theorem keys_results : (sortedEntries (main w false names).results).map Prod.fst
    = names.dedup.mergeSort fun a b => decide (a ≤ b) := by
  have hsort : (sortedEntries (main w false names).results).map Prod.fst
      = (main w false names).results.keys.mergeSort fun a b => decide (a ≤ b) :=
    List.map_mergeSort fun _ _ _ _ => rfl
  have hperm : (main w false names).results.keys.Perm names.dedup := by
    apply (List.perm_ext_iff_of_nodup (main w false names).results.nodup
      (List.nodup_dedup names)).mpr
    intro name
    rw [List.mem_dedup]
    constructor
    · intro h
      obtain ⟨⟨name, e⟩, he, rfl⟩ := List.mem_map.mp h
      exact mem_of_measured (Dict.mem_items.mp he)
    · intro h
      obtain ⟨e, hget, -⟩ := get?_measured (w := w) h
      exact List.mem_map.mpr ⟨(name, e), Dict.mem_items.mpr hget, rfl⟩
  rw [hsort]
  apply List.Perm.eq_of_pairwise' (r := fun a b : String => a ≤ b)
  · exact List.pairwise_mergeSort' _ _
  · exact List.pairwise_mergeSort' _ _
  · exact (List.mergeSort_perm _ _).trans (hperm.trans (List.mergeSort_perm _ _).symm)

theorem rows_eq (w : World) (names : List String) : (main w false names).rows
    = (names.dedup.mergeSort fun a b => decide (a ≤ b)).map (tableRow w) := by
  rw [main_rows, ← keys_results (w := w), List.map_map]
  apply List.map_congr_left
  intro p hp
  exact row_eq (mem_sortedEntries.mp hp)

/-! ## the exit status -/

/-- what the table and the exit status read of the verification of a kernel -/
def Entry.flagged (e : Entry) : List UnsafeBundle := e.starbug.unsafeBundles.getD []

theorem flagged_verify (w : World) (names : List String) (name : String) :
    ((verify w (build w names)).get? name).map Entry.flagged
      = if name ∈ names then some (w.unsafeBundles name) else none := by
  rw [get?_verify]
  split_ifs
  · exact congrArg some (verifyEntry_unsafeBundles w name)
  · rfl

/-- simulations leave it as it is -/
theorem flagged_collect (w : World) (results : Dict String Entry) (done : List Job)
    (name : String) : ((collect w results done).get? name).map Entry.flagged
      = (results.get? name).map Entry.flagged := by
  rw [get?_collect, Option.map_map]
  apply congrArg (fun f => (results.get? name).map f)
  funext e
  show ((done.filter _).foldl (addRun w) e).starbug.unsafeBundles.getD [] = _
  rw [(foldl_addRun w _ e).1]
  rfl

theorem forall_flagged {results : Dict String Entry} (h : ∀ name,
    (results.get? name).map Entry.flagged
      = if name ∈ names then some (w.unsafeBundles name) else none) :
    (∀ p ∈ results.items, p.2.flagged = []) ↔ ∀ name ∈ names, w.unsafeBundles name = [] := by
  constructor
  · intro hnil name hname
    have hget := h name
    rw [if_pos hname] at hget
    obtain ⟨e, he, hflags⟩ := Option.map_eq_some_iff.mp hget
    rw [← hflags]
    exact hnil (name, e) (Dict.mem_items.mpr he)
  · rintro hnil ⟨name, e⟩ hp
    have hget := h name
    rw [Dict.mem_items.mp hp, Option.map_some] at hget
    obtain ⟨hname, hflags⟩ := Option.ite_none_right_eq_some.mp hget.symm
    rw [← Option.some.inj hflags]
    exact hnil name hname

theorem rows_skipSim (w : World) (names : List String) : (main w true names).rows = [] := by
  unfold main
  by_cases hnil : names = []
  · rw [if_pos hnil]
  · rw [if_neg hnil]
    rfl

theorem status_eq (w : World) (skipSim : Bool) (names : List String) :
    (main w skipSim names).status
      = if names ≠ [] ∧ ∀ name ∈ names, w.unsafeBundles name = [] then 0 else 1 := by
  unfold main
  by_cases hnil : names = []
  · rw [if_pos hnil, if_neg fun h => h.1 hnil]
  rw [if_neg hnil]
  have hverify := flagged_verify w names
  cases skipSim with
  | true =>
    show (if ((verify w (build w names)).items.map fun p => p.2.flagged.length).sum = 0
      then 0 else 1) = _
    apply if_congr _ rfl rfl
    rw [and_iff_right hnil, ← forall_flagged hverify, List.sum_eq_zero_iff]
    simp only [List.forall_mem_map, List.length_eq_zero_iff]
  | false =>
    have hcollect := fun name => (flagged_collect w (verify w (build w names))
      (w.asCompleted (jobs (verify w (build w names)))) name).trans (hverify name)
    show (if ((collect w (verify w (build w names)) _).items.filter
      fun p => !p.2.flagged.isEmpty) = [] then 0 else 1) = _
    apply if_congr _ rfl rfl
    rw [and_iff_right hnil, ← forall_flagged hcollect, List.filter_eq_nil_iff]
    simp only [Bool.not_eq_true', Bool.not_eq_false, List.isEmpty_iff]

/-- **The run of the benchmarks, whatever fails.  One row for each kernel, in the order of the
names, whose numbers and verdict are those of the kernel's own tools; and exit status 0 exactly if
a kernel is selected and no report shows an unsafe bundle.  The order in which the simulations end
is in neither.** -/
theorem main_table (w : World) (names : List String) :
    (main w false names).rows
        = (names.dedup.mergeSort fun a b => decide (a ≤ b)).map (tableRow w)
      ∧ ∀ skipSim, (main w skipSim names).status
        = if names ≠ [] ∧ ∀ name ∈ names, w.unsafeBundles name = [] then 0 else 1 :=
  ⟨rows_eq w names, fun skipSim => status_eq w skipSim names⟩

/-! ## linked programs -/

/-- the report on a kernel, where there is one, is on a program that is linked at distinct addresses
from functions that the pass left, verified listings and code without HINTs -/
def Linked (w : World) (name : String) : Prop :=
  ∀ report, w.report name = some report → ∃ (elf : String) (objs : List (List Line)),
    (∀ o ∈ objs, Object o) ∧ (objs.flatten.map Line.addr).Nodup
    ∧ bundleReport elf objs.flatten defaultIcacheLineBytes = .ok report

theorem Linked.unsafeBundles (h : Linked w name) : w.unsafeBundles name = [] := by
  unfold World.unsafeBundles
  cases hreport : w.report name with
  | none => rfl
  | some report =>
    obtain ⟨elf, objs, hobjs, hd, hrun⟩ := h report hreport
    obtain ⟨⟨bs, cov⟩, hscan⟩ :=
      analyse_returns objs.flatten (L := defaultIcacheLineBytes) (by decide)
    have hv := (sound_flatten hobjs).verified hd hscan
    apply (bundleReport_unsafeBundles hrun hscan).mpr
    intro b hb
    unfold Bundle.safe
    rw [hv.safe b hb]
    rfl

/-- **Where every STARBUG binary is such a program, a benchmark run on any kernels ends with status
0, whatever is built, printed or missing, and its verdicts are on the checksums alone.** -/
theorem main_linked (h : ∀ name ∈ names, Linked w name) (skipSim : Bool) :
    (main w skipSim names).status = (if names = [] then 1 else 0)
      ∧ ∀ r ∈ (main w skipSim names).rows, r.kernel ∈ names
        ∧ (r.ok = "yes" ↔ ¬ Silent w r.kernel ∧ ¬ Disagree w r.kernel) := by
  constructor
  · have hclean : ∀ name ∈ names, w.unsafeBundles name = [] :=
      fun name hname => (h name hname).unsafeBundles
    rw [status_eq]
    by_cases hnil : names = []
    · rw [if_neg fun h => h.1 hnil, if_pos hnil]
    · rw [if_pos ⟨hnil, hclean⟩, if_neg hnil]
  · intro r hr
    cases skipSim with
    | true =>
      rw [rows_skipSim] at hr
      exact absurd hr List.not_mem_nil
    | false =>
      have hname : r.kernel ∈ names := by
        rw [rows_eq] at hr
        obtain ⟨name, hmem, rfl⟩ := List.mem_map.mp hr
        exact List.mem_dedup.mp ((List.mergeSort_perm _ _).mem_iff.mp hmem)
      refine ⟨hname, ?_⟩
      have hclean : ¬ Flagged w r.kernel := fun hf =>
        flagged_iff.mp hf (h _ hname).unsafeBundles
      rw [ok_iff hr]
      constructor
      · exact fun hok => ⟨hok.1, hok.2.1⟩
      · exact fun hok => ⟨hok.1, hok.2, hclean⟩

end

/-- every kernel is the program of `linkedLwAdd`, and the last simulation that starts ends first -/
def linkedWorld (opts : Vliw.CommandLine) : World where
  compile name _ := .ok name
  bundleCheck elf := ((bundleReport elf (linkedLwAdd opts).flatten
    defaultIcacheLineBytes).toOption, [])
  wsim _ := .output "STARBUG_BENCH name=lwAdd cycles=90 instret=80 checksum=1A2b".toList
  asCompleted := List.reverse
  asCompleted_perm := List.reverse_perm

theorem linkedWorld_linked (name : String) : Linked (linkedWorld {}) name := by
  intro report hreport
  refine ⟨name, linkedLwAdd {}, linkedLwAdd_objects, by decide, ?_⟩
  change (bundleReport name _ _).toOption = some report at hreport
  cases hrun : bundleReport name (linkedLwAdd {}).flatten defaultIcacheLineBytes with
  | error e =>
    rw [hrun] at hreport
    cases hreport
  | ok report' =>
    rw [hrun] at hreport
    exact congrArg Except.ok (Option.some.inj hreport)

theorem main_linked_lwAdd : (main (linkedWorld {}) false ["lwAdd"]).status = 0
    ∧ ∀ r ∈ (main (linkedWorld {}) false ["lwAdd"]).rows, r.kernel ∈ ["lwAdd"]
      ∧ (r.ok = "yes" ↔ ¬ Silent (linkedWorld {}) r.kernel ∧ ¬ Disagree (linkedWorld {}) r.kernel) :=
  main_linked (fun name _ => linkedWorld_linked name) false

end Starbug.Bench
