import Starbug.Bench.Run

/-!
# The `ok` column of the benchmark table

The column is meant to say that the three runs of a kernel printed one checksum and that the
verifier found no unsafe bundle.  The code compares the checksums that are there, and reads a missing
report as an empty list of unsafe bundles.

* `row_ok_iff`         what the column says;
* `verdict_sound_iff`  "yes" can be trusted exactly if everything was answered, or nothing was
                       printed, or two runs differ, or the verifier found something.
-/

namespace Starbug.Bench

open Regex

section
variable {w : World} {name : String}

/-! ## what is printed -/

theorem matches_benchRe {s t : Text} {gs : List Text} (h : Matches benchRe s gs t) :
    ∃ name cycles instret checksum, gs = [name, cycles, instret, checksum] ∧ checksum ≠ [] := by
  obtain ⟨_, -, h₁⟩ := matches_lit.mp h
  obtain ⟨_, _, _, -, -, -, rfl, h₂⟩ := matches_many.mp h₁
  obtain ⟨_, -, h₃⟩ := matches_lit.mp h₂
  obtain ⟨name, _, _, -, -, -, rfl, h₄⟩ := matches_many.mp h₃
  obtain ⟨_, _, _, -, -, -, rfl, h₅⟩ := matches_many.mp h₄
  obtain ⟨_, -, h₆⟩ := matches_lit.mp h₅
  obtain ⟨cycles, _, _, -, -, -, rfl, h₇⟩ := matches_many.mp h₆
  obtain ⟨_, _, _, -, -, -, rfl, h₈⟩ := matches_many.mp h₇
  obtain ⟨_, -, h₉⟩ := matches_lit.mp h₈
  obtain ⟨instret, _, _, -, -, -, rfl, h₁₀⟩ := matches_many.mp h₉
  obtain ⟨_, _, _, -, -, -, rfl, h₁₁⟩ := matches_many.mp h₁₀
  obtain ⟨_, -, h₁₂⟩ := matches_lit.mp h₁₁
  obtain ⟨checksum, _, _, -, hlen, -, rfl, h₁₃⟩ := matches_many.mp h₁₂
  obtain ⟨rfl, -⟩ := matches_nil.mp h₁₃
  exact ⟨name, cycles, instret, checksum, rfl, List.ne_nil_of_length_pos hlen⟩

/-- a checksum that is there is true, as Python reads it -/
theorem simulate_checksum_ne_nil {o : SimOutcome} {c : Text}
    (h : (simulate o).checksum = some c) : c ≠ [] := by
  cases o with
  | timeout => exact absurd h.symm (Option.some_ne_none c)
  | output stdout =>
    cases hs : search benchRe stdout with
    | none =>
      simp only [simulate, hs] at h
      exact absurd h.symm (Option.some_ne_none c)
    | some gs =>
      obtain ⟨a, b, t, -, hmatch⟩ := matches_of_search hs
      obtain ⟨name, cycles, instret, checksum, rfl, hne⟩ := matches_benchRe hmatch
      simp only [simulate, hs] at h
      obtain rfl := Option.some.inj h
      exact fun hnil => hne (List.map_eq_nil_iff.mp hnil)

theorem checksum_ne_nil {run : Run} {c : Text} (h : w.checksum name run = some c) : c ≠ [] := by
  obtain ⟨rec, hrec, hc⟩ := Option.bind_eq_some_iff.mp h
  obtain ⟨job, -, rfl⟩ := Option.map_eq_some_iff.mp hrec
  exact simulate_checksum_ne_nil hc

/-- the checksums that are there -/
def World.checks (w : World) (name : String) : List Text :=
  [Run.baseline, Run.starbug, Run.compat].filterMap (w.checksum name)

theorem mem_checks {c : Text} : c ∈ w.checks name ↔ ∃ run, w.checksum name run = some c := by
  unfold World.checks
  rw [List.mem_filterMap]
  constructor
  · rintro ⟨run, -, h⟩
    exact ⟨run, h⟩
  · rintro ⟨run, h⟩
    refine ⟨run, ?_, h⟩
    cases run with
    | baseline => simp
    | starbug => simp
    | compat => simp

/-! ## the column -/

/-- two runs printed checksums that differ -/
def Disagree (w : World) (name : String) : Prop :=
  ∃ run run' c c', w.checksum name run = some c ∧ w.checksum name run' = some c' ∧ c ≠ c'

/-- the verifier found an unsafe bundle -/
def Flagged (w : World) (name : String) : Prop :=
  ∃ report, w.report name = some report ∧ report.unsafeBundles ≠ []

/-- no run printed a checksum -/
def Silent (w : World) (name : String) : Prop := ∀ run, w.checksum name run = none

theorem card_toFinset_eq_one {α : Type} [DecidableEq α] {l : List α} :
    (l ≠ [] ∧ l.toFinset.card = 1) ↔ l ≠ [] ∧ ∀ a ∈ l, ∀ b ∈ l, a = b := by
  apply and_congr_right
  intro hne
  have hpos : 0 < l.toFinset.card := by
    obtain ⟨a, ha⟩ := List.exists_mem_of_ne_nil l hne
    exact Finset.card_pos.mpr ⟨a, List.mem_toFinset.mpr ha⟩
  have hle : l.toFinset.card = 1 ↔ l.toFinset.card ≤ 1 := by omega
  rw [hle, Finset.card_le_one]
  simp only [List.mem_toFinset]

theorem checks_iff : (w.checks name ≠ [] ∧ (w.checks name).toFinset.card = 1)
    ↔ ¬ Silent w name ∧ ¬ Disagree w name := by
  rw [card_toFinset_eq_one]
  apply and_congr
  · rw [not_iff_not, List.eq_nil_iff_forall_not_mem]
    constructor
    · intro h run
      rw [Option.eq_none_iff_forall_ne_some]
      exact fun c hc => h c (mem_checks.mpr ⟨run, hc⟩)
    · intro h c hc
      obtain ⟨run, hrun⟩ := mem_checks.mp hc
      rw [h run] at hrun
      exact absurd hrun.symm (Option.some_ne_none c)
  · constructor
    · rintro h ⟨run, run', c, c', hc, hc', hne⟩
      exact hne (h c (mem_checks.mpr ⟨run, hc⟩) c' (mem_checks.mpr ⟨run', hc'⟩))
    · intro h c hc c' hc'
      obtain ⟨run, hrun⟩ := mem_checks.mp hc
      obtain ⟨run', hrun'⟩ := mem_checks.mp hc'
      by_contra hne
      exact h ⟨run, run', c, c', hrun, hrun', hne⟩

theorem flagged_iff : Flagged w name ↔ ((w.report name).map Report.unsafeBundles).getD [] ≠ [] := by
  unfold Flagged
  cases w.report name with
  | none => simp
  | some report => simp

/-- the records the table reads, `{}` where there is none -/
def Entry.records (e : Entry) : List Record :=
  [Run.baseline, Run.starbug, Run.compat].map fun run =>
    ((e.runs.getD Dict.empty).get? run).getD {}

theorem checks_eq {e : Entry}
    (hruns : ∀ run, (e.runs.getD Dict.empty).get? run = w.record name run) :
    (e.records.filterMap Record.checksum).filter (fun c => c ≠ []) = w.checks name := by
  have hrec : ∀ run, (((e.runs.getD Dict.empty).get? run).getD {}).checksum
      = w.checksum name run := by
    intro run
    rw [hruns]
    unfold World.checksum
    cases w.record name run with
    | none => rfl
    | some rec => rfl
  have hmap : e.records.filterMap Record.checksum = w.checks name := by
    unfold Entry.records
    rw [List.filterMap_map]
    exact List.filterMap_congr fun run _ => hrec run
  rw [hmap, List.filter_eq_self]
  intro c hc
  obtain ⟨run, hrun⟩ := mem_checks.mp hc
  exact decide_eq_true (checksum_ne_nil hrun)

/-- **What the column says.** -/
theorem row_ok_iff {e : Entry}
    (hruns : ∀ run, (e.runs.getD Dict.empty).get? run = w.record name run)
    (hflags : e.starbug.unsafeBundles.getD [] = ((w.report name).map Report.unsafeBundles).getD []) :
    (row name e).ok = "yes" ↔ ¬ Silent w name ∧ ¬ Disagree w name ∧ ¬ Flagged w name := by
  have hok : (row name e).ok = if ((w.report name).map Report.unsafeBundles).getD [] ≠ [] then "NO"
      else if w.checks name ≠ [] ∧ (w.checks name).toFinset.card = 1 then "yes" else "NO" := by
    rw [← hflags, ← checks_eq hruns]
    rfl
  rw [hok, flagged_iff, ← and_assoc, ← checks_iff]
  by_cases hf : ((w.report name).map Report.unsafeBundles).getD [] ≠ []
  · rw [if_pos hf]
    exact iff_of_false (by decide) fun h => h.2 hf
  · rw [if_neg hf]
    by_cases hc : w.checks name ≠ [] ∧ (w.checks name).toFinset.card = 1
    · rw [if_pos hc]
      exact iff_of_true rfl ⟨hc, hf⟩
    · rw [if_neg hc]
      exact iff_of_false (by decide) fun h => hc h.1

theorem mem_sortedEntries {results : Dict String Entry} {p : String × Entry} :
    p ∈ sortedEntries results ↔ results.get? p.1 = some p.2 := by
  unfold sortedEntries
  rw [List.mem_mergeSort]
  exact Dict.mem_items

theorem mem_of_measured {names : List String} {e : Entry}
    (h : (main w false names).results.get? name = some e) : name ∈ names := by
  rw [main_results, get?_collect, get?_verify] at h
  obtain ⟨e', he', -⟩ := Option.map_eq_some_iff.mp h
  exact (Option.ite_none_right_eq_some.mp he').1

/-- every kernel has a row -/
theorem exists_row {names : List String} (h : name ∈ names) :
    ∃ r ∈ (main w false names).rows, r.kernel = name := by
  obtain ⟨e, hget, -⟩ := get?_measured (w := w) h
  rw [main_rows]
  exact ⟨row name e, List.mem_map.mpr ⟨(name, e), mem_sortedEntries.mpr hget, rfl⟩, rfl⟩

theorem ok_iff {names : List String} {r : Row} (h : r ∈ (main w false names).rows) :
    r.ok = "yes" ↔ ¬ Silent w r.kernel ∧ ¬ Disagree w r.kernel ∧ ¬ Flagged w r.kernel := by
  rw [main_rows] at h
  obtain ⟨⟨name, e⟩, hp, rfl⟩ := List.mem_map.mp h
  have hget := mem_sortedEntries.mp hp
  obtain ⟨e', hget', hruns, hflags⟩ := get?_measured (w := w) (mem_of_measured hget)
  obtain rfl := Option.some.inj (hget.symm.trans hget')
  exact row_ok_iff hruns hflags

/-! ## what the column is meant to say -/

/-- the three runs printed one checksum and the verifier reported no unsafe bundle -/
def Passed (w : World) (name : String) : Prop :=
  ∃ checksum report, (∀ run, w.checksum name run = some checksum)
    ∧ w.report name = some report ∧ report.unsafeBundles = []

/-- the three runs printed a checksum and the verifier reported -/
def Answered (w : World) (name : String) : Prop :=
  (∀ run, (w.checksum name run).isSome = true) ∧ (w.report name).isSome = true

theorem passed_iff : Passed w name
    ↔ Answered w name ∧ ¬ Silent w name ∧ ¬ Disagree w name ∧ ¬ Flagged w name := by
  constructor
  · rintro ⟨checksum, report, hruns, hreport, hempty⟩
    refine ⟨⟨fun run => ?_, ?_⟩, ?_, ?_, ?_⟩
    · rw [hruns run]
      rfl
    · rw [hreport]
      rfl
    · intro h
      exact absurd ((hruns .baseline).symm.trans (h .baseline)) (Option.some_ne_none checksum)
    · rintro ⟨run, run', c, c', hc, hc', hne⟩
      have hcc : some c = some c' := by
        rw [← hc, ← hc', hruns run, hruns run']
      exact hne (Option.some.inj hcc)
    · rintro ⟨report', hreport', hne⟩
      obtain rfl := Option.some.inj (hreport.symm.trans hreport')
      exact hne hempty
  · rintro ⟨⟨hruns, hreport⟩, -, hagree, hclean⟩
    obtain ⟨report, hr⟩ := Option.isSome_iff_exists.mp hreport
    obtain ⟨checksum, hbase⟩ := Option.isSome_iff_exists.mp (hruns .baseline)
    refine ⟨checksum, report, fun run => ?_, hr, ?_⟩
    · obtain ⟨c, hc⟩ := Option.isSome_iff_exists.mp (hruns run)
      by_contra hne
      exact hagree ⟨.baseline, run, checksum, c, hbase, hc, fun h => hne (by rw [hc, h])⟩
    · by_contra hne
      exact hclean ⟨report, hr, hne⟩

/-- **When "yes" can be trusted.**  Every kernel has a row; "yes" in it says that the kernel passed
exactly if everything was answered, or nothing was printed, or two runs differ, or the verifier found
an unsafe bundle. -/
theorem verdict_sound_iff (w : World) (names : List String) :
    (∀ name ∈ names, ∃ r ∈ (main w false names).rows, r.kernel = name)
      ∧ ∀ r ∈ (main w false names).rows, (r.ok = "yes" → Passed w r.kernel)
        ↔ Answered w r.kernel ∨ Silent w r.kernel ∨ Disagree w r.kernel ∨ Flagged w r.kernel := by
  refine ⟨fun name h => exists_row h, fun r hr => ?_⟩
  rw [ok_iff hr, passed_iff]
  constructor
  · intro h
    by_cases hs : Silent w r.kernel
    · exact Or.inr (Or.inl hs)
    by_cases hd : Disagree w r.kernel
    · exact Or.inr (Or.inr (Or.inl hd))
    by_cases hf : Flagged w r.kernel
    · exact Or.inr (Or.inr (Or.inr hf))
    · exact Or.inl (h ⟨hs, hd, hf⟩).1
  · rintro (ha | hs | hd | hf) h
    · exact ⟨ha, h⟩
    · exact absurd hs h.1
    · exact absurd hd h.2.1
    · exact absurd hf h.2.2

/-- Where the report is the verifier's own on a listing, a kernel that passed has in it only bundles
the check accepts. -/
theorem Passed.accepted (h : Passed w name) {elf : String} {insns : List Line} {L : Int}
    {report : Report} (hreport : w.report name = some report)
    (hrun : bundleReport elf insns L = .ok report) {bs : List Bundle} {cov : Finset Nat}
    (hscan : analyse insns L = .ok (bs, cov)) : ∀ b ∈ bs, Accepted b := by
  obtain ⟨_, report', -, hreport', hempty⟩ := h
  obtain rfl := Option.some.inj (hreport.symm.trans hreport')
  intro b hb
  exact (accepted_of_safe hscan hb ((bundleReport_unsafeBundles hrun hscan).mp hempty b hb)).1

/-- the other direction always holds -/
theorem ok_of_passed {names : List String} {r : Row} (hr : r ∈ (main w false names).rows)
    (h : Passed w r.kernel) : r.ok = "yes" :=
  (ok_iff hr).mpr (passed_iff.mp h).2

end

/-- both binaries are built and the verifier finds nothing; on the STARBUG core the simulation
times out -/
def timedOut : World where
  compile := fun _ variant => match variant with
    | .baseline => .ok "baseline/fir.elf"
    | .starbug => .ok "starbug/fir.elf"
  bundleCheck := fun elf => (some ⟨elf, summarise [] [] ∅, []⟩, [])
  wsim := fun job => match job.run with
    | .starbug => .timeout
    | _ => .output "STARBUG_BENCH name=fir cycles=90 instret=80 checksum=1A2b\n".toList
  asCompleted := id
  asCompleted_perm := fun _ => List.Perm.refl _

theorem timedOut_checksum :
    timedOut.checksum "fir" .baseline = some "1a2b".toList
      ∧ timedOut.checksum "fir" .starbug = none
      ∧ timedOut.checksum "fir" .compat = some "1a2b".toList := by
  decide

theorem timedOut_yes : ∃ r ∈ (main timedOut false ["fir"]).rows,
    r.kernel = "fir" ∧ r.ok = "yes" ∧ ¬ Passed timedOut "fir" := by
  obtain ⟨hbase, hstarbug, hcompat⟩ := timedOut_checksum
  obtain ⟨r, hr, hname⟩ := exists_row (w := timedOut) (List.mem_singleton_self "fir")
  refine ⟨r, hr, hname, (ok_iff hr).mpr ?_, ?_⟩
  · rw [hname]
    refine ⟨fun h => ?_, ?_, ?_⟩
    · rw [h .baseline] at hbase
      exact Option.some_ne_none _ hbase.symm
    · have hall : ∀ run c, timedOut.checksum "fir" run = some c → c = "1a2b".toList := by
        intro run c hc
        cases run with
        | baseline => exact Option.some.inj (hc.symm.trans hbase)
        | starbug => exact absurd (hc.symm.trans hstarbug) (Option.some_ne_none c)
        | compat => exact Option.some.inj (hc.symm.trans hcompat)
      rintro ⟨run, run', c, c', hc, hc', hne⟩
      exact hne ((hall run c hc).trans (hall run' c' hc').symm)
    · rintro ⟨report, hreport, hne⟩
      obtain rfl := Option.some.inj hreport
      exact hne rfl
  · rintro ⟨c, -, hruns, -⟩
    exact absurd ((hruns .starbug).symm.trans hstarbug) (Option.some_ne_none c)

end Starbug.Bench
