import Starbug.Isa.Decode
import Mathlib.Data.Finset.Max
import Mathlib.Data.Int.Basic

/-!
# The bundle checker (`check_bundle` of `tools/starbug_bundle_check.py`)

`checkBundle` is the function of the source: it appends to the error and warning lists of a
bundle, with the texts the tool prints, and returns early on an oversize or truncated bundle.
The object keeps what was appended when the last part raises, so the result is the mutated
bundle together with the exception, if any.

* `Accepted b`               what a bundle without errors satisfies;
* `checkBundle_errors_iff`   `checkBundle` records no error exactly on `Accepted` bundles, for
                             every line size.
-/

namespace Starbug

/-! ## data -/

inductive PyError where
  | indexError | zeroDivisionError
  deriving DecidableEq, Repr

structure Bundle where
  hintAddr : Nat
  declaredLen : Nat
  members : List Insn
  errors : List String := []
  warnings : List String := []
  func : String := ""
  deriving DecidableEq

def Bundle.safe (b : Bundle) : Bool := b.errors.isEmpty

/-! ## rendering -/

/-- `hex(n)`, also `{n:#x}` -/
def hex (n : Int) : String :=
  (if n < 0 then "-0x" else "0x") ++ String.ofList (Nat.toDigits 16 n.natAbs)

/-- `insn.text or hex(insn.word)` -/
def Insn.shown (i : Insn) : String := if i.text = "" then hex i.word else i.text

/-- `regname(sorted(s)[0])` for a nonempty set -/
def firstReg (s : Finset Nat) (h : s.Nonempty) : String := regname (s.min' h)

/-! ## the parts of the check -/

def laneErrors (members : List Insn) : List String :=
  members.zipIdx.flatMap fun (insn, idx) =>
    if idx = 0 then []
    else if insn.isLane0Only then
      [s!"lane {idx} holds a {insn.cls.name} instruction ({insn.shown}) at {hex insn.addr}; worker lanes cannot execute it"]
    else []

def lsuIdx (members : List Insn) : List Nat :=
  members.zipIdx.filterMap fun (m, i) => if m.usesLsu then some i else none

def lsuErrors (members : List Insn) : List String :=
  let lsu := lsuIdx members
  if 1 < lsu.length then
    [s!"{lsu.length} memory operations in one bundle (lanes {lsu}); only one LSU exists"]
  else
    match lsu with
    | [] => []
    | i :: _ =>
      if i ≠ 0 then [s!"memory operation in lane {i}; the LSU is wired to lane 0 only"] else []

def pairErrors (i : Nat) (a : Insn) (j : Nat) (b : Insn) : List String :=
  (if h : (a.writes ∩ b.reads).Nonempty then
    [s!"RAW dependence on {firstReg _ h} between lane {i} ({a.shown}) and lane {j} ({b.shown})"]
  else []) ++
  (if h : (a.writes ∩ b.writes).Nonempty then
    [s!"WAW dependence on {firstReg _ h} between lane {i} ({a.shown}) and lane {j} ({b.shown})"]
  else [])

def pairWarnings (i : Nat) (a : Insn) (j : Nat) (b : Insn) : List String :=
  if h : (a.reads ∩ b.writes).Nonempty then
    [s!"WAR (anti-dependence) on {firstReg _ h} between lane {i} and lane {j}; safe, but check intent"]
  else []

/-- `for i in range(n): for j in range(i + 1, n)`, what `f` appends for each pair -/
def forPairs (f : Nat → Insn → Nat → Insn → List String) : Nat → List Insn → List String
  | _, [] => []
  | i, a :: rest =>
    ((rest.zipIdx (i + 1)).flatMap fun (b, j) => f i a j b) ++ forPairs f (i + 1) rest

def fetchWarnings (b : Bundle) (icacheLineBytes : Int) : Except PyError (List String) :=
  match b.members.getLast? with
  | none => .error .indexError
  | some m =>
    let start : Int := b.hintAddr
    let stop : Int := m.addr + m.size - 1
    if icacheLineBytes = 0 then .error .zeroDivisionError
    else if start.fdiv icacheLineBytes ≠ stop.fdiv icacheLineBytes then
      .ok [s!"bundle spans an I-cache line boundary ({hex start}..{hex stop}); hardware will fall back to scalar execution"]
    else .ok []

def checkBundle (bundle : Bundle) (icacheLineBytes : Int) : Bundle × Option PyError :=
  let members := bundle.members
  let n := members.length
  if maxBundle < bundle.declaredLen then
    ({ bundle with errors := bundle.errors ++
        [s!"HINT length {bundle.declaredLen} exceeds hardware maximum {maxBundle}; hardware ignores this bundle entirely"] },
      none)
  else if n < bundle.declaredLen then
    ({ bundle with errors := bundle.errors ++
        [s!"HINT declares {bundle.declaredLen} instructions but only {n} could be decoded before end of section"] },
      none)
  else
    let bundle := { bundle with
      errors := bundle.errors ++ laneErrors members ++ lsuErrors members
        ++ forPairs pairErrors 0 members
      warnings := bundle.warnings ++ forPairs pairWarnings 0 members }
    match fetchWarnings bundle icacheLineBytes with
    | .error e => (bundle, some e)
    | .ok ws => ({ bundle with warnings := bundle.warnings ++ ws }, none)

/-! ## what the check leaves alone -/

theorem checkBundle_eq (b : Bundle) (L : Int) :
    ∃ es ws, (checkBundle b L).1 = { b with errors := es, warnings := ws } := by
  unfold checkBundle
  simp only
  split_ifs
  · exact ⟨_, _, rfl⟩
  · exact ⟨_, _, rfl⟩
  · split
    · exact ⟨_, _, rfl⟩
    · exact ⟨_, _, rfl⟩

@[simp] theorem checkBundle_hintAddr (b : Bundle) (L : Int) :
    (checkBundle b L).1.hintAddr = b.hintAddr := by
  obtain ⟨es, ws, h⟩ := checkBundle_eq b L
  rw [h]

@[simp] theorem checkBundle_declaredLen (b : Bundle) (L : Int) :
    (checkBundle b L).1.declaredLen = b.declaredLen := by
  obtain ⟨es, ws, h⟩ := checkBundle_eq b L
  rw [h]

@[simp] theorem checkBundle_members (b : Bundle) (L : Int) :
    (checkBundle b L).1.members = b.members := by
  obtain ⟨es, ws, h⟩ := checkBundle_eq b L
  rw [h]

/-- the line size decides about warnings only -/
theorem checkBundle_errors_eq (b : Bundle) (L L' : Int) :
    (checkBundle b L).1.errors = (checkBundle b L').1.errors := by
  unfold checkBundle
  simp only
  split_ifs
  · rfl
  · rfl
  · split <;> split <;> rfl

/-! ## when a part is silent -/

/-- the register tests of a pair are silent: no RAW, no WAW -/
structure RegIndependent (a b : Insn) : Prop where
  raw : Disjoint a.writes b.reads
  waw : Disjoint a.writes b.writes

instance (a b : Insn) : Decidable (RegIndependent a b) :=
  decidable_of_iff (Disjoint a.writes b.reads ∧ Disjoint a.writes b.writes)
    ⟨fun h => ⟨h.1, h.2⟩, fun h => ⟨h.raw, h.waw⟩⟩

theorem pairErrors_eq_nil (i : Nat) (a : Insn) (j : Nat) (b : Insn) :
    pairErrors i a j b = [] ↔ RegIndependent a b := by
  have hd : ∀ s t : Finset Nat, ¬ (s ∩ t).Nonempty ↔ Disjoint s t := fun s t => by
    rw [Finset.not_nonempty_iff_eq_empty, Finset.disjoint_iff_inter_eq_empty]
  unfold pairErrors
  rw [List.append_eq_nil_iff]
  constructor
  · rintro ⟨h1, h2⟩
    refine ⟨(hd _ _).mp fun hn => ?_, (hd _ _).mp fun hn => ?_⟩
    · rw [dif_pos hn] at h1
      exact List.cons_ne_nil _ _ h1
    · rw [dif_pos hn] at h2
      exact List.cons_ne_nil _ _ h2
  · rintro ⟨h1, h2⟩
    exact ⟨dif_neg ((hd _ _).mpr h1), dif_neg ((hd _ _).mpr h2)⟩

/-- a pair test that is silent exactly when `P` holds is silent on all pairs exactly when `P`
holds pairwise -/
theorem forPairs_eq_nil {f : Nat → Insn → Nat → Insn → List String} {P : Insn → Insn → Prop}
    (hf : ∀ i a j b, f i a j b = [] ↔ P a b) (i : Nat) (ms : List Insn) :
    forPairs f i ms = [] ↔ ms.Pairwise P := by
  induction ms generalizing i with
  | nil => simp [forPairs]
  | cons a rest ih =>
    have hrow : ((rest.zipIdx (i + 1)).flatMap fun (b, j) => f i a j b) = []
        ↔ ∀ b ∈ rest, P a b := by
      rw [List.flatMap_eq_nil_iff]
      constructor
      · intro h b hb
        obtain ⟨k, hk, rfl⟩ := List.getElem_of_mem hb
        have hm : (rest[k], i + 1 + k) ∈ rest.zipIdx (i + 1) := by
          rw [List.mem_zipIdx_iff_le_and_getElem?_sub]
          simp [hk]
        exact (hf _ _ _ _).mp (h _ hm)
      · rintro h ⟨b, j⟩ hb
        exact (hf _ _ _ _).mpr (h b (List.fst_mem_of_mem_zipIdx hb))
    rw [forPairs, List.append_eq_nil_iff, hrow, ih, List.pairwise_cons]

theorem mem_zipIdx_tail {α : Type*} {ms : List α} {m : α} :
    m ∈ ms.tail ↔ ∃ i, i ≠ 0 ∧ (m, i) ∈ ms.zipIdx := by
  constructor
  · intro hm
    obtain ⟨k, hk, rfl⟩ := List.getElem_of_mem hm
    refine ⟨k + 1, Nat.succ_ne_zero k, ?_⟩
    rw [List.mem_zipIdx_iff_getElem?, List.getElem_tail]
    exact List.getElem?_eq_getElem _
  · rintro ⟨i, hi, hm⟩
    obtain ⟨k, rfl⟩ := Nat.exists_eq_succ_of_ne_zero hi
    rw [List.mem_zipIdx_iff_getElem?] at hm
    refine List.mem_of_getElem? (i := k) ?_
    rw [List.getElem?_tail]
    exact hm

theorem laneErrors_eq_nil (ms : List Insn) :
    laneErrors ms = [] ↔ ∀ m ∈ ms.tail, m.isLane0Only = false := by
  unfold laneErrors
  rw [List.flatMap_eq_nil_iff]
  constructor
  · intro h m hm
    obtain ⟨i, hi, hmem⟩ := mem_zipIdx_tail.mp hm
    have hrow := h _ hmem
    by_contra hl
    simp [hi, hl] at hrow
  · rintro h ⟨m, i⟩ hmem
    by_cases hi : i = 0
    · simp [hi]
    · have hm : m ∈ ms.tail := mem_zipIdx_tail.mpr ⟨i, hi, hmem⟩
      simp [h m hm]

theorem mem_lsuIdx {ms : List Insn} {i : Nat} :
    i ∈ lsuIdx ms ↔ ∃ m, (m, i) ∈ ms.zipIdx ∧ m.usesLsu = true := by
  unfold lsuIdx
  rw [List.mem_filterMap]
  constructor
  · rintro ⟨⟨m, j⟩, hm, hj⟩
    obtain ⟨hu, hji⟩ := Option.ite_none_right_eq_some.mp hj
    obtain rfl : j = i := Option.some.inj hji
    exact ⟨m, hm, hu⟩
  · rintro ⟨m, hm, hu⟩
    exact ⟨(m, i), hm, if_pos hu⟩

theorem lsuIdx_nodup (ms : List Insn) : (lsuIdx ms).Nodup := by
  have hsub : ∀ l : List (Insn × Nat),
      (l.filterMap fun (m, i) => if m.usesLsu then some i else none).Sublist (l.map Prod.snd) :=
    fun l => by
      induction l with
      | nil => exact List.Sublist.refl _
      | cons p l ih =>
        by_cases hu : p.1.usesLsu
        · rw [List.filterMap_cons_some (b := p.2) (by simp [hu]), List.map_cons]
          exact ih.cons_cons _
        · rw [List.filterMap_cons_none (by simp [hu]), List.map_cons]
          exact ih.cons _
  refine (hsub ms.zipIdx).nodup ?_
  rw [List.zipIdx_map_snd]
  exact List.nodup_range'

/-- once the worker lanes hold no lane-0-only member the shared LSU is not oversubscribed -/
theorem lsuErrors_eq_nil {ms : List Insn} (h : ∀ m ∈ ms.tail, m.isLane0Only = false) :
    lsuErrors ms = [] := by
  have hz : ∀ i ∈ lsuIdx ms, i = 0 := by
    intro i hi
    obtain ⟨m, hm, hu⟩ := mem_lsuIdx.mp hi
    by_contra h0
    have hl := h m (mem_zipIdx_tail.mpr ⟨i, h0, hm⟩)
    rw [Insn.isLane0Only_of_usesLsu hu] at hl
    exact Bool.noConfusion hl
  have hn := lsuIdx_nodup ms
  unfold lsuErrors
  match hl : lsuIdx ms with
  | [] => rfl
  | [i] =>
    have h0 : i = 0 := hz i (by simp [hl])
    simp [h0]
  | i :: j :: rest =>
    have hi : i = 0 := hz i (by simp [hl])
    have hj : j = 0 := hz j (by simp [hl])
    simp [hl, hi, hj] at hn

/-! ## what an error-free bundle satisfies -/

structure Accepted (b : Bundle) : Prop where
  declared : b.declaredLen ≤ maxBundle
  complete : b.declaredLen ≤ b.members.length
  workers : ∀ m ∈ b.members.tail, m.isLane0Only = false
  pairs : b.members.Pairwise RegIndependent

instance (b : Bundle) : Decidable (Accepted b) :=
  decidable_of_iff (b.declaredLen ≤ maxBundle ∧ b.declaredLen ≤ b.members.length
      ∧ (∀ m ∈ b.members.tail, m.isLane0Only = false) ∧ b.members.Pairwise RegIndependent)
    ⟨fun h => ⟨h.1, h.2.1, h.2.2.1, h.2.2.2⟩,
      fun h => ⟨h.declared, h.complete, h.workers, h.pairs⟩⟩

/-- **The check leaves a bundle without errors exactly if it had none and is `Accepted`,
whatever the line size (and also when the line test raises).** -/
theorem checkBundle_errors_iff (b : Bundle) (L : Int) :
    (checkBundle b L).1.errors = [] ↔ b.errors = [] ∧ Accepted b := by
  by_cases hd : maxBundle < b.declaredLen
  · have he : (checkBundle b L).1.errors ≠ [] := by
      simp [checkBundle, hd]
    exact ⟨fun h => absurd h he, fun h => absurd h.2.declared (Nat.not_le.mpr hd)⟩
  by_cases hn : b.members.length < b.declaredLen
  · have he : (checkBundle b L).1.errors ≠ [] := by
      simp [checkBundle, hd, hn]
    exact ⟨fun h => absurd h he, fun h => absurd h.2.complete (Nat.not_le.mpr hn)⟩
  have herr : (checkBundle b L).1.errors = b.errors ++ laneErrors b.members
      ++ lsuErrors b.members ++ forPairs pairErrors 0 b.members := by
    simp only [checkBundle, if_neg hd, if_neg hn]
    split <;> rfl
  rw [herr, List.append_eq_nil_iff, List.append_eq_nil_iff, List.append_eq_nil_iff,
    laneErrors_eq_nil, forPairs_eq_nil pairErrors_eq_nil]
  constructor
  · rintro ⟨⟨⟨h0, hw⟩, -⟩, hp⟩
    exact ⟨h0, Nat.not_lt.mp hd, Nat.not_lt.mp hn, hw, hp⟩
  · rintro ⟨h0, h⟩
    exact ⟨⟨⟨h0, h.workers⟩, lsuErrors_eq_nil h.workers⟩, h.pairs⟩

end Starbug
