import Starbug.Check.Issue
import Mathlib.Logic.Nontrivial.Basic

/-!
# What the bundle checker rejects without need

`Serial` says of a list of members that for every behaviour of them the parallel issue has one
outcome, the state after the sequential run.  `Harmless` is the exact condition on their footprints:
no worker lane uses the LSU, a worker that runs at the PC it is fed and depends on it writes
nothing, what a worker lane loses is overwritten by a later member that is not lost, and a member
that is not lost depends on no earlier one if it writes a register, and on no later one by its
writes.

`checkBundle_exact`: a bundle passes the check exactly if it is serial, its worker lanes hold no
lane-0-only member, and no member that writes nothing reads what an earlier one writes.
-/

namespace Starbug
open Footprint

section
variable {V M : Type*} {ms : List Insn}

/-- every behaviour ends in the state after the sequential run, and nowhere else -/
def Serial (V M : Type*) (ms : List Insn) : Prop :=
  ∀ (I : Interp V M ms) (pcE : Nat) (s t : State Nat V M),
    Issue (lanes I pcE) s t ↔ t = seq (program I) s

/-- a member that a worker lane does not execute -/
def Lost (ms : List Insn) (k : Fin ms.length) : Prop :=
  k.val ≠ 0 ∧ (ms.get k).lostInWorker = true

structure Harmless (ms : List Insn) : Prop where
  mem : ∀ k : Fin ms.length, k.val ≠ 0 → (ms.get k).usesLsu = false
  pc : ∀ k : Fin ms.length, k.val ≠ 0 → ¬ Lost ms k → (ms.get k).isLane0Only = true →
    (ms.get k).writes = ∅
  covered : ∀ k, Lost ms k → ∀ r ∈ (ms.get k).writes,
    ∃ j, k < j ∧ ¬ Lost ms j ∧ r ∈ (ms.get j).writes
  raw : ∀ i j, i < j → ¬ Lost ms j → (ms.get j).writes.Nonempty →
    Disjoint (ms.get i).writes (ms.get j).reads
  waw : ∀ i j, i < j → ¬ Lost ms i → Disjoint (ms.get i).writes (ms.get j).writes

theorem Effect.run_op {i : Insn} (e : Effect V M i) (pc : Nat) (s : State Nat V M) :
    (e.op pc).run s = e.run pc s := rfl

/-! ## lanes by index -/

/-- a list by index, cut at one of them -/
theorem ofFn_cut {α : Type*} {n : Nat} (f : Fin n → α) (k : Fin n) : ∃ pre post,
    List.ofFn f = pre ++ f k :: post ∧ (∀ a, a ∈ pre ↔ ∃ i, i < k ∧ f i = a)
      ∧ ∀ b, b ∈ post ↔ ∃ j, k < j ∧ f j = b := by
  have hk : k.val < (List.ofFn f).length := by
    rw [List.length_ofFn]
    exact k.isLt
  refine ⟨(List.ofFn f).take k, (List.ofFn f).drop (k + 1), ?_, fun a => ?_, fun b => ?_⟩
  · have hget : (List.ofFn f)[k.val] = f k := List.getElem_ofFn hk
    rw [← hget, List.getElem_cons_drop, List.take_append_drop]
  · rw [List.mem_take_iff_getElem]
    constructor
    · intro h
      obtain ⟨i, hi, rfl⟩ := h
      have hin : i < n := Nat.lt_of_lt_of_le hi (Nat.le_trans (Nat.min_le_left _ _) k.isLt.le)
      exact ⟨⟨i, hin⟩, Nat.lt_of_lt_of_le hi (Nat.min_le_left _ _), (List.getElem_ofFn _).symm⟩
    · intro h
      obtain ⟨i, hi, rfl⟩ := h
      refine ⟨i, ?_, List.getElem_ofFn _⟩
      rw [List.length_ofFn]
      exact Nat.lt_min.mpr ⟨hi, i.isLt⟩
  · rw [List.mem_drop_iff_getElem]
    constructor
    · intro h
      obtain ⟨j, hj, rfl⟩ := h
      have hjn : k + 1 + j < n := by
        rw [List.length_ofFn] at hj
        omega
      exact ⟨⟨k + 1 + j, hjn⟩, show k.val < k + 1 + j by omega, (List.getElem_ofFn _).symm⟩
    · intro h
      obtain ⟨j, hj, rfl⟩ := h
      have hle : k.val + 1 ≤ j.val := hj
      refine ⟨j - (k + 1), ?_, ?_⟩
      · rw [List.length_ofFn]
        have hlt := j.isLt
        omega
      · rw [List.getElem_ofFn]
        congr 1
        apply Fin.ext
        show k.val + 1 + (j.val - (k.val + 1)) = j.val
        omega

theorem laneOp_of_lost {I : Interp V M ms} {pcE : Nat} {k : Fin ms.length} (h : Lost ms k) :
    laneOp I pcE k = Op.idle := by
  unfold laneOp
  rw [if_neg h.1, if_pos h.2]

theorem laneOp_of_not_lost {I : Interp V M ms} {pcE : Nat} {k : Fin ms.length}
    (h : ¬ Lost ms k) :
    laneOp I pcE k = (I k).op (if k.val = 0 then (ms.get k).addr else pcE) := by
  unfold laneOp
  split_ifs with h0 hl
  · rfl
  · exact absurd ⟨h0, hl⟩ h
  · rfl

theorem mem_lanes {I : Interp V M ms} {pcE : Nat} {o : Op Nat V M} :
    o ∈ lanes I pcE ↔ ∃ k, laneOp I pcE k = o :=
  List.mem_ofFn

theorem mem_program {I : Interp V M ms} {o : Op Nat V M} :
    o ∈ program I ↔ ∃ k, (I k).op (ms.get k).addr = o :=
  List.mem_ofFn

/-- a member that is not lost and writes something does not depend on the PC it is fed -/
theorem Harmless.run_eq (h : Harmless ms) (I : Interp V M ms) (pcE : Nat) {k : Fin ms.length}
    (hl : ¬ Lost ms k) (hw : (ms.get k).writes.Nonempty) :
    (I k).run (if k.val = 0 then (ms.get k).addr else pcE) = (I k).run (ms.get k).addr := by
  split_ifs with h0
  · rfl
  · apply (I k).pc_free
    apply Bool.eq_false_iff.mpr
    intro hlane
    rw [h.pc k h0 hl hlane] at hw
    exact Finset.not_nonempty_empty hw

theorem Harmless.lsu_lane0 (h : Harmless ms) {k : Fin ms.length}
    (hu : (ms.get k).usesLsu = true) : k.val = 0 := by
  by_contra h0
  rw [h.mem k h0] at hu
  cases hu

/-- in order, a member that is not lost is the last to write its registers and reads what it would
read at once -/
theorem Harmless.program_regs (h : Harmless ms) (I : Interp V M ms) (s : State Nat V M)
    {k : Fin ms.length} (hl : ¬ Lost ms k) {r : Nat} (hr : r ∈ (ms.get k).writes) :
    (seq (program I) s).regs r = ((I k).run (ms.get k).addr s).regs r := by
  obtain ⟨pre, post, hcut, hpre, hpost⟩ := ofFn_cut (fun k => (I k).op (ms.get k).addr) k
  show (seq (List.ofFn fun k => (I k).op (ms.get k).addr) s).regs r = _
  rw [hcut, seq_regs_of_last (show r ∈ ((I k).op (ms.get k).addr).writes from hr)]
  · rfl
  · intro b hb hrb
    obtain ⟨j, hj, rfl⟩ := (hpost b).mp hb
    exact Finset.disjoint_left.mp (h.waw k j hj hl) hr hrb
  · intro a ha
    obtain ⟨i, hi, rfl⟩ := (hpre a).mp ha
    exact Finset.disjoint_coe.mpr (h.raw i k hi hl ⟨r, hr⟩)
  · intro hu a ha
    obtain ⟨i, hi, -⟩ := (hpre a).mp ha
    have h0 := h.lsu_lane0 hu
    have hlt : i.val < k.val := hi
    omega

/-- in order, a member that uses the LSU is the first of all and the only one to do so -/
theorem Harmless.program_mem (h : Harmless ms) (I : Interp V M ms) (s : State Nat V M)
    {k : Fin ms.length} (hu : (ms.get k).usesLsu = true) :
    (seq (program I) s).mem = ((I k).run (ms.get k).addr s).mem := by
  have h0 := h.lsu_lane0 hu
  obtain ⟨pre, post, hcut, hpre, hpost⟩ := ofFn_cut (fun k => (I k).op (ms.get k).addr) k
  have hnil : pre = [] := by
    apply List.eq_nil_iff_forall_not_mem.mpr
    intro a ha
    obtain ⟨i, hi, -⟩ := (hpre a).mp ha
    have hlt : i.val < k.val := hi
    omega
  show (seq (List.ofFn fun k => (I k).op (ms.get k).addr) s).mem = _
  rw [hcut, hnil, List.nil_append, seq_cons, seq_mem_frame]
  · rfl
  · intro b hb hub
    obtain ⟨j, hj, rfl⟩ := (hpost b).mp hb
    have hlt : k.val < j.val := hj
    have hj0 := h.lsu_lane0 hub
    omega

theorem Harmless.serial (h : Harmless ms) : Serial V M ms := by
  intro I pcE s
  apply issue_iff_agreed.mpr
  constructor
  case regs =>
    intro o ho r hr
    obtain ⟨k, rfl⟩ := mem_lanes.mp ho
    by_cases hl : Lost ms k
    · rw [laneOp_of_lost hl] at hr
      exact absurd hr (Set.notMem_empty r)
    · rw [laneOp_of_not_lost hl] at hr ⊢
      have hrk : r ∈ (ms.get k).writes := hr
      rw [h.program_regs I s hl hrk]
      show ((I k).run (ms.get k).addr s).regs r = ((I k).run _ s).regs r
      rw [h.run_eq I pcE hl ⟨r, hrk⟩]
  case regs_old =>
    intro r hr
    apply seq_frame
    intro o ho hw
    obtain ⟨k, rfl⟩ := mem_program.mp ho
    have hlive : ∃ j, ¬ Lost ms j ∧ r ∈ (ms.get j).writes := by
      by_cases hl : Lost ms k
      · obtain ⟨j, -, hj⟩ := h.covered k hl r hw
        exact ⟨j, hj⟩
      · exact ⟨k, hl, hw⟩
    obtain ⟨j, hj, hrj⟩ := hlive
    apply hr (laneOp I pcE j) (mem_lanes.mpr ⟨j, rfl⟩)
    rw [laneOp_of_not_lost hj]
    exact hrj
  case mem =>
    intro o ho hu
    obtain ⟨k, rfl⟩ := mem_lanes.mp ho
    by_cases hl : Lost ms k
    · rw [laneOp_of_lost hl] at hu
      exact hu.elim
    · rw [laneOp_of_not_lost hl] at hu ⊢
      rw [h.program_mem I s hu, if_pos (h.lsu_lane0 hu)]
      rfl
  case mem_old =>
    intro hn
    apply seq_mem_frame
    intro o ho hu
    obtain ⟨k, rfl⟩ := mem_program.mp ho
    have hl : ¬ Lost ms k := fun hl => hl.1 (h.lsu_lane0 hu)
    apply hn (laneOp I pcE k) (mem_lanes.mpr ⟨k, rfl⟩)
    rw [laneOp_of_not_lost hl]
    exact hu

/-! ## behaviours that tell the two executions apart -/

/-- `i` leaves `value` of its PC and of the registers it reads in the registers it writes, and
`cell` in memory -/
def Effect.table (v₀ : V) (cell : M) (i : Insn) (value : Nat → (Nat → V) → V)
    (hpc : i.isLane0Only = false → ∀ pc pc', value pc = value pc') : Effect V M i where
  run pc s :=
    { regs := fun r => if r ∈ i.writes then value pc fun q => if q ∈ i.reads then s.regs q else v₀
        else s.regs r
      mem := if i.usesLsu = true then cell else s.mem }
  frame := fun _ _ _ hr => if_neg hr
  mem_frame := fun hu _ _ => if_neg (Bool.eq_false_iff.mp hu)
  local_regs := fun pc s t hr _ r hw => by
    have hread : (fun q => if q ∈ i.reads then s.regs q else v₀)
        = fun q => if q ∈ i.reads then t.regs q else v₀ := by
      funext q
      exact ite_congr rfl (fun hq => hr q hq) fun _ => rfl
    simp only [if_pos hw, hread]
  local_mem := fun _ _ _ _ _ hu => by
    simp only [if_pos hu]
  pc_free := fun h pc pc' => by
    rw [hpc h pc pc']

section table
variable {v₀ : V} {cell : M} {i : Insn} {value : Nat → (Nat → V) → V}
  {hpc : i.isLane0Only = false → ∀ pc pc', value pc = value pc'}

theorem Effect.table_regs {r : Nat} (hr : r ∈ i.writes) (pc : Nat) (s : State Nat V M) :
    ((Effect.table v₀ cell i value hpc).run pc s).regs r
      = value pc fun q => if q ∈ i.reads then s.regs q else v₀ :=
  if_pos hr

theorem Effect.table_mem (hu : i.usesLsu = true) (pc : Nat) (s : State Nat V M) :
    ((Effect.table v₀ cell i value hpc).run pc s).mem = cell :=
  if_pos hu

end table

/-- every member leaves a value and a cell of its own -/
def constants (ms : List Insn) (value : Fin ms.length → V) (cell : Fin ms.length → M) :
    Interp V M ms :=
  fun k => .table (value k) (cell k) _ (fun _ _ => value k) fun _ _ _ => rfl

theorem constants_regs {value : Fin ms.length → V} {cell : Fin ms.length → M}
    {k : Fin ms.length} {r : Nat} (hr : r ∈ (ms.get k).writes) (pc : Nat) (s : State Nat V M) :
    ((constants ms value cell k).run pc s).regs r = value k :=
  Effect.table_regs hr pc s

theorem constants_mem {value : Fin ms.length → V} {cell : Fin ms.length → M}
    {k : Fin ms.length} (hu : (ms.get k).usesLsu = true) (pc : Nat) (s : State Nat V M) :
    ((constants ms value cell k).run pc s).mem = cell k :=
  Effect.table_mem hu pc s

/-- a part of the state that member `k` touches ends as `v` if `k` and whatever touches it later
make it `v` -/
theorem seq_program_settled {α : Type*} {I : Interp V M ms} {f : State Nat V M → α}
    (touches : Op Nat V M → Prop) {v : α}
    (hframe : ∀ o : Op Nat V M, ¬ touches o → ∀ s, f (o.run s) = f s) {k : Fin ms.length}
    (hk : touches ((I k).op (ms.get k).addr))
    (hv : ∀ j, k ≤ j → touches ((I j).op (ms.get j).addr) →
      ∀ s, f ((I j).run (ms.get j).addr s) = v) (s : State Nat V M) :
    f (seq (program I) s) = v := by
  obtain ⟨pre, post, hcut, -, hpost⟩ := ofFn_cut (fun k => (I k).op (ms.get k).addr) k
  show f (seq (List.ofFn fun k => (I k).op (ms.get k).addr) s) = v
  rw [hcut, seq_append]
  apply seq_settled touches _ (fun o _ => hframe o)
    (Or.inr ⟨_, List.mem_cons_self, hk⟩)
  intro o ho ht s'
  rcases List.mem_cons.mp ho with rfl | ho
  · exact hv k (Nat.le_refl _) hk s'
  · obtain ⟨j, hj, rfl⟩ := (hpost o).mp ho
    exact hv j (Nat.le_of_lt hj) ht s'

/-- the same for a register -/
theorem seq_program_regs {I : Interp V M ms} {r : Nat} {v : V} {k : Fin ms.length}
    (hk : r ∈ (ms.get k).writes)
    (hv : ∀ j, k ≤ j → r ∈ (ms.get j).writes → ∀ s, ((I j).run (ms.get j).addr s).regs r = v)
    (s : State Nat V M) : (seq (program I) s).regs r = v :=
  seq_program_settled (f := fun s => s.regs r) (fun o => r ∈ o.writes)
    (fun o ho s => o.frame s r ho) hk hv s

/-! ## what every serial list is -/

theorem Serial.agreed (h : Serial V M ms) (I : Interp V M ms) (pcE : Nat) (s : State Nat V M) :
    Agreed (lanes I pcE) s (seq (program I) s) :=
  issue_iff_agreed.mp (h I pcE s)

/-- what a member that is not lost writes is what the run ends with -/
theorem Serial.regs (h : Serial V M ms) (I : Interp V M ms) (pcE : Nat) (s : State Nat V M)
    {k : Fin ms.length} (hl : ¬ Lost ms k) {r : Nat} (hr : r ∈ (ms.get k).writes) :
    (seq (program I) s).regs r
      = ((I k).run (if k.val = 0 then (ms.get k).addr else pcE) s).regs r := by
  have hk := (h.agreed I pcE s).regs (laneOp I pcE k) (mem_lanes.mpr ⟨k, rfl⟩) r
  rw [laneOp_of_not_lost hl] at hk
  exact hk hr

/-- memory in a worker lane stays as it was -/
theorem Serial.mem [Nontrivial M] [Nonempty V] (h : Serial V M ms) (k : Fin ms.length)
    (h0 : k.val ≠ 0) : (ms.get k).usesLsu = false := by
  obtain ⟨m₀, m₁, hne⟩ := exists_pair_ne M
  obtain ⟨v⟩ := ‹Nonempty V›
  apply Bool.eq_false_iff.mpr
  intro hu
  let cell : Fin ms.length → M := fun j => if j.val = 0 then m₀ else m₁
  have hlost : ∀ j : Fin ms.length, (ms.get j).usesLsu = true → ¬ Lost ms j → j.val = 0 := by
    intro j huj hj
    by_contra hj0
    apply hj
    refine ⟨hj0, ?_⟩
    unfold Insn.lostInWorker
    rw [huj, Bool.true_or]
  have hissue := h.agreed (constants ms (fun _ => v) cell) 0 ⟨fun _ => v, m₀⟩
  have hold : (seq (program (constants ms (fun _ => v) cell)) ⟨fun _ => v, m₀⟩).mem = m₀ := by
    by_cases hlane : ∃ o ∈ lanes (constants ms (fun _ => v) cell) 0, o.usesMem
    · obtain ⟨o, ho, huo⟩ := hlane
      rw [hissue.mem o ho huo]
      obtain ⟨j, rfl⟩ := mem_lanes.mp ho
      by_cases hj : Lost ms j
      · rw [laneOp_of_lost hj] at huo
        exact huo.elim
      · rw [laneOp_of_not_lost hj] at huo ⊢
        rw [Effect.run_op, constants_mem huo]
        exact if_pos (hlost j huo hj)
    · exact hissue.mem_old fun o ho huo => hlane ⟨o, ho, huo⟩
  have hnew : (seq (program (constants ms (fun _ => v) cell)) ⟨fun _ => v, m₀⟩).mem = m₁ := by
    apply seq_program_settled (f := State.mem) Op.usesMem
      (fun o ho s => o.mem_frame ho s) (k := k) hu
    intro j hkj huj s
    rw [constants_mem huj]
    have hle : k.val ≤ j.val := hkj
    exact if_neg (by omega)
  exact hne (hold.symm.trans hnew)

section
variable [Nontrivial V]

/-- the two writers leave different values -/
theorem Serial.waw [Nonempty M] (h : Serial V M ms) (i j : Fin ms.length) (hij : i < j)
    (hl : ¬ Lost ms i) : Disjoint (ms.get i).writes (ms.get j).writes := by
  obtain ⟨v₀, v₁, hne⟩ := exists_pair_ne V
  obtain ⟨m⟩ := ‹Nonempty M›
  apply Finset.disjoint_left.mpr
  intro r hri hrj
  let value : Fin ms.length → V := fun k => if k = i then v₀ else v₁
  have hfirst : (seq (program (constants ms value fun _ => m)) ⟨fun _ => v₀, m⟩).regs r = v₀ := by
    rw [h.regs _ 0 _ hl hri, constants_regs hri]
    exact if_pos rfl
  have hlast : (seq (program (constants ms value fun _ => m)) ⟨fun _ => v₀, m⟩).regs r = v₁ := by
    apply seq_program_regs hrj
    intro l hjl hrl s
    rw [constants_regs hrl]
    exact if_neg (ne_of_gt (lt_of_lt_of_le hij hjl))
  exact hne (hfirst.symm.trans hlast)

/-- what is lost is written in sequence -/
theorem Serial.covered [Nonempty M] (h : Serial V M ms) (k : Fin ms.length) (hl : Lost ms k)
    (r : Nat) (hr : r ∈ (ms.get k).writes) :
    ∃ j, k < j ∧ ¬ Lost ms j ∧ r ∈ (ms.get j).writes := by
  obtain ⟨v₀, v₁, hne⟩ := exists_pair_ne V
  obtain ⟨m⟩ := ‹Nonempty M›
  by_contra hno
  have hold : (seq (program (constants ms (fun _ => v₁) fun _ => m)) ⟨fun _ => v₀, m⟩).regs r
      = v₀ := by
    apply (h.agreed _ 0 _).regs_old
    intro o ho hw
    obtain ⟨j, rfl⟩ := mem_lanes.mp ho
    by_cases hj : Lost ms j
    · rw [laneOp_of_lost hj] at hw
      exact Set.notMem_empty r hw
    · rw [laneOp_of_not_lost hj] at hw
      have hrj : r ∈ (ms.get j).writes := hw
      -- a live writer is neither behind `k` nor before it
      rcases lt_trichotomy j k with hjk | rfl | hkj
      · exact Finset.disjoint_left.mp (h.waw j k hjk hj) hrj hr
      · exact hj hl
      · exact hno ⟨j, hkj, hj, hrj⟩
  have hnew : (seq (program (constants ms (fun _ => v₁) fun _ => m)) ⟨fun _ => v₀, m⟩).regs r
      = v₁ :=
    seq_program_regs hr (fun j _ hrj s => constants_regs hrj _ s) _
  exact hne (hold.symm.trans hnew)

/-- the member is fed another PC than its own -/
theorem Serial.pc [Nonempty M] (h : Serial V M ms) (k : Fin ms.length) (h0 : k.val ≠ 0)
    (hl : ¬ Lost ms k) (hlane : (ms.get k).isLane0Only = true) : (ms.get k).writes = ∅ := by
  obtain ⟨v₀, v₁, hne⟩ := exists_pair_ne V
  obtain ⟨m⟩ := ‹Nonempty M›
  apply Finset.eq_empty_of_forall_notMem
  intro r hr
  let I : Interp V M ms := fun j => .table v₀ m (ms.get j)
    (fun pc _ => if (ms.get j).isLane0Only = true ∧ pc ≠ (ms.get k).addr then v₀ else v₁)
    fun hj pc pc' => by
      rw [hj]
      rfl
  have hfed : (seq (program I) ⟨fun _ => v₀, m⟩).regs r = v₀ := by
    rw [h.regs I ((ms.get k).addr + 1) _ hl hr, if_neg h0]
    show ((Effect.table _ _ _ _ _).run _ _).regs r = v₀
    rw [Effect.table_regs hr]
    exact if_pos ⟨hlane, Nat.succ_ne_self _⟩
  have hown : (seq (program I) ⟨fun _ => v₀, m⟩).regs r = v₁ := by
    apply seq_program_regs hr
    intro j hkj hrj s
    rcases lt_or_eq_of_le hkj with hlt | rfl
    · exact absurd hrj (Finset.disjoint_left.mp (h.waw k j hlt hl) hr)
    · show ((Effect.table _ _ _ _ _).run _ _).regs r = v₁
      rw [Effect.table_regs hr]
      exact if_neg fun hc => hc.2 rfl
  exact hne (hfed.symm.trans hown)

/-- the reader copies the register it reads -/
theorem Serial.raw [Nonempty M] (h : Serial V M ms) (i j : Fin ms.length) (hij : i < j)
    (hl : ¬ Lost ms j) (hw : (ms.get j).writes.Nonempty) :
    Disjoint (ms.get i).writes (ms.get j).reads := by
  obtain ⟨v₀, v₁, hne⟩ := exists_pair_ne V
  obtain ⟨m⟩ := ‹Nonempty M›
  obtain ⟨q, hq⟩ := hw
  apply Finset.disjoint_left.mpr
  intro r hri hrj
  let I : Interp V M ms := fun k => .table v₀ m (ms.get k)
    (fun _ regs => if k = j then regs r else v₁) fun _ _ _ => rfl
  have hcopy : ∀ pc s, ((I j).run pc s).regs q = s.regs r := by
    intro pc s
    show ((Effect.table _ _ _ _ _).run _ _).regs q = s.regs r
    rw [Effect.table_regs hq, if_pos rfl]
    exact if_pos hrj
  have hold : (seq (program I) ⟨fun _ => v₀, m⟩).regs q = v₀ := by
    rw [h.regs I 0 _ hl hq, hcopy]
  have hnew : (seq (program I) ⟨fun _ => v₀, m⟩).regs q = v₁ := by
    obtain ⟨pre, post, hcut, hpre, hpost⟩ := ofFn_cut (fun k => (I k).op (ms.get k).addr) j
    show (seq (List.ofFn fun k => (I k).op (ms.get k).addr) _).regs q = v₁
    rw [hcut, seq_append, seq_cons, seq_frame post q]
    · rw [Effect.run_op, hcopy]
      apply seq_settled (f := fun s => s.regs r) (fun o => r ∈ o.writes) _
        (fun o _ ho s => o.frame s r ho) (Or.inr ⟨_, (hpre _).mpr ⟨i, hij, rfl⟩, hri⟩)
      intro o ho hr s
      obtain ⟨k, hk, rfl⟩ := (hpre o).mp ho
      rw [Effect.run_op]
      show ((Effect.table _ _ _ _ _).run _ _).regs r = v₁
      rw [Effect.table_regs hr]
      exact if_neg (ne_of_lt hk)
    · intro o ho hqo
      obtain ⟨k, hk, rfl⟩ := (hpost o).mp ho
      exact Finset.disjoint_left.mp (h.waw j k hk hl) hq hqo
  exact hne (hold.symm.trans hnew)

/-- **Members are serial exactly if they are harmless.** -/
theorem serial_iff_harmless [Nontrivial M] : Serial V M ms ↔ Harmless ms :=
  ⟨fun h => ⟨h.mem, h.pc, h.covered, h.raw, h.waw⟩, Harmless.serial⟩

end

/-! ## the check -/

/-- where no worker lane holds a lane-0-only member nothing is lost -/
theorem Harmless.pairs (h : Harmless ms) (hw : ∀ m ∈ ms.tail, m.isLane0Only = false)
    (hinert : ms.Pairwise fun a b => b.writes = ∅ → Disjoint a.writes b.reads) :
    ms.Pairwise RegIndependent := by
  have hlane : ∀ k : Fin ms.length, k.val ≠ 0 → (ms.get k).isLane0Only = false := by
    intro k hk
    apply hw
    obtain ⟨j, hj⟩ := Nat.exists_eq_succ_of_ne_zero hk
    apply List.mem_of_getElem? (i := j)
    rw [List.getElem?_tail, ← Nat.succ_eq_add_one, ← hj]
    exact List.getElem?_eq_getElem k.isLt
  have hlive : ∀ k, ¬ Lost ms k := by
    intro k hl
    have hlost := hl.2
    rw [Insn.lostInWorker_of_worker (hlane k hl.1)] at hlost
    cases hlost
  apply List.pairwise_iff_get.mpr
  intro i j hij
  refine ⟨?_, h.waw i j hij (hlive i)⟩
  rcases (ms.get j).writes.eq_empty_or_nonempty with hnone | hsome
  · exact (List.pairwise_iff_get.mp hinert) i j hij hnone
  · exact h.raw i j hij (hlive j) hsome

/-- **A bundle that is not too long and complete passes the check exactly if its members are
serial, no worker lane holds a lane-0-only member and no member that writes nothing reads what an
earlier one writes; and the members are serial exactly if they are harmless.** -/
theorem checkBundle_exact [Nontrivial V] [Nontrivial M] {b : Bundle} (hfresh : b.errors = [])
    (hlen : b.declaredLen ≤ maxBundle) (hmembers : b.declaredLen ≤ b.members.length) (L : Int) :
    ((checkBundle b L).1.errors = []
      ↔ Serial V M b.members ∧ (∀ m ∈ b.members.tail, m.isLane0Only = false)
        ∧ b.members.Pairwise fun x y => y.writes = ∅ → Disjoint x.writes y.reads)
    ∧ (Serial V M b.members ↔ Harmless b.members) := by
  refine ⟨?_, serial_iff_harmless⟩
  constructor
  · intro h
    have hacc : Accepted b := ((checkBundle_errors_iff b L).mp h).2
    refine ⟨fun I pcE s t => ?_, hacc.workers, hacc.pairs.imp fun hp _ => hp.raw⟩
    rw [lanes_eq_program hacc I pcE]
    exact issue_iff_seq (program_independent hacc I) s t
  · intro h
    obtain ⟨hserial, hworkers, hinert⟩ := h
    have hpairs := (serial_iff_harmless.mp hserial).pairs hworkers hinert
    exact (checkBundle_errors_iff b L).mpr ⟨hfresh, hlen, hmembers, hworkers, hpairs⟩

end

/-! ## a register read too early -/

/-- `addi x6, x0, 1; add x7, x6, x6` -/
def rawBundle : Bundle where
  hintAddr := 0
  declaredLen := 2
  members := [decode 2 0x00100313 "addi x6, x0, 1", decode 6 0x006303B3 "add x7, x6, x6"]

theorem checkBundle_exact_raw : (checkBundle rawBundle 64).1.errors ≠ []
    ∧ ¬ Serial Nat Bool rawBundle.members := by
  have hexact := checkBundle_exact (V := Nat) (M := Bool) (b := rawBundle) rfl
    (by decide) (by decide) 64
  have hrej : (checkBundle rawBundle 64).1.errors ≠ [] := by
    intro h
    exact absurd ((checkBundle_errors_iff rawBundle 64).mp h).2 (by decide)
  refine ⟨hrej, fun hserial => ?_⟩
  exact hrej (hexact.1.mpr ⟨hserial, by decide, by decide⟩)

end Starbug
