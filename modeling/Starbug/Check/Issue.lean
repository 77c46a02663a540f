import Starbug.Check.Bundle
import Starbug.Lib.Footprint
import Mathlib.Data.List.OfFn
import Mathlib.Data.Finset.Disjoint
import Mathlib.Data.Finset.Lattice.Basic

/-!
# What an error-free bundle means: parallel issue is sequential execution

An `Effect` of an instruction is any deterministic behaviour that respects what the decoder says
about it: it reads `reads`, changes `writes`, touches memory only if it uses the LSU, and depends
on the PC only if its class is restricted to lane 0.

`lanes` are the members as the hardware issues them: lane 0 executes its member; a worker lane
is fed some PC of the bundle, and memory or PC-relative work in it is lost.  `program` are the
same members as a stock core, or the fetch unit when it declines the bundle, executes them.

`issue_iff_program`: on a bundle without errors both end in the same registers and memory, for
every winner of every write port.
-/

namespace Starbug
open Footprint

section
variable {V M : Type*}

/-- a behaviour of the instruction `i`, as a function of its PC, that respects its footprint -/
structure Effect (V M : Type*) (i : Insn) where
  run : Nat → State Nat V M → State Nat V M
  frame : ∀ pc s r, r ∉ i.writes → (run pc s).regs r = s.regs r
  mem_frame : i.usesLsu = false → ∀ pc s, (run pc s).mem = s.mem
  local_regs : ∀ pc s t, (∀ r ∈ i.reads, s.regs r = t.regs r) →
    (i.usesLsu = true → s.mem = t.mem) → ∀ r ∈ i.writes, (run pc s).regs r = (run pc t).regs r
  local_mem : ∀ pc s t, (∀ r ∈ i.reads, s.regs r = t.regs r) →
    (i.usesLsu = true → s.mem = t.mem) → i.usesLsu = true → (run pc s).mem = (run pc t).mem
  pc_free : i.isLane0Only = false → ∀ pc pc', run pc = run pc'

def Effect.op {i : Insn} (e : Effect V M i) (pc : Nat) : Op Nat V M where
  reads := i.reads
  writes := i.writes
  usesMem := i.usesLsu = true
  run := e.run pc
  frame := fun s r hr => e.frame pc s r (fun h => hr (Finset.mem_coe.mpr h))
  mem_frame := fun h => e.mem_frame (Bool.eq_false_iff.mpr h) pc
  local_regs := fun s t hr hm r hw =>
    e.local_regs pc s t (fun r h => hr r (Finset.mem_coe.mpr h)) hm r (Finset.mem_coe.mp hw)
  local_mem := fun s t hr hm hu =>
    e.local_mem pc s t (fun r h => hr r (Finset.mem_coe.mpr h)) hm hu

abbrev Interp (V M : Type*) (ms : List Insn) := ∀ k : Fin ms.length, Effect V M (ms.get k)

/-- memory or PC-relative work, which a worker lane loses -/
def Insn.lostInWorker (i : Insn) : Bool := i.usesLsu || i.cls == .pcrel

theorem Insn.lostInWorker_of_worker {i : Insn} (h : i.isLane0Only = false) :
    i.lostInWorker = false := by
  unfold isLane0Only lostInWorker usesLsu at *
  revert h
  cases i.cls <;> decide

/-! ## the two executions -/

/-- lane `k` of a bundle whose worker lanes are fed `pcE` -/
def laneOp {ms : List Insn} (I : Interp V M ms) (pcE : Nat) (k : Fin ms.length) : Op Nat V M :=
  if k.val = 0 then (I k).op (ms.get k).addr
  else if (ms.get k).lostInWorker then Op.idle
  else (I k).op pcE

def lanes {ms : List Insn} (I : Interp V M ms) (pcE : Nat) : List (Op Nat V M) :=
  List.ofFn (laneOp I pcE)

def program {ms : List Insn} (I : Interp V M ms) : List (Op Nat V M) :=
  List.ofFn fun k => (I k).op (ms.get k).addr

/-! ## they agree -/

theorem Accepted.worker {b : Bundle} (h : Accepted b) (k : Fin b.members.length)
    (hk : k.val ≠ 0) : (b.members.get k).isLane0Only = false := by
  refine h.workers _ ?_
  obtain ⟨j, hj⟩ := Nat.exists_eq_succ_of_ne_zero hk
  refine List.mem_of_getElem? (i := j) ?_
  rw [List.getElem?_tail, ← Nat.succ_eq_add_one, ← hj]
  exact List.getElem?_eq_getElem k.isLt

/-- nothing is lost and no lane depends on the PC it is fed -/
theorem lanes_eq_program {b : Bundle} (h : Accepted b) (I : Interp V M b.members) (pcE : Nat) :
    lanes I pcE = program I := by
  have hop : ∀ k, laneOp I pcE k = (I k).op (b.members.get k).addr := by
    intro k
    unfold laneOp
    split_ifs with h0 hl
    · rfl
    · rw [Insn.lostInWorker_of_worker (h.worker k h0)] at hl
      cases hl
    · unfold Effect.op
      congr 1
      exact (I k).pc_free (h.worker k h0) pcE _
  exact congrArg List.ofFn (funext hop)

theorem RegIndependent.before {i j : Insn} (h : RegIndependent i j)
    (hj : j.isLane0Only = false) (e : Effect V M i) (f : Effect V M j) (pc pc' : Nat) :
    (e.op pc).Before (f.op pc') where
  raw := Finset.disjoint_coe.mpr h.raw
  waw := Finset.disjoint_coe.mpr h.waw
  mem := by
    rintro ⟨-, hm⟩
    have hl := Insn.isLane0Only_of_usesLsu hm
    rw [hj] at hl
    cases hl

theorem program_independent {b : Bundle} (h : Accepted b) (I : Interp V M b.members) :
    Independent (program I) := by
  refine List.pairwise_ofFn.mpr fun i j hij => ?_
  have hj : j.val ≠ 0 := by
    have hlt : i.val < j.val := hij
    omega
  exact ((List.pairwise_iff_get.mp h.pairs) i j hij).before (h.worker j hj) (I i) (I j) _ _

/-- **Issuing an error-free bundle in parallel has exactly one outcome: the registers and the
memory after its members ran one after the other.**  Nothing is asked of lane 0; if it holds a
branch, a jump or a system instruction, list order is not program order (`Starbug.Check.Steer`). -/
theorem issue_iff_program {b : Bundle} {L : Int} (hb : (checkBundle b L).1.errors = [])
    (I : Interp V M b.members) (pcE : Nat) (s t : State Nat V M) :
    Issue (lanes I pcE) s t ↔ t = seq (program I) s := by
  have hacc : Accepted b := ((checkBundle_errors_iff b L).mp hb).2
  rw [lanes_eq_program hacc I pcE]
  exact issue_iff_seq (program_independent hacc I) s t

end

/-! ## an anti-dependence in a bundle -/

/-- `lw x5, 0(x6)` in lane 0 and `addi x6, x0, 1` in lane 1, which overwrites the base -/
def warBundle : Bundle where
  hintAddr := 0
  declaredLen := 2
  members := [decode 2 0x00032283 "lw x5, 0(x6)", decode 6 0x00100313 "addi x6, x0, 1"]

def lwEffect : Effect Nat (Nat → Nat) (decode 2 0x00032283 "lw x5, 0(x6)") where
  run _ s := { s with regs := Function.update s.regs 5 (s.mem (s.regs 6)) }
  frame := fun _ s r hr => by
    have hw : (5 : Nat) ∈ (decode 2 0x00032283 "lw x5, 0(x6)").writes := by decide
    have hne : r ≠ 5 := fun h => hr (by rw [h]; exact hw)
    exact Function.update_of_ne hne _ _
  mem_frame := fun _ _ _ => rfl
  local_regs := fun _ s t hr hm r hw => by
    have hr6 : (6 : Nat) ∈ (decode 2 0x00032283 "lw x5, 0(x6)").reads := by decide
    have hu : (decode 2 0x00032283 "lw x5, 0(x6)").usesLsu = true := by decide
    have hw5 : (decode 2 0x00032283 "lw x5, 0(x6)").writes = {5} := by decide
    obtain rfl : r = 5 := Finset.mem_singleton.mp (hw5 ▸ hw)
    simp only [Function.update_self, hr 6 hr6, hm hu]
  local_mem := fun _ _ _ _ hm hu => hm hu
  pc_free := fun _ _ _ => rfl

def addiEffect : Effect Nat (Nat → Nat) (decode 6 0x00100313 "addi x6, x0, 1") where
  run _ s := { s with regs := Function.update s.regs 6 1 }
  frame := fun _ s r hr => by
    have hw : (6 : Nat) ∈ (decode 6 0x00100313 "addi x6, x0, 1").writes := by decide
    have hne : r ≠ 6 := fun h => hr (by rw [h]; exact hw)
    exact Function.update_of_ne hne _ _
  mem_frame := fun _ _ _ => rfl
  local_regs := fun _ s t _ _ r hw => by
    have hw6 : (decode 6 0x00100313 "addi x6, x0, 1").writes = {6} := by decide
    obtain rfl : r = 6 := Finset.mem_singleton.mp (hw6 ▸ hw)
    simp only [Function.update_self]
  local_mem := fun _ _ _ _ hm hu => hm hu
  pc_free := fun _ _ _ => rfl

def warInterp : Interp Nat (Nat → Nat) warBundle.members
  | ⟨0, _⟩ => lwEffect
  | ⟨1, _⟩ => addiEffect

/-- the load reads the old base, as in sequence -/
theorem issue_iff_program_war : Issue (lanes warInterp 0) ⟨fun r => r, fun a => a + 10⟩
    ⟨Function.update (Function.update (fun r => r) 5 16) 6 1, fun a => a + 10⟩ := by
  have hb : (checkBundle warBundle 64).1.errors = [] :=
    (checkBundle_errors_iff _ 64).mpr ⟨rfl, by decide, by decide, by decide, by decide⟩
  exact (issue_iff_program hb warInterp 0 _ _).mpr rfl

end Starbug
