import Starbug.Check.Bundle
import Starbug.Lib.Footprint
import Mathlib.Data.Finset.Disjoint
import Mathlib.Data.Finset.Lattice.Basic
import Mathlib.Logic.Function.Basic

/-!
# Error-free bundles whose lane 0 steers the machine

The checker allows a branch, a jump or a system instruction in lane 0, and it compares register
sets only.  Here the state has what these sets do not record: the rounding mode and the accrued
flags of `fcsr`, and the next PC.

* `ParallelIssue`   every member reads the state before the bundle, and the workers commit whatever
                    lane 0 does; their flags are ORed into `fflags`.  What becomes of them if
                    lane 0 writes `fflags` in the same cycle the contract does not say: it is a
                    parameter, `clash`;
* `sequential`      a redirect in lane 0 skips the workers, and they see the `fcsr` it leaves.

`parallelIssue_iff_sequential` says on which states the two agree: if lane 0 redirects, every
worker must be idle; if it falls through, the workers must not notice the rounding mode it leaves;
and a `clash` must come out as in the sequence.
-/

namespace Starbug
open Footprint

/-! ## behaviours -/

/-- the architectural state of a hart, less the PC: `x` and `f` registers, `fcsr` -/
@[ext] structure Arch (V : Type*) where
  regs : Nat → V
  frm : BitVec 3
  fflags : BitVec 5

@[ext] structure Outcome (V : Type*) where
  arch : Arch V
  pc : Nat

/-- classes that may redirect the PC or write `fcsr` -/
def steering : List Cls := [.branch, .jump, .system]

/-- a lane-0 member that steers, and what it does: the values it writes, the rounding mode it
leaves, the `fflags` if it writes them, and the PC if it redirects -/
structure Lane0 (V : Type*) where
  insn : Insn
  steers : insn.cls ∈ steering
  value : Arch V → Nat → V
  frm : Arch V → BitVec 3
  fflags : Arch V → Option (BitVec 5)
  redirect : Arch V → Option Nat
  value_local : ∀ s t, (∀ r ∈ insn.reads, s.regs r = t.regs r) → s.frm = t.frm →
    s.fflags = t.fflags → ∀ r ∈ insn.writes, value s r = value t r
  fcsr_frame : insn.cls ≠ .system → ∀ s, frm s = s.frm ∧ fflags s = none

/-- a worker member and what it does under a rounding mode: the values it writes and the flags
it raises -/
structure Worker (V : Type*) where
  insn : Insn
  value : BitVec 3 → (Nat → V) → Nat → V
  flags : BitVec 3 → (Nat → V) → BitVec 5
  value_local : ∀ rm s t, (∀ r ∈ insn.reads, s r = t r) → ∀ r ∈ insn.writes,
    value rm s r = value rm t r
  flags_local : ∀ rm s t, (∀ r ∈ insn.reads, s r = t r) → flags rm s = flags rm t
  int_frame : insn.cls ≠ .fpu → insn.cls ≠ .fpdiv → ∀ rm rm' s,
    value rm s = value rm' s ∧ flags rm s = 0

section
variable {V : Type*}

def Lane0.op (e : Lane0 V) (frm : BitVec 3) (fflags : BitVec 5) : Op Nat V Unit where
  reads := e.insn.reads
  writes := e.insn.writes
  usesMem := False
  run s := { s with
    regs := fun r => if r ∈ e.insn.writes then e.value ⟨s.regs, frm, fflags⟩ r else s.regs r }
  frame := fun s r hr => if_neg (fun h => hr (Finset.mem_coe.mpr h))
  mem_frame := fun _ _ => rfl
  local_regs := fun s t hr _ r hw => by
    have hw' : r ∈ e.insn.writes := Finset.mem_coe.mp hw
    simp only [if_pos hw']
    exact e.value_local ⟨s.regs, frm, fflags⟩ ⟨t.regs, frm, fflags⟩
      (fun r h => hr r (Finset.mem_coe.mpr h)) rfl rfl r hw'
  local_mem := fun _ _ _ _ h => h.elim

def Worker.op (rm : BitVec 3) (w : Worker V) : Op Nat V Unit where
  reads := w.insn.reads
  writes := w.insn.writes
  usesMem := False
  run s := { s with
    regs := fun r => if r ∈ w.insn.writes then w.value rm s.regs r else s.regs r }
  frame := fun s r hr => if_neg (fun h => hr (Finset.mem_coe.mpr h))
  mem_frame := fun _ _ => rfl
  local_regs := fun s t hr _ r hw => by
    have hw' : r ∈ w.insn.writes := Finset.mem_coe.mp hw
    simp only [if_pos hw']
    exact w.value_local rm s.regs t.regs (fun r h => hr r (Finset.mem_coe.mpr h)) r hw'
  local_mem := fun _ _ _ _ h => h.elim

def accrued (ws : List (Worker V)) (rm : BitVec 3) (regs : Nat → V) : BitVec 5 :=
  ws.foldr (fun w a => w.flags rm regs ||| a) 0

/-! ## the two executions -/

/-- the flags behind a bundle whose workers raise `raised`: they are ORed into those before it,
unless lane 0 writes `fflags`; then `clash` has the flags before, those written and those raised -/
def Lane0.merged (clash : BitVec 5 → BitVec 5 → BitVec 5 → BitVec 5) (e : Lane0 V) (s : Arch V)
    (raised : BitVec 5) : BitVec 5 :=
  match e.fflags s with
  | none => s.fflags ||| raised
  | some written => clash s.fflags written raised

/-- all lanes at once, `stop` being the address behind the bundle -/
structure ParallelIssue (clash : BitVec 5 → BitVec 5 → BitVec 5 → BitVec 5) (e : Lane0 V)
    (ws : List (Worker V)) (stop : Nat) (s : Arch V) (t : Outcome V) : Prop where
  regs : Issue (e.op s.frm s.fflags :: ws.map (Worker.op s.frm)) ⟨s.regs, ()⟩ ⟨t.arch.regs, ()⟩
  frm : t.arch.frm = e.frm s
  fflags : t.arch.fflags = e.merged clash s (accrued ws s.frm s.regs)
  pc : t.pc = (e.redirect s).getD stop

def Lane0.step (e : Lane0 V) (s : Arch V) : Arch V where
  regs := ((e.op s.frm s.fflags).run ⟨s.regs, ()⟩).regs
  frm := e.frm s
  fflags := (e.fflags s).getD s.fflags

def Worker.step (s : Arch V) (w : Worker V) : Arch V where
  regs := ((w.op s.frm).run ⟨s.regs, ()⟩).regs
  frm := s.frm
  fflags := s.fflags ||| w.flags s.frm s.regs

def sequential (e : Lane0 V) (ws : List (Worker V)) (stop : Nat) (s : Arch V) : Outcome V :=
  match e.redirect s with
  | some pc => ⟨e.step s, pc⟩
  | none => ⟨ws.foldl Worker.step (e.step s), stop⟩

/-! ## when they agree -/

/-- if lane 0 redirects, no worker changes a register and the flags are those it leaves; if it
falls through, the workers compute the same under the old and the new rounding mode, and the flags
are those they raise under the new one on top of what it leaves -/
def Agrees (clash : BitVec 5 → BitVec 5 → BitVec 5 → BitVec 5) (e : Lane0 V)
    (ws : List (Worker V)) (s : Arch V) : Prop :=
  match e.redirect s with
  | some _ =>
    (∀ w ∈ ws, ∀ r ∈ w.insn.writes, w.value s.frm s.regs r = s.regs r)
      ∧ e.merged clash s (accrued ws s.frm s.regs) = (e.fflags s).getD s.fflags
  | none =>
    (∀ w ∈ ws, ∀ r ∈ w.insn.writes, w.value s.frm s.regs r = w.value (e.frm s) s.regs r)
      ∧ e.merged clash s (accrued ws s.frm s.regs)
        = (e.fflags s).getD s.fflags ||| accrued ws (e.frm s) s.regs

def MembersIndependent (e : Lane0 V) (ws : List (Worker V)) : Prop :=
  (e.insn :: ws.map Worker.insn).Pairwise RegIndependent

theorem MembersIndependent.ops {e : Lane0 V} {ws : List (Worker V)}
    (h : MembersIndependent e ws) (frm : BitVec 3) (fflags : BitVec 5) (rm : BitVec 3) :
    Independent (e.op frm fflags :: ws.map (Worker.op rm)) := by
  obtain ⟨h0, hws⟩ := List.pairwise_cons.mp h
  refine List.pairwise_cons.mpr ⟨fun o ho => ?_, ?_⟩
  · obtain ⟨w, hw, rfl⟩ := List.mem_map.mp ho
    have hi := h0 w.insn (List.mem_map_of_mem hw)
    exact ⟨Finset.disjoint_coe.mpr hi.raw, Finset.disjoint_coe.mpr hi.waw, fun hm => hm.1⟩
  · rw [List.pairwise_map] at hws ⊢
    exact hws.imp fun hi =>
      ⟨Finset.disjoint_coe.mpr hi.raw, Finset.disjoint_coe.mpr hi.waw, fun hm => hm.1⟩

theorem accrued_congr {ws : List (Worker V)} {rm : BitVec 3} {s t : Nat → V}
    (h : ∀ w ∈ ws, ∀ r ∈ w.insn.reads, s r = t r) : accrued ws rm s = accrued ws rm t := by
  induction ws with
  | nil => rfl
  | cons w ws ih =>
    show w.flags rm s ||| accrued ws rm s = w.flags rm t ||| accrued ws rm t
    rw [w.flags_local rm s t (h w List.mem_cons_self),
      ih fun w' h' => h w' (List.mem_cons_of_mem _ h')]

theorem accrued_step {w : Worker V} {ws : List (Worker V)}
    (h : ∀ w' ∈ ws, RegIndependent w.insn w'.insn) (rm : BitVec 3) (s : Arch V) :
    accrued ws rm (w.step s).regs = accrued ws rm s.regs :=
  accrued_congr fun w' h' _ hr =>
    if_neg fun hw => Finset.disjoint_left.mp (h w' h').raw hw hr

/-- the workers one after the other: the sequential run of their register parts, and the flags
they all raise on the registers they start from -/
theorem foldl_step {ws : List (Worker V)} (h : (ws.map Worker.insn).Pairwise RegIndependent)
    (s : Arch V) :
    ws.foldl Worker.step s
      = ⟨(seq (ws.map (Worker.op s.frm)) ⟨s.regs, ()⟩).regs, s.frm,
          s.fflags ||| accrued ws s.frm s.regs⟩ := by
  induction ws generalizing s with
  | nil => simp [accrued]
  | cons w ws ih =>
    obtain ⟨hw, hws⟩ := List.pairwise_cons.mp h
    have hacc := accrued_step (fun w' h' => hw w'.insn (List.mem_map_of_mem h')) s.frm s
    rw [List.foldl_cons, ih hws (w.step s), List.map_cons, seq_cons]
    refine Arch.ext rfl rfl ?_
    show (s.fflags ||| w.flags s.frm s.regs) ||| accrued ws s.frm (w.step s).regs = _
    rw [hacc, BitVec.or_assoc]
    rfl

def allRegs (e : Lane0 V) (ws : List (Worker V)) (s : Arch V) (rm : BitVec 3) : Nat → V :=
  (seq (e.op s.frm s.fflags :: ws.map (Worker.op rm)) ⟨s.regs, ()⟩).regs

theorem allRegs_worker {e : Lane0 V} {ws : List (Worker V)} (h : MembersIndependent e ws)
    (s : Arch V) (rm : BitVec 3) {w : Worker V} (hw : w ∈ ws) {r : Nat}
    (hr : r ∈ w.insn.writes) : allRegs e ws s rm r = w.value rm s.regs r := by
  have hmem : w.op rm ∈ e.op s.frm s.fflags :: ws.map (Worker.op rm) :=
    List.mem_cons_of_mem _ (List.mem_map_of_mem hw)
  unfold allRegs
  rw [seq_regs _ (h.ops s.frm s.fflags rm) _ _ hmem r (Finset.mem_coe.mpr hr)]
  exact if_pos hr

theorem allRegs_lane0 {e : Lane0 V} {ws : List (Worker V)} (s : Arch V) (rm : BitVec 3) {r : Nat}
    (hr : ∀ w ∈ ws, r ∉ w.insn.writes) : allRegs e ws s rm r = (e.step s).regs r := by
  unfold allRegs
  rw [seq_cons]
  refine seq_frame _ r (fun o ho => ?_) _
  obtain ⟨w, hw, rfl⟩ := List.mem_map.mp ho
  exact fun h => hr w hw (Finset.mem_coe.mp h)

theorem step_regs_worker {e : Lane0 V} {ws : List (Worker V)} (h : MembersIndependent e ws)
    (s : Arch V) {w : Worker V} (hw : w ∈ ws) {r : Nat} (hr : r ∈ w.insn.writes) :
    (e.step s).regs r = s.regs r := by
  refine if_neg fun he => ?_
  have hi := (List.pairwise_cons.mp h).1 w.insn (List.mem_map_of_mem hw)
  exact Finset.disjoint_left.mp hi.waw he hr

/-- the workers are idle exactly if lane 0 alone leaves the same registers -/
theorem allRegs_eq_step_iff {e : Lane0 V} {ws : List (Worker V)} (h : MembersIndependent e ws)
    (s : Arch V) (rm : BitVec 3) : allRegs e ws s rm = (e.step s).regs
      ↔ ∀ w ∈ ws, ∀ r ∈ w.insn.writes, w.value rm s.regs r = s.regs r := by
  constructor
  · intro heq w hw r hr
    rw [← allRegs_worker h s rm hw hr, heq, step_regs_worker h s hw hr]
  · intro hidle
    funext r
    by_cases hr : ∃ w ∈ ws, r ∈ w.insn.writes
    · obtain ⟨w, hw, hr⟩ := hr
      rw [allRegs_worker h s rm hw hr, hidle w hw r hr, step_regs_worker h s hw hr]
    · exact allRegs_lane0 s rm fun w hw h => hr ⟨w, hw, h⟩

theorem allRegs_eq_iff {e : Lane0 V} {ws : List (Worker V)} (h : MembersIndependent e ws)
    (s : Arch V) (rm rm' : BitVec 3) : allRegs e ws s rm = allRegs e ws s rm'
      ↔ ∀ w ∈ ws, ∀ r ∈ w.insn.writes, w.value rm s.regs r = w.value rm' s.regs r := by
  constructor
  · intro heq w hw r hr
    rw [← allRegs_worker h s rm hw hr, heq, allRegs_worker h s rm' hw hr]
  · intro hsame
    funext r
    by_cases hr : ∃ w ∈ ws, r ∈ w.insn.writes
    · obtain ⟨w, hw, hr⟩ := hr
      rw [allRegs_worker h s rm hw hr, hsame w hw r hr, allRegs_worker h s rm' hw hr]
    · have hn : ∀ w ∈ ws, r ∉ w.insn.writes := fun w hw h => hr ⟨w, hw, h⟩
      exact (allRegs_lane0 s rm hn).trans (allRegs_lane0 s rm' hn).symm

theorem sequential_arch {e : Lane0 V} {ws : List (Worker V)} (h : MembersIndependent e ws)
    (s : Arch V) : ws.foldl Worker.step (e.step s)
      = ⟨allRegs e ws s (e.frm s), e.frm s,
          (e.fflags s).getD s.fflags ||| accrued ws (e.frm s) s.regs⟩ := by
  obtain ⟨h0, hws⟩ := List.pairwise_cons.mp h
  have hacc : accrued ws (e.frm s) (e.step s).regs = accrued ws (e.frm s) s.regs :=
    accrued_congr fun w hw r hr =>
      if_neg fun he =>
        Finset.disjoint_left.mp (h0 w.insn (List.mem_map_of_mem hw)).raw he hr
  rw [foldl_step hws]
  refine Arch.ext rfl rfl ?_
  show (e.fflags s).getD s.fflags ||| accrued ws (e.frm s) (e.step s).regs = _
  rw [hacc]

theorem parallelIssue_iff {clash : BitVec 5 → BitVec 5 → BitVec 5 → BitVec 5} {e : Lane0 V}
    {ws : List (Worker V)} (h : MembersIndependent e ws) (stop : Nat) (s : Arch V)
    (t : Outcome V) :
    ParallelIssue clash e ws stop s t
      ↔ t = ⟨⟨allRegs e ws s s.frm, e.frm s, e.merged clash s (accrued ws s.frm s.regs)⟩,
          (e.redirect s).getD stop⟩ := by
  have hissue := issue_iff_seq (h.ops s.frm s.fflags s.frm) ⟨s.regs, ()⟩ ⟨t.arch.regs, ()⟩
  constructor
  · rintro ⟨h1, h2, h3, h4⟩
    exact Outcome.ext (Arch.ext (congrArg State.regs (hissue.mp h1)) h2 h3) h4
  · intro ht
    have hregs : t.arch.regs = allRegs e ws s s.frm := congrArg (fun t => t.arch.regs) ht
    refine ⟨hissue.mpr (State.ext hregs rfl), ?_, ?_, ?_⟩
    · rw [ht]
    · rw [ht]
    · rw [ht]

/-- **On an error-free bundle with a branch, a jump or a system instruction in lane 0, parallel
issue has exactly the outcome of the sequence on the states where `Agrees` holds, and on no
other, whatever the core makes of a `clash`.** -/
theorem parallelIssue_iff_sequential (clash : BitVec 5 → BitVec 5 → BitVec 5 → BitVec 5)
    {b : Bundle} {L : Int} (hb : (checkBundle b L).1.errors = []) (e : Lane0 V)
    (ws : List (Worker V)) (hm : b.members = e.insn :: ws.map Worker.insn) (stop : Nat)
    (s : Arch V) :
    (∀ t, ParallelIssue clash e ws stop s t ↔ t = sequential e ws stop s)
      ↔ Agrees clash e ws s := by
  have hi : MembersIndependent e ws := by
    unfold MembersIndependent
    rw [← hm]
    exact ((checkBundle_errors_iff b L).mp hb).2.pairs
  have hone : (∀ t, ParallelIssue clash e ws stop s t ↔ t = sequential e ws stop s)
      ↔ (⟨⟨allRegs e ws s s.frm, e.frm s, e.merged clash s (accrued ws s.frm s.regs)⟩,
          (e.redirect s).getD stop⟩ : Outcome V) = sequential e ws stop s := by
    constructor
    · intro h
      exact (h _).mp ((parallelIssue_iff hi stop s _).mpr rfl)
    · intro h t
      rw [parallelIssue_iff hi, h]
  rw [hone]
  unfold sequential Agrees
  cases hredir : e.redirect s with
  | some pc =>
    show _ ↔ _ ∧ _
    rw [← allRegs_eq_step_iff hi s s.frm]
    constructor
    · intro h
      exact ⟨congrArg (fun t => t.arch.regs) h, congrArg (fun t => t.arch.fflags) h⟩
    · rintro ⟨hregs, hflags⟩
      exact Outcome.ext (Arch.ext hregs rfl hflags) rfl
  | none =>
    -- in sequence the workers run under the rounding mode lane 0 leaves
    show _ ↔ _ ∧ _
    rw [sequential_arch hi s, ← allRegs_eq_iff hi s s.frm (e.frm s)]
    constructor
    · intro h
      exact ⟨congrArg (fun t => t.arch.regs) h, congrArg (fun t => t.arch.fflags) h⟩
    · rintro ⟨hregs, hflags⟩
      exact Outcome.ext (Arch.ext hregs rfl hflags) rfl

/-! ## where agreement is automatic -/

variable {clash : BitVec 5 → BitVec 5 → BitVec 5 → BitVec 5}

/-- lane 0 falls through and leaves `fcsr` alone -/
theorem agrees_of_fallthrough {e : Lane0 V} (ws : List (Worker V)) {s : Arch V}
    (hr : e.redirect s = none) (hf : e.frm s = s.frm) (hw : e.fflags s = none) :
    Agrees clash e ws s := by
  unfold Agrees Lane0.merged
  rw [hr, hf, hw]
  exact ⟨fun _ _ _ _ => rfl, rfl⟩

theorem agrees_of_untaken {e : Lane0 V} (ws : List (Worker V)) {s : Arch V}
    (hc : e.insn.cls ≠ .system) (hr : e.redirect s = none) : Agrees clash e ws s :=
  agrees_of_fallthrough ws hr (e.fcsr_frame hc s).1 (e.fcsr_frame hc s).2

/-- lane 0 falls through and no worker is a floating-point instruction; `hplain` says that a write
to `fflags` is a plain write where nothing is raised -/
theorem agrees_of_integer (hplain : ∀ old written, clash old written 0 = written) {e : Lane0 V}
    {ws : List (Worker V)} {s : Arch V} (hr : e.redirect s = none)
    (hw : ∀ w ∈ ws, w.insn.cls ≠ .fpu ∧ w.insn.cls ≠ .fpdiv) : Agrees clash e ws s := by
  have hflags : ∀ rm, accrued ws rm s.regs = 0 := fun rm => by
    induction ws with
    | nil => rfl
    | cons w ws ih =>
      obtain ⟨h1, h2⟩ := hw w List.mem_cons_self
      show w.flags rm s.regs ||| accrued ws rm s.regs = 0
      rw [(w.int_frame h1 h2 rm rm s.regs).2, ih fun w' h' => hw w' (List.mem_cons_of_mem _ h')]
      rfl
  have hmerged : e.merged clash s 0 = (e.fflags s).getD s.fflags ||| 0 := by
    unfold Lane0.merged
    cases e.fflags s with
    | none => rfl
    | some written => simpa using hplain s.fflags written
  unfold Agrees
  rw [hr, hflags, hflags]
  refine ⟨fun w h r _ => ?_, hmerged⟩
  obtain ⟨h1, h2⟩ := hw w h
  rw [(w.int_frame h1 h2 s.frm (e.frm s) s.regs).1]

end

/-! ## a taken branch over a worker that is not idle -/

/-- `beq x0, x0, 16` at address 2 -/
def beqX0 : Lane0 Nat where
  insn := decode 2 0x00000863 "beq x0, x0, 16"
  steers := by decide
  value s := s.regs
  frm := Arch.frm
  fflags _ := none
  redirect _ := some 18
  value_local := fun _ _ _ _ _ r hr => by
    have hw : (decode 2 0x00000863 "beq x0, x0, 16").writes = ∅ := by decide
    exact absurd (hw ▸ hr) (Finset.notMem_empty r)
  fcsr_frame := fun _ _ => ⟨rfl, rfl⟩

/-- `addi x5, x0, 1` at address 6 -/
def addiX5 : Worker Nat where
  insn := decode 6 0x00100293 "addi x5, x0, 1"
  value _ _ _ := 1
  flags _ _ := 0
  value_local := fun _ _ _ _ _ _ => rfl
  flags_local := fun _ _ _ _ => rfl
  int_frame := fun _ _ _ _ _ => ⟨rfl, rfl⟩

def steerBundle : Bundle where
  hintAddr := 0
  declaredLen := 2
  members := [beqX0.insn, addiX5.insn]

theorem steerBundle_errors : (checkBundle steerBundle 64).1.errors = [] :=
  (checkBundle_errors_iff _ 64).mpr ⟨rfl, by decide, by decide, by decide, by decide⟩

/-- where `x5` holds the value already, the outcome is that of the sequence -/
theorem parallelIssue_iff_sequential_idle :
    ParallelIssue (fun _ written _ => written) beqX0 [addiX5] 10
      ⟨fun r => if r = 5 then 1 else 0, 0, 0⟩
      (sequential beqX0 [addiX5] 10 ⟨fun r => if r = 5 then 1 else 0, 0, 0⟩) := by
  refine ((parallelIssue_iff_sequential _ steerBundle_errors beqX0 [addiX5] rfl 10 _).mpr ?_
    _).mpr rfl
  refine ⟨fun w hw r hr => ?_, rfl⟩
  obtain rfl := List.mem_singleton.mp hw
  have hw5 : addiX5.insn.writes = {5} := by decide
  obtain rfl := Finset.mem_singleton.mp (hw5 ▸ hr)
  rfl

/-- elsewhere the worker commits an instruction the branch skips -/
theorem parallelIssue_commits_skipped :
    (checkBundle steerBundle 64).1.errors = [] ∧ 2 ≤ steerBundle.members.length
      ∧ steerBundle.members = beqX0.insn :: [addiX5].map Worker.insn
      ∧ ∀ clash, ∃ t, ParallelIssue clash beqX0 [addiX5] 10 ⟨fun _ => 0, 0, 0⟩ t
        ∧ t ≠ sequential beqX0 [addiX5] 10 ⟨fun _ => 0, 0, 0⟩ := by
  have hi : MembersIndependent beqX0 [addiX5] :=
    ((checkBundle_errors_iff _ _).mp steerBundle_errors).2.pairs
  refine ⟨steerBundle_errors, by decide, rfl, fun clash => ⟨_, (parallelIssue_iff hi 10 _ _).mpr
    rfl, ?_⟩⟩
  intro h
  have h5 : (1 : Nat) = 0 := by
    have hx := congrArg (fun o => o.arch.regs 5) h
    have hw : allRegs beqX0 [addiX5] ⟨fun _ => 0, 0, 0⟩ 0 5 = 1 :=
      allRegs_worker hi _ 0 List.mem_cons_self (by decide)
    exact hw.symm.trans hx
  exact absurd h5 (by decide)

end Starbug
