import Mathlib.Data.Set.Lattice
import Mathlib.Order.CompletePartialOrder

/-!
# Operations with a footprint: sequential runs and simultaneous issue

A machine state is a register file and one cell for everything else (`mem`).  An operation
carries its footprint, and the frame and locality laws are fields of it:

* `Op.frame`, `Op.mem_frame`       nothing outside the footprint changes;
* `Op.local_regs`, `Op.local_mem`  the result depends on nothing outside the footprint.

`seq ops s` runs a list of operations one after the other.  `Issue ops s t` says that `t` is a
possible outcome of issuing them all at once: every operation reads `s`, and every cell of `t`
holds what SOME operation that writes the cell computed from `s` (no winner is fixed), or the
old value if no operation writes it.

`issue_iff_seq`: for independent operations (no later one reads or writes what an earlier one
writes, at most one touches `mem`) the simultaneous issue has exactly one outcome, the state
after the sequential run.  A later operation may overwrite what an earlier one reads.

`issue_iff_agreed`: in general a simultaneous issue has one outcome exactly if the writers of every
cell agree on it.

`seq_perm`: if no operation overwrites what another one reads either, every order of them runs to
the same state.
-/

namespace Footprint

@[ext] structure State (R V M : Type*) where
  regs : R → V
  mem : M

/-- a deterministic operation that respects its footprint -/
structure Op (R V M : Type*) where
  reads : Set R
  writes : Set R
  usesMem : Prop
  run : State R V M → State R V M
  frame : ∀ s r, r ∉ writes → (run s).regs r = s.regs r
  mem_frame : ¬ usesMem → ∀ s, (run s).mem = s.mem
  local_regs : ∀ s t, (∀ r ∈ reads, s.regs r = t.regs r) → (usesMem → s.mem = t.mem) →
    ∀ r ∈ writes, (run s).regs r = (run t).regs r
  local_mem : ∀ s t, (∀ r ∈ reads, s.regs r = t.regs r) → (usesMem → s.mem = t.mem) →
    usesMem → (run s).mem = (run t).mem

section
variable {R V M : Type*}

def Op.idle : Op R V M where
  reads := ∅
  writes := ∅
  usesMem := False
  run := id
  frame := fun _ _ _ => rfl
  mem_frame := fun _ _ => rfl
  local_regs := fun _ _ _ _ r hr => absurd hr (Set.notMem_empty r)
  local_mem := fun _ _ _ _ h => h.elim

/-! ## sequential runs -/

def seq (ops : List (Op R V M)) (s : State R V M) : State R V M :=
  ops.foldl (fun s o => o.run s) s

@[simp] theorem seq_nil (s : State R V M) : seq [] s = s := rfl

@[simp] theorem seq_cons (o : Op R V M) (ops : List (Op R V M)) (s : State R V M) :
    seq (o :: ops) s = seq ops (o.run s) := rfl

theorem seq_frame (ops : List (Op R V M)) (r : R) (h : ∀ o ∈ ops, r ∉ o.writes)
    (s : State R V M) : (seq ops s).regs r = s.regs r := by
  induction ops generalizing s with
  | nil => rfl
  | cons o ops ih =>
    rw [seq_cons, ih (fun o' h' => h o' (List.mem_cons_of_mem _ h')),
      o.frame s r (h o List.mem_cons_self)]

theorem seq_mem_frame (ops : List (Op R V M)) (h : ∀ o ∈ ops, ¬ o.usesMem)
    (s : State R V M) : (seq ops s).mem = s.mem := by
  induction ops generalizing s with
  | nil => rfl
  | cons o ops ih =>
    rw [seq_cons, ih (fun o' h' => h o' (List.mem_cons_of_mem _ h')),
      o.mem_frame (h o List.mem_cons_self)]

theorem seq_append (xs ys : List (Op R V M)) (s : State R V M) :
    seq (xs ++ ys) s = seq ys (seq xs s) :=
  List.foldl_append

/-! ## independence -/

/-- `b` after `a` in program order: `b` neither reads nor writes what `a` writes, and they do
not both touch `mem`.  `a` may read what `b` writes. -/
structure Op.Before (a b : Op R V M) : Prop where
  raw : Disjoint a.writes b.reads
  waw : Disjoint a.writes b.writes
  mem : ¬ (a.usesMem ∧ b.usesMem)

def Independent (ops : List (Op R V M)) : Prop := ops.Pairwise Op.Before

theorem Op.Before.agree {a b : Op R V M} (h : a.Before b) (s : State R V M) :
    (∀ r ∈ b.reads, (a.run s).regs r = s.regs r) ∧ (b.usesMem → (a.run s).mem = s.mem) := by
  refine ⟨fun r hr => a.frame s r (fun hw => ?_), fun hb => a.mem_frame (fun ha => ?_) s⟩
  · exact Set.disjoint_left.mp h.raw hw hr
  · exact h.mem ⟨ha, hb⟩

theorem Op.Before.run_regs {a b : Op R V M} (h : a.Before b) (s : State R V M) (r : R)
    (hr : r ∈ b.writes) : (b.run (a.run s)).regs r = (b.run s).regs r :=
  b.local_regs _ _ (h.agree s).1 (h.agree s).2 r hr

theorem Op.Before.run_mem {a b : Op R V M} (h : a.Before b) (s : State R V M)
    (hb : b.usesMem) : (b.run (a.run s)).mem = (b.run s).mem :=
  b.local_mem _ _ (h.agree s).1 (h.agree s).2 hb

/-- in an independent list every writer's value survives, computed from the start state -/
theorem seq_regs (ops : List (Op R V M)) (h : Independent ops) (s : State R V M)
    (o : Op R V M) (ho : o ∈ ops) (r : R) (hr : r ∈ o.writes) :
    (seq ops s).regs r = (o.run s).regs r := by
  induction ops generalizing s with
  | nil => exact absurd ho (List.not_mem_nil)
  | cons a ops ih =>
    obtain ⟨ha, hops⟩ := List.pairwise_cons.mp h
    rw [seq_cons]
    rcases List.mem_cons.mp ho with rfl | ho'
    · exact seq_frame ops r
        (fun b hb hw => Set.disjoint_left.mp (ha b hb).waw hr hw) _
    · rw [ih hops (a.run s) ho', (ha o ho').run_regs s r hr]

theorem seq_mem (ops : List (Op R V M)) (h : Independent ops) (s : State R V M)
    (o : Op R V M) (ho : o ∈ ops) (hm : o.usesMem) : (seq ops s).mem = (o.run s).mem := by
  induction ops generalizing s with
  | nil => exact absurd ho (List.not_mem_nil)
  | cons a ops ih =>
    obtain ⟨ha, hops⟩ := List.pairwise_cons.mp h
    rw [seq_cons]
    rcases List.mem_cons.mp ho with rfl | ho'
    · exact seq_mem_frame ops (fun b hb hw => (ha b hb).mem ⟨hm, hw⟩) _
    · rw [ih hops (a.run s) ho', (ha o ho').run_mem s hm]

/-! ## simultaneous issue -/

/-- a cell after all operations of `ops` wrote at once: the value of some writer, or the old
value if there is no writer -/
def Settles {α : Type*} (ops : List (Op R V M)) (writes : Op R V M → Prop)
    (value : Op R V M → α) (old new : α) : Prop :=
  (∃ o ∈ ops, writes o ∧ new = value o) ∨ ((∀ o ∈ ops, ¬ writes o) ∧ new = old)

/-- `t` is a possible outcome of issuing `ops` at once in `s` -/
structure Issue (ops : List (Op R V M)) (s t : State R V M) : Prop where
  regs : ∀ r, Settles ops (fun o => r ∈ o.writes) (fun o => (o.run s).regs r) (s.regs r) (t.regs r)
  mem : Settles ops Op.usesMem (fun o => (o.run s).mem) s.mem t.mem

/-- if every writer's value is `x`, and the old value is `x` when there is no writer, then `x`
is the only value the cell can settle to -/
theorem settles_iff {α : Type*} {ops : List (Op R V M)} {writes : Op R V M → Prop}
    {value : Op R V M → α} {old new x : α} (hw : ∀ o ∈ ops, writes o → x = value o)
    (ho : (∀ o ∈ ops, ¬ writes o) → x = old) : Settles ops writes value old new ↔ new = x := by
  constructor
  · rintro (⟨o, hm, hwo, rfl⟩ | ⟨hn, rfl⟩)
    · exact (hw o hm hwo).symm
    · exact (ho hn).symm
  · rintro rfl
    by_cases h : ∃ o ∈ ops, writes o
    · obtain ⟨o, hm, hwo⟩ := h
      exact Or.inl ⟨o, hm, hwo, hw o hm hwo⟩
    · have hn : ∀ o ∈ ops, ¬ writes o := fun o hm hwo => h ⟨o, hm, hwo⟩
      exact Or.inr ⟨hn, ho hn⟩

/-- **Independent operations issued at once end, whoever wins a cell, in the state after the
sequential run.** -/
theorem issue_iff_seq {ops : List (Op R V M)} (h : Independent ops) (s t : State R V M) :
    Issue ops s t ↔ t = seq ops s := by
  have hr : ∀ r, Settles ops (fun o => r ∈ o.writes) (fun o => (o.run s).regs r) (s.regs r)
      (t.regs r) ↔ t.regs r = (seq ops s).regs r := fun r =>
    settles_iff (fun o ho hw => seq_regs ops h s o ho r hw) (fun hn => seq_frame ops r hn s)
  have hm : Settles ops Op.usesMem (fun o => (o.run s).mem) s.mem t.mem
      ↔ t.mem = (seq ops s).mem :=
    settles_iff (fun o ho hw => seq_mem ops h s o ho hw) (fun hn => seq_mem_frame ops hn s)
  constructor
  · intro hi
    exact State.ext (funext fun r => (hr r).mp (hi.regs r)) (hm.mp hi.mem)
  · rintro rfl
    exact ⟨fun r => (hr r).mpr rfl, hm.mpr rfl⟩

/-! ## one outcome -/

/-- `x` holds what every writer of a cell leaves there, and the old value where nothing writes -/
structure Agreed (ops : List (Op R V M)) (s x : State R V M) : Prop where
  regs : ∀ o ∈ ops, ∀ r ∈ o.writes, x.regs r = (o.run s).regs r
  regs_old : ∀ r, (∀ o ∈ ops, r ∉ o.writes) → x.regs r = s.regs r
  mem : ∀ o ∈ ops, o.usesMem → x.mem = (o.run s).mem
  mem_old : (∀ o ∈ ops, ¬ o.usesMem) → x.mem = s.mem

/-- a simultaneous issue has `x` as its only outcome exactly if the writers agree on `x` -/
theorem issue_iff_agreed {ops : List (Op R V M)} {s x : State R V M} :
    (∀ t, Issue ops s t ↔ t = x) ↔ Agreed ops s x := by
  classical
  constructor
  · intro h
    have hx : Issue ops s x := (h x).mpr rfl
    refine ⟨fun o ho r hr => ?_, fun r hn => ?_, fun o ho hm => ?_, fun hn => ?_⟩
    · -- the outcome where `o` wins register `r`
      have hwin : Issue ops s { x with regs := Function.update x.regs r ((o.run s).regs r) } := by
        refine ⟨fun q => ?_, hx.mem⟩
        by_cases hq : q = r
        · subst hq
          exact Or.inl ⟨o, ho, hr, Function.update_self q _ _⟩
        · show Settles ops _ _ _ (Function.update x.regs r ((o.run s).regs r) q)
          rw [Function.update_of_ne hq]
          exact hx.regs q
      rw [← (h _).mp hwin]
      exact Function.update_self r _ _
    · obtain ⟨o, ho, hw, -⟩ | ⟨-, hold⟩ := hx.regs r
      · exact absurd hw (hn o ho)
      · exact hold
    · have hwin : Issue ops s { x with mem := (o.run s).mem } :=
        ⟨hx.regs, Or.inl ⟨o, ho, hm, rfl⟩⟩
      rw [← (h _).mp hwin]
    · obtain ⟨o, ho, hw, -⟩ | ⟨-, hold⟩ := hx.mem
      · exact absurd hw (hn o ho)
      · exact hold
  · intro h t
    have hr : ∀ r, Settles ops (fun o => r ∈ o.writes) (fun o => (o.run s).regs r) (s.regs r)
        (t.regs r) ↔ t.regs r = x.regs r := fun r =>
      settles_iff (fun o ho hw => h.regs o ho r hw) (h.regs_old r)
    have hm : Settles ops Op.usesMem (fun o => (o.run s).mem) s.mem t.mem ↔ t.mem = x.mem :=
      settles_iff h.mem h.mem_old
    constructor
    · intro hi
      exact State.ext (funext fun r => (hr r).mp (hi.regs r)) (hm.mp hi.mem)
    · intro heq
      subst heq
      exact ⟨fun r => (hr r).mpr rfl, hm.mpr rfl⟩

/-- a register after a run: what its last writer makes of the start state, if nothing that this
writer reads was written before it -/
theorem seq_regs_of_last {pre post : List (Op R V M)} {o : Op R V M} {r : R} (hr : r ∈ o.writes)
    (hpost : ∀ b ∈ post, r ∉ b.writes) (hraw : ∀ a ∈ pre, Disjoint a.writes o.reads)
    (hmem : o.usesMem → ∀ a ∈ pre, ¬ a.usesMem) (s : State R V M) :
    (seq (pre ++ o :: post) s).regs r = (o.run s).regs r := by
  rw [seq_append, seq_cons, seq_frame post r hpost]
  apply o.local_regs _ _ _ _ r hr
  · intro q hq
    exact seq_frame pre q (fun a ha hw => Set.disjoint_left.mp (hraw a ha) hw hq) s
  · intro hm
    exact seq_mem_frame pre (hmem hm) s

/-- a part `f` of the state holds `v` after a run if whatever touches it makes it `v`, and
something does or it was `v` before -/
theorem seq_settled {α : Type*} {f : State R V M → α} (touches : Op R V M → Prop) {v : α}
    {ops : List (Op R V M)} (hv : ∀ o ∈ ops, touches o → ∀ s, f (o.run s) = v)
    (hframe : ∀ o ∈ ops, ¬ touches o → ∀ s, f (o.run s) = f s) {s : State R V M}
    (h : f s = v ∨ ∃ o ∈ ops, touches o) : f (seq ops s) = v := by
  induction ops generalizing s with
  | nil =>
    obtain hs | ⟨o, ho, -⟩ := h
    · exact hs
    · exact absurd ho List.not_mem_nil
  | cons a ops ih =>
    rw [seq_cons]
    apply ih (fun o ho => hv o (List.mem_cons_of_mem a ho))
      (fun o ho => hframe o (List.mem_cons_of_mem a ho))
    by_cases ha : touches a
    · exact Or.inl (hv a List.mem_cons_self ha s)
    · rw [hframe a List.mem_cons_self ha]
      obtain hs | ⟨o, ho, ht⟩ := h
      · exact Or.inl hs
      · rcases List.mem_cons.mp ho with rfl | ho
        · exact absurd ht ha
        · exact Or.inr ⟨o, ho, ht⟩

/-! ## reordering -/

/-- `a` and `b` in either order: neither reads or writes what the other writes, and they do not
both touch `mem` -/
structure Op.Apart (a b : Op R V M) : Prop where
  before : a.Before b
  war : Disjoint a.reads b.writes

theorem Op.Apart.symm {a b : Op R V M} (h : a.Apart b) : b.Apart a where
  before :=
    { raw := h.war.symm
      waw := h.before.waw.symm
      mem := fun hm => h.before.mem ⟨hm.2, hm.1⟩ }
  war := h.before.raw.symm

theorem Settles.perm {α : Type*} {ops ops' : List (Op R V M)} (hp : ops.Perm ops')
    {writes : Op R V M → Prop} {value : Op R V M → α} {old new : α}
    (h : Settles ops writes value old new) : Settles ops' writes value old new := by
  rcases h with ⟨o, ho, hw, hv⟩ | ⟨hn, hv⟩
  · exact Or.inl ⟨o, hp.mem_iff.mp ho, hw, hv⟩
  · exact Or.inr ⟨fun o ho' => hn o (hp.mem_iff.mpr ho'), hv⟩

/-- which operations issue at once matters, not how they are listed -/
theorem Issue.perm {ops ops' : List (Op R V M)} (hp : ops.Perm ops') {s t : State R V M}
    (h : Issue ops s t) : Issue ops' s t :=
  ⟨fun r => (h.regs r).perm hp, h.mem.perm hp⟩

/-- **Operations that are pairwise apart run to the same state in every order.** -/
theorem seq_perm {ops ops' : List (Op R V M)} (h : ops.Pairwise Op.Apart) (hp : ops.Perm ops')
    (s : State R V M) : seq ops' s = seq ops s := by
  have hsymm : ∀ {a b : Op R V M}, a.Apart b → b.Apart a := Op.Apart.symm
  have h' : ops'.Pairwise Op.Apart := (hp.pairwise_iff hsymm).mp h
  have hi : Independent ops := h.imp Op.Apart.before
  have hi' : Independent ops' := h'.imp Op.Apart.before
  have hissue : Issue ops s (seq ops s) := (issue_iff_seq hi s _).mpr rfl
  exact ((issue_iff_seq hi' s _).mp (hissue.perm hp)).symm

end

end Footprint
