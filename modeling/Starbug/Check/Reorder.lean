import Starbug.Check.Analyse
import Starbug.Check.Issue
import Mathlib.Data.List.FinRange

/-!
# Reordering and splitting a bundle

The checker looks at pairs of members in list order only.  Without errors and without an
anti-dependence warning its three register tests together make two members independent both
ways, which is what a reordering needs; a split keeps the order, so the error tests suffice.

* `reorder_runs_same`      the members in any order run to the same state, and a bundle of them
                           that keeps a lane-0-only member first passes the check again;
* `split_issues_same`      a bundle cut into parts, each behind its own HINT: every part passes
                           the check, and issuing them one after the other is issuing the bundle.
-/

namespace Starbug
open Footprint

/-! ## anti-dependence warnings -/

/-- a warning of the third register test -/
def IsWarWarning (w : String) : Prop := "WAR".toList <+: w.toList

instance (w : String) : Decidable (IsWarWarning w) :=
  inferInstanceAs (Decidable ("WAR".toList <+: w.toList))

theorem pairWarnings_eq_nil (i : Nat) (a : Insn) (j : Nat) (b : Insn) :
    pairWarnings i a j b = [] ↔ Disjoint a.reads b.writes := by
  unfold pairWarnings
  rw [Finset.disjoint_iff_inter_eq_empty, ← Finset.not_nonempty_iff_eq_empty]
  by_cases h : (a.reads ∩ b.writes).Nonempty
  · rw [dif_pos h]
    exact ⟨fun h0 => absurd h0 (List.cons_ne_nil _ _), fun h0 => absurd h h0⟩
  · rw [dif_neg h]
    exact ⟨fun _ => h, fun _ => rfl⟩

theorem isWarWarning_of_mem_pair {w : String} {i j : Nat} {a b : Insn}
    (hw : w ∈ pairWarnings i a j b) : IsWarWarning w := by
  unfold pairWarnings at hw
  split_ifs at hw with h
  · obtain rfl := List.mem_singleton.mp hw
    have hstart : "WAR".toList <+: "WAR (anti-dependence) on ".toList := by decide
    refine hstart.trans ?_
    simp only [String.toList_append, List.append_assoc]
    exact List.prefix_append _ _
  · exact absurd hw List.not_mem_nil

theorem not_isWarWarning_of_fetch {b : Bundle} {L : Int} {ws : List String} {w : String}
    (h : fetchWarnings b L = .ok ws) (hw : w ∈ ws) : ¬ IsWarWarning w := by
  unfold fetchWarnings at h
  split at h
  · cases h
  · simp only at h
    split_ifs at h
    · obtain rfl := Except.ok.inj h
      obtain rfl := List.mem_singleton.mp hw
      unfold IsWarWarning
      simp only [String.toList_append, List.append_assoc]
      intro hp
      have hhead := List.cons_prefix_cons.mp hp
      exact absurd hhead.1 (by decide)
    · obtain rfl := Except.ok.inj h
      exact absurd hw List.not_mem_nil

theorem forPairs_forall {f : Nat → Insn → Nat → Insn → List String} {P : String → Prop}
    (hf : ∀ i a j b, ∀ w ∈ f i a j b, P w) (i : Nat) (ms : List Insn) :
    ∀ w ∈ forPairs f i ms, P w := by
  induction ms generalizing i with
  | nil => exact fun w hw => absurd hw List.not_mem_nil
  | cons a rest ih =>
    intro w hw
    rw [forPairs, List.mem_append, List.mem_flatMap] at hw
    rcases hw with ⟨⟨b, j⟩, -, hw⟩ | hw
    · exact hf i a j b w hw
    · exact ih (i + 1) w hw

/-- the warnings of an error-free bundle: those it had, one for each anti-dependence, and
possibly one of the fetch unit; and when the last part of the check raises -/
theorem checkBundle_warnings {b : Bundle} (h : Accepted b) (L : Int) : ∃ ws,
    (checkBundle b L).1.warnings = b.warnings ++ forPairs pairWarnings 0 b.members ++ ws
      ∧ (∀ w ∈ ws, ¬ IsWarWarning w)
      ∧ ((checkBundle b L).2 = none ↔ b.members ≠ [] ∧ L ≠ 0) := by
  have hret : ∀ es ws', fetchWarnings { b with errors := es, warnings := ws' } L
      = fetchWarnings b L := fun _ _ => rfl
  have hraise : (∃ ws, fetchWarnings b L = .ok ws) ↔ b.members ≠ [] ∧ L ≠ 0 := by
    unfold fetchWarnings
    cases hm : b.members.getLast? with
    | none =>
      rw [List.getLast?_eq_none_iff] at hm
      simp [hm]
    | some m =>
      have hne : b.members ≠ [] := fun h0 => by
        rw [h0] at hm
        cases hm
      by_cases hL : L = 0
      · simp [hL]
      · simp only [if_neg hL]
        refine iff_of_true ?_ ⟨hne, hL⟩
        split_ifs
        · exact ⟨_, rfl⟩
        · exact ⟨_, rfl⟩
  rw [← hraise]
  simp only [checkBundle, if_neg (Nat.not_lt.mpr h.declared), if_neg (Nat.not_lt.mpr h.complete),
    hret]
  cases hf : fetchWarnings b L with
  | error e =>
    refine ⟨[], (List.append_nil _).symm, fun _ hw => absurd hw List.not_mem_nil, ?_⟩
    refine iff_of_false (fun hc => by cases hc) ?_
    rintro ⟨ws, hws⟩
    cases hws
  | ok ws => exact ⟨ws, rfl, fun w hw => not_isWarWarning_of_fetch hf hw, fun _ => ⟨ws, rfl⟩,
      fun _ => rfl⟩

theorem noWar_iff {b : Bundle} (h : Accepted b) (L : Int) :
    (∀ w ∈ (checkBundle b L).1.warnings, ¬ IsWarWarning w)
      ↔ (∀ w ∈ b.warnings, ¬ IsWarWarning w)
        ∧ b.members.Pairwise fun x y => Disjoint x.reads y.writes := by
  obtain ⟨ws, heq, hws, -⟩ := checkBundle_warnings h L
  rw [heq, ← forPairs_eq_nil pairWarnings_eq_nil 0]
  constructor
  · intro hall
    refine ⟨fun w hw => hall w ?_, List.eq_nil_iff_forall_not_mem.mpr fun w hw => ?_⟩
    · exact List.mem_append_left _ (List.mem_append_left _ hw)
    · refine hall w (List.mem_append_left _ (List.mem_append_right _ hw)) ?_
      exact forPairs_forall (fun _ _ _ _ _ => isWarWarning_of_mem_pair) 0 _ w hw
  · rintro ⟨hb, hnil⟩ w hw
    rw [hnil, List.append_nil] at hw
    rcases List.mem_append.mp hw with hw | hw
    · exact hb w hw
    · exact hws w hw

/-! ## reordering -/

/-- the register tests of a pair are silent in either order -/
structure RegApart (a b : Insn) : Prop where
  pair : RegIndependent a b
  war : Disjoint a.reads b.writes

theorem RegApart.symm {a b : Insn} (h : RegApart a b) : RegApart b a where
  pair := ⟨h.war.symm, h.pair.waw.symm⟩
  war := h.pair.raw.symm

section
variable {V M : Type*}

/-- the members at the places `σ` gives them -/
def Bundle.permute (b : Bundle) (σ : Equiv.Perm (Fin b.members.length)) : Bundle :=
  { b with members := List.ofFn fun j => b.members.get (σ j) }

/-- the members in the order of `σ`, each run at `pc` of it -/
def permuted {ms : List Insn} (I : Interp V M ms) (σ : Equiv.Perm (Fin ms.length))
    (pc : Fin ms.length → Nat) : List (Op Nat V M) :=
  List.ofFn fun j => (I (σ j)).op (pc (σ j))

theorem mem_tail_ofFn {α : Type*} {n : Nat} {f : Fin n → α} {a : α}
    (h : a ∈ (List.ofFn f).tail) : ∃ j : Fin n, j.val ≠ 0 ∧ f j = a := by
  cases n with
  | zero =>
    rw [List.ofFn_zero] at h
    exact absurd h List.not_mem_nil
  | succ n =>
    rw [List.ofFn_succ, List.tail_cons] at h
    obtain ⟨j, hj⟩ := List.mem_ofFn.mp h
    exact ⟨j.succ, Nat.succ_ne_zero j, hj⟩

theorem Effect.op_pc {i : Insn} (e : Effect V M i) {pc pc' : Nat}
    (h : i.isLane0Only = true → pc = pc') : e.op pc = e.op pc' := by
  by_cases hl : i.isLane0Only = true
  · rw [h hl]
  · unfold Effect.op
    congr 1
    exact e.pc_free (Bool.eq_false_iff.mpr hl) pc pc'

theorem pairwise_apart {b : Bundle} (h : Accepted b)
    (hw : b.members.Pairwise fun x y => Disjoint x.reads y.writes) :
    b.members.Pairwise RegApart :=
  List.pairwise_and_iff.mpr ⟨h.pairs, hw⟩ |>.imp fun hp => ⟨hp.1, hp.2⟩

theorem program_apart {b : Bundle} (h : Accepted b) (hw : b.members.Pairwise RegApart)
    (I : Interp V M b.members) : (program I).Pairwise Op.Apart := by
  refine List.pairwise_ofFn.mpr fun i j hij => ?_
  have hj : j.val ≠ 0 := by
    have hlt : i.val < j.val := hij
    omega
  have hp := (List.pairwise_iff_get.mp hw) i j hij
  exact ⟨hp.pair.before (h.worker j hj) (I i) (I j) _ _, Finset.disjoint_coe.mpr hp.war⟩

/-- **Without errors and without an anti-dependence warning the members of a bundle run to the
same state in every order; in an order that keeps a lane-0-only member first they pass the
check again, without an anti-dependence warning.** -/
theorem reorder_runs_same {b : Bundle} {L : Int} (hb : (checkBundle b L).1.errors = [])
    (hw : ∀ w ∈ (checkBundle b L).1.warnings, ¬ IsWarWarning w)
    (σ : Equiv.Perm (Fin b.members.length)) :
    (∀ (I : Interp V M b.members) (pc : Fin b.members.length → Nat),
      (∀ k, (b.members.get k).isLane0Only = true → pc k = (b.members.get k).addr) →
      ∀ s, seq (permuted I σ pc) s = seq (program I) s)
    ∧ ((∀ j, (b.members.get (σ j)).isLane0Only = true → j.val = 0) → ∀ L' : Int,
      (checkBundle (b.permute σ) L').1.errors = []
        ∧ (∀ w ∈ (checkBundle (b.permute σ) L').1.warnings, ¬ IsWarWarning w)
        ∧ ((checkBundle b L').2 = none → (checkBundle (b.permute σ) L').2 = none)) := by
  obtain ⟨herr, hacc⟩ := (checkBundle_errors_iff b L).mp hb
  obtain ⟨hold, hwar⟩ := (noWar_iff hacc L).mp hw
  have hapart := pairwise_apart hacc hwar
  refine ⟨fun I pc hpc s => ?_, fun hfirst L' => ?_⟩
  · have hops : permuted I σ pc = List.ofFn ((fun k => (I k).op (b.members.get k).addr) ∘ σ) :=
      congrArg List.ofFn (funext fun j => (I (σ j)).op_pc (hpc (σ j)))
    rw [hops]
    exact seq_perm (program_apart hacc hapart I) (Equiv.Perm.ofFn_comp_perm σ _).symm s
  · have hperm : (b.permute σ).members.Perm b.members := by
      have h := Equiv.Perm.ofFn_comp_perm σ b.members.get
      rwa [List.ofFn_get] at h
    have hapart' : (b.permute σ).members.Pairwise RegApart :=
      (hperm.pairwise_iff RegApart.symm).mpr hapart
    have hacc' : Accepted (b.permute σ) := by
      refine ⟨hacc.declared, ?_, ?_, hapart'.imp RegApart.pair⟩
      · rw [hperm.length_eq]
        exact hacc.complete
      · intro m hm
        obtain ⟨j, hj, rfl⟩ := mem_tail_ofFn hm
        by_contra hl
        exact hj (hfirst j (Bool.eq_true_of_not_eq_false hl))
    obtain ⟨-, -, -, hret⟩ := checkBundle_warnings hacc L'
    obtain ⟨-, -, -, hret'⟩ := checkBundle_warnings hacc' L'
    refine ⟨(checkBundle_errors_iff _ L').mpr ⟨herr, hacc'⟩, ?_, fun hnone => ?_⟩
    · exact (noWar_iff hacc' L').mpr ⟨hold, hapart'.imp RegApart.war⟩
    · obtain ⟨hne, hL⟩ := hret.mp hnone
      refine hret'.mpr ⟨fun h0 => hne ?_, hL⟩
      rw [h0] at hperm
      exact hperm.symm.eq_nil

/-- an instruction that loads the constant `v` into `r` -/
def constEffect {i : Insn} (r v : Nat) (hw : i.writes = {r}) (hl : i.usesLsu = false) :
    Effect Nat (Nat → Nat) i where
  run _ s := { s with regs := Function.update s.regs r v }
  frame := fun _ s r' hr => by
    have hne : r' ≠ r := fun h => hr (by rw [hw, h]; exact Finset.mem_singleton_self r)
    exact Function.update_of_ne hne _ _
  mem_frame := fun _ _ _ => rfl
  local_regs := fun _ s t _ _ r' hr => by
    obtain rfl : r' = r := Finset.mem_singleton.mp (hw ▸ hr)
    simp only [Function.update_self]
  local_mem := fun _ _ _ _ _ hu => by
    rw [hl] at hu
    cases hu
  pc_free := fun _ _ _ => rfl

/-- `addi x7, x0, 1; addi x6, x0, 1` -/
def constBundle : Bundle where
  hintAddr := 0
  declaredLen := 2
  members := [decode 2 0x00100393 "addi x7, x0, 1", decode 6 0x00100313 "addi x6, x0, 1"]

def constX7 : Effect Nat (Nat → Nat) (decode 2 0x00100393 "addi x7, x0, 1") :=
  constEffect 7 1 (by decide) (by decide)

def constX6 : Effect Nat (Nat → Nat) (decode 6 0x00100313 "addi x6, x0, 1") :=
  constEffect 6 1 (by decide) (by decide)

def constInterp : Interp Nat (Nat → Nat) constBundle.members
  | ⟨0, _⟩ => constX7
  | ⟨1, _⟩ => constX6

theorem reorder_runs_same_swap :
    seq (permuted constInterp (Equiv.swap ⟨0, by decide⟩ ⟨1, by decide⟩)
        fun k => (constBundle.members.get k).addr) ⟨fun r => r, fun a => a⟩
      = seq (program constInterp) ⟨fun r => r, fun a => a⟩
    ∧ (checkBundle (constBundle.permute (Equiv.swap ⟨0, by decide⟩ ⟨1, by decide⟩)) 64).1.errors
      = [] := by
  have hacc : Accepted constBundle := by decide
  have hb : (checkBundle constBundle 64).1.errors = [] :=
    (checkBundle_errors_iff _ 64).mpr ⟨rfl, hacc⟩
  have hw : ∀ w ∈ (checkBundle constBundle 64).1.warnings, ¬ IsWarWarning w :=
    (noWar_iff hacc 64).mpr ⟨fun w hw => absurd hw List.not_mem_nil, by decide⟩
  obtain ⟨hrun, hcheck⟩ :=
    reorder_runs_same hb hw (Equiv.swap ⟨0, by decide⟩ ⟨1, by decide⟩)
  exact ⟨hrun constInterp _ (fun _ _ => rfl) _, (hcheck (by decide) 64).1⟩

/-! ## splitting -/

/-- a member with its behaviour -/
structure Act (V M : Type*) where
  insn : Insn
  effect : Effect V M insn

def Act.op (a : Act V M) (pc : Nat) : Op Nat V M := a.effect.op pc

/-- what a worker lane fed `pcE` does with the member -/
def Act.worker (pcE : Nat) (a : Act V M) : Op Nat V M :=
  if a.insn.lostInWorker then Op.idle else a.op pcE

def acts {ms : List Insn} (I : Interp V M ms) : List (Act V M) :=
  List.ofFn fun k => ⟨ms.get k, I k⟩

/-- one part of a split bundle: its members, the PC of its lane 0 and the one its workers get -/
structure Part (V M : Type*) where
  acts : List (Act V M)
  pc : Nat
  pcE : Nat

def Part.lanes (p : Part V M) : List (Op Nat V M) :=
  match p.acts with
  | [] => []
  | a :: rest => a.op p.pc :: rest.map (Act.worker p.pcE)

/-- the part behind a HINT of its own at `hintAddr` -/
def Part.bundle (p : Part V M) (hintAddr : Nat) : Bundle where
  hintAddr := hintAddr
  declaredLen := p.acts.length
  members := p.acts.map Act.insn

/-- `t` is a possible outcome of issuing the parts one after the other -/
def IssueParts : List (Part V M) → State Nat V M → State Nat V M → Prop
  | [], s, t => t = s
  | p :: ps, s, t => ∃ u, Issue p.lanes s u ∧ IssueParts ps u t

/-- the members of `b` with their behaviours `I`, cut into `ps`: lane 0 of the first part keeps
its PC -/
structure Split {b : Bundle} (I : Interp V M b.members) (ps : List (Part V M)) : Prop where
  flatten : ps.flatMap Part.acts = acts I
  nonempty : ∀ p ∈ ps, p.acts ≠ []
  first : ∀ p ∈ ps.head?, ∀ a ∈ p.acts.head?, p.pc = a.insn.addr

theorem map_insn_acts {ms : List Insn} (I : Interp V M ms) : (acts I).map Act.insn = ms := by
  unfold acts
  rw [List.map_ofFn]
  exact List.ofFn_get ms

theorem map_op_acts {ms : List Insn} (I : Interp V M ms) :
    (acts I).map (fun a => a.op a.insn.addr) = program I := by
  unfold acts program
  rw [List.map_ofFn]
  rfl

/-- where the lane rules hold, a part runs its members, each as at its own address -/
theorem Part.lanes_eq {p : Part V M} (hw : ∀ a ∈ p.acts.tail, a.insn.isLane0Only = false)
    (h0 : ∀ a ∈ p.acts.head?, a.insn.isLane0Only = true → p.pc = a.insn.addr) :
    p.lanes = p.acts.map fun a => a.op a.insn.addr := by
  unfold Part.lanes
  cases hp : p.acts with
  | nil => rfl
  | cons a rest =>
    rw [hp] at hw h0
    have hrest : rest.map (Act.worker p.pcE) = rest.map fun a => a.op a.insn.addr := by
      refine List.map_congr_left fun c hc => ?_
      have hl := hw c hc
      unfold Act.worker
      rw [Insn.lostInWorker_of_worker hl, if_neg Bool.false_ne_true]
      exact c.effect.op_pc fun hl' => by rw [hl] at hl'; cases hl'
    have hhead : a.op p.pc = a.op a.insn.addr := a.effect.op_pc (h0 a rfl)
    show a.op p.pc :: rest.map (Act.worker p.pcE) = _
    rw [hrest, hhead, List.map_cons]

/-- parts that may be issued one after the other: a lane-0-only member is the first of them all -/
theorem issueParts_iff {ps : List (Part V M)} (hne : ∀ p ∈ ps, p.acts ≠ [])
    (hind : Independent ((ps.flatMap Part.acts).map fun a => a.op a.insn.addr))
    (hw : ∀ a ∈ (ps.flatMap Part.acts).tail, a.insn.isLane0Only = false)
    (h0 : ∀ p ∈ ps.head?, ∀ a ∈ p.acts.head?, a.insn.isLane0Only = true → p.pc = a.insn.addr)
    (s t : State Nat V M) : IssueParts ps s t
      ↔ t = seq ((ps.flatMap Part.acts).map fun a => a.op a.insn.addr) s := by
  induction ps generalizing s with
  | nil => exact Iff.rfl
  | cons p ps ih =>
    rw [List.flatMap_cons, List.map_append] at hind
    rw [List.flatMap_cons] at hw
    obtain ⟨hindp, hindps, -⟩ := List.pairwise_append.mp hind
    have hp : p.acts ≠ [] := hne p List.mem_cons_self
    have htail : (p.acts ++ ps.flatMap Part.acts).tail
        = p.acts.tail ++ ps.flatMap Part.acts := List.tail_append_of_ne_nil hp
    rw [htail] at hw
    have hwp : ∀ a ∈ p.acts.tail, a.insn.isLane0Only = false :=
      fun a ha => hw a (List.mem_append_left _ ha)
    have hwps : ∀ a ∈ ps.flatMap Part.acts, a.insn.isLane0Only = false :=
      fun a ha => hw a (List.mem_append_right _ ha)
    have hlanes := p.lanes_eq hwp (h0 p rfl)
    have hrest := ih (fun q hq => hne q (List.mem_cons_of_mem p hq)) hindps
      (fun a ha => hwps a (List.mem_of_mem_tail ha)) (by
        intro q hq a ha hl
        have hmem : a ∈ ps.flatMap Part.acts :=
          List.mem_flatMap.mpr ⟨q, List.mem_of_mem_head? hq, List.mem_of_mem_head? ha⟩
        rw [hwps a hmem] at hl
        cases hl)
    rw [List.flatMap_cons, List.map_append, seq_append]
    constructor
    · rintro ⟨u, hu, ht⟩
      rw [hlanes] at hu
      rw [(issue_iff_seq hindp s u).mp hu] at ht
      exact (hrest _).mp ht
    · intro ht
      refine ⟨seq (p.acts.map fun a => a.op a.insn.addr) s, ?_, (hrest _).mpr ht⟩
      rw [hlanes]
      exact (issue_iff_seq hindp s _).mpr rfl

theorem Split.members {b : Bundle} {I : Interp V M b.members} {ps : List (Part V M)}
    (h : Split I ps) : (ps.flatMap Part.acts).map Act.insn = b.members := by
  rw [h.flatten, map_insn_acts]

/-- the members of a part are consecutive members of the bundle -/
theorem Split.part_infix {b : Bundle} {I : Interp V M b.members} {ps : List (Part V M)}
    (h : Split I ps) {p : Part V M} (hp : p ∈ ps) :
    p.acts.map Act.insn <:+: b.members := by
  obtain ⟨qs, rs, rfl⟩ := List.append_of_mem hp
  rw [← h.members, List.flatMap_append, List.flatMap_cons, List.map_append, List.map_append]
  rw [← List.append_assoc]
  exact List.infix_append _ _ _

theorem mem_tail_of_splits {α : Type*} {xs ys : List α} (h : xs <:+: ys) {a : α}
    (ha : a ∈ xs.tail) : a ∈ ys.tail := by
  obtain ⟨pre, post, rfl⟩ := h
  cases pre with
  | nil =>
    cases xs with
    | nil => exact absurd ha List.not_mem_nil
    | cons x xs => exact List.mem_append_left post ha
  | cons y pre =>
    exact List.mem_append_left post (List.mem_append_right pre (List.mem_of_mem_tail ha))

theorem Split.part_accepted {b : Bundle} {I : Interp V M b.members} {ps : List (Part V M)}
    (h : Split I ps) (hacc : Accepted b) (hlen : b.members.length ≤ b.declaredLen)
    {p : Part V M} (hp : p ∈ ps) (hintAddr : Nat) : Accepted (p.bundle hintAddr) := by
  have hmem : (p.bundle hintAddr).members = p.acts.map Act.insn := rfl
  have hsub : (p.acts.map Act.insn).Sublist b.members := (h.part_infix hp).sublist
  refine ⟨?_, ?_, ?_, hacc.pairs.sublist hsub⟩
  · have hle := hsub.length_le
    rw [List.length_map] at hle
    exact Nat.le_trans hle (Nat.le_trans hlen hacc.declared)
  · rw [hmem, List.length_map]
    exact Nat.le_refl _
  · rw [hmem]
    exact fun m hm => hacc.workers m (mem_tail_of_splits (h.part_infix hp) hm)

/-- **Cut into parts, each behind its own HINT, an error-free bundle stays error-free (if it has
no more members than its HINT declares, as the scan builds it), and issuing the parts one after
the other is issuing the bundle.** -/
theorem split_issues_same {b : Bundle} {L : Int} (hb : (checkBundle b L).1.errors = [])
    (I : Interp V M b.members) {ps : List (Part V M)} (hs : Split I ps) :
    (b.members.length ≤ b.declaredLen → ∀ p ∈ ps, ∀ (hintAddr : Nat) (L' : Int),
      (checkBundle (p.bundle hintAddr) L').1.errors = []
        ∧ (L' ≠ 0 → (checkBundle (p.bundle hintAddr) L').2 = none))
    ∧ ∀ pcE s, (∃ t, Issue (lanes I pcE) s t)
      ∧ ∀ t, IssueParts ps s t ↔ Issue (lanes I pcE) s t := by
  have hacc : Accepted b := ((checkBundle_errors_iff b L).mp hb).2
  constructor
  · intro hlen p hp hintAddr L'
    refine ⟨(checkBundle_errors_iff _ L').mpr ⟨rfl, hs.part_accepted hacc hlen hp hintAddr⟩, ?_⟩
    have hpos : 1 ≤ (p.bundle hintAddr).declaredLen :=
      List.length_pos_iff.mpr (hs.nonempty p hp)
    exact checkBundle_returns hpos
  · intro pcE s
    have hprog : (ps.flatMap Part.acts).map (fun a => a.op a.insn.addr) = program I := by
      rw [hs.flatten, map_op_acts]
    have hw : ∀ a ∈ (ps.flatMap Part.acts).tail, a.insn.isLane0Only = false := by
      intro a ha
      apply hacc.workers
      rw [← hs.members, ← List.map_tail]
      exact List.mem_map_of_mem ha
    have hparts := issueParts_iff hs.nonempty (hprog ▸ program_independent hacc I) hw
      (fun p hp a ha _ => hs.first p hp a ha) s
    rw [hprog] at hparts
    rw [lanes_eq_program hacc I pcE]
    have hissue := issue_iff_seq (program_independent hacc I) s
    exact ⟨⟨_, (hissue _).mpr rfl⟩, fun t => (hparts t).trans (hissue t).symm⟩

end

/-- the load in lane 0 and the `addi` that overwrites its base, each in a bundle of its own -/
def warParts : List (Part Nat (Nat → Nat)) :=
  [⟨[⟨_, lwEffect⟩], 2, 0⟩, ⟨[⟨_, addiEffect⟩], 8, 0⟩]

theorem warParts_split : Split warInterp warParts where
  flatten := rfl
  nonempty := fun p hp => by
    rcases List.mem_cons.mp hp with rfl | hp
    · exact List.cons_ne_nil _ _
    · obtain rfl := List.mem_singleton.mp hp
      exact List.cons_ne_nil _ _
  first := fun p hp a ha => by
    obtain rfl := Option.some.inj hp
    obtain rfl := Option.some.inj ha
    rfl

/-- the load still reads the old base, the `addi` comes after it -/
theorem split_issues_same_war :
    (∀ p ∈ warParts, (checkBundle (p.bundle 0) 64).1.errors = [])
    ∧ IssueParts warParts ⟨fun r => r, fun a => a + 10⟩
      ⟨Function.update (Function.update (fun r => r) 5 16) 6 1, fun a => a + 10⟩ := by
  have hacc : Accepted warBundle := by decide
  have hb : (checkBundle warBundle 64).1.errors = [] :=
    (checkBundle_errors_iff _ 64).mpr ⟨rfl, hacc⟩
  obtain ⟨hparts, hissue⟩ := split_issues_same hb warInterp warParts_split
  refine ⟨fun p hp => (hparts (by decide) p hp 0 64).1, ((hissue 0 _).2 _).mpr ?_⟩
  rw [lanes_eq_program hacc]
  exact (issue_iff_seq (program_independent hacc warInterp) _ _).mpr rfl

end Starbug
