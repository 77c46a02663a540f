import Starbug.Check.Bundle
import Starbug.Lib.Sweep

/-!
# The scan (`analyse` of `tools/starbug_bundle_check.py`)

`analyse` walks the listing of `disassemble` by index, cuts a bundle behind every HINT it
meets, checks it and goes on BEHIND the members.  `analyse_eq` says which bundles come out: one
for each header of the linear sweep `hints`, in order, each checked.

* `analyse_hint_iff`        the HINT at an index gets its bundle exactly if no earlier HINT of
                            the sweep owns the index;
* `analyse_contiguous_iff`  every bundle without errors is contiguous in memory exactly if no
                            HINT of the sweep owns an otherwise clean group with a gap in it.
-/

namespace Starbug

/-! ## the loops of the source -/

/-- one entry of `disassemble`: `(addr, word, size, text, func)` -/
structure Line where
  addr : Nat
  word : Nat
  size : Nat
  text : String := ""
  func : String := ""
  deriving DecidableEq

def Line.decode (l : Line) : Insn := Starbug.decode l.addr l.word l.text

def Line.hint (l : Line) : Option Nat := if l.size = 2 then hintLength l.word else none

/-- `take`: how many lines the scan hands to a HINT of length `n` -/
def takeLen (n : Nat) : Nat := if n ≤ maxBundle then min n maxBundle else n

theorem takeLen_eq (n : Nat) : takeLen n = n := by
  unfold takeLen
  split_ifs with h
  · exact min_eq_left h
  · rfl

/-- the inner `while`: the members, the indices covered, and the index behind them -/
def memberLoop (insns : List Line) (take j : Nat) (members : List Insn) (covered : Finset Nat) :
    List Insn × Finset Nat × Nat :=
  if h : j < insns.length ∧ members.length < take then
    memberLoop insns take (j + 1) (members ++ [insns[j].decode]) (insert j covered)
  else (members, covered, j)
termination_by insns.length - j

theorem le_memberLoop (insns : List Line) (take j : Nat) (members : List Insn)
    (covered : Finset Nat) : j ≤ (memberLoop insns take j members covered).2.2 := by
  fun_induction memberLoop insns take j members covered with
  | case1 j members covered h ih => omega
  | case2 j members covered h => exact Nat.le_refl j

/-- the outer `while` -/
def analyseLoop (insns : List Line) (icacheLineBytes : Int) (idx : Nat) (bundles : List Bundle)
    (covered : Finset Nat) : Except PyError (List Bundle × Finset Nat) :=
  if h : idx < insns.length then
    match insns[idx].hint with
    | none => analyseLoop insns icacheLineBytes (idx + 1) bundles covered
    | some n =>
      let r := memberLoop insns (takeLen n) (idx + 1) [] covered
      let b : Bundle := { hintAddr := insns[idx].addr, declaredLen := n, members := r.1 }
      match checkBundle { b with func := insns[idx].func } icacheLineBytes with
      | (_, some e) => .error e
      | (b, none) => analyseLoop insns icacheLineBytes r.2.2 (bundles ++ [b]) (insert idx r.2.1)
  else .ok (bundles, covered)
termination_by insns.length - idx
decreasing_by
  · omega
  · have hj := le_memberLoop insns (takeLen n) (idx + 1) [] covered
    omega

def analyse (insns : List Line) (icacheLineBytes : Int) :
    Except PyError (List Bundle × Finset Nat) :=
  analyseLoop insns icacheLineBytes 0 [] ∅

/-! ## which bundles come out -/

/-- a HINT with its length and the lines it owns, as a bundle that is not checked yet -/
def cut (x : Line × Nat × List Line) : Bundle where
  hintAddr := x.1.addr
  declaredLen := x.2.1
  members := x.2.2.map Line.decode
  func := x.1.func

/-- the HINTs the scan meets -/
def hints (insns : List Line) : List (Line × Nat × List Line) :=
  Sweep.headers Line.hint 0 insns

theorem Line.hint_pos {l : Line} {n : Nat} (h : l.hint = some n) : 1 ≤ n := by
  unfold Line.hint at h
  split_ifs at h
  exact hintLength_pos h

theorem memberLoop_spec (insns : List Line) (take j : Nat) (members : List Insn)
    (covered : Finset Nat) :
    (memberLoop insns take j members covered).1
        = members ++ ((insns.drop j).take (take - members.length)).map Line.decode
      ∧ insns.drop (memberLoop insns take j members covered).2.2
        = (insns.drop j).drop (take - members.length) := by
  fun_induction memberLoop insns take j members covered with
  | case1 j members covered h ih =>
    have hlen : (members ++ [insns[j].decode]).length = members.length + 1 := by simp
    have htake : take - members.length = take - (members.length + 1) + 1 := by omega
    rw [hlen] at ih
    rw [ih.1, ih.2, htake, List.drop_eq_getElem_cons h.1, List.take_succ_cons, List.map_cons,
      List.drop_succ_cons, List.append_assoc]
    exact ⟨rfl, rfl⟩
  | case2 j members covered h =>
    rcases Nat.lt_or_ge j insns.length with hj | hj
    · have htake : take - members.length = 0 := by
        have hm : ¬ members.length < take := fun hm => h ⟨hj, hm⟩
        omega
      simp [htake]
    · simp [List.drop_eq_nil_of_le hj]

/-- a bundle the scan cuts has members unless it is truncated, so with a nonzero line size the
check returns -/
theorem checkBundle_returns {b : Bundle} (hb : 1 ≤ b.declaredLen) {L : Int} (hL : L ≠ 0) :
    (checkBundle b L).2 = none := by
  by_cases hd : maxBundle < b.declaredLen
  · simp [checkBundle, hd]
  by_cases hn : b.members.length < b.declaredLen
  · simp [checkBundle, hd, hn]
  obtain ⟨m, hm⟩ : ∃ m, b.members.getLast? = some m := by
    have hne : b.members ≠ [] := fun h0 => by
      rw [h0, List.length_nil] at hn
      omega
    exact ⟨_, List.getLast?_eq_some_getLast hne⟩
  have hf : ∃ ws, fetchWarnings b L = .ok ws := by
    unfold fetchWarnings
    simp only [hm, if_neg hL]
    split_ifs
    · exact ⟨_, rfl⟩
    · exact ⟨_, rfl⟩
  obtain ⟨ws, hws⟩ := hf
  have hws' : ∀ es ws', fetchWarnings { b with errors := es, warnings := ws' } L = .ok ws :=
    fun _ _ => hws
  simp only [checkBundle, if_neg hd, if_neg hn, hws']

theorem cut_drop {insns : List Line} {idx n : Nat} (h : idx < insns.length)
    (covered : Finset Nat) :
    cut (insns[idx], n, (insns.drop (idx + 1)).take n)
      = { hintAddr := insns[idx].addr, declaredLen := n,
          members := (memberLoop insns (takeLen n) (idx + 1) [] covered).1,
          func := insns[idx].func } := by
  rw [(memberLoop_spec insns (takeLen n) (idx + 1) [] covered).1, takeLen_eq]
  rfl

theorem analyseLoop_ok {insns : List Line} {L : Int} {idx : Nat} {bundles bs : List Bundle}
    {covered cov : Finset Nat} (hr : analyseLoop insns L idx bundles covered = .ok (bs, cov)) :
    bs = bundles ++ (Sweep.headers Line.hint 0 (insns.drop idx)).map
      fun x => (checkBundle (cut x) L).1 := by
  fun_induction analyseLoop insns L idx bundles covered with
  | case1 idx bundles covered h hnone ih =>
    rw [ih hr, List.drop_eq_getElem_cons h, Sweep.headers_cons_none _ hnone]
  | case2 idx bundles covered h n hn r b b' e hc => cases hr
  | case3 idx bundles covered h n hn r b b' hc ih =>
    have hcut : b' = (checkBundle (cut (insns[idx], n, (insns.drop (idx + 1)).take n)) L).1 := by
      rw [cut_drop h covered]
      exact (congrArg Prod.fst hc).symm
    have hrest : Sweep.headers Line.hint n (insns.drop (idx + 1))
        = Sweep.headers Line.hint 0 (insns.drop r.2.2) := by
      rw [Sweep.headers_drop, (memberLoop_spec insns (takeLen n) (idx + 1) [] covered).2,
        takeLen_eq]
      rfl
    rw [ih hr, List.drop_eq_getElem_cons h, Sweep.headers_cons_some _ hn, hrest, List.map_cons,
      ← hcut, List.append_assoc]
    rfl
  | case4 idx bundles covered h =>
    obtain ⟨rfl, -⟩ := Prod.mk.inj (Except.ok.inj hr)
    rw [List.drop_eq_nil_of_le (Nat.not_lt.mp h), Sweep.headers_nil, List.map_nil,
      List.append_nil]

/-- **The scan returns one bundle for each HINT of the linear sweep, in order, each checked.** -/
theorem analyse_eq {insns : List Line} {L : Int} {bs : List Bundle} {cov : Finset Nat}
    (h : analyse insns L = .ok (bs, cov)) :
    bs = (hints insns).map fun x => (checkBundle (cut x) L).1 :=
  analyseLoop_ok h

theorem analyse_returns (insns : List Line) {L : Int} (hL : L ≠ 0) :
    ∃ r, analyse insns L = .ok r := by
  unfold analyse
  generalize (0 : Nat) = idx, ([] : List Bundle) = bundles, (∅ : Finset Nat) = covered
  fun_induction analyseLoop insns L idx bundles covered with
  | case1 idx bundles covered h hnone ih => exact ih
  | case2 idx bundles covered h n hn r b b' e hc =>
    have hret := checkBundle_returns (b := { b with func := insns[idx].func })
      (Line.hint_pos hn) hL
    rw [hc] at hret
    cases hret
  | case3 idx bundles covered h n hn r b b' hc ih => exact ih
  | case4 idx bundles covered h => exact ⟨_, rfl⟩

/-! ## which indices are covered -/

/-- the HINTs the scan meets, each with its index -/
def spots (insns : List Line) : List (Nat × Line × Nat × List Line) :=
  Sweep.spots 0 (Sweep.pieces Line.hint insns)

theorem map_snd_spots (insns : List Line) : (spots insns).map Prod.snd = hints insns := by
  unfold spots hints
  rw [Sweep.map_snd_spots, Sweep.filterMap_header_pieces]

theorem memberLoop_index (insns : List Line) (take j : Nat) (members : List Insn)
    (covered : Finset Nat) :
    (memberLoop insns take j members covered).2.2
      = j + ((insns.drop j).take (take - members.length)).length := by
  fun_induction memberLoop insns take j members covered with
  | case1 j members covered h ih =>
    have hlen : (members ++ [insns[j].decode]).length = members.length + 1 := by simp
    rw [ih, hlen, List.length_take, List.length_take, List.length_drop, List.length_drop]
    omega
  | case2 j members covered h =>
    show j = _
    rw [List.length_take, List.length_drop]
    omega

theorem mem_memberLoop_covered (insns : List Line) (take j : Nat) (members : List Insn)
    (covered : Finset Nat) (i : Nat) :
    i ∈ (memberLoop insns take j members covered).2.1 ↔ i ∈ covered
      ∨ j ≤ i ∧ i < (memberLoop insns take j members covered).2.2 := by
  fun_induction memberLoop insns take j members covered with
  | case1 j members covered h ih =>
    have hle := le_memberLoop insns take (j + 1) (members ++ [insns[j].decode]) (insert j covered)
    rw [ih, Finset.mem_insert]
    by_cases hc : i ∈ covered
    · simp [hc]
    · simp only [hc, or_false, false_or]
      omega
  | case2 j members covered h =>
    have hnot : ¬ (j ≤ i ∧ i < j) := by omega
    exact (or_iff_left hnot).symm

theorem analyseLoop_covered {insns : List Line} {L : Int} {idx : Nat} {bundles bs : List Bundle}
    {covered cov : Finset Nat} (hr : analyseLoop insns L idx bundles covered = .ok (bs, cov))
    (i : Nat) : i ∈ cov ↔ i ∈ covered
      ∨ ∃ x ∈ Sweep.spots idx (Sweep.pieces Line.hint (insns.drop idx)),
        x.1 ≤ i ∧ i ≤ x.1 + x.2.2.2.length := by
  fun_induction analyseLoop insns L idx bundles covered with
  | case1 idx bundles covered h hnone ih =>
    rw [ih hr, List.drop_eq_getElem_cons h, Sweep.pieces_cons_none _ hnone,
      Sweep.spots_cons_lone]
  | case2 idx bundles covered h n hn r b b' e hc => cases hr
  | case3 idx bundles covered h n hn r b b' hc ih =>
    have hj : r.2.2 = idx + (((insns.drop (idx + 1)).take n).length + 1) := by
      show (memberLoop insns (takeLen n) (idx + 1) [] covered).2.2 = _
      rw [memberLoop_index, takeLen_eq, List.length_nil, Nat.sub_zero]
      omega
    have hdrop : insns.drop r.2.2 = (insns.drop (idx + 1)).drop n := by
      show insns.drop (memberLoop insns (takeLen n) (idx + 1) [] covered).2.2 = _
      rw [(memberLoop_spec insns (takeLen n) (idx + 1) [] covered).2, takeLen_eq]
      rfl
    have hmem : i ∈ insert idx r.2.1 ↔ i ∈ covered
        ∨ idx ≤ i ∧ i ≤ idx + ((insns.drop (idx + 1)).take n).length := by
      show i ∈ insert idx (memberLoop insns (takeLen n) (idx + 1) [] covered).2.1 ↔ _
      rw [Finset.mem_insert, mem_memberLoop_covered]
      have hj' : (memberLoop insns (takeLen n) (idx + 1) [] covered).2.2
          = idx + (((insns.drop (idx + 1)).take n).length + 1) := hj
      rw [hj']
      by_cases hc : i ∈ covered
      · simp [hc]
      · simp only [hc, false_or]
        omega
    rw [ih hr, hdrop, hmem, hj, List.drop_eq_getElem_cons h, Sweep.pieces_cons_some _ hn,
      Sweep.spots_cons_group, List.exists_mem_cons_iff, or_assoc]
  | case4 idx bundles covered h =>
    obtain ⟨-, rfl⟩ := Prod.mk.inj (Except.ok.inj hr)
    rw [List.drop_eq_nil_of_le (Nat.not_lt.mp h), Sweep.pieces_nil]
    simp [Sweep.spots, Sweep.place]

theorem mem_covered {insns : List Line} {L : Int} {bs : List Bundle} {cov : Finset Nat}
    (h : analyse insns L = .ok (bs, cov)) (i : Nat) :
    i ∈ cov ↔ ∃ x ∈ spots insns, x.1 ≤ i ∧ i ≤ x.1 + x.2.2.2.length := by
  have hcov := analyseLoop_covered h i
  rw [List.drop_zero, or_iff_right (Finset.notMem_empty i)] at hcov
  exact hcov

/-! ## no HINT escapes -/

/-- no HINT that the scan meets owns the line at index `k` -/
def Reached (insns : List Line) (k : Nat) : Prop := Sweep.owed Line.hint (insns.take k) = 0

instance (insns : List Line) (k : Nat) : Decidable (Reached insns k) := instDecidableEqNat _ _

/-- the lines a HINT of length `n` at index `k` speaks about (fewer only at the end) -/
def behind (insns : List Line) (k n : Nat) : List Line := (insns.drop (k + 1)).take n

theorem mem_hints {insns : List Line} {l : Line} {n : Nat} {ms : List Line} :
    (l, n, ms) ∈ hints insns ↔ ∃ k, insns[k]? = some l ∧ l.hint = some n
      ∧ ms = behind insns k n ∧ Reached insns k :=
  Sweep.mem_headers Line.hint insns l n ms

/-- among `bs` is the bundle of the HINT `l` of length `n` at index `k` -/
def HasBundle (bs : List Bundle) (insns : List Line) (k : Nat) (l : Line) (n : Nat) : Prop :=
  ∃ b ∈ bs, b.hintAddr = l.addr ∧ b.declaredLen = n
    ∧ b.members = (behind insns k n).map Line.decode

/-- a HINT at `k'` with the address, the length and the members of the HINT `l` at `k` -/
def Twin (insns : List Line) (k : Nat) (l : Line) (n k' : Nat) : Prop :=
  ∃ l', insns[k']? = some l' ∧ l'.addr = l.addr ∧ l'.hint = some n
    ∧ (behind insns k' n).map Line.decode = (behind insns k n).map Line.decode

theorem hasBundle_iff_twin {insns : List Line} {L : Int} {bs : List Bundle} {cov : Finset Nat}
    (h : analyse insns L = .ok (bs, cov)) (k : Nat) (l : Line) (n : Nat) :
    HasBundle bs insns k l n ↔ ∃ k', Twin insns k l n k' ∧ Reached insns k' := by
  rw [analyse_eq h]
  constructor
  · rintro ⟨b, hb, ha, hd, hm⟩
    obtain ⟨⟨l', n', ms⟩, hx, rfl⟩ := List.mem_map.mp hb
    obtain ⟨k', hk', hn', hms, hreach⟩ := mem_hints.mp hx
    rw [checkBundle_hintAddr] at ha
    rw [checkBundle_declaredLen] at hd
    rw [checkBundle_members] at hm
    obtain rfl : n' = n := hd
    subst hms
    exact ⟨k', ⟨l', hk', ha, hn', hm⟩, hreach⟩
  · rintro ⟨k', ⟨l', hk', ha, hn', hm⟩, hreach⟩
    refine ⟨_, List.mem_map_of_mem (mem_hints.mpr ⟨k', hk', hn', rfl, hreach⟩), ?_, ?_, ?_⟩
    · rw [checkBundle_hintAddr]
      exact ha
    · rw [checkBundle_declaredLen]
      rfl
    · rw [checkBundle_members]
      exact hm

theorem twin_iff {insns : List Line} (hd : (insns.map Line.addr).Nodup) {k : Nat} {l : Line}
    {n : Nat} (hk : insns[k]? = some l) (hn : l.hint = some n) (k' : Nat) :
    Twin insns k l n k' ↔ k' = k := by
  constructor
  · rintro ⟨l', hk', ha, -, -⟩
    have h1 : (insns.map Line.addr)[k]? = some l.addr := by simp [hk]
    have h2 : (insns.map Line.addr)[k']? = some l.addr := by simp [hk', ha]
    obtain ⟨hlt, -⟩ := List.getElem?_eq_some_iff.mp h2
    exact (List.getElem?_inj hlt hd).mp (h2.trans h1.symm)
  · rintro rfl
    exact ⟨l, hk, rfl, hn, rfl⟩

/-- **With a nonzero line size the scan returns.  Whenever it returns, a HINT gets its bundle
exactly if the scan reaches it or a twin of it, and where no address is listed twice exactly if
the scan reaches it: a HINT among the members of an earlier one, or behind an oversize one, is
passed over.** -/
theorem analyse_hint_iff (insns : List Line) (L : Int) :
    (L ≠ 0 → ∃ r, analyse insns L = .ok r)
    ∧ ∀ bs cov, analyse insns L = .ok (bs, cov) → ∀ k l n, insns[k]? = some l →
      l.hint = some n →
      (HasBundle bs insns k l n ↔ ∃ k', Twin insns k l n k' ∧ Reached insns k')
      ∧ ((insns.map Line.addr).Nodup → (HasBundle bs insns k l n ↔ Reached insns k)) := by
  refine ⟨analyse_returns insns, fun bs cov h k l n hk hn => ?_⟩
  refine ⟨hasBundle_iff_twin h k l n, fun hd => ?_⟩
  rw [hasBundle_iff_twin h]
  constructor
  · rintro ⟨k', ht, hreach⟩
    rwa [(twin_iff hd hk hn k').mp ht] at hreach
  · intro hreach
    exact ⟨k, (twin_iff hd hk hn k).mpr rfl, hreach⟩

/-- `c.li x0, 2; c.li x0, 2; addi x5, x0, 1; addi x6, x0, 1`: a HINT among the members of a HINT -/
def nestedHints : List Line :=
  [⟨0, 0x4009, 2, "", ""⟩, ⟨2, 0x4009, 2, "", ""⟩, ⟨4, 0x00100293, 4, "", ""⟩,
    ⟨8, 0x00100313, 4, "", ""⟩]

theorem analyse_hint_iff_outer : ∃ bs cov, analyse nestedHints 64 = .ok (bs, cov)
    ∧ HasBundle bs nestedHints 0 ⟨0, 0x4009, 2, "", ""⟩ 2 := by
  obtain ⟨⟨bs, cov⟩, h⟩ := (analyse_hint_iff nestedHints 64).1 (by decide)
  have hiff := (analyse_hint_iff nestedHints 64).2 bs cov h 0 _ 2 rfl (by decide)
  exact ⟨bs, cov, h, (hiff.2 (by decide)).mpr (by decide)⟩

/-- the inner one, which the fetch unit meets when it declines the outer bundle, does not -/
theorem analyse_misses_inner : ∃ bs cov, analyse nestedHints 64 = .ok (bs, cov)
    ∧ nestedHints[1]? = some ⟨2, 0x4009, 2, "", ""⟩
    ∧ Line.hint ⟨2, 0x4009, 2, "", ""⟩ = some 2 ∧ 2 ≤ maxBundle
    ∧ ¬ HasBundle bs nestedHints 1 ⟨2, 0x4009, 2, "", ""⟩ 2 := by
  obtain ⟨⟨bs, cov⟩, h⟩ := analyse_returns nestedHints (L := 64) (by decide)
  refine ⟨bs, cov, h, rfl, by decide, by decide, ?_⟩
  rw [hasBundle_iff_twin h]
  rintro ⟨k', ht, hreach⟩
  obtain rfl := (twin_iff (by decide) rfl (by decide) k').mp ht
  exact absurd hreach (by decide)

/-! ## contiguity -/

/-- the first of `ms` is at `a`, and each next one where its predecessor ends; `size` is that of an
`Insn`, the length that the word encodes -/
def ContiguousFrom : Nat → List Insn → Prop
  | _, [] => True
  | a, m :: ms => m.addr = a ∧ ContiguousFrom (m.addr + m.size) ms

instance decidableContiguousFrom : ∀ (a : Nat) (ms : List Insn), Decidable (ContiguousFrom a ms)
  | _, [] => isTrue trivial
  | _, m :: ms =>
    @instDecidableAnd _ _ _ (decidableContiguousFrom (m.addr + m.size) ms)

def Bundle.Contiguous (b : Bundle) : Prop := ContiguousFrom (b.hintAddr + 2) b.members

/-- the line behind index `j` is not where the instruction at `j` ends, by the length that its word
encodes (`wordLength`) and not by the `size` of the line -/
def GapAt (insns : List Line) (j : Nat) : Prop :=
  ∃ a b, insns[j]? = some a ∧ insns[j + 1]? = some b ∧ b.addr ≠ a.addr + wordLength a.word

/-- the lane rules and the register rules hold of `ms` -/
structure Clean (ms : List Insn) : Prop where
  workers : ∀ m ∈ ms.tail, m.isLane0Only = false
  pairs : ms.Pairwise RegIndependent

instance (ms : List Insn) : Decidable (Clean ms) :=
  decidable_of_iff ((∀ m ∈ ms.tail, m.isLane0Only = false) ∧ ms.Pairwise RegIndependent)
    ⟨fun h => ⟨h.1, h.2⟩, fun h => ⟨h.workers, h.pairs⟩⟩

theorem contiguousFrom_decode (a : Line) (ms : List Line) :
    ContiguousFrom (a.addr + wordLength a.word) (ms.map Line.decode)
      ↔ ∀ i < ms.length, ¬ GapAt (a :: ms) i := by
  induction ms generalizing a with
  | nil => simp [ContiguousFrom]
  | cons m ms ih =>
    have hhead : ¬ GapAt (a :: m :: ms) 0 ↔ m.addr = a.addr + wordLength a.word := by
      simp [GapAt]
    have htail : ∀ i, GapAt (a :: m :: ms) (i + 1) ↔ GapAt (m :: ms) i := fun i => Iff.rfl
    have hdecode : m.decode.addr = m.addr ∧ m.decode.size = wordLength m.word :=
      ⟨decode_addr _ _ _, decode_size _ _ _⟩
    rw [List.map_cons, ContiguousFrom, hdecode.1, hdecode.2, ih m, ← hhead, List.length_cons]
    constructor
    · rintro ⟨h0, h⟩ i hi
      cases i with
      | zero => exact h0
      | succ i => exact fun hg => h i (Nat.lt_of_succ_lt_succ hi) ((htail i).mp hg)
    · intro h
      exact ⟨h 0 (Nat.succ_pos _), fun i hi hg => h (i + 1) (Nat.succ_lt_succ hi) ((htail i).mpr hg)⟩

theorem wordLength_of_hint {l : Line} {n : Nat} (h : l.hint = some n) : wordLength l.word = 2 := by
  unfold Line.hint at h
  split_ifs at h with hs
  unfold hintLength at h
  split_ifs at h with h1 h2 h3 h4
  have hc : isCompressed l.word = true := by
    have h1' : (l.word &&& 3) = 1 := not_not.mp h1
    simp [isCompressed, h1']
  simp [wordLength, hc]

theorem gapAt_behind {insns : List Line} {k n i : Nat} {l : Line} (hk : insns[k]? = some l)
    (hi : i < n) : GapAt (l :: behind insns k n) i ↔ GapAt insns (k + i) := by
  have hget : ∀ j, j ≤ n → (l :: behind insns k n)[j]? = insns[k + j]? := by
    intro j hj
    cases j with
    | zero => exact hk.symm
    | succ j =>
      rw [List.getElem?_cons_succ, behind, List.getElem?_take_of_lt hj, List.getElem?_drop]
      congr 1
      omega
  unfold GapAt
  rw [hget i (Nat.le_of_lt hi), hget (i + 1) hi, Nat.add_assoc]

theorem accepted_cut {l : Line} {n : Nat} {ms : List Line} :
    Accepted (cut (l, n, ms))
      ↔ n ≤ maxBundle ∧ n ≤ ms.length ∧ Clean (ms.map Line.decode) := by
  have hlen : (cut (l, n, ms)).members.length = ms.length := List.length_map _
  constructor
  · rintro ⟨h1, h2, h3, h4⟩
    exact ⟨h1, hlen ▸ h2, h3, h4⟩
  · rintro ⟨h1, h2, h3, h4⟩
    exact ⟨h1, hlen.symm ▸ h2, h3, h4⟩

theorem length_behind {insns : List Line} {k n : Nat} (hn : 1 ≤ n) :
    n ≤ (behind insns k n).length ↔ k + n < insns.length := by
  unfold behind
  rw [List.length_take, List.length_drop]
  omega

/-- one HINT of the sweep: its bundle against its lines -/
theorem contiguous_cut {insns : List Line} {k n : Nat} {l : Line} (hk : insns[k]? = some l)
    (hn : l.hint = some n) (hlen : n ≤ (behind insns k n).length) (L : Int) :
    (checkBundle (cut (l, n, behind insns k n)) L).1.Contiguous
      ↔ ∀ i < n, ¬ GapAt insns (k + i) := by
  have hle : (behind insns k n).length = n :=
    Nat.le_antisymm (List.length_take_le _ _) hlen
  have hstart : (cut (l, n, behind insns k n)).hintAddr + 2 = l.addr + wordLength l.word := by
    rw [wordLength_of_hint hn]
    rfl
  unfold Bundle.Contiguous
  rw [checkBundle_hintAddr, checkBundle_members, hstart]
  show ContiguousFrom _ ((behind insns k n).map Line.decode) ↔ _
  rw [contiguousFrom_decode, hle]
  exact forall_congr' fun i => forall_congr' fun hi => not_congr (gapAt_behind hk hi)

/-- **With a nonzero line size the scan returns.  Whenever it returns, all its bundles without
errors are contiguous exactly if there is no gap between the lines of a group that a reached
HINT of a legal length forms and that obeys the lane and register rules.** -/
theorem analyse_contiguous_iff (insns : List Line) (L : Int) :
    (L ≠ 0 → ∃ r, analyse insns L = .ok r)
    ∧ ∀ bs cov, analyse insns L = .ok (bs, cov) →
      ((∀ b ∈ bs, b.errors = [] → b.Contiguous)
        ↔ ∀ k l n, insns[k]? = some l → l.hint = some n → Reached insns k → n ≤ maxBundle →
          k + n < insns.length → Clean ((behind insns k n).map Line.decode) →
          ∀ i < n, ¬ GapAt insns (k + i)) := by
  refine ⟨analyse_returns insns, fun bs cov h => ?_⟩
  rw [analyse_eq h]
  constructor
  · intro hall k l n hk hn hreach hmax hin hclean
    have hlen := (length_behind (Line.hint_pos hn)).mpr hin
    have hacc : Accepted (cut (l, n, behind insns k n)) := accepted_cut.mpr ⟨hmax, hlen, hclean⟩
    refine (contiguous_cut hk hn hlen L).mp (hall _ ?_ ((checkBundle_errors_iff _ L).mpr ⟨rfl, hacc⟩))
    exact List.mem_map_of_mem (mem_hints.mpr ⟨k, hk, hn, rfl, hreach⟩)
  · rintro hgap b hb herr
    obtain ⟨⟨l, n, ms⟩, hx, rfl⟩ := List.mem_map.mp hb
    obtain ⟨k, hk, hn, rfl, hreach⟩ := mem_hints.mp hx
    obtain ⟨hmax, hlen, hclean⟩ := accepted_cut.mp ((checkBundle_errors_iff _ L).mp herr).2
    exact (contiguous_cut hk hn hlen L).mpr
      (hgap k l n hk hn hreach hmax ((length_behind (Line.hint_pos hn)).mp hlen) hclean)

/-- `c.li x0, 2; addi x5, x0, 1; addi x6, x0, 1`, the last line at `a` -/
def twoAddi (a : Nat) : List Line :=
  [⟨0, 0x4009, 2, "", ""⟩, ⟨2, 0x00100293, 4, "", ""⟩, ⟨a, 0x00100313, 4, "", ""⟩]

theorem twoAddi_solid : ∀ j, ¬ GapAt (twoAddi 6) j := by
  rintro j ⟨a, b, ha, hb, hne⟩
  match j with
  | 0 =>
    obtain rfl := Option.some.inj ha
    obtain rfl := Option.some.inj hb
    exact hne (by decide)
  | 1 =>
    obtain rfl := Option.some.inj ha
    obtain rfl := Option.some.inj hb
    exact hne (by decide)
  | j + 2 => cases hb

theorem analyse_contiguous_iff_solid : ∃ bs cov, analyse (twoAddi 6) 64 = .ok (bs, cov)
    ∧ ∀ b ∈ bs, b.errors = [] → b.Contiguous := by
  obtain ⟨⟨bs, cov⟩, h⟩ := (analyse_contiguous_iff (twoAddi 6) 64).1 (by decide)
  exact ⟨bs, cov, h, ((analyse_contiguous_iff (twoAddi 6) 64).2 bs cov h).mpr
    fun k _ _ _ _ _ _ _ _ i _ => twoAddi_solid (k + i)⟩

/-- across a gap of 94 bytes the scan still makes an error-free bundle -/
theorem analyse_bridges_gap : ((twoAddi 100).map Line.addr).Pairwise (· < ·)
    ∧ ∃ bs cov, analyse (twoAddi 100) 64 = .ok (bs, cov)
      ∧ ∃ b ∈ bs, b.errors = [] ∧ ¬ b.Contiguous := by
  refine ⟨by decide, ?_⟩
  obtain ⟨⟨bs, cov⟩, h⟩ := analyse_returns (twoAddi 100) (L := 64) (by decide)
  have hmem : (⟨0, 0x4009, 2, "", ""⟩, 2, behind (twoAddi 100) 0 2) ∈ hints (twoAddi 100) :=
    mem_hints.mpr ⟨0, rfl, by decide, rfl, by decide⟩
  refine ⟨bs, cov, h, _, analyse_eq h ▸ List.mem_map_of_mem hmem, ?_, ?_⟩
  · exact (checkBundle_errors_iff _ 64).mpr
      ⟨rfl, accepted_cut.mpr ⟨by decide, by decide, by decide⟩⟩
  · unfold Bundle.Contiguous
    rw [checkBundle_hintAddr, checkBundle_members]
    decide

end Starbug
