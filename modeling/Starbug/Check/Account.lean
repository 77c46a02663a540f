import Starbug.Check.Profile
import Mathlib.Algebra.Order.Group.Nat
import Mathlib.Algebra.BigOperators.Ring.List
import Mathlib.Tactic.Linarith

/-!
# The profile against the instruction stream

Where no address is listed twice, every line of the listing is a lone line, the HINT of a group
or a member of one, and the loop of the profile charges it by that alone:

* a lone line, and a member of an unsafe bundle that is no HINT, by what it ran;
* the members of a safe bundle by what their HINT ran.

`profile_payload_iff` and `profile_uniform_iff` compare this with what ran and with the static
counts.
-/

namespace Starbug

/-! ## the loop as sums over the listing -/

instance (m : BundleMap) (l : Line) : Decidable (m.Scalar l) :=
  decidable_of_iff (m.bundleAt.get? l.addr = none ∧ l.addr ∉ m.memberAddrs ∧ l.hint = none)
    ⟨fun h => ⟨h.1, h.2.1, h.2.2⟩, fun h => ⟨h.bundleAt, h.member, h.hint⟩⟩

def scalarRuns (m : BundleMap) (hist : Nat → Nat) (l : Line) : Nat :=
  if m.Scalar l then hist l.addr else 0

def bundleRuns (m : BundleMap) (hist : Nat → Nat) (l : Line) : Nat :=
  if (m.bundleAt.get? l.addr).isSome then hist l.addr else 0

/-- the slots that line `l` fills as the HINT of a bundle -/
def slotRuns (m : BundleMap) (hist : Nat → Nat) (l : Line) : Nat :=
  ((m.bundleAt.get? l.addr).map fun b => hist l.addr * b.members.length).getD 0

/-- `p` after the lines `ls` -/
structure Profile.Counts (m : BundleMap) (hist : Nat → Nat) (ls : List Line) (p : Profile) :
    Prop where
  scalar : p.dynTotal = (ls.map (scalarRuns m hist)).sum
  bundle : p.dynBundleExecs = (ls.map (bundleRuns m hist)).sum
  slots : p.dynInBundles = (ls.map (slotRuns m hist)).sum

theorem Profile.Counts.step {m : BundleMap} {decoded : Dict Nat Insn} {hist : Nat → Nat}
    {ls : List Line} {p p' : Profile} {l : Line} (h : p.Counts m hist ls)
    (hs : profileStep m decoded hist p l = some p') : p'.Counts m hist (ls ++ [l]) := by
  have hone : p'.dynTotal = p.dynTotal + scalarRuns m hist l
      ∧ p'.dynBundleExecs = p.dynBundleExecs + bundleRuns m hist l
      ∧ p'.dynInBundles = p.dynInBundles + slotRuns m hist l := by
    unfold scalarRuns bundleRuns slotRuns
    rcases profileStep_cases hs with ⟨b, hb, rfl⟩ | ⟨hsc, c, rfl⟩ | ⟨h0 | ⟨hb, hns⟩, n, rfl⟩
    · have hns : ¬ m.Scalar l := fun hsc => by
        rw [hsc.bundleAt] at hb
        cases hb
      rw [if_neg hns, hb]
      exact ⟨rfl, rfl, rfl⟩
    · rw [if_pos hsc, hsc.bundleAt]
      exact ⟨rfl, rfl, rfl⟩
    · rw [h0]
      refine ⟨?_, ?_, ?_⟩
      · rw [ite_self]
        rfl
      · rw [ite_self]
        rfl
      · cases m.bundleAt.get? l.addr with
        | none => rfl
        | some b => exact (congrArg (p.dynInBundles + ·) (Nat.zero_mul _)).symm
    · rw [if_neg hns, hb]
      exact ⟨rfl, rfl, rfl⟩
  constructor
  · rw [hone.1, h.scalar, List.map_append, List.sum_append, List.map_singleton,
      List.sum_singleton]
  · rw [hone.2.1, h.bundle, List.map_append, List.sum_append, List.map_singleton,
      List.sum_singleton]
  · rw [hone.2.2, h.slots, List.map_append, List.sum_append, List.map_singleton,
      List.sum_singleton]

theorem profile_counts (insns : List Line) (bundles : List Bundle) (hist : Nat → Nat) :
    ∃ p, profile insns bundles hist = some p ∧ p.Counts (bundleMap bundles) hist insns :=
  profile_induct (fun ls p => p.Counts (bundleMap bundles) hist ls) ⟨rfl, rfl, rfl⟩
    fun _ _ _ _ h _ hs => h.step hs

/-! ## what the maps say of a piece -/

section
variable {insns : List Line} {bs : List Bundle} {cov : Finset Nat} {L : Int}

theorem group_of_safe (h : analyse insns L = .ok (bs, cov)) {b : Bundle} (hb : b ∈ bs)
    (hs : b.safe = true) : ∃ l n ms, .group l n ms ∈ Sweep.pieces Line.hint insns
      ∧ Accepted (cut (l, n, ms)) ∧ b = (checkBundle (cut (l, n, ms)) L).1 := by
  rw [analyse_eq h] at hb
  obtain ⟨⟨l, n, ms⟩, hx, rfl⟩ := List.mem_map.mp hb
  unfold hints at hx
  rw [← Sweep.filterMap_header_pieces] at hx
  obtain ⟨p, hp, hhead⟩ := List.mem_filterMap.mp hx
  cases p with
  | lone a => cases hhead
  | group a n' ms' =>
    cases hhead
    exact ⟨l, n, ms, hp, ((checkBundle_errors_iff _ L).mp (List.isEmpty_iff.mp hs)).2, rfl⟩

theorem safe_of_group (h : analyse insns L = .ok (bs, cov)) {l : Line} {n : Nat}
    {ms : List Line} (hp : .group l n ms ∈ Sweep.pieces Line.hint insns)
    (hacc : Accepted (cut (l, n, ms))) : (checkBundle (cut (l, n, ms)) L).1 ∈ bs
      ∧ (checkBundle (cut (l, n, ms)) L).1.safe = true := by
  constructor
  · rw [analyse_eq h, hints, ← Sweep.filterMap_header_pieces]
    exact List.mem_map_of_mem (List.mem_filterMap.mpr ⟨_, hp, rfl⟩)
  · exact List.isEmpty_iff.mpr ((checkBundle_errors_iff _ L).mpr ⟨rfl, hacc⟩)

theorem bundleAt_of_mem (h : analyse insns L = .ok (bs, cov)) (hd : (insns.map Line.addr).Nodup)
    {p : Sweep.Piece Line} (hp : p ∈ Sweep.pieces Line.hint insns) {a : Line} (ha : a ∈ p.elems)
    {b : Bundle} (hb : (bundleMap bs).bundleAt.get? a.addr = some b) :
    ∃ n ms, p = .group a n ms ∧ Accepted (cut (a, n, ms))
      ∧ b.members.length = ms.length := by
  obtain ⟨hmem, hs, haddr⟩ := bundleAt_spec hb
  obtain ⟨l, n, ms, hq, hacc, rfl⟩ := group_of_safe h hmem hs
  rw [checkBundle_hintAddr] at haddr
  obtain ⟨rfl, rfl⟩ :=
    Sweep.pieces_inj Line.hint Line.addr hd hp hq ha List.mem_cons_self haddr.symm
  refine ⟨n, ms, rfl, hacc, ?_⟩
  rw [checkBundle_members]
  exact List.length_map _

theorem memberAddrs_of_mem (h : analyse insns L = .ok (bs, cov))
    (hd : (insns.map Line.addr).Nodup) {p : Sweep.Piece Line}
    (hp : p ∈ Sweep.pieces Line.hint insns) {a : Line} (ha : a ∈ p.elems) :
    a.addr ∈ (bundleMap bs).memberAddrs
      ↔ ∃ l n ms, p = .group l n ms ∧ Accepted (cut (l, n, ms)) ∧ a ∈ ms := by
  rw [mem_memberAddrs]
  constructor
  · rintro ⟨b, hb, hs, i, hi, haddr⟩
    obtain ⟨l, n, ms, hq, hacc, rfl⟩ := group_of_safe h hb hs
    rw [checkBundle_members] at hi
    obtain ⟨c, hc, rfl⟩ := List.mem_map.mp hi
    have haddr' : a.addr = c.addr := haddr.symm.trans (decode_addr _ _ _)
    obtain ⟨rfl, rfl⟩ := Sweep.pieces_inj Line.hint Line.addr hd hp hq ha
      (List.mem_cons_of_mem l hc) haddr'
    exact ⟨l, n, ms, rfl, hacc, hc⟩
  · rintro ⟨l, n, ms, rfl, hacc, hams⟩
    obtain ⟨hmem, hs⟩ := safe_of_group h hp hacc
    refine ⟨_, hmem, hs, a.decode, ?_, decode_addr _ _ _⟩
    rw [checkBundle_members]
    exact List.mem_map_of_mem hams

/-! ## what the loop charges to a piece -/

/-- what the lines `ls` that are no HINT ran -/
def executed (hist : Nat → Nat) (ls : List Line) : Nat :=
  ((ls.filter fun l => l.hint.isNone).map fun l => hist l.addr).sum

def isAccepted (x : Line × Nat × List Line) : Bool := decide (Accepted (cut x))

@[simp] theorem isAccepted_iff {x : Line × Nat × List Line} :
    isAccepted x = true ↔ Accepted (cut x) :=
  decide_eq_true_iff

theorem executed_cons_hint (hist : Nat → Nat) {l : Line} (hl : l.hint ≠ none)
    (ls : List Line) : executed hist (l :: ls) = executed hist ls := by
  unfold executed
  rw [List.filter_cons_of_neg]
  rw [Option.isNone_iff_eq_none]
  exact hl

theorem executed_eq (hist : Nat → Nat) (ls : List Line) :
    executed hist ls = (ls.map fun l => if l.hint = none then hist l.addr else 0).sum := by
  induction ls with
  | nil => rfl
  | cons l ls ih =>
    rw [List.map_cons, List.sum_cons, ← ih]
    by_cases hl : l.hint = none
    · unfold executed
      rw [if_pos hl, List.filter_cons, if_pos (Option.isNone_iff_eq_none.mpr hl), List.map_cons,
        List.sum_cons]
    · rw [if_neg hl, executed_cons_hint hist hl, Nat.zero_add]

theorem scalar_iff (h : analyse insns L = .ok (bs, cov)) (hd : (insns.map Line.addr).Nodup)
    {p : Sweep.Piece Line} (hp : p ∈ Sweep.pieces Line.hint insns) {a : Line}
    (ha : a ∈ p.elems) : (bundleMap bs).Scalar a ↔ a.hint = none
      ∧ ¬ ∃ l n ms, p = .group l n ms ∧ Accepted (cut (l, n, ms)) ∧ a ∈ ms := by
  constructor
  · rintro ⟨-, hm, hh⟩
    exact ⟨hh, fun hex => hm ((memberAddrs_of_mem h hd hp ha).mpr hex)⟩
  · rintro ⟨hh, hnex⟩
    refine ⟨?_, fun hm => hnex ((memberAddrs_of_mem h hd hp ha).mp hm), hh⟩
    cases hb : (bundleMap bs).bundleAt.get? a.addr with
    | none => rfl
    | some b =>
      obtain ⟨n, ms, rfl, -, -⟩ := bundleAt_of_mem h hd hp ha hb
      rw [(Sweep.fits_of_mem_pieces Line.hint hp).1] at hh
      cases hh

/-- the lines of a piece that are charged alone, and the members of a safe bundle -/
theorem sum_scalarRuns_piece (h : analyse insns L = .ok (bs, cov))
    (hd : (insns.map Line.addr).Nodup) (hist : Nat → Nat) {p : Sweep.Piece Line}
    (hp : p ∈ Sweep.pieces Line.hint insns) :
    (p.elems.map (scalarRuns (bundleMap bs) hist)).sum
        + p.groupSum isAccepted (fun x => executed hist x.2.2)
      = executed hist p.elems := by
  have hfits := Sweep.fits_of_mem_pieces Line.hint hp
  cases p with
  | lone a =>
    have ha : a.hint = none := hfits
    have hs : (bundleMap bs).Scalar a := by
      refine (scalar_iff h hd hp List.mem_cons_self).mpr ⟨ha, ?_⟩
      rintro ⟨l, n, ms, heq, -⟩
      cases heq
    rw [executed_eq]
    show (if (bundleMap bs).Scalar a then hist a.addr else 0) + 0 + 0
      = (if a.hint = none then hist a.addr else 0) + 0
    rw [if_pos hs, if_pos ha]
  | group l n ms =>
    have hl : l.hint ≠ none := by
      rw [hfits.1]
      exact Option.some_ne_none n
    have hhead : scalarRuns (bundleMap bs) hist l = 0 := if_neg fun hs => hl hs.hint
    show ((l :: ms).map (scalarRuns (bundleMap bs) hist)).sum
        + (if isAccepted (l, n, ms) = true then executed hist ms else 0)
      = executed hist (l :: ms)
    rw [executed_cons_hint hist hl, List.map_cons, List.sum_cons, hhead, Nat.zero_add]
    have hmem : ∀ a ∈ ms, ((bundleMap bs).Scalar a ↔ a.hint = none
        ∧ ¬ Accepted (cut (l, n, ms))) := by
      intro a ha
      rw [scalar_iff h hd hp (List.mem_cons_of_mem l ha)]
      refine and_congr_right fun _ => not_congr ⟨?_, fun hacc => ⟨l, n, ms, rfl, hacc, ha⟩⟩
      rintro ⟨l', n', ms', heq, hacc, -⟩
      cases heq
      exact hacc
    by_cases hacc : Accepted (cut (l, n, ms))
    · have hzero : ms.map (scalarRuns (bundleMap bs) hist) = ms.map fun _ => 0 :=
        List.map_congr_left fun a ha => if_neg fun hs => ((hmem a ha).mp hs).2 hacc
      rw [hzero, if_pos (isAccepted_iff.mpr hacc)]
      simp
    · have hmap : ms.map (scalarRuns (bundleMap bs) hist)
          = ms.map fun a => if a.hint = none then hist a.addr else 0 :=
        List.map_congr_left fun a ha =>
          if_congr ((hmem a ha).trans (and_iff_left hacc)) rfl rfl
      rw [hmap, ← executed_eq, if_neg (fun hc => hacc (isAccepted_iff.mp hc)), Nat.add_zero]

/-- a line that does not head an accepted group enters no bundle -/
theorem runs_of_not_header (h : analyse insns L = .ok (bs, cov))
    (hd : (insns.map Line.addr).Nodup) (hist : Nat → Nat) {p : Sweep.Piece Line}
    (hp : p ∈ Sweep.pieces Line.hint insns) {a : Line} (ha : a ∈ p.elems)
    (hno : ∀ n ms, p = .group a n ms → ¬ Accepted (cut (a, n, ms))) :
    bundleRuns (bundleMap bs) hist a = 0 ∧ slotRuns (bundleMap bs) hist a = 0 := by
  have hnone : (bundleMap bs).bundleAt.get? a.addr = none := by
    cases hb : (bundleMap bs).bundleAt.get? a.addr with
    | none => rfl
    | some b =>
      obtain ⟨n, ms, heq, hacc, -⟩ := bundleAt_of_mem h hd hp ha hb
      exact absurd hacc (hno n ms heq)
  unfold bundleRuns slotRuns
  rw [hnone]
  exact ⟨rfl, rfl⟩

theorem runs_of_header (h : analyse insns L = .ok (bs, cov)) (hd : (insns.map Line.addr).Nodup)
    (hist : Nat → Nat) {l : Line} {n : Nat} {ms : List Line}
    (hp : .group l n ms ∈ Sweep.pieces Line.hint insns) (hacc : Accepted (cut (l, n, ms))) :
    bundleRuns (bundleMap bs) hist l = hist l.addr
      ∧ slotRuns (bundleMap bs) hist l = hist l.addr * ms.length := by
  obtain ⟨hmem, hsafe⟩ := safe_of_group h hp hacc
  obtain ⟨b, hb⟩ := exists_bundleAt hmem hsafe
  rw [checkBundle_hintAddr] at hb
  have hb' : (bundleMap bs).bundleAt.get? l.addr = some b := hb
  obtain ⟨n', ms', heq, -, hlen⟩ := bundleAt_of_mem h hd hp List.mem_cons_self hb'
  cases heq
  unfold bundleRuns slotRuns
  rw [hb', ← hlen]
  exact ⟨rfl, rfl⟩

/-- a count that only the HINTs of safe bundles have, summed over a piece -/
theorem sum_piece_of_header (hd : (insns.map Line.addr).Nodup) {p : Sweep.Piece Line}
    (hp : p ∈ Sweep.pieces Line.hint insns) {g : Line → Nat} {G : Line × Nat × List Line → Nat}
    (h0 : ∀ a ∈ p.elems, (∀ n ms, p = .group a n ms → ¬ Accepted (cut (a, n, ms))) → g a = 0)
    (h1 : ∀ l n ms, p = .group l n ms → Accepted (cut (l, n, ms)) → g l = G (l, n, ms)) :
    (p.elems.map g).sum = p.groupSum isAccepted G := by
  cases p with
  | lone a => exact h0 a List.mem_cons_self fun n ms heq => by cases heq
  | group l n ms =>
    have hms : ms.map g = ms.map fun _ => 0 := by
      refine List.map_congr_left fun a ha => h0 a (List.mem_cons_of_mem l ha) fun n' ms' heq => ?_
      cases heq
      exact absurd ha (Sweep.header_notMem Line.hint Line.addr hd hp)
    show ((l :: ms).map g).sum = if isAccepted (l, n, ms) = true then G (l, n, ms) else 0
    rw [List.map_cons, List.sum_cons, hms, List.sum_map_zero, Nat.add_zero]
    by_cases hacc : Accepted (cut (l, n, ms))
    · rw [if_pos (isAccepted_iff.mpr hacc)]
      exact h1 l n ms rfl hacc
    · rw [if_neg fun hc => hacc (isAccepted_iff.mp hc)]
      refine h0 l List.mem_cons_self fun n' ms' heq => ?_
      cases heq
      exact hacc

theorem sum_bundleRuns_piece (h : analyse insns L = .ok (bs, cov))
    (hd : (insns.map Line.addr).Nodup) (hist : Nat → Nat) {p : Sweep.Piece Line}
    (hp : p ∈ Sweep.pieces Line.hint insns) :
    (p.elems.map (bundleRuns (bundleMap bs) hist)).sum
        = p.groupSum isAccepted (fun x => hist x.1.addr)
      ∧ (p.elems.map (slotRuns (bundleMap bs) hist)).sum
        = p.groupSum isAccepted (fun x => hist x.1.addr * x.2.2.length) := by
  refine ⟨sum_piece_of_header hd hp ?_ ?_, sum_piece_of_header hd hp ?_ ?_⟩
  · exact fun a ha hno => (runs_of_not_header h hd hist hp ha hno).1
  · rintro l n ms rfl hacc
    exact (runs_of_header h hd hist hp hacc).1
  · exact fun a ha hno => (runs_of_not_header h hd hist hp ha hno).2
  · rintro l n ms rfl hacc
    exact (runs_of_header h hd hist hp hacc).2

/-- the slots of function `f` that line `l` fills -/
def fnRuns (m : BundleMap) (hist : Nat → Nat) (f : String) (l : Line) : Nat :=
  if l.func = f then slotRuns m hist l else 0

theorem sum_fnRuns_piece (h : analyse insns L = .ok (bs, cov))
    (hd : (insns.map Line.addr).Nodup) (hist : Nat → Nat) (f : String) {p : Sweep.Piece Line}
    (hp : p ∈ Sweep.pieces Line.hint insns) :
    (p.elems.map (fnRuns (bundleMap bs) hist f)).sum = p.groupSum isAccepted
      fun x => if x.1.func = f then hist x.1.addr * x.2.2.length else 0 := by
  unfold fnRuns
  apply sum_piece_of_header hd hp
  · intro a ha hno
    rw [(runs_of_not_header h hd hist hp ha hno).2, ite_self]
  · rintro l n ms rfl hacc
    rw [(runs_of_header h hd hist hp hacc).2]

/-! ## what the loop counts -/

/-- the HINTs of the safe bundles, each with its members -/
def safeHints (insns : List Line) : List (Line × Nat × List Line) :=
  (hints insns).filter isAccepted

/-- what the loop counts, from the listing and the histogram alone -/
theorem profile_totals (h : analyse insns L = .ok (bs, cov)) (hd : (insns.map Line.addr).Nodup)
    (hist : Nat → Nat) : ∃ p, profile insns bs hist = some p
      ∧ p.dynTotal + ((safeHints insns).map fun x => executed hist x.2.2).sum
        = executed hist insns
      ∧ p.dynBundleExecs = ((safeHints insns).map fun x => hist x.1.addr).sum
      ∧ p.dynInBundles = ((safeHints insns).map fun x => hist x.1.addr * x.2.2.length).sum := by
  obtain ⟨p, hp, hcounts⟩ := profile_counts insns bs hist
  refine ⟨p, hp, ?_, ?_, ?_⟩
  · unfold safeHints hints
    rw [hcounts.scalar, Sweep.sum_pieces Line.hint, ← Sweep.sum_groupSum, ← List.sum_map_add,
      executed_eq, Sweep.sum_pieces Line.hint]
    refine congrArg List.sum (List.map_congr_left fun q hq => ?_)
    rw [sum_scalarRuns_piece h hd hist hq, executed_eq]
  · unfold safeHints hints
    rw [hcounts.bundle, Sweep.sum_pieces Line.hint, ← Sweep.sum_groupSum]
    exact congrArg List.sum
      (List.map_congr_left fun q hq => (sum_bundleRuns_piece h hd hist hq).1)
  · unfold safeHints hints
    rw [hcounts.slots, Sweep.sum_pieces Line.hint, ← Sweep.sum_groupSum]
    exact congrArg List.sum
      (List.map_congr_left fun q hq => (sum_bundleRuns_piece h hd hist hq).2)

theorem fnBundled_step {m : BundleMap} {decoded : Dict Nat Insn} {hist : Nat → Nat}
    {p p' : Profile} {l : Line} (hs : profileStep m decoded hist p l = some p') (f : String) :
    p'.fnBundled.get f = p.fnBundled.get f + fnRuns m hist f l := by
  unfold fnRuns slotRuns
  rcases profileStep_cases hs with ⟨b, hb, rfl⟩ | ⟨hsc, c, rfl⟩ | ⟨h0 | ⟨hb, -⟩, n, rfl⟩
  · rw [hb]
    show (p.fnBundled.bump l.func (hist l.addr * b.members.length)).get f = _
    rw [Counter.get_bump]
    exact congrArg _ (if_congr eq_comm rfl rfl)
  · rw [hsc.bundleAt]
    exact (congrArg (p.fnBundled.get f + ·) (ite_self 0)).symm
  · have hz : ((m.bundleAt.get? l.addr).map fun b => hist l.addr * b.members.length).getD 0 = 0 := by
      rw [h0]
      cases m.bundleAt.get? l.addr with
      | none => rfl
      | some b => exact Nat.zero_mul _
    rw [hz, ite_self]
    rfl
  · rw [hb]
    exact (congrArg (p.fnBundled.get f + ·) (ite_self 0)).symm

/-- what the loop counts as bundled in each function -/
theorem profile_funcs (h : analyse insns L = .ok (bs, cov)) (hd : (insns.map Line.addr).Nodup)
    (hist : Nat → Nat) : ∃ p, profile insns bs hist = some p ∧ ∀ f, p.fnBundled.get f
      = ((safeHints insns).map fun x =>
          if x.1.func = f then hist x.1.addr * x.2.2.length else 0).sum := by
  obtain ⟨p, hp, hsum⟩ := profile_induct
    (fun ls p => ∀ f, p.fnBundled.get f = (ls.map (fnRuns (bundleMap bs) hist f)).sum)
    (fun _ => rfl) fun ls l p p' hls _ hs f => by
      rw [fnBundled_step hs, hls, List.map_append, List.sum_append, List.map_singleton,
        List.sum_singleton]
  refine ⟨p, hp, fun f => ?_⟩
  unfold safeHints hints
  rw [hsum, Sweep.sum_pieces Line.hint, ← Sweep.sum_groupSum]
  exact congrArg List.sum (List.map_congr_left fun q hq => sum_fnRuns_piece h hd hist f hq)

end

/-! ## what is executed against what is charged -/

/-- what the HINTs of the safe bundles are charged: each by its size, as often as it ran -/
def charged (hist : Nat → Nat) (insns : List Line) : Nat :=
  ((safeHints insns).map fun x => hist x.1.addr * x.2.2.length).sum

/-- what the members of the safe bundles ran that are no HINTs -/
def ranInside (hist : Nat → Nat) (insns : List Line) : Nat :=
  ((safeHints insns).map fun x => executed hist x.2.2).sum

theorem payload_add_ranInside {insns : List Line} {bs : List Bundle} {cov : Finset Nat} {L : Int}
    (h : analyse insns L = .ok (bs, cov)) (hd : (insns.map Line.addr).Nodup)
    (hist : Nat → Nat) : ∃ p, profile insns bs hist = some p
      ∧ p.payload + ranInside hist insns = executed hist insns + charged hist insns := by
  obtain ⟨p, hp, htotal, -, hslots⟩ := profile_totals h hd hist
  refine ⟨p, hp, ?_⟩
  unfold Profile.payload charged ranInside
  omega

/-- the histogram of a run that only meets the HINT at `a` -/
def onlyAt (a : Nat) (b : Nat) : Nat := if b = a then 1 else 0

theorem charged_pos {insns : List Line} {x : Line × Nat × List Line}
    (hx : x ∈ safeHints insns) : 0 < charged (onlyAt x.1.addr) insns
      ∧ ((insns.map Line.addr).Nodup → executed (onlyAt x.1.addr) insns = 0) := by
  obtain ⟨l, n, ms⟩ := x
  obtain ⟨hh, hacc⟩ := List.mem_filter.mp hx
  obtain ⟨k, hk, hn, rfl, -⟩ := mem_hints.mp hh
  have hlen : 1 ≤ (behind insns k n).length :=
    Nat.le_trans (Line.hint_pos hn) (accepted_cut.mp (of_decide_eq_true hacc)).2.1
  constructor
  · have hmem : onlyAt l.addr l.addr * (behind insns k n).length
        ∈ (safeHints insns).map fun x => onlyAt l.addr x.1.addr * x.2.2.length :=
      List.mem_map_of_mem (f := fun x : Line × Nat × List Line =>
        onlyAt l.addr x.1.addr * x.2.2.length) hx
    have hle := List.single_le_sum (fun _ _ => Nat.zero_le _) _ hmem
    have hone : onlyAt l.addr l.addr = 1 := if_pos rfl
    rw [hone, Nat.one_mul] at hle
    exact Nat.lt_of_lt_of_le hlen hle
  · intro hd
    unfold executed
    have hzero : ∀ y ∈ insns.filter fun l => l.hint.isNone, onlyAt l.addr y.addr = 0 := by
      intro y hy
      obtain ⟨hyi, hyn⟩ := List.mem_filter.mp hy
      refine if_neg fun heq => ?_
      obtain rfl := List.inj_on_of_nodup_map hd hyi (List.mem_of_getElem? hk) heq
      rw [hn] at hyn
      cases hyn
    show ((insns.filter fun l => l.hint.isNone).map fun y => onlyAt l.addr y.addr).sum = 0
    rw [List.map_congr_left hzero, List.sum_map_zero]

/-- **Where no address is listed twice, the loop counts every executed instruction that is no
HINT exactly if the safe bundles' HINTs are charged what their members ran; it does so for
every histogram exactly if there is no safe bundle.** -/
theorem profile_payload_iff (insns : List Line) (hd : (insns.map Line.addr).Nodup) :
    ∃ bs cov, analyse insns defaultIcacheLineBytes = .ok (bs, cov)
      ∧ (∀ hist, ∃ p, profile insns bs hist = some p
        ∧ (p.payload = executed hist insns ↔ charged hist insns = ranInside hist insns))
      ∧ ((∀ hist p, profile insns bs hist = some p → p.payload = executed hist insns)
        ↔ safeHints insns = []) := by
  obtain ⟨⟨bs, cov⟩, h⟩ := analyse_returns insns (L := defaultIcacheLineBytes) (by decide)
  refine ⟨bs, cov, h, fun hist => ?_, ?_, ?_⟩
  · obtain ⟨p, hp, hsum⟩ := payload_add_ranInside h hd hist
    refine ⟨p, hp, ?_⟩
    omega
  · intro hall
    by_contra hne
    obtain ⟨x, hx⟩ := List.exists_mem_of_ne_nil _ hne
    obtain ⟨hpos, hexec⟩ := charged_pos hx
    obtain ⟨p, hp, -, -, hslots⟩ := profile_totals h hd (onlyAt x.1.addr)
    have hpay : p.dynTotal + p.dynInBundles = 0 := (hall _ p hp).trans (hexec hd)
    unfold charged at hpos
    omega
  · intro hnil hist p hp
    obtain ⟨p', hp', hsum⟩ := payload_add_ranInside h hd hist
    rw [hp] at hp'
    obtain rfl := Option.some.inj hp'
    unfold charged ranInside at hsum
    rw [hnil] at hsum
    exact hsum

/-- three runs from the HINT to the last member -/
theorem profile_payload_iff_straight : ∃ bs cov p,
    analyse (twoAddi 6) defaultIcacheLineBytes = .ok (bs, cov)
      ∧ profile (twoAddi 6) bs (fun _ => 3) = some p
      ∧ p.payload = executed (fun _ => 3) (twoAddi 6) := by
  obtain ⟨bs, cov, h, hall, -⟩ := profile_payload_iff (twoAddi 6) (by decide)
  obtain ⟨p, hp, hiff⟩ := hall fun _ => 3
  exact ⟨bs, cov, p, h, hp, hiff.mpr (by decide)⟩

/-- one run from the HINT on and one that branches to the second member, which is lost -/
theorem profile_loses_branch_target : ((twoAddi 6).map Line.addr).Nodup ∧ ∃ bs cov p,
    analyse (twoAddi 6) defaultIcacheLineBytes = .ok (bs, cov)
      ∧ profile (twoAddi 6) bs (fun a => if a = 6 then 2 else 1) = some p
      ∧ p.payload = 2 ∧ executed (fun a => if a = 6 then 2 else 1) (twoAddi 6) = 3 := by
  refine ⟨by decide, ?_⟩
  obtain ⟨⟨bs, cov⟩, h⟩ := analyse_returns (twoAddi 6) (L := defaultIcacheLineBytes) (by decide)
  obtain ⟨p, hp, hsum⟩ :=
    payload_add_ranInside h (by decide) fun a => if a = 6 then 2 else 1
  have hinside : ranInside (fun a => if a = 6 then 2 else 1) (twoAddi 6) = 3 := by decide
  have hcharged : charged (fun a => if a = 6 then 2 else 1) (twoAddi 6) = 2 := by decide
  have hexec : executed (fun a => if a = 6 then 2 else 1) (twoAddi 6) = 3 := by decide
  refine ⟨bs, cov, p, h, hp, ?_, hexec⟩
  rw [hinside, hcharged, hexec] at hsum
  omega

/-! ## a uniform run -/

/-- how many of `ls` are no HINTs, and how many are -/
def plain (ls : List Line) : Nat := (ls.filter fun l => l.hint.isNone).length

def hinted (ls : List Line) : Nat := (ls.filter fun l => l.hint.isSome).length

theorem plain_cons_none {l : Line} (hl : l.hint = none) (ls : List Line) :
    plain (l :: ls) = plain ls + 1 := by
  unfold plain
  rw [List.filter_cons, if_pos (Option.isNone_iff_eq_none.mpr hl), List.length_cons]

theorem plain_cons_some {l : Line} {n : Nat} (hl : l.hint = some n) (ls : List Line) :
    plain (l :: ls) = plain ls := by
  unfold plain
  rw [List.filter_cons, hl]
  rfl

theorem plain_add_hinted (ls : List Line) : plain ls + hinted ls = ls.length := by
  have hnot : (fun l : Line => l.hint.isSome) = fun l => !l.hint.isNone := by
    funext l
    cases l.hint <;> rfl
  unfold plain hinted
  rw [hnot]
  exact (List.length_eq_length_filter_add _).symm

theorem executed_uniform {hist : Nat → Nat} {c : Nat} {ls : List Line}
    (hu : ∀ l ∈ ls, hist l.addr = c) : executed hist ls = c * plain ls := by
  unfold executed plain
  have hc : (ls.filter fun l => l.hint.isNone).map (fun l => hist l.addr)
      = (ls.filter fun l => l.hint.isNone).map fun _ => c :=
    List.map_congr_left fun l hl => hu l (List.mem_of_mem_filter hl)
  rw [hc, List.map_const', List.sum_replicate_nat, Nat.mul_comm]

/-- HINTs among the members of unsafe bundles -/
def nestedUnsafe (insns : List Line) : Nat :=
  (((hints insns).filter fun x => !isAccepted x).map fun x => hinted x.2.2).sum

theorem plain_eq (ls : List Line) :
    plain ls = (ls.map fun l => if l.hint = none then 1 else 0).sum := by
  have h : executed (fun _ => 1) ls = 1 * plain ls := executed_uniform fun _ _ => rfl
  rw [executed_eq, Nat.one_mul] at h
  exact h.symm

theorem length_piece {p : Sweep.Piece Line} (h : p.Fits Line.hint) :
    p.elems.length = plain p.elems + p.groupSum (fun _ => true) (fun _ => 1)
      + p.groupSum isAccepted (fun x => hinted x.2.2)
      + p.groupSum (fun x => !isAccepted x) (fun x => hinted x.2.2) := by
  cases p with
  | lone a => exact (plain_cons_none h []).symm
  | group l n ms =>
    show ms.length + 1 = plain (l :: ms) + 1
      + (if isAccepted (l, n, ms) = true then hinted ms else 0)
      + (if (!isAccepted (l, n, ms)) = true then hinted ms else 0)
    rw [plain_cons_some h.1, ← plain_add_hinted]
    cases isAccepted (l, n, ms) with
    | true =>
      show _ = _ + _ + hinted ms + 0
      omega
    | false =>
      show _ = _ + _ + 0 + hinted ms
      omega

/-- the listing is the plain lines, the HINTs that head a group, and those that do not -/
theorem length_eq_counts (insns : List Line) : insns.length = plain insns + (hints insns).length
    + ((safeHints insns).map fun x => hinted x.2.2).sum + nestedUnsafe insns := by
  have hlines : insns.length = (insns.map fun _ => 1).sum := by simp
  have hheads : (hints insns).length
      = (((hints insns).filter fun _ => true).map fun _ => 1).sum := by simp
  unfold safeHints nestedUnsafe
  rw [hlines, hheads, plain_eq]
  unfold hints
  rw [Sweep.sum_pieces Line.hint fun _ => 1,
    Sweep.sum_pieces Line.hint fun l => if l.hint = none then 1 else 0, ← Sweep.sum_groupSum,
    ← Sweep.sum_groupSum, ← Sweep.sum_groupSum, ← List.sum_map_add, ← List.sum_map_add,
    ← List.sum_map_add]
  refine congrArg List.sum (List.map_congr_left fun p hp => ?_)
  have hpiece := length_piece (Sweep.fits_of_mem_pieces Line.hint hp)
  rw [plain_eq] at hpiece
  rw [← hpiece]
  simp

theorem safe_bundles_eq {insns : List Line} {L : Int} {bs : List Bundle} {cov : Finset Nat}
    (h : analyse insns L = .ok (bs, cov)) :
    bs.filter Bundle.safe = (safeHints insns).map fun x => (checkBundle (cut x) L).1 := by
  have hp : (Bundle.safe ∘ fun x => (checkBundle (cut x) L).1) = isAccepted := by
    funext x
    rw [Function.comp_apply, Bundle.safe, isAccepted, Bool.eq_iff_iff, decide_eq_true_iff,
      List.isEmpty_iff, checkBundle_errors_iff]
    exact and_iff_right rfl
  rw [analyse_eq h, List.filter_map, hp]
  rfl

theorem bundledInsns_eq {insns : List Line} {L : Int} {bs : List Bundle} {cov : Finset Nat}
    (h : analyse insns L = .ok (bs, cov)) :
    bundledInsns bs = ((safeHints insns).map fun x => plain x.2.2).sum
      + ((safeHints insns).map fun x => hinted x.2.2).sum := by
  unfold bundledInsns
  rw [safe_bundles_eq h, List.map_map, ← List.sum_map_add]
  refine congrArg List.sum (List.map_congr_left fun x _ => ?_)
  rw [plain_add_hinted, Function.comp_apply, checkBundle_members]
  exact List.length_map _

/-- the dynamic totals of `p` are `c` times the static counts `s` -/
structure Uniform (c : Nat) (p : Profile) (s : Summary) (bundles : List Bundle) : Prop where
  payload : (p.payload : Int) = c * s.payloadInstructions
  inBundles : p.dynInBundles = c * s.bundledInstructions
  scalar : (p.dynTotal : Int) = c * s.scalarInstructions
  cycles : (p.issueCycles : Int) = c * s.issueCycles bundles

/-- on a uniform run the loop misses the HINTs among the members of unsafe bundles, which the
static count takes for scalar instructions -/
theorem profile_uniform {insns : List Line} {bs : List Bundle} {cov : Finset Nat} {L : Int}
    (h : analyse insns L = .ok (bs, cov)) (hd : (insns.map Line.addr).Nodup) (hist : Nat → Nat)
    {c : Nat} (hu : ∀ l ∈ insns, hist l.addr = c) : ∃ p, profile insns bs hist = some p
      ∧ (p.dynTotal : Int) + c * nestedUnsafe insns
        = c * (summarise insns bs cov).scalarInstructions
      ∧ p.dynBundleExecs = c * (bs.filter Bundle.safe).length
      ∧ p.dynInBundles = c * bundledInsns bs := by
  obtain ⟨p, hp, htotal, hexecs, hslots⟩ := profile_totals h hd hist
  have hline : ∀ x ∈ safeHints insns, hist x.1.addr = c ∧ ∀ m ∈ x.2.2, hist m.addr = c := by
    rintro ⟨l, n, ms⟩ hx
    obtain ⟨k, hk, -, rfl, -⟩ := mem_hints.mp (List.mem_of_mem_filter hx)
    refine ⟨hu l (List.mem_of_getElem? hk), fun m hm => hu m ?_⟩
    exact List.mem_of_mem_drop (List.mem_of_mem_take hm)
  have hinside : (safeHints insns).map (fun x => executed hist x.2.2)
      = (safeHints insns).map fun x => c * plain x.2.2 :=
    List.map_congr_left fun x hx => executed_uniform (hline x hx).2
  have hheads : (safeHints insns).map (fun x => hist x.1.addr)
      = (safeHints insns).map fun _ => c :=
    List.map_congr_left fun x hx => (hline x hx).1
  have hboxes : (safeHints insns).map (fun x => hist x.1.addr * x.2.2.length)
      = (safeHints insns).map fun x => c * (plain x.2.2 + hinted x.2.2) :=
    List.map_congr_left fun x hx => by rw [(hline x hx).1, plain_add_hinted]
  rw [hinside, executed_uniform hu, List.sum_map_mul_left] at htotal
  rw [hheads, List.map_const', List.sum_replicate_nat, Nat.mul_comm] at hexecs
  rw [hboxes, List.sum_map_mul_left, List.sum_map_add, ← bundledInsns_eq h] at hslots
  have hsafe : (bs.filter Bundle.safe).length = (safeHints insns).length := by
    rw [safe_bundles_eq h, List.length_map]
  refine ⟨p, hp, ?_, ?_, hslots⟩
  · show _ = (c : Int) * (insns.length - bs.length - bundledInsns bs)
    have hlen := length_eq_counts insns
    have hbs : bs.length = (hints insns).length := by
      rw [analyse_eq h, List.length_map]
    have hscalar : (insns.length : Int) - bs.length - bundledInsns bs
        = plain insns - ((safeHints insns).map fun x => plain x.2.2).sum
          + nestedUnsafe insns := by
      rw [bundledInsns_eq h, Nat.cast_add]
      omega
    have htotal' : (p.dynTotal : Int) + c * ((safeHints insns).map fun x => plain x.2.2).sum
        = c * plain insns := by exact_mod_cast htotal
    rw [hscalar]
    linarith
  · rw [hsafe]
    exact hexecs

theorem hinted_eq_zero (ls : List Line) : hinted ls = 0 ↔ ∀ m ∈ ls, m.hint = none := by
  unfold hinted
  rw [List.length_eq_zero_iff, List.filter_eq_nil_iff]
  refine forall_congr' fun m => forall_congr' fun _ => ?_
  rw [Bool.not_eq_true, Option.isSome_eq_false_iff, Option.isNone_iff_eq_none]

theorem nestedUnsafe_eq_zero (insns : List Line) : nestedUnsafe insns = 0
    ↔ ∀ k l n, insns[k]? = some l → l.hint = some n → Reached insns k →
      ¬ Accepted (cut (l, n, behind insns k n)) → ∀ m ∈ behind insns k n, m.hint = none := by
  unfold nestedUnsafe
  rw [List.sum_eq_zero_iff]
  constructor
  · intro h k l n hk hn hreach hnacc
    have hx : (l, n, behind insns k n) ∈ (hints insns).filter fun x => !isAccepted x := by
      refine List.mem_filter.mpr ⟨mem_hints.mpr ⟨k, hk, hn, rfl, hreach⟩, ?_⟩
      exact Bool.not_eq_true' _ ▸ decide_eq_false hnacc
    exact (hinted_eq_zero _).mp (h _ (List.mem_map_of_mem hx))
  · rintro h _ hy
    obtain ⟨⟨l, n, ms⟩, hx, rfl⟩ := List.mem_map.mp hy
    obtain ⟨hh, hnacc⟩ := List.mem_filter.mp hx
    obtain ⟨k, hk, hn, rfl, hreach⟩ := mem_hints.mp hh
    refine (hinted_eq_zero _).mpr (h k l n hk hn hreach fun hacc => ?_)
    have hpos : isAccepted (l, n, behind insns k n) = true := decide_eq_true hacc
    rw [hpos] at hnacc
    cases hnacc

/-- **Where no address is listed twice and every line ran `c ≥ 1` times, the dynamic totals are
`c` times the static counts exactly if no HINT is among the members of an unsafe bundle.** -/
theorem profile_uniform_iff (insns : List Line) (hd : (insns.map Line.addr).Nodup) (c : Nat)
    (hc : 1 ≤ c) (hist : Nat → Nat) (hu : ∀ l ∈ insns, hist l.addr = c) :
    ∃ bs cov p, analyse insns defaultIcacheLineBytes = .ok (bs, cov)
      ∧ profile insns bs hist = some p
      ∧ (Uniform c p (summarise insns bs cov) bs
        ↔ ∀ k l n, insns[k]? = some l → l.hint = some n → Reached insns k →
          ¬ Accepted (cut (l, n, behind insns k n)) → ∀ m ∈ behind insns k n, m.hint = none) := by
  obtain ⟨⟨bs, cov⟩, h⟩ := analyse_returns insns (L := defaultIcacheLineBytes) (by decide)
  obtain ⟨p, hp, hscalar, hexecs, hslots⟩ := profile_uniform h hd hist hu
  refine ⟨bs, cov, p, h, hp, ?_⟩
  rw [← nestedUnsafe_eq_zero]
  have hpay : (summarise insns bs cov).payloadInstructions
      = (summarise insns bs cov).scalarInstructions + bundledInsns bs := by
    show (insns.length : Int) - bs.length
      = insns.length - bs.length - bundledInsns bs + bundledInsns bs
    omega
  constructor
  · intro hunif
    have hz : (c : Int) * nestedUnsafe insns = 0 := by
      rw [← hunif.scalar] at hscalar
      omega
    rcases Int.mul_eq_zero.mp hz with h0 | h0
    · omega
    · omega
  · intro h0
    rw [h0, Nat.cast_zero, mul_zero, add_zero] at hscalar
    constructor
    case payload =>
      rw [hpay, Profile.payload, hslots]
      push_cast
      rw [hscalar]
      exact (mul_add _ _ _).symm
    case inBundles => exact hslots
    case scalar => exact hscalar
    case cycles =>
      rw [Summary.issueCycles, Profile.issueCycles, hexecs]
      push_cast
      rw [hscalar]
      exact (mul_add _ _ _).symm

/-- a HINT among the members of a safe bundle does no harm -/
theorem profile_uniform_iff_nested : ∃ bs cov p,
    analyse nestedHints defaultIcacheLineBytes = .ok (bs, cov)
      ∧ profile nestedHints bs (fun _ => 5) = some p
      ∧ Uniform 5 p (summarise nestedHints bs cov) bs := by
  obtain ⟨bs, cov, p, h, hp, hiff⟩ := profile_uniform_iff nestedHints (by decide) 5 (by decide)
    (fun _ => 5) fun _ _ => rfl
  exact ⟨bs, cov, p, h, hp, hiff.mpr ((nestedUnsafe_eq_zero nestedHints).mp (by decide))⟩

/-- `c.li x0, 5; c.li x0, 2; addi x5, x0, 1; addi x6, x0, 1` -/
def oversizeNested : List Line :=
  [⟨0, 0x4015, 2, "", ""⟩, ⟨2, 0x4009, 2, "", ""⟩, ⟨4, 0x00100293, 4, "", ""⟩,
    ⟨8, 0x00100313, 4, "", ""⟩]

/-- the second HINT is scalar payload for `summarise` and a hint NOP for the loop -/
theorem profile_uniform_misses : (oversizeNested.map Line.addr).Nodup ∧ ∃ bs cov p,
    analyse oversizeNested defaultIcacheLineBytes = .ok (bs, cov)
      ∧ profile oversizeNested bs (fun _ => 1) = some p
      ∧ (p.dynTotal : Int) + 1 = (summarise oversizeNested bs cov).scalarInstructions
      ∧ ¬ Uniform 1 p (summarise oversizeNested bs cov) bs := by
  refine ⟨by decide, ?_⟩
  obtain ⟨⟨bs, cov⟩, h⟩ := analyse_returns oversizeNested (L := defaultIcacheLineBytes)
    (by decide)
  obtain ⟨p, hp, hscalar, -, -⟩ := profile_uniform h (by decide) (fun _ => 1) fun _ _ => rfl
  have hnested : nestedUnsafe oversizeNested = 1 := by decide
  rw [hnested, Nat.cast_one, one_mul, one_mul] at hscalar
  refine ⟨bs, cov, p, h, hp, hscalar, fun hunif => ?_⟩
  have heq := hunif.scalar
  rw [Nat.cast_one, one_mul] at heq
  omega

end Starbug
