import Starbug.Core.Machine
import Starbug.Check.Straddle

/-!
# What the dynamic tools measure, on the core

`starbug_profile.py` and `starbug_straddle.py` never see the STARBUG core: they join the bundles
of the scan with the PC histogram of a stock core.  Here the histogram is that of the lines that
a run of the STARBUG core goes over, and the numbers are compared with the issues of that run.

* `core_issues_profile`     the run takes `issue_cycles` issues and one more for each member of a
                            bundle that issues alone, whatever the fetch unit decides;
* `core_issues_straddle`    if it declines exactly the bundles that are not in one line, and every
                            member is reached through its HINT, those are the tool's
                            "extra issue cycles".
-/

namespace Starbug

/-! ## the histogram of a trace -/

/-- how often each PC is in the trace `w` -/
def histogram (w : List Line) (a : Nat) : Nat := (w.map Line.addr).count a

theorem sum_indicator {insns : List Line} (hd : (insns.map Line.addr).Nodup) (g : Line → Nat)
    {l : Line} (hl : l ∈ insns) :
    (insns.map fun a => if l.addr = a.addr then g a else 0).sum = g l := by
  induction insns with
  | nil => exact absurd hl List.not_mem_nil
  | cons a insns ih =>
    obtain ⟨ha, hrest⟩ := List.nodup_cons.mp hd
    rw [List.map_cons, List.sum_cons]
    rcases List.mem_cons.mp hl with rfl | hl
    · have hzero : (insns.map fun a => if l.addr = a.addr then g a else 0)
          = insns.map fun _ => 0 :=
        List.map_congr_left fun b hb =>
          if_neg fun heq => ha (List.mem_map.mpr ⟨b, hb, heq.symm⟩)
      rw [if_pos rfl, hzero, List.sum_map_zero, Nat.add_zero]
    · have hne : l.addr ≠ a.addr := fun heq => ha (List.mem_map.mpr ⟨l, hl, heq⟩)
      rw [if_neg hne, Nat.zero_add]
      exact ih hrest hl

/-- a weight summed over the listing, each line as often as it is in the trace, is the weight
summed over the trace -/
theorem sum_histogram {insns : List Line} (hd : (insns.map Line.addr).Nodup) (g : Line → Nat)
    {w : List Line} (hw : ∀ l ∈ w, l ∈ insns) :
    (insns.map fun a => g a * histogram w a.addr).sum = (w.map g).sum := by
  induction w with
  | nil =>
    show (insns.map fun a => g a * 0).sum = 0
    simp
  | cons l w ih =>
    have hsplit : ∀ a : Line, g a * histogram (l :: w) a.addr
        = g a * histogram w a.addr + if l.addr = a.addr then g a else 0 := by
      intro a
      show g a * (l.addr :: w.map Line.addr).count a.addr = _
      rw [List.count_cons, Nat.mul_add]
      by_cases h : l.addr = a.addr
      · rw [if_pos h, if_pos (beq_iff_eq.mpr h), Nat.mul_one]
        rfl
      · rw [if_neg h, if_neg fun hb => h (beq_iff_eq.mp hb)]
        rfl
    rw [funext hsplit, List.sum_map_add, ih fun a ha => hw a (List.mem_cons_of_mem l ha),
      sum_indicator hd g (hw l List.mem_cons_self), List.map_cons, List.sum_cons, Nat.add_comm]

/-! ## what a line weighs -/

/-- one execution of each address -/
def once : Nat → Nat := fun _ => 1

def memberRuns (m : BundleMap) (hist : Nat → Nat) (l : Line) : Nat :=
  if l.addr ∈ m.memberAddrs then hist l.addr else 0

/-- some line of `L` bytes holds the HINT `l` and the members `ms` -/
def fitsLine (L : Int) (l : Line) (ms : List Line) : Bool :=
  decide ((cut (l, ms.length, ms)).InOneLine L)

/-- the slots that line `l` fills as the HINT of a bundle in one line -/
def liveRuns (insns : List Line) (L : Int) (hist : Nat → Nat) (l : Line) : Nat :=
  ((formed insns l).map fun ms => if fitsLine L l ms then hist l.addr * ms.length else 0).getD 0

section
variable {m : BundleMap} {hist : Nat → Nat} {insns : List Line} {L : Int} {l : Line}

theorem scalarRuns_once : scalarRuns m hist l = scalarRuns m once l * hist l.addr := by
  unfold scalarRuns once
  split_ifs
  · exact (Nat.one_mul _).symm
  · exact (Nat.zero_mul _).symm

theorem bundleRuns_once : bundleRuns m hist l = bundleRuns m once l * hist l.addr := by
  unfold bundleRuns once
  split_ifs
  · exact (Nat.one_mul _).symm
  · exact (Nat.zero_mul _).symm

theorem memberRuns_once : memberRuns m hist l = memberRuns m once l * hist l.addr := by
  unfold memberRuns once
  split_ifs
  · exact (Nat.one_mul _).symm
  · exact (Nat.zero_mul _).symm

theorem liveRuns_once : liveRuns insns L hist l = liveRuns insns L once l * hist l.addr := by
  unfold liveRuns once
  cases formed insns l with
  | none => exact (Nat.zero_mul _).symm
  | some ms =>
    show (if fitsLine L l ms = true then hist l.addr * ms.length else 0)
      = (if fitsLine L l ms = true then 1 * ms.length else 0) * hist l.addr
    split_ifs
    · rw [Nat.one_mul, Nat.mul_comm]
    · exact (Nat.zero_mul _).symm

end

/-! ## the lines of a verified listing -/

section
variable {insns : List Line} {bs : List Bundle} {cov : Finset Nat} {L : Int}

theorem mem_pieces_of_hint {x : Line × Nat × List Line} (hx : x ∈ hints insns) :
    .group x.1 x.2.1 x.2.2 ∈ Sweep.pieces Line.hint insns := by
  unfold hints at hx
  rw [← Sweep.filterMap_header_pieces] at hx
  obtain ⟨p, hp, hhead⟩ := List.mem_filterMap.mp hx
  cases p with
  | lone a => cases hhead
  | group a n ms =>
    cases hhead
    exact hp

theorem mem_hints_of_piece {l : Line} {n : Nat} {ms : List Line}
    (hp : .group l n ms ∈ Sweep.pieces Line.hint insns) : (l, n, ms) ∈ hints insns := by
  unfold hints
  rw [← Sweep.filterMap_header_pieces]
  exact List.mem_filterMap.mpr ⟨_, hp, rfl⟩

theorem exists_piece {l : Line} (hl : l ∈ insns) :
    ∃ p ∈ Sweep.pieces Line.hint insns, l ∈ p.elems := by
  rw [← Sweep.flatMap_elems_pieces Line.hint insns] at hl
  exact List.mem_flatMap.mp hl

theorem Verified.accepted (hv : Verified insns bs) (h : analyse insns L = .ok (bs, cov))
    {x : Line × Nat × List Line} (hx : x ∈ hints insns) : Accepted (cut x) := by
  have hb : (checkBundle (cut x) L).1 ∈ bs := by
    rw [analyse_eq h]
    exact List.mem_map_of_mem hx
  exact ((checkBundle_errors_iff _ L).mp (hv.safe _ hb)).2

/-- what the fetch unit forms is what the sweep cuts -/
theorem Verified.formed_iff (hv : Verified insns bs) (h : analyse insns L = .ok (bs, cov))
    {l : Line} (hl : l ∈ insns) (ms : List Line) :
    formed insns l = some ms ↔ ∃ n, (l, n, ms) ∈ hints insns := by
  constructor
  · intro hf
    obtain ⟨n, hx, -⟩ := (hv.checked h hl hf).accepted
    exact ⟨n, hx⟩
  · rintro ⟨n, hx⟩
    have hacc := hv.accepted h hx
    have hmax : n ≤ maxBundle := (accepted_cut.mp hacc).1
    have hle : n ≤ ms.length := (accepted_cut.mp hacc).2.1
    obtain ⟨k, -, hn, hms, -⟩ := mem_hints.mp hx
    have hb : (checkBundle (cut (l, n, ms)) L).1 ∈ bs := by
      rw [analyse_eq h]
      exact List.mem_map_of_mem hx
    have hcont := hv.contiguous _ hb
    unfold Bundle.Contiguous at hcont
    rw [checkBundle_hintAddr, checkBundle_members] at hcont
    have hmem : ∀ a ∈ ms, a ∈ insns := fun a ha =>
      Sweep.mem_of_mem_pieces Line.hint (mem_pieces_of_hint hx) (List.mem_cons_of_mem l ha)
    have hext : extract insns (l.addr + 2) ms.length = some ms :=
      extract_of_contiguous hv.addrs hmem hcont
    have hlen : ms.length = n := Nat.le_antisymm (hms ▸ List.length_take_le _ _) hle
    unfold formed
    rw [hn, Option.bind_some, if_pos hmax, ← hlen]
    exact hext

/-- the weights of a line: alone, as the HINT of a bundle, as a member of one -/
structure Weighs (insns : List Line) (bs : List Bundle) (l : Line) (s b k : Nat) : Prop where
  scalar : scalarRuns (bundleMap bs) once l = s
  bundle : bundleRuns (bundleMap bs) once l = b
  member : memberRuns (bundleMap bs) once l = k
  formed : b = 0 → formed insns l = none

theorem Verified.weighs_lone (hv : Verified insns bs) (h : analyse insns L = .ok (bs, cov))
    {l : Line} (hp : .lone l ∈ Sweep.pieces Line.hint insns) : Weighs insns bs l 1 0 0 := by
  have hhint : l.hint = none := Sweep.fits_of_mem_pieces Line.hint hp
  have hmem : l ∈ (Sweep.Piece.lone l).elems := List.mem_cons_self
  constructor
  case scalar =>
    apply if_pos
    refine (scalar_iff h hv.addrs hp hmem).mpr ⟨hhint, ?_⟩
    rintro ⟨_, _, _, heq, -⟩
    cases heq
  case bundle => exact (runs_of_not_header h hv.addrs once hp hmem fun _ _ heq => by cases heq).1
  case member =>
    apply if_neg
    intro hm
    obtain ⟨_, _, _, heq, -⟩ := (memberAddrs_of_mem h hv.addrs hp hmem).mp hm
    cases heq
  case formed =>
    intro _
    unfold Starbug.formed
    rw [hhint]
    rfl

theorem Verified.weighs_hint (hv : Verified insns bs) (h : analyse insns L = .ok (bs, cov))
    {x : Line × Nat × List Line} (hx : x ∈ hints insns) : Weighs insns bs x.1 0 1 0 := by
  have hp := mem_pieces_of_hint hx
  have hmem : x.1 ∈ (Sweep.Piece.group x.1 x.2.1 x.2.2).elems := List.mem_cons_self
  constructor
  case scalar =>
    apply if_neg
    intro hs
    have hhint := (Sweep.fits_of_mem_pieces Line.hint hp).1
    rw [hs.hint] at hhint
    cases hhint
  case bundle => exact (runs_of_header h hv.addrs once hp (hv.accepted h hx)).1
  case member =>
    apply if_neg
    intro hm
    obtain ⟨_, _, _, heq, -, ha⟩ := (memberAddrs_of_mem h hv.addrs hp hmem).mp hm
    cases heq
    exact Sweep.header_notMem Line.hint Line.addr hv.addrs hp ha
  case formed => exact fun h0 => absurd h0 Nat.one_ne_zero

theorem Verified.weighs_member (hv : Verified insns bs) (h : analyse insns L = .ok (bs, cov))
    {x : Line × Nat × List Line} (hx : x ∈ hints insns) {a : Line} (ha : a ∈ x.2.2) :
    Weighs insns bs a 0 0 1 := by
  have hp := mem_pieces_of_hint hx
  have hmem : a ∈ (Sweep.Piece.group x.1 x.2.1 x.2.2).elems := List.mem_cons_of_mem _ ha
  have hacc := hv.accepted h hx
  have hhead : ∀ n ms, Sweep.Piece.group x.1 x.2.1 x.2.2 ≠ .group a n ms := by
    intro n ms heq
    cases heq
    exact Sweep.header_notMem Line.hint Line.addr hv.addrs hp ha
  constructor
  case scalar =>
    apply if_neg
    intro hs
    exact ((scalar_iff h hv.addrs hp hmem).mp hs).2 ⟨_, _, _, rfl, hacc, ha⟩
  case bundle =>
    exact (runs_of_not_header h hv.addrs once hp hmem fun n ms heq => absurd heq (hhead n ms)).1
  case member => exact if_pos ((memberAddrs_of_mem h hv.addrs hp hmem).mpr ⟨_, _, _, rfl, hacc, ha⟩)
  case formed =>
    intro _
    cases hf : Starbug.formed insns a with
    | none => rfl
    | some ms =>
      have hal : a ∈ insns := Sweep.mem_of_mem_pieces Line.hint hp hmem
      obtain ⟨n, hx'⟩ := (hv.formed_iff h hal ms).mp hf
      have hq := mem_pieces_of_hint hx'
      have heq := (Sweep.pieces_inj Line.hint Line.addr hv.addrs hp hq hmem List.mem_cons_self
        rfl).1
      exact absurd heq (hhead n ms)

/-- every line weighs one -/
theorem Verified.weighs (hv : Verified insns bs) (h : analyse insns L = .ok (bs, cov))
    {l : Line} (hl : l ∈ insns) : ∃ s b k, s + b + k = 1 ∧ Weighs insns bs l s b k := by
  obtain ⟨p, hp, hmem⟩ := exists_piece hl
  cases p with
  | lone a =>
    obtain rfl := List.mem_singleton.mp hmem
    exact ⟨1, 0, 0, rfl, hv.weighs_lone h hp⟩
  | group a n ms =>
    have hx := mem_hints_of_piece hp
    rcases List.mem_cons.mp hmem with rfl | ha
    · exact ⟨0, 1, 0, rfl, hv.weighs_hint h hx⟩
    · exact ⟨0, 0, 1, rfl, hv.weighs_member h hx ha⟩

/-! ## what an issue weighs -/

/-- the issue of a member alone, because the fetch unit declined its bundle or because a branch
landed on it -/
def Slot.strays (m : BundleMap) : Slot → Bool
  | .alone l => decide (l.addr ∈ m.memberAddrs)
  | .bundle _ _ => false

/-- the slots of a bundle that issues at once -/
def Slot.filled : Slot → Nat
  | .alone _ => 0
  | .bundle _ ms => ms.length

/-- what the core issues on a verified listing: lines of it, and bundles that the sweep cuts -/
def Slot.Of (insns : List Line) : Slot → Prop
  | .alone l => l ∈ insns
  | .bundle l ms => l ∈ insns ∧ ∃ n, (l, n, ms) ∈ hints insns

theorem sum_zero_of_weighs {ms : List Line} {g : Line → Nat} (h : ∀ a ∈ ms, g a = 0) :
    (ms.map g).sum = 0 := by
  rw [List.map_congr_left h]
  exact List.sum_map_zero

/-- an issue is one line that runs alone, or one HINT, or one stray member -/
theorem Verified.issue_weighs (hv : Verified insns bs) (h : analyse insns L = .ok (bs, cov))
    {x : Slot} (hx : x.Of insns) :
    (x.lines.map (scalarRuns (bundleMap bs) once)).sum
        + (x.lines.map (bundleRuns (bundleMap bs) once)).sum
        + (if x.strays (bundleMap bs) then 1 else 0) = 1
      ∧ (x.lines.map (memberRuns (bundleMap bs) once)).sum
        = (if x.strays (bundleMap bs) then 1 else 0) + x.filled := by
  cases x with
  | alone l =>
    obtain ⟨s, b, k, hone, hw⟩ := hv.weighs h hx
    have hk : (if Slot.strays (bundleMap bs) (.alone l) = true then 1 else 0) = k := by
      rw [← hw.member]
      exact if_congr decide_eq_true_iff rfl rfl
    rw [hk]
    constructor
    · show (scalarRuns _ once l + 0) + (bundleRuns _ once l + 0) + k = 1
      rw [hw.scalar, hw.bundle]
      exact hone
    · show memberRuns _ once l + 0 = k + 0
      rw [hw.member]
  | bundle l ms =>
    obtain ⟨-, n, hmem⟩ := hx
    have hl := hv.weighs_hint h hmem
    have hms : ∀ a ∈ ms, Weighs insns bs a 0 0 1 := fun a ha => hv.weighs_member h hmem ha
    constructor
    · show (scalarRuns _ once l + (ms.map _).sum) + (bundleRuns _ once l + (ms.map _).sum) + 0 = 1
      rw [hl.scalar, hl.bundle, sum_zero_of_weighs fun a ha => (hms a ha).scalar,
        sum_zero_of_weighs fun a ha => (hms a ha).bundle]
    · show memberRuns _ once l + (ms.map _).sum = 0 + ms.length
      rw [hl.member, List.map_congr_left fun a ha => (hms a ha).member]
      simp

theorem sum_flatMap_lines (g : Line → Nat) (xs : List Slot) :
    ((xs.flatMap Slot.lines).map g).sum = (xs.map fun x => (x.lines.map g).sum).sum := by
  induction xs with
  | nil => rfl
  | cons x xs ih =>
    rw [List.flatMap_cons, List.map_append, List.sum_append, ih, List.map_cons, List.sum_cons]

/-- the number of issues, and the members among them -/
theorem Verified.length_eq (hv : Verified insns bs) (h : analyse insns L = .ok (bs, cov))
    {xs : List Slot} (hx : ∀ x ∈ xs, x.Of insns) :
    xs.length = ((xs.flatMap Slot.lines).map (scalarRuns (bundleMap bs) once)).sum
        + ((xs.flatMap Slot.lines).map (bundleRuns (bundleMap bs) once)).sum
        + xs.countP (Slot.strays (bundleMap bs))
      ∧ ((xs.flatMap Slot.lines).map (memberRuns (bundleMap bs) once)).sum
        = xs.countP (Slot.strays (bundleMap bs)) + (xs.map Slot.filled).sum := by
  simp only [sum_flatMap_lines]
  induction xs with
  | nil => exact ⟨rfl, rfl⟩
  | cons x xs ih =>
    obtain ⟨hone, hmem⟩ := hv.issue_weighs h (hx x List.mem_cons_self)
    obtain ⟨hlen, hmems⟩ := ih fun y hy => hx y (List.mem_cons_of_mem x hy)
    simp only [List.map_cons, List.sum_cons, List.countP_cons, List.length_cons]
    omega

end

/-! ## the profile of a run -/

section
variable {V M : Type*} {insns : List Line} {bs : List Bundle} {cov : Finset Nat} {L : Int}

theorem Verified.step_of (hv : Verified insns bs) (h : analyse insns L = .ok (bs, cov))
    {H : Hart V M} {take : Bool} {c d : Core V M} {x : Slot} (hs : Step H insns take c x d) :
    x.Of insns := by
  cases hs with
  | alone hl _ => exact (fetch_spec hl).1
  | bundle hl _ hf _ => exact ⟨(fetch_spec hl).1, (hv.formed_iff h (fetch_spec hl).1 _).mp hf⟩

theorem Slot.Of.mem {x : Slot} (hx : x.Of insns) {l : Line} (hl : l ∈ x.lines) : l ∈ insns := by
  cases x with
  | alone a =>
    obtain rfl := List.mem_singleton.mp hl
    exact hx
  | bundle a ms =>
    obtain ⟨-, n, hmem⟩ := hx
    exact Sweep.mem_of_mem_pieces Line.hint (mem_pieces_of_hint hmem) hl

theorem mem_lines_of {xs : List Slot} (hx : ∀ x ∈ xs, x.Of insns) :
    ∀ l ∈ xs.flatMap Slot.lines, l ∈ insns := by
  intro l hl
  obtain ⟨x, hxs, hlx⟩ := List.mem_flatMap.mp hl
  exact (hx x hxs).mem hlx

theorem Verified.profile_run (hv : Verified insns bs) (h : analyse insns L = .ok (bs, cov))
    {xs : List Slot} (hx : ∀ x ∈ xs, x.Of insns) :
    ∃ p, profile insns bs (histogram (xs.flatMap Slot.lines)) = some p
      ∧ xs.length = p.issueCycles + xs.countP (Slot.strays (bundleMap bs)) := by
  obtain ⟨p, hp, hcounts⟩ := profile_counts insns bs (histogram (xs.flatMap Slot.lines))
  have hw := mem_lines_of hx
  refine ⟨p, hp, ?_⟩
  rw [(hv.length_eq h hx).1, Profile.issueCycles, hcounts.scalar, hcounts.bundle,
    ← sum_histogram hv.addrs _ hw, ← sum_histogram hv.addrs _ hw]
  simp only [← scalarRuns_once, ← bundleRuns_once]

/-- **A run of the STARBUG core over a verified listing takes, whatever the fetch unit decides,
the `issue_cycles` of the profile and one issue more for every member that issues alone.** -/
theorem core_issues_profile (hv : Verified insns bs)
    (h : analyse insns defaultIcacheLineBytes = .ok (bs, cov)) (H : Hart V M)
    (takes : List Slot → Core V M → Bool) (c d : Core V M) (xs : List Slot)
    (hr : Simulation.Run (Steps H insns takes) c xs d) :
    ∃ p, profile insns bs (histogram (xs.flatMap Slot.lines)) = some p
      ∧ xs.length = p.issueCycles + xs.countP (Slot.strays (bundleMap bs)) :=
  hv.profile_run h (hr.forall fun hs => hv.step_of h hs)

/-- one issue, one cycle -/
theorem core_issues_profile_addi : ∃ bs cov p,
    analyse (twoAddi 6) defaultIcacheLineBytes = .ok (bs, cov)
      ∧ profile (twoAddi 6) bs (histogram (twoAddi 6)) = some p ∧ 1 = p.issueCycles + 0 := by
  obtain ⟨⟨bs, cov⟩, h⟩ :=
    analyse_returns (twoAddi 6) (L := defaultIcacheLineBytes) (by decide)
  obtain ⟨p, hp, hlen⟩ := core_issues_profile (twoAddi_verified h) h addiHart (fun _ _ => true)
    addiStart addiStop _ addi_run
  exact ⟨bs, cov, p, h, hp, hlen⟩

/-! ## a fetch unit that only the lines stop -/

/-- the policy of a core with lines of `L` bytes that declines for nothing else -/
def lineLimited (insns : List Line) (L : Int) : List Slot → Core V M → Bool := fun _ c =>
  match fetch insns c.pc with
  | none => true
  | some l =>
    match formed insns l with
    | none => true
    | some ms => fitsLine L l ms

/-- the bundles that issue fit, those that are declined do not -/
def Slot.LineLimited (insns : List Line) (L : Int) : Slot → Prop
  | .alone l => ∀ ms, formed insns l = some ms → fitsLine L l ms = false
  | .bundle l ms => formed insns l = some ms ∧ fitsLine L l ms = true

theorem lineLimited_step {H : Hart V M} {h : List Slot} {c d : Core V M} {x : Slot}
    (hs : Steps H insns (lineLimited insns L) h c x d) : x.LineLimited insns L := by
  unfold Steps lineLimited at hs
  cases hs with
  | alone hl ht =>
    intro ms hf
    rw [hl] at ht
    simp only [hf] at ht
    rw [Bool.eq_false_iff]
    intro hfit
    cases ht hfit
  | bundle hl ht hf _ =>
    rw [hl] at ht
    simp only [hf] at ht
    exact ⟨hf, ht⟩

theorem Verified.live_issue (hv : Verified insns bs) {L₀ : Int}
    (h : analyse insns L₀ = .ok (bs, cov)) {x : Slot} (hx : x.Of insns)
    (hlim : x.LineLimited insns L) : (x.lines.map (liveRuns insns L once)).sum = x.filled := by
  cases x with
  | alone l =>
    show liveRuns insns L once l + 0 = 0
    unfold liveRuns
    cases hf : formed insns l with
    | none => rfl
    | some ms =>
      rw [Option.map_some, hlim ms hf]
      rfl
  | bundle l ms =>
    obtain ⟨hf, hfit⟩ := hlim
    obtain ⟨-, n, hmem⟩ := hx
    have hms : ∀ a ∈ ms, liveRuns insns L once a = 0 := by
      intro a ha
      unfold liveRuns
      rw [(hv.weighs_member h hmem ha).formed rfl]
      rfl
    show liveRuns insns L once l + (ms.map _).sum = ms.length
    rw [sum_zero_of_weighs hms]
    unfold liveRuns
    rw [hf, Option.map_some, hfit]
    exact Nat.one_mul ms.length

theorem Verified.sum_live (hv : Verified insns bs) {L₀ : Int}
    (h : analyse insns L₀ = .ok (bs, cov)) (hist : Nat → Nat) :
    (insns.map (liveRuns insns L hist)).sum = ((safeHints insns).map fun x =>
      if fitsLine L x.1 x.2.2 then hist x.1.addr * x.2.2.length else 0).sum := by
  unfold safeHints hints
  rw [Sweep.sum_pieces Line.hint, ← Sweep.sum_groupSum]
  refine congrArg List.sum (List.map_congr_left fun q hq => ?_)
  apply sum_piece_of_header hv.addrs hq
  · intro a ha hno
    have hal : a ∈ insns := Sweep.mem_of_mem_pieces Line.hint hq ha
    unfold liveRuns
    cases hf : formed insns a with
    | none => rfl
    | some ms =>
      obtain ⟨n, hx⟩ := (hv.formed_iff h hal ms).mp hf
      obtain ⟨rfl, -⟩ := Sweep.pieces_inj Line.hint Line.addr hv.addrs hq (mem_pieces_of_hint hx)
        ha List.mem_cons_self rfl
      exact absurd (hv.accepted h hx) (hno n ms rfl)
  · rintro l n ms rfl -
    have hl : l ∈ insns := Sweep.mem_of_mem_pieces Line.hint hq List.mem_cons_self
    unfold liveRuns
    rw [(hv.formed_iff h hl ms).mpr ⟨n, mem_hints_of_piece hq⟩]
    rfl

theorem Verified.sum_members (hv : Verified insns bs) {L₀ : Int}
    (h : analyse insns L₀ = .ok (bs, cov)) (hist : Nat → Nat) :
    (insns.map (memberRuns (bundleMap bs) hist)).sum
      = ((safeHints insns).map fun x => (x.2.2.map fun a => hist a.addr).sum).sum := by
  unfold safeHints hints
  rw [Sweep.sum_pieces Line.hint, ← Sweep.sum_groupSum]
  refine congrArg List.sum (List.map_congr_left fun q hq => ?_)
  cases q with
  | lone a =>
    show memberRuns (bundleMap bs) hist a + 0 = 0
    rw [memberRuns_once, (hv.weighs_lone h hq).member, Nat.zero_mul]
  | group l n ms =>
    have hx := mem_hints_of_piece hq
    have hms : ms.map (memberRuns (bundleMap bs) hist) = ms.map fun a => hist a.addr :=
      List.map_congr_left fun a ha => by
        rw [memberRuns_once, (hv.weighs_member h hx ha).member, Nat.one_mul]
    show memberRuns (bundleMap bs) hist l + (ms.map _).sum
      = if isAccepted (l, n, ms) = true then (ms.map fun a => hist a.addr).sum else 0
    rw [if_pos (isAccepted_iff.mpr (hv.accepted h hx)), hms, memberRuns_once,
      (hv.weighs_hint h hx).member, Nat.zero_mul, Nat.zero_add]

/-- the tool declines what does not fit -/
theorem Verified.declined_eq (hv : Verified insns bs) {L₀ : Int}
    (h : analyse insns L₀ = .ok (bs, cov)) (hL : 0 < L) {x : Line × Nat × List Line}
    (hx : x ∈ hints insns) :
    declined L (checkBundle (cut x) L).1 = !fitsLine L x.1 x.2.2 := by
  have hb : (checkBundle (cut x) L₀).1 ∈ bs := by
    rw [analyse_eq h]
    exact List.mem_map_of_mem hx
  have hcont : (checkBundle (cut x) L).1.Contiguous := by
    have hc := hv.contiguous _ hb
    unfold Bundle.Contiguous at hc ⊢
    rw [checkBundle_hintAddr, checkBundle_members] at hc ⊢
    exact hc
  have hne : (checkBundle (cut x) L).1.members ≠ [] := by
    have hle : x.2.1 ≤ x.2.2.length := (accepted_cut.mp (hv.accepted h hx)).2.1
    obtain ⟨k, -, hn, -⟩ := mem_hints.mp hx
    have hpos := Line.hint_pos hn
    rw [checkBundle_members]
    intro hnil
    rw [List.map_eq_nil_iff.mp hnil, List.length_nil] at hle
    exact absurd (Nat.le_trans hpos hle) (by decide)
  have hline : (checkBundle (cut x) L).1.InOneLine L
      ↔ (cut (x.1, x.2.2.length, x.2.2)).InOneLine L := by
    unfold Bundle.InOneLine Bundle.bytes
    rw [checkBundle_hintAddr, checkBundle_members]
    exact Iff.rfl
  unfold declined fitsLine
  rw [decide_eq_decide.mpr (straddles_iff hne hcont hL), decide_not, decide_eq_decide.mpr hline]

theorem Verified.liveSlots_eq (hv : Verified insns bs) {L₀ : Int}
    (h : analyse insns L₀ = .ok (bs, cov)) (hL : 0 < L) {bs' : List Bundle} {cov' : Finset Nat}
    (h' : analyse insns L = .ok (bs', cov')) (hist : Nat → Nat) :
    (tallied (declined L) hist (bs'.filter Bundle.safe)).liveSlots
      = ((safeHints insns).map fun x =>
        if fitsLine L x.1 x.2.2 then hist x.1.addr * x.2.2.length else 0).sum := by
  have hsub : ∀ x ∈ safeHints insns, x ∈ hints insns := fun x hx => List.mem_of_mem_filter hx
  show (((bs'.filter Bundle.safe).filter fun b => !declined L b).map
    fun b => hist b.hintAddr * b.members.length).sum = _
  rw [safe_bundles_eq h', List.filter_map, List.map_map]
  revert hsub
  generalize safeHints insns = xs
  intro hsub
  induction xs with
  | nil => rfl
  | cons x xs ih =>
    have hlen : (cut x).members.length = x.2.2.length := List.length_map _
    have hone := hv.declined_eq h hL (hsub x List.mem_cons_self)
    rw [Sweep.sum_filter_cons, ih fun y hy => hsub y (List.mem_cons_of_mem x hy), List.map_cons,
      List.sum_cons]
    simp only [Function.comp_apply, hone, Bool.not_not, checkBundle_hintAddr, checkBundle_members,
      hlen]
    rfl

/-- the members that ran, in bundles and alone -/
theorem Verified.members_run (hv : Verified insns bs) (h : analyse insns L = .ok (bs, cov))
    {xs : List Slot} (hx : ∀ x ∈ xs, x.Of insns)
    (hentry : ∀ b ∈ bs, ∀ i ∈ b.members, histogram (xs.flatMap Slot.lines) i.addr
      = histogram (xs.flatMap Slot.lines) b.hintAddr) {p : Profile}
    (hp : profile insns bs (histogram (xs.flatMap Slot.lines)) = some p) :
    xs.countP (Slot.strays (bundleMap bs)) + (xs.map Slot.filled).sum = p.dynInBundles := by
  obtain ⟨p', hp', -, -, hslots⟩ :=
    profile_totals h hv.addrs (histogram (xs.flatMap Slot.lines))
  obtain rfl := Option.some.inj (hp.symm.trans hp')
  rw [← (hv.length_eq h hx).2, ← sum_histogram hv.addrs _ (mem_lines_of hx), hslots]
  simp only [← memberRuns_once]
  rw [hv.sum_members h]
  refine congrArg List.sum (List.map_congr_left fun x hxs => ?_)
  have hb : (checkBundle (cut x) L).1 ∈ bs := by
    rw [analyse_eq h]
    exact List.mem_map_of_mem (List.mem_of_mem_filter hxs)
  have hsame : (x.2.2.map fun a => histogram (xs.flatMap Slot.lines) a.addr)
      = x.2.2.map fun _ => histogram (xs.flatMap Slot.lines) x.1.addr := by
    apply List.map_congr_left
    intro a ha
    have hi : a.decode ∈ (checkBundle (cut x) L).1.members := by
      rw [checkBundle_members]
      exact List.mem_map_of_mem ha
    have heq := hentry _ hb a.decode hi
    rw [checkBundle_hintAddr] at heq
    rw [← show a.decode.addr = a.addr from decode_addr _ _ _]
    exact heq
  rw [hsame, List.map_const', List.sum_replicate_nat, Nat.mul_comm]

/-- the slots that bundles fill on a line-limited core -/
theorem Verified.live_run (hv : Verified insns bs) {L₀ : Int}
    (h : analyse insns L₀ = .ok (bs, cov)) (hL : 0 < L) {xs : List Slot}
    (hx : ∀ x ∈ xs, x.Of insns) (hlim : ∀ x ∈ xs, x.LineLimited insns L) {bs' : List Bundle}
    {cov' : Finset Nat} (h' : analyse insns L = .ok (bs', cov')) :
    (xs.map Slot.filled).sum = (tallied (declined L) (histogram (xs.flatMap Slot.lines))
      (bs'.filter Bundle.safe)).liveSlots := by
  have hone : (xs.map fun x => (x.lines.map (liveRuns insns L once)).sum)
      = xs.map Slot.filled :=
    List.map_congr_left fun x hxs => hv.live_issue h (hx x hxs) (hlim x hxs)
  rw [hv.liveSlots_eq h hL h', ← hv.sum_live h, ← hone, ← sum_flatMap_lines,
    ← sum_histogram hv.addrs _ (mem_lines_of hx)]
  simp only [← liveRuns_once]

/-- the slots that bundles fill, and the issues, of lines that a line-limited core issues -/
theorem Verified.straddle_run (hv : Verified insns bs)
    (h : analyse insns defaultIcacheLineBytes = .ok (bs, cov)) (hL : 0 < L) {xs : List Slot}
    (hx : ∀ x ∈ xs, x.Of insns) (hlim : ∀ x ∈ xs, x.LineLimited insns L)
    (hentry : ∀ b ∈ bs, ∀ i ∈ b.members, histogram (xs.flatMap Slot.lines) i.addr
      = histogram (xs.flatMap Slot.lines) b.hintAddr) :
    ∃ p bs' cov' s, profile insns bs (histogram (xs.flatMap Slot.lines)) = some p
      ∧ analyse insns L = .ok (bs', cov')
      ∧ straddle bs' (histogram (xs.flatMap Slot.lines)) L = .ok s
      ∧ (xs.map Slot.filled).sum = s.all.liveSlots
      ∧ (xs.length : Int) = p.issueCycles + (s.all.deadSlots - s.all.dead + s.all.dead) := by
  obtain ⟨p, hp, hlen⟩ := hv.profile_run h hx
  obtain ⟨⟨bs', cov'⟩, h'⟩ := analyse_returns insns (Int.ne_of_gt hL)
  obtain ⟨s, hs, hcounts⟩ := straddle_eq (fun b hb => members_ne_nil h' hb)
    (histogram (xs.flatMap Slot.lines)) (Int.ne_of_gt hL)
  have hmatch : s.all.liveSlots + s.all.deadSlots = p.dynInBundles :=
    (hcounts.matches h' h hv.addrs hp).slots
  have hmembers := hv.members_run h hx hentry hp
  have hlive : (xs.map Slot.filled).sum = s.all.liveSlots := by
    rw [hcounts.all]
    exact hv.live_run h hL hx hlim h'
  refine ⟨p, bs', cov', s, hp, h', hs, hlive, ?_⟩
  omega

/-- **Over a verified listing, on a core that declines exactly the bundles that are not in one line,
where every member is reached through its HINT, the bundles fill the tool's live slots, and beyond
the `issue_cycles` of the profile the run takes the tool's "extra issue cycles".** -/
theorem core_issues_straddle (hv : Verified insns bs)
    (h : analyse insns defaultIcacheLineBytes = .ok (bs, cov)) (hL : 0 < L) (H : Hart V M)
    (c d : Core V M) (xs : List Slot)
    (hr : Simulation.Run (Steps H insns (lineLimited insns L)) c xs d)
    (hentry : ∀ b ∈ bs, ∀ i ∈ b.members, histogram (xs.flatMap Slot.lines) i.addr
      = histogram (xs.flatMap Slot.lines) b.hintAddr) :
    ∃ p bs' cov' s, profile insns bs (histogram (xs.flatMap Slot.lines)) = some p
      ∧ analyse insns L = .ok (bs', cov')
      ∧ straddle bs' (histogram (xs.flatMap Slot.lines)) L = .ok s
      ∧ (xs.map Slot.filled).sum = s.all.liveSlots
      ∧ (xs.length : Int) = p.issueCycles + (s.all.deadSlots - s.all.dead + s.all.dead) := by
  have hx : ∀ x ∈ xs, x.Of insns := hr.forall fun hs => hv.step_of h hs
  exact hv.straddle_run h hL hx (hr.forall lineLimited_step) hentry

end

/-- the bundle is in lines 0 and 1 of eight bytes, so that all issues alone -/
theorem addi_run_declined : Simulation.Run (Steps addiHart (twoAddi 6) (lineLimited (twoAddi 6) 8))
    addiStart ((twoAddi 6).map Slot.alone) addiStop := by
  have h0 := Simulation.Run.nil.snoc (B := Steps addiHart (twoAddi 6) (lineLimited (twoAddi 6) 8))
    (.alone (c := addiStart) (l := ⟨0, 0x4009, 2, "", ""⟩) rfl fun ht => absurd ht (by decide))
  have h1 := h0.snoc (.alone (l := ⟨2, 0x00100293, 4, "", ""⟩) rfl fun _ => rfl)
  exact h1.snoc (.alone (l := ⟨6, 0x00100313, 4, "", ""⟩) rfl fun _ => rfl)

/-- three issues: one cycle for the bundle, and two slots lost -/
theorem core_issues_straddle_addi : ∃ bs cov p bs' cov' s,
    analyse (twoAddi 6) defaultIcacheLineBytes = .ok (bs, cov)
      ∧ profile (twoAddi 6) bs (histogram (twoAddi 6)) = some p
      ∧ analyse (twoAddi 6) 8 = .ok (bs', cov')
      ∧ straddle bs' (histogram (twoAddi 6)) 8 = .ok s
      ∧ 0 = s.all.liveSlots
      ∧ (3 : Int) = p.issueCycles + (s.all.deadSlots - s.all.dead + s.all.dead) := by
  obtain ⟨⟨bs, cov⟩, h⟩ :=
    analyse_returns (twoAddi 6) (L := defaultIcacheLineBytes) (by decide)
  have hints_eq : hints (twoAddi 6)
      = [(⟨0, 0x4009, 2, "", ""⟩, 2, behind (twoAddi 6) 0 2)] := by decide
  obtain ⟨p, bs', cov', s, hp, h', hs, hlive, hlen⟩ :=
    core_issues_straddle (twoAddi_verified h) h (L := 8) (by decide) addiHart addiStart addiStop _
      addi_run_declined (by
        rw [analyse_eq h, hints_eq]
        intro b hb
        obtain rfl := List.mem_singleton.mp hb
        rw [checkBundle_members, checkBundle_hintAddr]
        decide)
  exact ⟨bs, cov, p, bs', cov', s, h, hp, h', hs, hlive, hlen⟩

end Starbug
