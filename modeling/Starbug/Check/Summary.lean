import Starbug.Check.Analyse
import Starbug.Lib.Dict
import Mathlib.Algebra.Order.BigOperators.Group.List
import Mathlib.Data.Rat.Defs
import Mathlib.Order.Interval.Finset.Nat

/-!
# Static accounting (`summarise` of `tools/starbug_bundle_check.py`)

`summarise` is the function of the source.  It counts by subtraction: every instruction that is
not the HINT of a bundle is payload, and payload that is not in a safe bundle is scalar.

* `Segmented`              where the bundles of a scan lie: increasing intervals that do not
                           meet, `covered` is their union, and no HINT is outside;
* `Summary.Balanced`       the identities and bounds that tie the counts together;
* `analyse_balanced`       both hold of every scan that returns.
-/

namespace Starbug

/-! ## the function of the source -/

/-- `lane_use` and `class_by_lane` -/
structure Tally where
  laneUse : Counter Nat := Dict.empty
  classByLane : Dict Nat (Counter Cls) := Dict.empty

/-- the body of `for i, m in enumerate(b.members)` -/
def tallyMember (t : Tally) (x : Insn × Nat) : Tally where
  laneUse := t.laneUse.bump x.2 1
  classByLane := t.classByLane.alter x.2 fun c => Counter.bump (c.getD Dict.empty) x.1.cls 1

def tallyBundle (t : Tally) (b : Bundle) : Tally :=
  if b.safe then b.members.zipIdx.foldl tallyMember t else t

def tally (bundles : List Bundle) : Tally := bundles.foldl tallyBundle {}

/-- `sorted(d.items())`, whose keys differ -/
def sortedItems {ν : Type} (d : Dict Nat ν) : List (Nat × ν) :=
  d.items.mergeSort fun a b => decide (a.1 ≤ b.1)

def laneKey (k : Nat) : String := s!"lane{k}"

structure Summary where
  totalInstructions : Nat
  hintInstructions : Nat
  payloadInstructions : Int
  bundledInstructions : Nat
  scalarInstructions : Int
  bundleSizeHistogram : List (Nat × Nat)
  laneUtilisation : List (String × Nat)
  laneClassMix : List (String × List (Cls × Nat))
  bundleCoveragePct : Rat
  staticIlp : Rat
  unsafeBundles : Nat
  bundlesWithWarnings : Nat

/-- `sum(len(b.members) for b in bundles if b.safe)` -/
def bundledInsns (bundles : List Bundle) : Nat :=
  ((bundles.filter Bundle.safe).map fun b => b.members.length).sum

def summarise (insns : List Line) (bundles : List Bundle) (_covered : Finset Nat) : Summary :=
  let totalInsns := insns.length
  let hintCount := bundles.length
  let bundled := bundledInsns bundles
  let sizes : Counter Nat := bundles.foldl (fun c b => c.bump b.members.length 1) Dict.empty
  let t := tally bundles
  -- everything that is not a hint
  let payload : Int := totalInsns - hintCount
  let scalarInsns : Int := payload - bundled
  let issueCycles : Int := scalarInsns + (bundles.filter Bundle.safe).length
  { totalInstructions := totalInsns
    hintInstructions := hintCount
    payloadInstructions := payload
    bundledInstructions := bundled
    scalarInstructions := scalarInsns
    bundleSizeHistogram := sortedItems sizes
    laneUtilisation := (sortedItems t.laneUse).map fun p => (laneKey p.1, p.2)
    laneClassMix := (sortedItems t.classByLane).map fun p => (laneKey p.1, p.2.items)
    bundleCoveragePct := if payload = 0 then 0 else 100 * (bundled : Rat) / payload
    staticIlp := if issueCycles = 0 then 0 else (payload : Rat) / issueCycles
    unsafeBundles := (bundles.filter fun b => !b.safe).length
    bundlesWithWarnings := (bundles.filter fun b => !b.warnings.isEmpty).length }

/-! ## where the bundles lie -/

/-- the indices of the HINT and the members of the bundle `b` cut at `k` -/
def Bundle.interval (k : Nat) (b : Bundle) : Finset Nat := Finset.Icc k (k + b.members.length)

/-- `b` is the bundle of the HINT at index `k` -/
structure Bundle.CutAt (insns : List Line) (k : Nat) (b : Bundle) : Prop where
  hint : ∃ l, insns[k]? = some l ∧ l.hint = some b.declaredLen ∧ b.hintAddr = l.addr
    ∧ b.func = l.func
  members : b.members = (behind insns k b.declaredLen).map Line.decode

/-- `xs` are the bundles, each with the index of its HINT -/
structure Segmented (insns : List Line) (bundles : List Bundle) (covered : Finset Nat)
    (xs : List (Nat × Bundle)) : Prop where
  bundles : xs.map Prod.snd = bundles
  cut : ∀ x ∈ xs, x.2.CutAt insns x.1
  increasing : xs.Pairwise fun x y => ∀ i ∈ x.2.interval x.1, ∀ j ∈ y.2.interval y.1, i < j
  union : ∀ i, i ∈ covered ↔ ∃ x ∈ xs, i ∈ x.2.interval x.1
  inside : ∀ i ∈ covered, i < insns.length
  hints : ∀ i l, insns[i]? = some l → l.hint ≠ none → i ∈ covered

theorem checkBundle_func (b : Bundle) (L : Int) : (checkBundle b L).1.func = b.func := by
  obtain ⟨es, ws, h⟩ := checkBundle_eq b L
  rw [h]

theorem mem_pieces_of_mem_place {insns : List Line} {x : Nat × Sweep.Piece Line}
    (h : x ∈ Sweep.place 0 (Sweep.pieces Line.hint insns)) :
    x.2 ∈ Sweep.pieces Line.hint insns := by
  have hmem := List.mem_map_of_mem (f := Prod.snd) h
  rwa [Sweep.map_snd_place] at hmem

theorem spots_spec {insns : List Line} {k n : Nat} {l : Line} {ms : List Line}
    (h : (k, l, n, ms) ∈ spots insns) :
    insns[k]? = some l ∧ l.hint = some n ∧ ms = behind insns k n := by
  have hx := Sweep.mem_spots.mp h
  obtain ⟨hk, hms⟩ := Sweep.at_of_mem_place_pieces Line.hint hx
  exact ⟨hk, (Sweep.fits_of_mem_pieces Line.hint (mem_pieces_of_mem_place hx)).1, hms⟩

/-- a line outside the groups is no HINT -/
theorem exists_spot_of_hint {insns : List Line} {i : Nat} {l : Line} (hi : insns[i]? = some l)
    (hl : l.hint ≠ none) : ∃ x ∈ spots insns, x.1 ≤ i ∧ i ≤ x.1 + x.2.2.2.length := by
  obtain ⟨hlt, -⟩ := List.getElem?_eq_some_iff.mp hi
  have hlt' : i < 0 + ((Sweep.pieces Line.hint insns).flatMap Sweep.Piece.elems).length := by
    rw [Sweep.flatMap_elems_pieces, Nat.zero_add]
    exact hlt
  obtain ⟨⟨k, p⟩, hx, hle, hend⟩ := Sweep.exists_mem_place (Nat.zero_le i) hlt'
  cases p with
  | lone a =>
    have hki : k = i := by
      have hend' : i < k + 1 := hend
      omega
    have ha : insns[k]? = some a := Sweep.at_of_mem_place_pieces Line.hint hx
    rw [hki, hi] at ha
    obtain rfl := Option.some.inj ha
    exact absurd (Sweep.fits_of_mem_pieces Line.hint (mem_pieces_of_mem_place hx)) hl
  | group a n ms =>
    refine ⟨(k, a, n, ms), Sweep.mem_spots.mpr hx, hle, ?_⟩
    have hend' : i < k + (ms.length + 1) := hend
    show i ≤ k + ms.length
    omega

theorem analyse_segmented {insns : List Line} {L : Int} {bs : List Bundle} {cov : Finset Nat}
    (h : analyse insns L = .ok (bs, cov)) :
    Segmented insns bs cov
      ((spots insns).map fun x => (x.1, (checkBundle (cut x.2) L).1)) := by
  have hlen : ∀ x : Nat × Line × Nat × List Line,
      (checkBundle (cut x.2) L).1.members.length = x.2.2.2.length := fun x => by
    rw [checkBundle_members]
    exact List.length_map _
  have hmem : ∀ (x : Nat × Line × Nat × List Line) (i : Nat),
      i ∈ (checkBundle (cut x.2) L).1.interval x.1 ↔ x.1 ≤ i ∧ i ≤ x.1 + x.2.2.2.length :=
    fun x i => by
      unfold Bundle.interval
      rw [Finset.mem_Icc, hlen]
  have hcov : ∀ i, i ∈ cov ↔ ∃ x ∈ spots insns, x.1 ≤ i ∧ i ≤ x.1 + x.2.2.2.length :=
    mem_covered h
  refine ⟨?_, ?_, ?_, ?_, ?_, ?_⟩
  · rw [analyse_eq h, ← map_snd_spots, List.map_map, List.map_map]
    rfl
  · intro y hy
    obtain ⟨⟨k, l, n, ms⟩, hx, rfl⟩ := List.mem_map.mp hy
    obtain ⟨hk, hn, rfl⟩ := spots_spec hx
    refine ⟨⟨l, hk, ?_, ?_, ?_⟩, ?_⟩
    · rw [checkBundle_declaredLen]
      exact hn
    · rw [checkBundle_hintAddr]
      rfl
    · rw [checkBundle_func]
      rfl
    · rw [checkBundle_members, checkBundle_declaredLen]
      rfl
  · refine List.pairwise_map.mpr ((Sweep.spots_increasing 0 _).imp ?_)
    intro x y hxy i hi j hj
    have hi' := (hmem x i).mp hi
    have hj' := (hmem y j).mp hj
    omega
  · intro i
    rw [hcov i]
    constructor
    · rintro ⟨x, hx, hi⟩
      exact ⟨_, List.mem_map_of_mem hx, (hmem x i).mpr hi⟩
    · rintro ⟨y, hy, hi⟩
      obtain ⟨x, hx, rfl⟩ := List.mem_map.mp hy
      exact ⟨x, hx, (hmem x i).mp hi⟩
  · intro i hi
    obtain ⟨⟨k, l, n, ms⟩, hx, hle, hend⟩ := (hcov i).mp hi
    obtain ⟨hk, -, rfl⟩ := spots_spec hx
    obtain ⟨hlt, -⟩ := List.getElem?_eq_some_iff.mp hk
    have hend' : i ≤ k + (behind insns k n).length := hend
    unfold behind at hend'
    rw [List.length_take, List.length_drop] at hend'
    omega
  · intro i l hi hl
    exact (hcov i).mpr (exists_spot_of_hint hi hl)

/-! ## the lanes -/

def Tally.mix (t : Tally) (k : Nat) : Counter Cls := (t.classByLane.get? k).getD Dict.empty

/-- `t` after safe bundles that fill lane `k` `use k` times and `total` lanes in all -/
structure Tally.Sound (t : Tally) (use : Nat → Nat) (total : Nat) (w : Nat) : Prop where
  lanes : t.laneUse.keys = List.range w
  classes : t.classByLane.keys = List.range w
  get : ∀ k, t.laneUse.get k = use k
  total : t.laneUse.total = total
  mix : ∀ k, (t.mix k).total = use k
  workers : ∀ k, k ≠ 0 → ∀ c ∈ (t.mix k).keys, c ∉ lane0Only

theorem Tally.sound_empty : Tally.Sound {} (fun _ => 0) 0 0 where
  lanes := rfl
  classes := rfl
  get := fun _ => rfl
  total := rfl
  mix := fun _ => rfl
  workers := fun _ _ _ hc => absurd hc List.not_mem_nil

theorem keys_alter_range {ν : Type} {d : Dict Nat ν} {w k : Nat} (h : d.keys = List.range w)
    (hk : k ≤ w) (f : Option ν → ν) : (d.alter k f).keys = List.range (max w (k + 1)) := by
  rw [Dict.keys_alter, h]
  by_cases hlt : k < w
  · rw [if_pos (List.mem_range.mpr hlt), max_eq_left (Nat.succ_le_of_lt hlt)]
  · obtain rfl : k = w := Nat.le_antisymm hk (Nat.not_lt.mp hlt)
    rw [if_neg (fun hm => hlt (List.mem_range.mp hm)), max_eq_right (Nat.le_succ k),
      List.range_succ]

theorem mix_tallyMember (t : Tally) (m : Insn) (i k : Nat) :
    (tallyMember t (m, i)).mix k = if k = i then (t.mix i).bump m.cls 1 else t.mix k := by
  unfold Tally.mix tallyMember
  rw [Dict.get?_alter]
  split_ifs
  · rfl
  · rfl

theorem Tally.Sound.member {t : Tally} {use : Nat → Nat} {total w i : Nat} {m : Insn}
    (h : t.Sound use total w) (hi : i ≤ w) (hm : i ≠ 0 → m.isLane0Only = false) :
    (tallyMember t (m, i)).Sound (fun k => use k + if k = i then 1 else 0) (total + 1)
      (max w (i + 1)) where
  lanes := keys_alter_range h.lanes hi _
  classes := keys_alter_range h.classes hi _
  get := fun k => by
    show (t.laneUse.bump i 1).get k = _
    rw [Counter.get_bump, h.get]
  total := by
    show (t.laneUse.bump i 1).total = _
    rw [Counter.total_bump, h.total]
  mix := fun k => by
    rw [mix_tallyMember]
    by_cases hk : k = i
    · rw [if_pos hk, if_pos hk, Counter.total_bump, h.mix, hk]
    · rw [if_neg hk, if_neg hk, h.mix, Nat.add_zero]
  workers := fun k hk c hc => by
    rw [mix_tallyMember] at hc
    by_cases hki : k = i
    · rw [if_pos hki] at hc
      have hkeys : c ∈ (t.mix i).keys ∨ c = m.cls := by
        have hc' : c ∈ ((t.mix i).alter m.cls fun v => v.getD 0 + 1).keys := hc
        rw [Dict.keys_alter] at hc'
        split_ifs at hc' with h'
        · exact Or.inl hc'
        · rw [List.mem_append, List.mem_singleton] at hc'
          exact hc'
      rcases hkeys with hc' | rfl
      · exact h.workers k hk c (hki ▸ hc')
      · exact of_decide_eq_false (hm (hki ▸ hk))
    · rw [if_neg hki] at hc
      exact h.workers k hk c hc

theorem Tally.Sound.members {t : Tally} {use : Nat → Nat} {total w i : Nat} {ms : List Insn}
    (h : t.Sound use total w) (hi : i ≤ w)
    (hm : ∀ x ∈ ms.zipIdx i, x.2 ≠ 0 → x.1.isLane0Only = false) :
    ((ms.zipIdx i).foldl tallyMember t).Sound
      (fun k => use k + if i ≤ k ∧ k < i + ms.length then 1 else 0) (total + ms.length)
      (max w (i + ms.length)) := by
  induction ms generalizing t use total w i with
  | nil =>
    have huse : (fun k => use k + if i ≤ k ∧ k < i + 0 then 1 else 0) = use := by
      funext k
      have hnot : ¬ (i ≤ k ∧ k < i + 0) := by omega
      rw [if_neg hnot, Nat.add_zero]
    show t.Sound (fun k => use k + if i ≤ k ∧ k < i + 0 then 1 else 0) total (max w i)
    rwa [huse, max_eq_left hi]
  | cons m ms ih =>
    rw [List.zipIdx_cons] at hm ⊢
    have hstep := h.member hi (hm _ List.mem_cons_self)
    have hrun := ih hstep (le_max_right _ _) fun x hx => hm x (List.mem_cons_of_mem _ hx)
    have huse : (fun k => (use k + if k = i then 1 else 0)
          + if i + 1 ≤ k ∧ k < i + 1 + ms.length then 1 else 0)
        = fun k => use k + if i ≤ k ∧ k < i + (m :: ms).length then 1 else 0 := by
      funext k
      rw [List.length_cons]
      split_ifs <;> omega
    have htotal : total + 1 + ms.length = total + (m :: ms).length := by
      rw [List.length_cons]
      omega
    have hw : max (max w (i + 1)) (i + 1 + ms.length) = max w (i + (m :: ms).length) := by
      rw [List.length_cons]
      omega
    rwa [huse, htotal, hw] at hrun

/-- how many safe bundles fill lane `k` -/
def laneCount (bundles : List Bundle) (k : Nat) : Nat :=
  (bundles.filter fun b => b.safe && decide (k < b.members.length)).length

theorem laneCount_antitone (bundles : List Bundle) {j k : Nat} (hjk : j ≤ k) :
    laneCount bundles k ≤ laneCount bundles j := by
  unfold laneCount
  refine (List.monotone_filter_right bundles ?_).length_le
  intro b hb
  rw [Bool.and_eq_true, decide_eq_true_eq] at hb ⊢
  exact ⟨hb.1, Nat.lt_of_le_of_lt hjk hb.2⟩

theorem tally_sound (bundles : List Bundle)
    (hw : ∀ b ∈ bundles, b.safe = true → ∀ m ∈ b.members.tail, m.isLane0Only = false) :
    ∃ w, (tally bundles).Sound (laneCount bundles) (bundledInsns bundles) w := by
  have hrun : ∀ (bs : List Bundle) (t : Tally) (use : Nat → Nat) (total w : Nat),
      (∀ b ∈ bs, b.safe = true → ∀ m ∈ b.members.tail, m.isLane0Only = false) →
      t.Sound use total w → ∃ w', (bs.foldl tallyBundle t).Sound
        (fun k => use k + laneCount bs k) (total + bundledInsns bs) w' := by
    intro bs
    induction bs with
    | nil => exact fun t use total w _ h => ⟨w, h⟩
    | cons b bs ih =>
      intro t use total w hbs h
      have hrest := fun b' hb' => hbs b' (List.mem_cons_of_mem b hb')
      by_cases hs : b.safe = true
      · have hm : ∀ x ∈ b.members.zipIdx 0, x.2 ≠ 0 → x.1.isLane0Only = false :=
          fun x hx h0 => hbs b List.mem_cons_self hs x.1 (mem_zipIdx_tail.mpr ⟨x.2, h0, hx⟩)
        obtain ⟨w', hw'⟩ := ih _ _ _ _ hrest (h.members (Nat.zero_le w) hm)
        have huse : (fun k => (use k + if 0 ≤ k ∧ k < 0 + b.members.length then 1 else 0)
            + laneCount bs k) = fun k => use k + laneCount (b :: bs) k := by
          funext k
          unfold laneCount
          by_cases hk : k < b.members.length
          · simp [hs, hk]
            omega
          · simp [hk]
        have htotal : total + b.members.length + bundledInsns bs
            = total + bundledInsns (b :: bs) := by
          simp [bundledInsns, hs, Nat.add_assoc]
        rw [huse, htotal] at hw'
        refine ⟨w', ?_⟩
        show ((bs.foldl tallyBundle (tallyBundle t b))).Sound _ _ _
        rwa [tallyBundle, if_pos hs]
      · obtain ⟨w', hw'⟩ := ih t use total w hrest h
        have huse : laneCount (b :: bs) = laneCount bs := by
          funext k
          simp [laneCount, hs]
        have htotal : bundledInsns (b :: bs) = bundledInsns bs := by
          simp [bundledInsns, hs]
        refine ⟨w', ?_⟩
        show ((bs.foldl tallyBundle (tallyBundle t b))).Sound _ _ _
        rwa [tallyBundle, if_neg hs, huse, htotal]
  obtain ⟨w, h⟩ := hrun bundles {} (fun _ => 0) 0 0 hw Tally.sound_empty
  have huse : (fun k => 0 + laneCount bundles k) = laneCount bundles := by
    funext k
    exact Nat.zero_add _
  rw [huse, Nat.zero_add] at h
  exact ⟨w, h⟩

theorem sortedItems_eq {ν : Type} {d : Dict Nat ν} {w : Nat} (h : d.keys = List.range w)
    (v₀ : ν) : sortedItems d = (List.range w).map fun k => (k, (d.get? k).getD v₀) := by
  have hitems : d.items = (List.range w).map fun k => (k, (d.get? k).getD v₀) := by
    rw [← h]
    exact Dict.items_eq d v₀
  unfold sortedItems
  rw [hitems]
  apply List.mergeSort_of_pairwise
  rw [List.pairwise_map]
  refine List.pairwise_lt_range.imp ?_
  intro a b hab
  exact decide_eq_true (Nat.le_of_lt hab)

theorem laneUtilisation_eq (insns : List Line) {bundles : List Bundle} (covered : Finset Nat)
    {use : Nat → Nat} {total w : Nat} (h : (tally bundles).Sound use total w) :
    (summarise insns bundles covered).laneUtilisation
      = (List.range w).map fun k => (laneKey k, use k) := by
  show (sortedItems (tally bundles).laneUse).map (fun p => (laneKey p.1, p.2)) = _
  rw [sortedItems_eq h.lanes 0, List.map_map]
  exact List.map_congr_left fun k _ => congrArg (Prod.mk (laneKey k)) (h.get k)

theorem laneClassMix_eq (insns : List Line) {bundles : List Bundle} (covered : Finset Nat)
    {use : Nat → Nat} {total w : Nat} (h : (tally bundles).Sound use total w) :
    (summarise insns bundles covered).laneClassMix
      = (List.range w).map fun k => (laneKey k, ((tally bundles).mix k).items) := by
  show (sortedItems (tally bundles).classByLane).map (fun p => (laneKey p.1, p.2.items)) = _
  rw [sortedItems_eq h.classes Dict.empty, List.map_map]
  rfl

/-! ## the counts balance -/

/-- `issue_cycles` -/
def Summary.issueCycles (s : Summary) (bundles : List Bundle) : Int :=
  s.scalarInstructions + (bundles.filter Bundle.safe).length

structure Summary.Balanced (s : Summary) (bundles : List Bundle) : Prop where
  sum : (s.hintInstructions : Int) + s.bundledInstructions + s.scalarInstructions
    = s.totalInstructions
  scalar_nonneg : 0 ≤ s.scalarInstructions
  lane_keys : ∃ w, s.laneUtilisation.map Prod.fst = (List.range w).map laneKey
  lane_sum : (s.laneUtilisation.map Prod.snd).sum = s.bundledInstructions
  lane_antitone : (s.laneUtilisation.map Prod.snd).Pairwise fun x y => y ≤ x
  mix : List.Forall₂ (fun u c => c.1 = u.1 ∧ (c.2.map Prod.snd).sum = u.2)
    s.laneUtilisation s.laneClassMix
  workers : ∀ c ∈ s.laneClassMix, c.1 ≠ laneKey 0 → ∀ x ∈ c.2, x.1 ∉ lane0Only
  cycles_le : s.issueCycles bundles ≤ s.payloadInstructions
  le_cycles : s.payloadInstructions ≤ 4 * s.issueCycles bundles

/-- HINTs and members are instructions of the listing -/
theorem length_bundles_le {insns : List Line} {L : Int} {bs : List Bundle} {cov : Finset Nat}
    (h : analyse insns L = .ok (bs, cov)) :
    bs.length + (bs.map fun b => b.members.length).sum ≤ insns.length := by
  have hlen : bs.map (fun b => b.members.length)
      = (hints insns).map fun x => x.2.2.length := by
    rw [analyse_eq h, List.map_map]
    refine List.map_congr_left fun x _ => ?_
    show (checkBundle (cut x) L).1.members.length = _
    rw [checkBundle_members]
    exact List.length_map _
  rw [hlen, analyse_eq h, List.length_map]
  exact Sweep.length_headers_le Line.hint insns

/-- a bundle of the scan without errors has its declared length, which is one to four -/
theorem accepted_of_safe {insns : List Line} {L : Int} {bs : List Bundle} {cov : Finset Nat}
    (h : analyse insns L = .ok (bs, cov)) {b : Bundle} (hb : b ∈ bs) (hs : b.safe = true) :
    Accepted b ∧ b.members.length = b.declaredLen ∧ 1 ≤ b.declaredLen := by
  rw [analyse_eq h] at hb
  obtain ⟨⟨l, n, ms⟩, hx, rfl⟩ := List.mem_map.mp hb
  obtain ⟨k, hk, hn, rfl, -⟩ := mem_hints.mp hx
  have herr : (checkBundle (cut (l, n, behind insns k n)) L).1.errors = [] :=
    List.isEmpty_iff.mp hs
  obtain ⟨h1, h2, h3, h4⟩ := ((checkBundle_errors_iff _ L).mp herr).2
  refine ⟨⟨?_, ?_, ?_, ?_⟩, ?_, ?_⟩
  · rwa [checkBundle_declaredLen]
  · rwa [checkBundle_declaredLen, checkBundle_members]
  · rwa [checkBundle_members]
  · rwa [checkBundle_members]
  · rw [checkBundle_declaredLen, checkBundle_members]
    have hle : (cut (l, n, behind insns k n)).members.length ≤ n := by
      show ((behind insns k n).map Line.decode).length ≤ n
      rw [List.length_map]
      exact List.length_take_le _ _
    exact Nat.le_antisymm hle h2
  · rw [checkBundle_declaredLen]
    exact Line.hint_pos hn

theorem length_of_safe {insns : List Line} {L : Int} {bs : List Bundle} {cov : Finset Nat}
    (h : analyse insns L = .ok (bs, cov)) {b : Bundle} (hb : b ∈ bs) (hs : b.safe = true) :
    1 ≤ b.members.length ∧ b.members.length ≤ 4 := by
  obtain ⟨hacc, hlen, hpos⟩ := accepted_of_safe h hb hs
  rw [hlen]
  exact ⟨hpos, hacc.declared⟩

theorem bundledInsns_bounds {bs : List Bundle}
    (hb : ∀ b ∈ bs, b.safe = true → 1 ≤ b.members.length ∧ b.members.length ≤ 4) :
    (bs.filter Bundle.safe).length ≤ bundledInsns bs
      ∧ bundledInsns bs ≤ 4 * (bs.filter Bundle.safe).length
      ∧ bundledInsns bs ≤ (bs.map fun b => b.members.length).sum := by
  unfold bundledInsns
  induction bs with
  | nil => simp
  | cons b bs ih =>
    obtain ⟨h1, h2, h3⟩ := ih fun b' hb' => hb b' (List.mem_cons_of_mem b hb')
    by_cases hs : b.safe = true
    · obtain ⟨hpos, hmax⟩ := hb b List.mem_cons_self hs
      rw [List.filter_cons_of_pos hs, List.map_cons, List.map_cons, List.sum_cons, List.sum_cons,
        List.length_cons]
      omega
    · rw [List.filter_cons_of_neg hs, List.map_cons, List.sum_cons]
      omega

/-- **With a nonzero line size the scan returns.  Whenever it returns, its bundles lie in
increasing intervals that do not meet, `covered` is their union and holds every HINT, and the
static counts balance.** -/
theorem analyse_balanced (insns : List Line) (L : Int) :
    (L ≠ 0 → ∃ r, analyse insns L = .ok r)
    ∧ ∀ bs cov, analyse insns L = .ok (bs, cov) →
      (∃ xs, Segmented insns bs cov xs) ∧ (summarise insns bs cov).Balanced bs := by
  refine ⟨analyse_returns insns, fun bs cov h => ⟨⟨_, analyse_segmented h⟩, ?_⟩⟩
  obtain ⟨hcount, hfour, hsub⟩ := bundledInsns_bounds fun b => length_of_safe h (b := b)
  have hall := length_bundles_le h
  obtain ⟨w, hsound⟩ := tally_sound bs fun b hb hs => (accepted_of_safe h hb hs).1.workers
  have huse := laneUtilisation_eq insns cov hsound
  have hmix := laneClassMix_eq insns cov hsound
  constructor
  case sum =>
    show (bs.length : Int) + bundledInsns bs + (insns.length - bs.length - bundledInsns bs)
      = insns.length
    omega
  case scalar_nonneg =>
    show (0 : Int) ≤ insns.length - bs.length - bundledInsns bs
    omega
  case lane_keys =>
    refine ⟨w, ?_⟩
    rw [huse, List.map_map]
    rfl
  case lane_sum =>
    have hvals : (summarise insns bs cov).laneUtilisation.map Prod.snd
        = (tally bs).laneUse.items.map Prod.snd := by
      rw [huse, List.map_map, Counter.values_eq, hsound.lanes]
      exact List.map_congr_left fun k _ => (hsound.get k).symm
    rw [hvals]
    exact hsound.total
  case lane_antitone =>
    rw [huse, List.map_map, List.pairwise_map]
    refine List.pairwise_lt_range.imp ?_
    intro j k hjk
    exact laneCount_antitone bs (Nat.le_of_lt hjk)
  case mix =>
    rw [huse, hmix, List.forall₂_map_left_iff, List.forall₂_map_right_iff, List.forall₂_same]
    exact fun k _ => ⟨rfl, hsound.mix k⟩
  case workers =>
    rw [hmix]
    intro c hc h0 x hx
    obtain ⟨k, -, rfl⟩ := List.mem_map.mp hc
    refine hsound.workers k (fun hk => h0 ?_) x.1 (List.mem_map_of_mem hx)
    rw [hk]
  case cycles_le =>
    show (insns.length - bs.length - bundledInsns bs : Int) + (bs.filter Bundle.safe).length
      ≤ insns.length - bs.length
    omega
  case le_cycles =>
    show (insns.length - bs.length : Int)
      ≤ 4 * (insns.length - bs.length - bundledInsns bs + (bs.filter Bundle.safe).length)
    omega

/-- four instructions behind two HINTs, the second HINT a member of the first bundle -/
theorem analyse_balanced_nested : ∃ bs cov, analyse nestedHints 64 = .ok (bs, cov)
    ∧ (∃ xs, Segmented nestedHints bs cov xs) ∧ (summarise nestedHints bs cov).Balanced bs := by
  obtain ⟨⟨bs, cov⟩, h⟩ := (analyse_balanced nestedHints 64).1 (by decide)
  exact ⟨bs, cov, h, (analyse_balanced nestedHints 64).2 bs cov h⟩

end Starbug
