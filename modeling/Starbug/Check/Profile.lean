import Starbug.Check.Summary

/-!
# Dynamic accounting (the loop of `tools/starbug_profile.py`)

`profile` joins the bundles of the scan with a PC histogram: `bundleMap` finds bundles by the
address of their HINT and collects the addresses of their members, `profileStep` is the body of
the loop over the listing.  A histogram is what `hist.get(addr, 0)` reads.

* `profile_balanced`       the identities and bounds between the counters, for every listing
                           and every histogram;
* `profile_payload_iff`    the payload counts every executed instruction that is no HINT exactly
                           if the HINTs of the safe bundles are charged what their members ran;
* `profile_uniform_iff`    on a uniform histogram the dynamic totals are multiples of the
                           static ones exactly if no HINT is a member of an unsafe bundle.
-/

namespace Starbug

/-! ## the loop of the source -/

def defaultIcacheLineBytes : Int := 64

/-- `bundle_at` and `member_addrs` -/
structure BundleMap where
  bundleAt : Dict Nat Bundle := Dict.empty
  memberAddrs : Finset Nat := ∅

def mapBundle (m : BundleMap) (b : Bundle) : BundleMap :=
  if b.safe then
    { bundleAt := m.bundleAt.set b.hintAddr b
      memberAddrs := b.members.foldl (fun s i => insert i.addr s) m.memberAddrs }
  else m

def bundleMap (bundles : List Bundle) : BundleMap := bundles.foldl mapBundle {}

/-- `{a: decode(a, w, t) for (a, w, _s, t, _f) in insns}` -/
def decodedMap (insns : List Line) : Dict Nat Insn :=
  insns.foldl (fun d l => d.set l.addr l.decode) Dict.empty

structure Profile where
  dynTotal : Nat := 0
  dynHints : Nat := 0
  dynInBundles : Nat := 0
  dynBundleExecs : Nat := 0
  laneOccupancy : Counter Nat := Dict.empty
  sizeWeighted : Counter Nat := Dict.empty
  scalarByClass : Counter Cls := Dict.empty
  fnPayload : Counter String := Dict.empty
  fnBundled : Counter String := Dict.empty
  fnCycles : Counter String := Dict.empty

/-- `count` executions of the HINT of a safe bundle -/
def Profile.runBundle (p : Profile) (func : String) (count : Nat) (b : Bundle) : Profile :=
  { p with
    dynHints := p.dynHints + count
    dynBundleExecs := p.dynBundleExecs + count
    sizeWeighted := p.sizeWeighted.bump b.members.length count
    laneOccupancy := p.laneOccupancy.bumpAll (List.range b.members.length) count
    dynInBundles := p.dynInBundles + count * b.members.length
    fnPayload := p.fnPayload.bump func (count * b.members.length)
    fnBundled := p.fnBundled.bump func (count * b.members.length)
    fnCycles := p.fnCycles.bump func count }

/-- `count` executions of a scalar instruction -/
def Profile.runScalar (p : Profile) (func : String) (count : Nat) (cls : Cls) : Profile :=
  { p with
    dynTotal := p.dynTotal + count
    fnPayload := p.fnPayload.bump func count
    fnCycles := p.fnCycles.bump func count
    scalarByClass := p.scalarByClass.bump cls count }

/-- the body of the loop; `none` is the `KeyError` of `decoded[addr]` -/
def profileStep (m : BundleMap) (decoded : Dict Nat Insn) (hist : Nat → Nat) (p : Profile)
    (l : Line) : Option Profile :=
  let count := hist l.addr
  if count = 0 then some p
  else
    match m.bundleAt.get? l.addr with
    | some b => some (p.runBundle l.func count b)
    | none =>
      -- counted through its bundle
      if l.addr ∈ m.memberAddrs then some p
      -- a hint the hardware rejects
      else if l.hint.isSome then some { p with dynHints := p.dynHints + count }
      else (decoded.get? l.addr).map fun i => p.runScalar l.func count i.cls

def profile (insns : List Line) (bundles : List Bundle) (hist : Nat → Nat) : Option Profile :=
  insns.foldlM (profileStep (bundleMap bundles) (decodedMap insns) hist) {}

/-- `payload` -/
def Profile.payload (p : Profile) : Nat := p.dynTotal + p.dynInBundles

/-- `issue_cycles` -/
def Profile.issueCycles (p : Profile) : Nat := p.dynTotal + p.dynBundleExecs

/-! ## what the maps hold -/

theorem bundleMap_eq (bundles : List Bundle) :
    (bundleMap bundles).bundleAt
        = (bundles.filter Bundle.safe).foldl (fun d b => d.set b.hintAddr b) Dict.empty
      ∧ (bundleMap bundles).memberAddrs
        = (((bundles.filter Bundle.safe).flatMap Bundle.members).map Insn.addr).toFinset := by
  have hins : ∀ (ms : List Insn) (s : Finset Nat),
      ms.foldl (fun s i => insert i.addr s) s = s ∪ (ms.map Insn.addr).toFinset := by
    intro ms
    induction ms with
    | nil =>
      intro s
      rw [List.map_nil, List.toFinset_nil, Finset.union_empty]
      rfl
    | cons i ms ih =>
      intro s
      rw [List.foldl_cons, ih, List.map_cons, List.toFinset_cons, Finset.union_insert,
        Finset.insert_union]
  have hrun : ∀ (bs : List Bundle) (m : BundleMap), (bs.foldl mapBundle m).bundleAt
        = (bs.filter Bundle.safe).foldl (fun d b => d.set b.hintAddr b) m.bundleAt
      ∧ (bs.foldl mapBundle m).memberAddrs = m.memberAddrs
        ∪ (((bs.filter Bundle.safe).flatMap Bundle.members).map Insn.addr).toFinset := by
    intro bs
    induction bs with
    | nil =>
      intro m
      refine ⟨rfl, ?_⟩
      show m.memberAddrs = m.memberAddrs ∪ ∅
      rw [Finset.union_empty]
    | cons b bs ih =>
      intro m
      rw [List.foldl_cons, (ih _).1, (ih _).2]
      by_cases hs : b.safe = true
      · rw [List.filter_cons_of_pos hs, mapBundle, if_pos hs, hins, List.flatMap_cons,
          List.map_append, List.toFinset_append, Finset.union_assoc]
        exact ⟨rfl, rfl⟩
      · rw [List.filter_cons_of_neg hs, mapBundle, if_neg hs]
        exact ⟨rfl, rfl⟩
  have h := hrun bundles {}
  rw [Finset.empty_union] at h
  exact h

theorem bundleAt_spec {bundles : List Bundle} {a : Nat} {b : Bundle}
    (h : (bundleMap bundles).bundleAt.get? a = some b) :
    b ∈ bundles ∧ b.safe = true ∧ b.hintAddr = a := by
  rw [(bundleMap_eq bundles).1] at h
  rcases Dict.stored_of_get? Bundle.hintAddr id h with ⟨c, hc, ha, rfl⟩ | h0
  · obtain ⟨hb, hs⟩ := List.mem_filter.mp hc
    exact ⟨hb, hs, ha⟩
  · cases h0

theorem exists_bundleAt {bundles : List Bundle} {b : Bundle} (hb : b ∈ bundles)
    (hs : b.safe = true) : ∃ b', (bundleMap bundles).bundleAt.get? b.hintAddr = some b' := by
  rw [(bundleMap_eq bundles).1]
  exact Dict.exists_get?_of_stored Bundle.hintAddr id
    (Or.inl ⟨b, List.mem_filter.mpr ⟨hb, hs⟩, rfl⟩)

theorem mem_memberAddrs {bundles : List Bundle} {a : Nat} :
    a ∈ (bundleMap bundles).memberAddrs
      ↔ ∃ b ∈ bundles, b.safe = true ∧ ∃ i ∈ b.members, i.addr = a := by
  rw [(bundleMap_eq bundles).2, List.mem_toFinset, List.mem_map]
  constructor
  · rintro ⟨i, hi, ha⟩
    obtain ⟨b, hb, hib⟩ := List.mem_flatMap.mp hi
    obtain ⟨hb, hs⟩ := List.mem_filter.mp hb
    exact ⟨b, hb, hs, i, hib, ha⟩
  · rintro ⟨b, hb, hs, i, hi, ha⟩
    exact ⟨i, List.mem_flatMap.mpr ⟨b, List.mem_filter.mpr ⟨hb, hs⟩, hi⟩, ha⟩

theorem exists_decodedMap {insns : List Line} {l : Line} (hl : l ∈ insns) :
    ∃ i, (decodedMap insns).get? l.addr = some i :=
  Dict.exists_get?_of_stored Line.addr Line.decode (Or.inl ⟨l, hl, rfl⟩)

/-! ## one line -/

/-- a line that is neither the HINT nor a member of a safe bundle, and no HINT -/
structure BundleMap.Scalar (m : BundleMap) (l : Line) : Prop where
  bundleAt : m.bundleAt.get? l.addr = none
  member : l.addr ∉ m.memberAddrs
  hint : l.hint = none

/-- what one line does: it runs a bundle, it runs alone, or only `dynHints` changes -/
theorem profileStep_cases {m : BundleMap} {decoded : Dict Nat Insn} {hist : Nat → Nat}
    {p p' : Profile} {l : Line} (h : profileStep m decoded hist p l = some p') :
    (∃ b, m.bundleAt.get? l.addr = some b ∧ p' = p.runBundle l.func (hist l.addr) b)
    ∨ (m.Scalar l ∧ ∃ c, p' = p.runScalar l.func (hist l.addr) c)
    ∨ ((hist l.addr = 0 ∨ m.bundleAt.get? l.addr = none ∧ ¬ m.Scalar l)
      ∧ ∃ n, p' = { p with dynHints := n }) := by
  unfold profileStep at h
  simp only at h
  by_cases h0 : hist l.addr = 0
  · rw [if_pos h0] at h
    exact Or.inr (Or.inr ⟨Or.inl h0, _, (Option.some.inj h).symm⟩)
  rw [if_neg h0] at h
  cases hb : m.bundleAt.get? l.addr with
  | some b =>
    rw [hb] at h
    exact Or.inl ⟨b, rfl, (Option.some.inj h).symm⟩
  | none =>
    rw [hb] at h
    by_cases hm : l.addr ∈ m.memberAddrs
    · rw [if_pos hm] at h
      exact Or.inr (Or.inr ⟨Or.inr ⟨rfl, fun hs => hs.member hm⟩, _, (Option.some.inj h).symm⟩)
    rw [if_neg hm] at h
    by_cases hh : l.hint.isSome
    · rw [if_pos hh] at h
      have hns : ¬ m.Scalar l := fun hs => by
        rw [hs.hint] at hh
        cases hh
      exact Or.inr (Or.inr ⟨Or.inr ⟨rfl, hns⟩, _, (Option.some.inj h).symm⟩)
    rw [if_neg hh] at h
    obtain ⟨i, -, rfl⟩ := Option.map_eq_some_iff.mp h
    have hnone : l.hint = none := Option.not_isSome_iff_eq_none.mp hh
    exact Or.inr (Or.inl ⟨⟨hb, hm, hnone⟩, i.cls, rfl⟩)

theorem exists_profileStep {m : BundleMap} {decoded : Dict Nat Insn} {hist : Nat → Nat}
    {p : Profile} {l : Line} (hl : ∃ i, decoded.get? l.addr = some i) :
    ∃ p', profileStep m decoded hist p l = some p' := by
  obtain ⟨i, hi⟩ := hl
  unfold profileStep
  cases m.bundleAt.get? l.addr with
  | some b =>
    simp only
    split_ifs
    · exact ⟨_, rfl⟩
    · exact ⟨_, rfl⟩
  | none =>
    simp only [hi]
    split_ifs
    · exact ⟨_, rfl⟩
    · exact ⟨_, rfl⟩
    · exact ⟨_, rfl⟩
    · exact ⟨_, rfl⟩

/-- a property that every line keeps holds after the loop, which returns -/
theorem profile_induct {insns : List Line} {bundles : List Bundle} {hist : Nat → Nat}
    (P : List Line → Profile → Prop) (h0 : P [] {})
    (hstep : ∀ ls l p p', P ls p → l ∈ insns →
      profileStep (bundleMap bundles) (decodedMap insns) hist p l = some p' → P (ls ++ [l]) p') :
    ∃ p, profile insns bundles hist = some p ∧ P insns p := by
  have hrun : ∀ (rest done : List Line) (p : Profile), (∀ l ∈ rest, l ∈ insns) → P done p →
      ∃ p', rest.foldlM (profileStep (bundleMap bundles) (decodedMap insns) hist) p = some p'
        ∧ P (done ++ rest) p' := by
    intro rest
    induction rest with
    | nil =>
      intro done p _ hp
      rw [List.append_nil]
      exact ⟨p, rfl, hp⟩
    | cons l rest ih =>
      intro done p hmem hp
      have hl : l ∈ insns := hmem l List.mem_cons_self
      obtain ⟨p₁, h₁⟩ : ∃ p₁, profileStep (bundleMap bundles) (decodedMap insns) hist p l
          = some p₁ := exists_profileStep (exists_decodedMap hl)
      obtain ⟨p', h', hP⟩ := ih (done ++ [l]) p₁ (fun l' hl' => hmem l' (List.mem_cons_of_mem l hl'))
        (hstep done l p p₁ hp hl h₁)
      refine ⟨p', ?_, ?_⟩
      · rw [List.foldlM_cons, h₁]
        exact h'
      · rwa [List.append_assoc] at hP
  exact hrun insns [] {} (fun _ h => h) h0

/-! ## the counters balance -/

structure Profile.Balanced (p : Profile) : Prop where
  fn_payload : p.fnPayload.total = p.payload
  fn_bundled : p.fnBundled.total = p.dynInBundles
  fn_cycles : p.fnCycles.total = p.issueCycles
  lane_sum : p.laneOccupancy.total = p.dynInBundles
  lane_antitone : ∀ j k, j ≤ k → p.laneOccupancy.get k ≤ p.laneOccupancy.get j
  lane_zero : p.laneOccupancy.get 0 = p.dynBundleExecs
  size_sum : p.sizeWeighted.weigh (fun n => n) = p.dynInBundles
  scalar_sum : p.scalarByClass.total = p.dynTotal
  cycles_le : p.issueCycles ≤ p.payload
  le_cycles : p.payload ≤ 4 * p.issueCycles
  slots_le : p.dynInBundles ≤ 4 * p.dynBundleExecs

theorem Profile.balanced_empty : Profile.Balanced {} where
  fn_payload := rfl
  fn_bundled := rfl
  fn_cycles := rfl
  lane_sum := rfl
  lane_antitone := fun _ _ _ => Nat.le_refl _
  lane_zero := rfl
  size_sum := rfl
  scalar_sum := rfl
  cycles_le := Nat.le_refl _
  le_cycles := Nat.le_refl _
  slots_le := Nat.le_refl _

theorem Profile.Balanced.runBundle {p : Profile} (h : p.Balanced) (func : String) (count : Nat)
    {b : Bundle} (h1 : 1 ≤ b.members.length) (h4 : b.members.length ≤ 4) :
    (p.runBundle func count b).Balanced := by
  have hle : count ≤ count * b.members.length := Nat.le_mul_of_pos_right count h1
  have hle4 : count * b.members.length ≤ 4 * count := by
    rw [Nat.mul_comm 4 count]
    exact Nat.mul_le_mul_left count h4
  have hcyc := h.cycles_le
  have hcyc4 := h.le_cycles
  have hslots := h.slots_le
  unfold Profile.payload Profile.issueCycles at hcyc hcyc4
  constructor
  case fn_payload =>
    show (p.fnPayload.bump func (count * b.members.length)).total
      = p.dynTotal + (p.dynInBundles + count * b.members.length)
    rw [Counter.total_bump, h.fn_payload, Profile.payload, Nat.add_assoc]
  case fn_bundled =>
    show (p.fnBundled.bump func (count * b.members.length)).total = _
    rw [Counter.total_bump, h.fn_bundled]
    rfl
  case fn_cycles =>
    show (p.fnCycles.bump func count).total = p.dynTotal + (p.dynBundleExecs + count)
    rw [Counter.total_bump, h.fn_cycles, Profile.issueCycles, Nat.add_assoc]
  case lane_sum =>
    show (p.laneOccupancy.bumpAll (List.range b.members.length) count).total = _
    rw [Counter.total_bumpAll, h.lane_sum, List.length_range]
    rfl
  case lane_antitone =>
    intro j k hjk
    show (p.laneOccupancy.bumpAll (List.range b.members.length) count).get k
      ≤ (p.laneOccupancy.bumpAll (List.range b.members.length) count).get j
    rw [Counter.get_bumpAll _ List.nodup_range, Counter.get_bumpAll _ List.nodup_range]
    have hprev := h.lane_antitone j k hjk
    simp only [List.mem_range]
    split_ifs <;> omega
  case lane_zero =>
    show (p.laneOccupancy.bumpAll (List.range b.members.length) count).get 0
      = p.dynBundleExecs + count
    rw [Counter.get_bumpAll _ List.nodup_range, h.lane_zero, if_pos (List.mem_range.mpr h1)]
  case size_sum =>
    show (p.sizeWeighted.bump b.members.length count).weigh (fun n => n) = _
    rw [Counter.weigh_bump, h.size_sum, Nat.mul_comm]
    rfl
  case scalar_sum => exact h.scalar_sum
  case cycles_le =>
    show p.dynTotal + (p.dynBundleExecs + count)
      ≤ p.dynTotal + (p.dynInBundles + count * b.members.length)
    omega
  case le_cycles =>
    show p.dynTotal + (p.dynInBundles + count * b.members.length)
      ≤ 4 * (p.dynTotal + (p.dynBundleExecs + count))
    omega
  case slots_le =>
    show p.dynInBundles + count * b.members.length ≤ 4 * (p.dynBundleExecs + count)
    omega

theorem Profile.Balanced.runScalar {p : Profile} (h : p.Balanced) (func : String) (count : Nat)
    (c : Cls) : (p.runScalar func count c).Balanced := by
  have hcyc := h.cycles_le
  have hcyc4 := h.le_cycles
  unfold Profile.payload Profile.issueCycles at hcyc hcyc4
  constructor
  case fn_payload =>
    show (p.fnPayload.bump func count).total = p.dynTotal + count + p.dynInBundles
    rw [Counter.total_bump, h.fn_payload, Profile.payload]
    omega
  case fn_bundled => exact h.fn_bundled
  case fn_cycles =>
    show (p.fnCycles.bump func count).total = p.dynTotal + count + p.dynBundleExecs
    rw [Counter.total_bump, h.fn_cycles, Profile.issueCycles]
    omega
  case lane_sum => exact h.lane_sum
  case lane_antitone => exact h.lane_antitone
  case lane_zero => exact h.lane_zero
  case size_sum => exact h.size_sum
  case scalar_sum =>
    show (p.scalarByClass.bump c count).total = p.dynTotal + count
    rw [Counter.total_bump, h.scalar_sum]
  case cycles_le =>
    show p.dynTotal + count + p.dynBundleExecs ≤ p.dynTotal + count + p.dynInBundles
    omega
  case le_cycles =>
    show p.dynTotal + count + p.dynInBundles ≤ 4 * (p.dynTotal + count + p.dynBundleExecs)
    omega
  case slots_le => exact h.slots_le

theorem Profile.Balanced.step {m : BundleMap} {decoded : Dict Nat Insn} {hist : Nat → Nat}
    {p p' : Profile} {l : Line} (h : p.Balanced)
    (hm : ∀ a b, m.bundleAt.get? a = some b → 1 ≤ b.members.length ∧ b.members.length ≤ 4)
    (hs : profileStep m decoded hist p l = some p') : p'.Balanced := by
  rcases profileStep_cases hs with ⟨b, hb, rfl⟩ | ⟨-, c, rfl⟩ | ⟨-, n, rfl⟩
  · exact h.runBundle _ _ (hm _ _ hb).1 (hm _ _ hb).2
  · exact h.runScalar _ _ c
  · exact ⟨h.fn_payload, h.fn_bundled, h.fn_cycles, h.lane_sum, h.lane_antitone, h.lane_zero,
      h.size_sum, h.scalar_sum, h.cycles_le, h.le_cycles, h.slots_le⟩

/-- **For every listing and every histogram the loop returns and its counters balance.** -/
theorem profile_balanced (insns : List Line) (hist : Nat → Nat) :
    ∃ bs cov p, analyse insns defaultIcacheLineBytes = .ok (bs, cov)
      ∧ profile insns bs hist = some p ∧ p.Balanced := by
  obtain ⟨⟨bs, cov⟩, h⟩ := analyse_returns insns (L := defaultIcacheLineBytes) (by decide)
  have hm : ∀ a b, (bundleMap bs).bundleAt.get? a = some b →
      1 ≤ b.members.length ∧ b.members.length ≤ 4 := by
    intro a b hb
    obtain ⟨hmem, hs, -⟩ := bundleAt_spec hb
    exact length_of_safe h hmem hs
  obtain ⟨p, hp, hbal⟩ : ∃ p, profile insns bs hist = some p ∧ p.Balanced :=
    profile_induct (fun _ p => p.Balanced) Profile.balanced_empty
      fun _ _ _ _ hbal _ hs => hbal.step hm hs
  exact ⟨bs, cov, p, h, hp, hbal⟩

end Starbug
