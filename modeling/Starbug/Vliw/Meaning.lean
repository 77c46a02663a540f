import Starbug.Vliw.Override

/-!
# When the override parser returns, and what an accepted override means

The loop of `ensureLaneExists` counts with an `unsigned` up to and including a lane number that
comes from the command line.

* `lanes_made_iff`    it makes the lanes up to every lane number but the greatest `unsigned`,
                      where it does not end; the parser returns exactly on the specs that do not
                      name that lane before they fail;
* `override_meant`    an accepted spec reads as a list of lanes with their tokens: a lane allows
                      what the tokens of the last piece naming it stand for, or its default.
-/

namespace Starbug.Vliw

/-! ## when lanes are made -/

theorem ensureLaneLoop_returns {laneId fuel : Nat} (i : Nat) (lanes : List LaneConfig)
    (hlane : laneId + 1 < 2 ^ 32) (hfuel : laneId + 1 - i < fuel) :
    ∃ lanes', ensureLaneLoop laneId fuel i lanes = some lanes'
      ∧ lanes'.length = lanes.length + (laneId + 1 - i) := by
  induction fuel generalizing i lanes with
  | zero => exact absurd hfuel (Nat.not_lt_zero _)
  | succ fuel ih =>
    rw [ensureLaneLoop]
    by_cases hle : i ≤ laneId
    · have hmod : (i + 1) % 2 ^ 32 = i + 1 := Nat.mod_eq_of_lt (by omega)
      rw [if_pos hle, hmod]
      obtain ⟨lanes', hloop, hlen⟩ :=
        ih (i + 1) (lanes ++ [if i = 0 then makeLane0 else makeALULane i]) (by omega)
      refine ⟨lanes', hloop, ?_⟩
      rw [hlen, List.length_append, List.length_singleton]
      omega
    · rw [if_neg hle]
      refine ⟨lanes, rfl, ?_⟩
      omega

theorem ensureLaneExists_returns {fuel laneId : Nat} {cfg : StarbugVLIWConfig}
    (hlt : cfg.lanes.length < 2 ^ 32) (hlane : laneId + 1 < 2 ^ 32) (hfuel : 2 ^ 32 ≤ fuel) :
    ∃ cfg', ensureLaneExists fuel cfg laneId = some cfg'
      ∧ cfg'.lanes.length = max cfg.lanes.length (laneId + 1) := by
  have hsteps : laneId + 1 - cfg.lanes.length < fuel := by omega
  obtain ⟨lanes', hloop, hlen⟩ := ensureLaneLoop_returns _ cfg.lanes hlane hsteps
  refine ⟨{ cfg with lanes := lanes' }, ?_, ?_⟩
  · rw [ensureLaneExists, Nat.mod_eq_of_lt hlt, hloop]
    rfl
  · show lanes'.length = _
    omega

/-- at the greatest `unsigned` no lane count helps: the counter wraps below the lane number -/
theorem ensureLaneExists_last (fuel : Nat) (cfg : StarbugVLIWConfig) :
    ensureLaneExists fuel cfg (2 ^ 32 - 1) = none := by
  rw [ensureLaneExists, ensureLaneLoop_last fuel (Nat.mod_lt _ (by decide))]
  rfl

/-! ## when the parser returns -/

/-- the edits of `specs` make lanes that the counter of `ensureLaneExists` can reach -/
def Reachable (specs : List (List Char)) : Prop := ∀ e ∈ edits specs, e.1 ≠ 2 ^ 32 - 1

instance (specs : List (List Char)) : Decidable (Reachable specs) :=
  inferInstanceAs (Decidable (∀ e ∈ edits specs, e.1 ≠ 2 ^ 32 - 1))

theorem segment_edit_last (fuel : Nat) (ok : Bool) (classes : ClassSet)
    (cfg : StarbugVLIWConfig) : (Segment.edit (2 ^ 32 - 1) ok classes).apply fuel cfg = none := by
  rw [Segment.apply, ensureLaneExists_last]
  rfl

theorem segment_edit_returns {fuel laneId : Nat} (ok : Bool) (classes : ClassSet)
    {cfg : StarbugVLIWConfig} (hlt : cfg.lanes.length < 2 ^ 32) (hlane : laneId + 1 < 2 ^ 32)
    (hfuel : 2 ^ 32 ≤ fuel) :
    ∃ cfg', (Segment.edit laneId ok classes).apply fuel cfg = some (ok, cfg')
      ∧ cfg'.lanes.length < 2 ^ 32 := by
  obtain ⟨cfg₁, hens, hlen⟩ := ensureLaneExists_returns hlt hlane hfuel
  have hin : laneId < cfg₁.lanes.length := by omega
  rw [Segment.apply, hens, Option.bind_some, List.getElem?_eq_getElem hin]
  refine ⟨_, rfl, ?_⟩
  show (cfg₁.lanes.set laneId ⟨laneId, classes⟩).length < 2 ^ 32
  rw [List.length_set]
  omega

theorem applyLaneSpecs_returns {specs : List (List Char)} {cfg : StarbugVLIWConfig}
    (hlt : cfg.lanes.length < 2 ^ 32) (hreach : Reachable specs) :
    ∃ r, applyLaneSpecs (2 ^ 32) specs cfg = some r := by
  induction specs generalizing cfg with
  | nil => exact ⟨_, rfl⟩
  | cons spec rest ih =>
    unfold Reachable at hreach
    rw [edits] at hreach
    rw [applyLaneSpecs, applyLaneSpec_eq]
    cases hseg : parseSegment spec with
    | blank =>
      rw [hseg] at hreach
      exact ih hlt hreach
    | bad => exact ⟨_, rfl⟩
    | edit laneId ok classes =>
      rw [hseg] at hreach
      have hne : laneId ≠ 2 ^ 32 - 1 := by
        cases ok with
        | true => exact hreach _ List.mem_cons_self
        | false => exact hreach _ List.mem_cons_self
      have hlane : laneId + 1 < 2 ^ 32 := by
        have hlt := parseSegment_lt hseg
        omega
      obtain ⟨cfg', happly, hlt'⟩ :=
        segment_edit_returns ok classes hlt hlane (Nat.le_refl (2 ^ 32))
      rw [happly]
      cases ok with
      | true => exact ih hlt' fun e he => hreach e (List.mem_cons_of_mem _ he)
      | false => exact ⟨_, rfl⟩

theorem segment_apply_ok {fuel laneId : Nat} {ok ok' : Bool} {classes : ClassSet}
    {cfg cfg' : StarbugVLIWConfig}
    (h : (Segment.edit laneId ok classes).apply fuel cfg = some (ok', cfg')) : ok' = ok := by
  obtain ⟨cfg₁, -, hmap⟩ := Option.bind_eq_some_iff.mp h
  obtain ⟨lane, -, heq⟩ := Option.map_eq_some_iff.mp hmap
  exact (Prod.mk.inj heq).1.symm

/-- with any fuel -/
theorem reachable_of_applyLaneSpecs {fuel : Nat} {specs : List (List Char)}
    {cfg : StarbugVLIWConfig} {r : Bool × StarbugVLIWConfig}
    (h : applyLaneSpecs fuel specs cfg = some r) : Reachable specs := by
  induction specs generalizing cfg with
  | nil => exact fun e he => absurd he List.not_mem_nil
  | cons spec rest ih =>
    unfold Reachable
    rw [applyLaneSpecs, applyLaneSpec_eq] at h
    rw [edits]
    cases hseg : parseSegment spec with
    | blank =>
      rw [hseg] at h
      exact ih h
    | bad => exact fun e he => absurd he List.not_mem_nil
    | edit laneId ok classes =>
      rw [hseg] at h
      have hne : laneId ≠ 2 ^ 32 - 1 := by
        intro hlast
        rw [hlast, segment_edit_last] at h
        cases h
      cases happly : (Segment.edit laneId ok classes).apply fuel cfg with
      | none =>
        rw [happly] at h
        cases h
      | some r₁ =>
        obtain ⟨ok₁, cfg₁⟩ := r₁
        obtain rfl := segment_apply_ok happly
        rw [happly] at h
        cases ok₁ with
        | true => exact List.forall_mem_cons.mpr ⟨hne, ih h⟩
        | false => exact List.forall_mem_cons.mpr ⟨hne, fun e he => absurd he List.not_mem_nil⟩

theorem applyLaneOpClassOverrides_returns_iff {cfg : StarbugVLIWConfig}
    (hlt : cfg.lanes.length < 2 ^ 32) (spec : List Char) :
    (∃ fuel r, applyLaneOpClassOverrides fuel cfg spec = some r)
      ↔ Reachable (splitAll ';' (trim spec)) := by
  unfold applyLaneOpClassOverrides
  by_cases hempty : trim spec = []
  · have hreach : Reachable (splitAll ';' (trim spec)) := by
      rw [hempty]
      decide
    simp only [if_pos hempty]
    exact iff_of_true ⟨0, _, rfl⟩ hreach
  simp only [if_neg hempty]
  constructor
  · rintro ⟨fuel, r, h⟩
    cases hspecs : applyLaneSpecs fuel (splitAll ';' (trim spec)) cfg with
    | none =>
      rw [hspecs] at h
      cases h
    | some r₁ => exact reachable_of_applyLaneSpecs hspecs
  · intro hreach
    obtain ⟨⟨ok, cfg'⟩, hspecs⟩ := applyLaneSpecs_returns hlt hreach
    refine ⟨2 ^ 32, ?_⟩
    rw [hspecs]
    cases ok with
    | true => exact ⟨_, rfl⟩
    | false => exact ⟨_, rfl⟩

/-- **The loop of `ensureLaneExists` makes the lanes up to every lane number that can be read,
whatever the lane count, exactly if it is not the greatest `unsigned`; and the parser returns
exactly on the specs that do not name this lane before they fail.** -/
theorem lanes_made_iff (opts : CommandLine) :
    (∀ (s : List Char) (laneId : Nat), getAsInteger s = some laneId →
      ∀ cfg : StarbugVLIWConfig, cfg.lanes.length < 2 ^ 32 →
        ((∃ fuel cfg', ensureLaneExists fuel cfg laneId = some cfg'
            ∧ cfg'.lanes.length = max cfg.lanes.length (laneId + 1)) ↔ laneId ≠ 2 ^ 32 - 1))
    ∧ ((∃ fuel r, applyLaneOpClassOverrides fuel (baseConfig opts) opts.laneOpClasses = some r)
        ↔ Reachable (splitAll ';' (trim opts.laneOpClasses))) := by
  refine ⟨fun s laneId hs cfg hlt => ?_, ?_⟩
  · have hlane := getAsInteger_lt hs
    constructor
    · rintro ⟨fuel, cfg', hens, -⟩ rfl
      rw [ensureLaneExists_last] at hens
      cases hens
    · intro hne
      exact ⟨2 ^ 32, ensureLaneExists_returns hlt (by omega) (Nat.le_refl _)⟩
  · apply applyLaneOpClassOverrides_returns_iff
    rw [baseConfig_length]
    exact baseConfig_numLanes_lt opts

/-- four lanes become eight -/
theorem lanes_made_iff_eight :
    (∃ fuel cfg, ensureLaneExists fuel getDefault 7 = some cfg ∧ cfg.lanes.length = 8)
      ∧ ∃ fuel r, applyLaneOpClassOverrides fuel
        (baseConfig { laneOpClasses := "7:alu".toList }) "7:alu".toList = some r := by
  obtain ⟨hloop, hparser⟩ := lanes_made_iff { laneOpClasses := "7:alu".toList }
  refine ⟨?_, hparser.mpr (by decide)⟩
  exact (hloop "7".toList 7 (by decide) getDefault (by decide)).mpr (by decide)

/-- the greatest `unsigned` is read, and then the parser does not return -/
theorem greatest_lane_never_made :
    getAsInteger "4294967295".toList = some 4294967295
      ∧ (∀ fuel cfg, ensureLaneExists fuel cfg 4294967295 = none)
      ∧ ¬ ∃ fuel r, applyLaneOpClassOverrides fuel
        (baseConfig { laneOpClasses := "4294967295:any".toList }) "4294967295:any".toList
          = some r := by
  refine ⟨by decide, ensureLaneExists_last, fun h => ?_⟩
  have hlt : (baseConfig { laneOpClasses := "4294967295:any".toList }).lanes.length < 2 ^ 32 := by
    decide
  have hreach := (applyLaneOpClassOverrides_returns_iff hlt _).mp h
  exact absurd hreach (by decide)

/-! ## what tokens stand for -/

/-- `c` may issue in a lane with the classes `s` -/
def ClassSet.allows (s : ClassSet) (c : OpClass) : Bool := s.test .any || s.test c

/-- the names of the op classes, and the classes each name stands for -/
def vocabulary : List (List String × (OpClass → Bool)) :=
  [(["any", "all"], fun _ => true),
    (["alu", "int"], OpClass.isALU),
    (["alu_addsub", "addsub", "add", "sub"], (· == .aluAddSub)),
    (["alu_muldiv", "muldiv", "mul", "div"], (· == .aluMulDiv)),
    (["alu_shift", "shift", "sh"], (· == .aluShift)),
    (["load", "ld"], (· == .load)),
    (["store", "st"], (· == .store)),
    (["branch", "br"], (· == .branch)),
    (["compare", "cmp"], (· == .compare)),
    (["move", "mv", "li", "copy"], (· == .move)),
    (["csr"], (· == .csr))]

/-- the word `key` stands for class `c` -/
def keyDenotes (key : List Char) (c : OpClass) : Bool :=
  vocabulary.any fun e => (e.1.map String.toList).contains key && e.2 c

/-- `token` stands for class `c`, in upper or lower case and with blanks around it -/
def denotes (token : List Char) (c : OpClass) : Bool := keyDenotes ((trim token).map Char.toLower) c

theorem keyDenotes_of_mem (c : OpClass) : ∀ e ∈ vocabulary, ∀ key ∈ e.1.map String.toList,
    keyDenotes key c = e.2 c := by
  cases c <;> decide

theorem keyDenotes_nil (c : OpClass) : keyDenotes [] c = false := by
  cases c <;> decide

theorem OpClass.toNat_inj {c c' : OpClass} : c.toNat = c'.toNat ↔ c = c' := by
  cases c <;> cases c' <;> decide

theorem OpClass.toNat_lt (c : OpClass) : c.toNat < OpClass.last := by
  cases c <;> decide

theorem ClassSet.test_set (s : ClassSet) (c c' : OpClass) :
    (s.set c).test c' = (s.test c' || c' == c) := by
  unfold ClassSet.set ClassSet.test
  rw [BitVec.getLsbD_or, BitVec.getLsbD_twoPow, decide_eq_true c.toNat_lt, Bool.true_and]
  apply congrArg
  rw [Bool.eq_iff_iff, decide_eq_true_iff, OpClass.toNat_inj, beq_iff_eq, eq_comm]

theorem ClassSet.allows_set (s : ClassSet) {c : OpClass} (hc : c ≠ .any) (c' : OpClass) :
    (s.set c).allows c' = (s.allows c' || c' == c) := by
  unfold ClassSet.allows
  rw [ClassSet.test_set, ClassSet.test_set, beq_eq_false_iff_ne.mpr (Ne.symm hc), Bool.or_false,
    Bool.or_assoc]

theorem ClassSet.allows_setALU (s : ClassSet) (c : OpClass) :
    s.setALU.allows c = (s.allows c || c.isALU) := by
  have hALU : c.isALU = (c == .aluAddSub || c == .aluMulDiv || c == .aluShift) := by
    cases c <;> rfl
  unfold ClassSet.setALU
  rw [ClassSet.allows_set _ (by decide), ClassSet.allows_set _ (by decide),
    ClassSet.allows_set _ (by decide), hALU, Bool.or_assoc, Bool.or_assoc, Bool.or_assoc]

/-- a known token adds what it stands for -/
theorem applyClassToken_allows {token : List Char} {allowed allowed' : ClassSet}
    (h : applyClassToken token allowed = some allowed') (c : OpClass) :
    allowed'.allows c = (allowed.allows c || denotes token c) := by
  have hentry : ∀ (k : Nat) (hk : k < vocabulary.length),
      (trim token).map Char.toLower ∈ vocabulary[k].1.map String.toList →
      denotes token c = vocabulary[k].2 c :=
    fun k hk hkey => keyDenotes_of_mem c _ (List.getElem_mem hk) _ hkey
  -- the classes other than `any` are set one by one
  have hone : ∀ c' : OpClass, c' ≠ .any → denotes token c = (c == c') →
      some (allowed.set c') = some allowed' →
      allowed'.allows c = (allowed.allows c || denotes token c) := by
    intro c' hc' hd hset
    rw [← Option.some.inj hset, hd, ClassSet.allows_set _ hc']
  unfold applyClassToken at h
  rcases ite_eq_iff.mp h with ⟨h0, h⟩ | ⟨-, h⟩
  · have hd : denotes token c = false := by
      unfold denotes
      rw [h0]
      exact keyDenotes_nil c
    rw [← Option.some.inj h, hd, Bool.or_false]
  rcases ite_eq_iff.mp h with ⟨hkey, h⟩ | ⟨-, h⟩
  · have hd : denotes token c = true := hentry 0 (by decide) hkey
    rw [← Option.some.inj h, hd, Bool.or_true, ClassSet.allows, ClassSet.test_set]
    simp
  rcases ite_eq_iff.mp h with ⟨hkey, h⟩ | ⟨-, h⟩
  · have hd : denotes token c = c.isALU := hentry 1 (by decide) hkey
    rw [← Option.some.inj h, hd, ClassSet.allows_setALU]
  rcases ite_eq_iff.mp h with ⟨hkey, h⟩ | ⟨-, h⟩
  · exact hone _ (by decide) (hentry 2 (by decide) hkey) h
  rcases ite_eq_iff.mp h with ⟨hkey, h⟩ | ⟨-, h⟩
  · exact hone _ (by decide) (hentry 3 (by decide) hkey) h
  rcases ite_eq_iff.mp h with ⟨hkey, h⟩ | ⟨-, h⟩
  · exact hone _ (by decide) (hentry 4 (by decide) hkey) h
  rcases ite_eq_iff.mp h with ⟨hkey, h⟩ | ⟨-, h⟩
  · exact hone _ (by decide) (hentry 5 (by decide) hkey) h
  rcases ite_eq_iff.mp h with ⟨hkey, h⟩ | ⟨-, h⟩
  · exact hone _ (by decide) (hentry 6 (by decide) hkey) h
  rcases ite_eq_iff.mp h with ⟨hkey, h⟩ | ⟨-, h⟩
  · exact hone _ (by decide) (hentry 7 (by decide) hkey) h
  rcases ite_eq_iff.mp h with ⟨hkey, h⟩ | ⟨-, h⟩
  · exact hone _ (by decide) (hentry 8 (by decide) hkey) h
  rcases ite_eq_iff.mp h with ⟨hkey, h⟩ | ⟨-, h⟩
  · exact hone _ (by decide) (hentry 9 (by decide) hkey) h
  rcases ite_eq_iff.mp h with ⟨hkey, h⟩ | ⟨-, h⟩
  · exact hone _ (by decide) (hentry 10 (by decide) (List.mem_singleton.mpr hkey)) h
  · cases h

theorem applyClassTokens_allows {tokens : List (List Char)} {allowed allowed' : ClassSet}
    (h : applyClassTokens tokens allowed = (true, allowed')) (c : OpClass) :
    allowed'.allows c = (allowed.allows c || tokens.any fun t => denotes t c) := by
  induction tokens generalizing allowed with
  | nil =>
    obtain ⟨-, rfl⟩ := Prod.mk.inj h
    exact (Bool.or_false _).symm
  | cons token rest ih =>
    rw [applyClassTokens] at h
    cases htoken : applyClassToken token allowed with
    | none =>
      rw [htoken] at h
      cases h
    | some allowed₁ =>
      rw [htoken] at h
      rw [ih h, applyClassToken_allows htoken, List.any_cons, Bool.or_assoc]

/-! ## reading a spec -/

/-- the lane that a `lane:classes` piece names, and its tokens -/
def readPiece (piece : List Char) : Option (Nat × List (List Char)) :=
  let pair := splitFirst ':' (trim piece)
  (getAsInteger (trim pair.1)).map fun laneId => (laneId, splitAll ',' (trim pair.2))

/-- the pieces of a spec, blank ones left out -/
def reading (spec : List Char) : List (Nat × List (List Char)) :=
  (splitAll ';' (trim spec)).filterMap readPiece

/-- `cfg` is what `spec` says, starting from `n` lanes -/
structure Meant (n : Nat) (spec : List Char) (cfg : StarbugVLIWConfig) : Prop where
  size : cfg.lanes.length = cfg.numLanes
  numLanes : cfg.numLanes = (reading spec).foldl (fun m r => max m (r.1 + 1)) n
  laneId : ∀ (i : Nat) (l : LaneConfig), cfg.lanes[i]? = some l → l.laneId = i
  named : ∀ before i tokens after, reading spec = before ++ (i, tokens) :: after →
    (∀ r ∈ after, r.1 ≠ i) → ∀ c, cfg.isLaneLegal i c = tokens.any fun t => denotes t c
  unnamed : ∀ i < cfg.numLanes, (∀ r ∈ reading spec, r.1 ≠ i) →
    ∀ c, cfg.isLaneLegal i c = (i == 0 || c.isALU)

/-- the edit `e` is what the piece `r` says -/
structure Reads (e : Nat × ClassSet) (r : Nat × List (List Char)) : Prop where
  laneId : e.1 = r.1
  allows : ∀ c, e.2.allows c = r.2.any fun t => denotes t c

theorem readPiece_of_blank {piece : List Char} (h : parseSegment piece = .blank) :
    readPiece piece = none := by
  have htrim : trim piece = [] := by
    unfold parseSegment at h
    simp only at h
    split_ifs at h with h0
    · exact h0
    · cases hi : getAsInteger (trim (splitFirst ':' (trim piece)).1) with
      | none =>
        rw [hi] at h
        cases h
      | some laneId =>
        rw [hi] at h
        cases h
  unfold readPiece
  rw [htrim]
  rfl

theorem readPiece_of_edit {piece : List Char} {laneId : Nat} {classes : ClassSet}
    (h : parseSegment piece = .edit laneId true classes) :
    ∃ tokens, readPiece piece = some (laneId, tokens)
      ∧ Reads (laneId, classes) (laneId, tokens) := by
  unfold parseSegment at h
  simp only at h
  split_ifs at h
  unfold readPiece
  simp only
  cases hi : getAsInteger (trim (splitFirst ':' (trim piece)).1) with
  | none =>
    rw [hi] at h
    cases h
  | some v =>
    rw [hi] at h
    obtain ⟨rfl, hok, hclasses⟩ := Segment.edit.inj h
    refine ⟨_, rfl, rfl, fun c => ?_⟩
    have hrun : applyClassTokens (splitAll ',' (trim (splitFirst ':' (trim piece)).2)) 0
        = (true, classes) := Prod.ext hok hclasses
    have hnone : ClassSet.allows 0 c = false := by
      cases c <;> decide
    rw [applyClassTokens_allows hrun, hnone, Bool.false_or]

/-- the edits of a spec that is accepted are its pieces -/
theorem edits_reads {fuel : Nat} {specs : List (List Char)} {cfg cfg' : StarbugVLIWConfig}
    (h : applyLaneSpecs fuel specs cfg = some (true, cfg')) :
    List.Forall₂ Reads (edits specs) (specs.filterMap readPiece) := by
  induction specs generalizing cfg with
  | nil => exact List.Forall₂.nil
  | cons spec rest ih =>
    rw [applyLaneSpecs, applyLaneSpec_eq] at h
    rw [edits, List.filterMap_cons]
    cases hseg : parseSegment spec with
    | blank =>
      rw [hseg] at h
      rw [readPiece_of_blank hseg]
      exact ih h
    | bad =>
      rw [hseg] at h
      cases h
    | edit laneId ok classes =>
      rw [hseg] at h
      cases happly : (Segment.edit laneId ok classes).apply fuel cfg with
      | none =>
        rw [happly] at h
        cases h
      | some r =>
        obtain ⟨ok₁, cfg₁⟩ := r
        obtain rfl := segment_apply_ok happly
        rw [happly] at h
        cases ok₁ with
        | false => cases h
        | true =>
          obtain ⟨tokens, hpiece, hreads⟩ := readPiece_of_edit hseg
          rw [hpiece]
          exact List.Forall₂.cons hreads (ih h)

/-! ## the lanes that are left -/

/-- the lanes are numbered, and lane `i` has the classes `f i`, also where it is not made yet -/
structure Numbered (lanes : List LaneConfig) (f : Nat → ClassSet) : Prop where
  pos : 0 < lanes.length
  get : ∀ i < lanes.length, lanes[i]? = some ⟨i, f i⟩
  unmade : ∀ i, lanes.length ≤ i → f i = defaultClasses i

theorem numbered_baseConfig (opts : CommandLine) :
    Numbered (baseConfig opts).lanes defaultClasses := by
  have hlen := baseConfig_length opts
  refine ⟨by omega, fun i hi => baseConfig_lanes opts (hlen ▸ hi), fun i _ => rfl⟩

theorem Numbered.extendTo {lanes : List LaneConfig} {f : Nat → ClassSet} (h : Numbered lanes f)
    (laneId : Nat) : Numbered (extendTo lanes laneId) f := by
  have hlen := length_extendTo lanes laneId
  have hpos := h.pos
  refine ⟨by omega, fun i hi => ?_, fun i hi => h.unmade i (by omega)⟩
  unfold Vliw.extendTo
  by_cases hold : i < lanes.length
  · rw [List.getElem?_append_left hold]
    exact h.get i hold
  · have hsub : i - lanes.length < laneId + 1 - lanes.length := by omega
    have hi' : lanes.length + 1 * (i - lanes.length) = i := by omega
    have hne : i ≠ 0 := by omega
    rw [List.getElem?_append_right (Nat.not_lt.mp hold), List.getElem?_map,
      List.getElem?_range' hsub, hi', h.unmade i (Nat.not_lt.mp hold), defaultClasses, if_neg hne]
    rfl

theorem Numbered.applyEdit {lanes : List LaneConfig} {f : Nat → ClassSet} (h : Numbered lanes f)
    (e : Nat × ClassSet) :
    Numbered (applyEdit lanes e) fun i => if e.1 = i then e.2 else f i := by
  have hext := h.extendTo e.1
  have hlen := length_extendTo lanes e.1
  have hset : (Vliw.applyEdit lanes e).length = (Vliw.extendTo lanes e.1).length :=
    List.length_set
  refine ⟨hset ▸ hext.pos, fun i hi => ?_, fun i hi => ?_⟩
  · rw [hset] at hi
    rw [Vliw.applyEdit, List.getElem?_set]
    by_cases he : e.1 = i
    · subst he
      rw [if_pos rfl, if_pos hi, if_pos rfl]
    · rw [if_neg he, if_neg he]
      exact hext.get i hi
  · have hne : e.1 ≠ i := by omega
    rw [if_neg hne]
    exact hext.unmade i (hset ▸ hi)

theorem Numbered.foldl {lanes : List LaneConfig} {f : Nat → ClassSet} (h : Numbered lanes f)
    (es : List (Nat × ClassSet)) :
    Numbered (es.foldl Vliw.applyEdit lanes) fun i => (lastEdit es i).getD (f i) := by
  induction es generalizing lanes f with
  | nil => exact h
  | cons e es ih =>
    have hlast : (fun i => (lastEdit (e :: es) i).getD (f i))
        = fun i => (lastEdit es i).getD (if e.1 = i then e.2 else f i) := by
      funext i
      rw [lastEdit]
      cases lastEdit es i with
      | some s => rfl
      | none =>
        by_cases he : e.1 = i
        · rw [if_pos he, if_pos he]
          rfl
        · rw [if_neg he, if_neg he]
          rfl
    rw [List.foldl_cons, hlast]
    exact ih (h.applyEdit e)

theorem length_foldl_applyEdit (es : List (Nat × ClassSet)) (lanes : List LaneConfig) :
    (es.foldl applyEdit lanes).length = es.foldl (fun m e => max m (e.1 + 1)) lanes.length := by
  induction es generalizing lanes with
  | nil => rfl
  | cons e es ih => rw [List.foldl_cons, ih, length_applyEdit, List.foldl_cons]

theorem lastEdit_append_cons {a b : List (Nat × ClassSet)} {e : Nat × ClassSet}
    (h : ∀ e' ∈ b, e'.1 ≠ e.1) : lastEdit (a ++ e :: b) e.1 = some e.2 := by
  induction a with
  | nil =>
    show (lastEdit b e.1).or _ = _
    rw [lastEdit_eq_none.mpr h, if_pos rfl]
    rfl
  | cons x a ih =>
    show (lastEdit (a ++ e :: b) e.1).or _ = _
    rw [ih]
    rfl

theorem Numbered.isLaneLegal {cfg : StarbugVLIWConfig} {f : Nat → ClassSet}
    (h : Numbered cfg.lanes f) {i : Nat} (hi : i < cfg.lanes.length) (c : OpClass) :
    cfg.isLaneLegal i c = (f i).allows c := by
  unfold StarbugVLIWConfig.isLaneLegal
  rw [h.get i hi]
  rfl

theorem allows_defaultClasses (i : Nat) (c : OpClass) :
    (defaultClasses i).allows c = (i == 0 || c.isALU) := by
  cases i with
  | zero => cases c <;> rfl
  | succ j =>
    show ((makeALULane (j + 1)).allowedClasses.test .any
      || (makeALULane (j + 1)).allowedClasses.test c) = _
    rw [makeALULane_test, makeALULane_test]
    rfl

/-! ## an accepted spec -/

theorem map_fst_of_reads {es : List (Nat × ClassSet)} {rs : List (Nat × List (List Char))}
    (h : List.Forall₂ Reads es rs) : es.map Prod.fst = rs.map Prod.fst := by
  induction h with
  | nil => rfl
  | cons hr _ ih => rw [List.map_cons, List.map_cons, hr.laneId, ih]

/-- every edit has a piece that names its lane -/
theorem exists_read {es : List (Nat × ClassSet)} {rs : List (Nat × List (List Char))}
    (h : List.Forall₂ Reads es rs) {e : Nat × ClassSet} (he : e ∈ es) : ∃ r ∈ rs, r.1 = e.1 := by
  have hmem := List.mem_map_of_mem (f := Prod.fst) he
  rw [map_fst_of_reads h] at hmem
  exact List.mem_map.mp hmem

/-- what an accepted spec makes of the configuration -/
theorem accepted_config {fuel : Nat} {opts : CommandLine} {cfg : StarbugVLIWConfig}
    (h : applyLaneOpClassOverrides fuel (baseConfig opts) opts.laneOpClasses = some (true, cfg)) :
    ∃ es, List.Forall₂ Reads es (reading opts.laneOpClasses)
      ∧ cfg.lanes = es.foldl applyEdit (baseConfig opts).lanes
      ∧ cfg.numLanes = max (baseConfig opts).numLanes cfg.lanes.length := by
  have hlen : (baseConfig opts).lanes.length = (baseConfig opts).numLanes := baseConfig_length opts
  have hpos : 0 < (baseConfig opts).lanes.length := (numbered_baseConfig opts).pos
  unfold applyLaneOpClassOverrides at h
  rcases ite_eq_iff.mp h with ⟨hempty, h⟩ | ⟨-, h⟩
  · obtain ⟨-, rfl⟩ := Prod.mk.inj (Option.some.inj h)
    have hnone : reading opts.laneOpClasses = [] := by
      unfold reading
      rw [hempty]
      rfl
    rw [hnone, hlen, Nat.max_self]
    exact ⟨[], List.Forall₂.nil, rfl, rfl⟩
  · cases hspecs : applyLaneSpecs fuel (splitAll ';' (trim opts.laneOpClasses))
        (baseConfig opts) with
    | none =>
      rw [hspecs] at h
      cases h
    | some r =>
      obtain ⟨ok, cfg'⟩ := r
      rw [hspecs] at h
      cases ok with
      | false => cases h
      | true =>
        obtain ⟨-, rfl⟩ := Prod.mk.inj (Option.some.inj h)
        obtain ⟨heq, hlt⟩ := applyLaneSpecs_eq hspecs hpos (hlen ▸ baseConfig_numLanes_lt opts)
        refine ⟨_, edits_reads hspecs, congrArg StarbugVLIWConfig.lanes heq, ?_⟩
        show max cfg'.numLanes (cfg'.lanes.length % 2 ^ 32) = max _ cfg'.lanes.length
        rw [Nat.mod_eq_of_lt hlt, congrArg StarbugVLIWConfig.numLanes heq]

/-- **An accepted override means what its pieces say: the lanes are as many as at the start and as
are named, numbered by position; a lane allows what the tokens of the last piece naming it stand
for, and everything or the three ALU classes where no piece names it.** -/
theorem override_meant {fuel : Nat} {opts : CommandLine} {cfg : StarbugVLIWConfig}
    (h : applyLaneOpClassOverrides fuel (baseConfig opts) opts.laneOpClasses = some (true, cfg)) :
    Meant (baseConfig opts).numLanes opts.laneOpClasses cfg := by
  obtain ⟨es, hreads, hlanes, hnum⟩ := accepted_config h
  have hbase : (baseConfig opts).lanes.length = (baseConfig opts).numLanes := baseConfig_length opts
  have hall : Numbered cfg.lanes fun i => (lastEdit es i).getD (defaultClasses i) :=
    hlanes ▸ (numbered_baseConfig opts).foldl es
  have hgrow := lt_length_foldl es (baseConfig opts).lanes
  rw [← hlanes] at hgrow
  have hsize : cfg.lanes.length = cfg.numLanes := by
    rw [hnum]
    omega
  constructor
  case size => exact hsize
  case numLanes =>
    rw [← hsize, hlanes, length_foldl_applyEdit, hbase,
      ← List.foldl_map (f := Prod.fst) (g := fun m i => max m (i + 1)),
      map_fst_of_reads hreads, List.foldl_map]
  case laneId =>
    intro i l hl
    obtain ⟨hi, -⟩ := List.getElem?_eq_some_iff.mp hl
    rw [hall.get i hi] at hl
    rw [← Option.some.inj hl]
  case named =>
    intro before i tokens after hr hlast c
    rw [hr] at hreads
    obtain ⟨e, ea, he, hea, hdrop⟩ :=
      List.forall₂_cons_right_iff.mp (List.forall₂_drop_append es before _ hreads)
    have hes : es = es.take before.length ++ e :: ea := by
      rw [← hdrop, List.take_append_drop]
    have hrest : ∀ e' ∈ ea, e'.1 ≠ e.1 := by
      intro e' he'
      obtain ⟨r, hr, heq⟩ := exists_read hea he'
      rw [← heq, he.laneId]
      exact hlast r hr
    have hi : i = e.1 := he.laneId.symm
    have hin : e.1 < cfg.lanes.length := by
      apply hgrow.2 e
      rw [hes]
      exact List.mem_append_right _ List.mem_cons_self
    rw [hi, hall.isLaneLegal hin, ← he.allows c, hes, lastEdit_append_cons hrest]
    rfl
  case unnamed =>
    intro i hi hno c
    have hnone : lastEdit es i = none := by
      apply lastEdit_eq_none.mpr
      intro e he
      obtain ⟨r, hr, heq⟩ := exists_read hreads he
      rw [← heq]
      exact hno r hr
    rw [hall.isLaneLegal (hsize ▸ hi), hnone]
    exact allows_defaultClasses i c

/-- the second piece for lane 2 counts -/
theorem override_meant_twice : Meant 4 "2:any; 2: LOAD ,sh".toList
    { getDefault with lanes := [makeLane0, makeALULane 1,
        ⟨2, ((0 : ClassSet).set .load).set .aluShift⟩, makeALULane 3] } := by
  have h : applyLaneOpClassOverrides 10 (baseConfig { laneOpClasses := "2:any; 2: LOAD ,sh".toList })
      "2:any; 2: LOAD ,sh".toList = some (true, { getDefault with lanes := [makeLane0,
        makeALULane 1, ⟨2, ((0 : ClassSet).set .load).set .aluShift⟩, makeALULane 3] }) := by
    decide
  exact override_meant h

end Starbug.Vliw
