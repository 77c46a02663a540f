import Starbug.Vliw.Config

/-!
# What an override that is given up on leaves behind

The parser of `-starbug-vliw-lane-op-classes` edits the lanes while it reads, and stops at the
first piece it cannot read.  `edits` lists, from the text of the spec alone, the lanes that were
edited until then, each with the classes it was given; the piece that fails is among them when it
fails in its list of classes.

* `applyLaneSpecs_eq`      the lanes the parser leaves are the edits, one after the other;
* `ignored_override_iff`   an override that is ignored leaves the configuration of the empty spec
                           exactly if every lane it edited exists and was last given the classes
                           it had.
-/

namespace Starbug.Vliw

/-! ## reading without editing -/

/-- what one `lane:classes` piece asks for; `ok` is `false` where its classes stop at an unknown
token -/
inductive Segment where
  | blank
  | bad
  | edit (laneId : Nat) (ok : Bool) (classes : ClassSet)
  deriving DecidableEq

def parseSegment (laneSpec : List Char) : Segment :=
  let laneSpec := trim laneSpec
  if laneSpec = [] then .blank
  else
    let pair := splitFirst ':' laneSpec
    let laneIdStr := trim pair.1
    let classesStr := trim pair.2
    if laneIdStr = [] ∨ classesStr = [] then .bad
    else
      match getAsInteger laneIdStr with
      | none => .bad
      | some laneId =>
        let r := applyClassTokens (splitAll ',' classesStr) 0
        .edit laneId r.1 r.2

/-- the edits up to the first piece that fails -/
def edits : List (List Char) → List (Nat × ClassSet)
  | [] => []
  | laneSpec :: rest =>
    match parseSegment laneSpec with
    | .blank => edits rest
    | .bad => []
    | .edit laneId true classes => (laneId, classes) :: edits rest
    | .edit laneId false classes => [(laneId, classes)]

/-- the classes a lane was given last -/
def lastEdit : List (Nat × ClassSet) → Nat → Option ClassSet
  | [], _ => none
  | e :: rest, laneId => (lastEdit rest laneId).or (if e.1 = laneId then some e.2 else none)

/-- the classes of a lane without an override -/
def defaultClasses (laneId : Nat) : ClassSet :=
  if laneId = 0 then makeLane0.allowedClasses else (makeALULane laneId).allowedClasses

/-- every lane that the spec of `opts` edits before it is given up on exists, and was last given
the classes it had -/
def LeavesNoTrace (opts : CommandLine) : Prop :=
  ∀ e ∈ edits (splitAll ';' (trim opts.laneOpClasses)),
    e.1 < max 1 opts.lanes
      ∧ lastEdit (edits (splitAll ';' (trim opts.laneOpClasses))) e.1 = some (defaultClasses e.1)

instance (opts : CommandLine) : Decidable (LeavesNoTrace opts) :=
  inferInstanceAs (Decidable (∀ e ∈ edits (splitAll ';' (trim opts.laneOpClasses)),
    e.1 < max 1 opts.lanes
      ∧ lastEdit (edits (splitAll ';' (trim opts.laneOpClasses))) e.1
        = some (defaultClasses e.1)))

/-! ## one piece -/

def Segment.apply (fuel : Nat) (cfg : StarbugVLIWConfig) :
    Segment → Option (Bool × StarbugVLIWConfig)
  | .blank => some (true, cfg)
  | .bad => some (false, cfg)
  | .edit laneId ok classes =>
    (ensureLaneExists fuel cfg laneId).bind fun cfg =>
      cfg.lanes[laneId]?.map fun _ =>
        (ok, { cfg with lanes := cfg.lanes.set laneId ⟨laneId, classes⟩ })

theorem applyLaneSpec_eq (fuel : Nat) (cfg : StarbugVLIWConfig) (laneSpec : List Char) :
    applyLaneSpec fuel cfg laneSpec = (parseSegment laneSpec).apply fuel cfg := by
  unfold applyLaneSpec parseSegment
  simp only
  split_ifs with h1 h2
  · rfl
  · rfl
  · cases getAsInteger (trim (splitFirst ':' (trim laneSpec)).1) with
    | none => rfl
    | some laneId =>
      simp only [Segment.apply]
      cases ensureLaneExists fuel cfg laneId with
      | none => rfl
      | some cfg' =>
        simp only [Option.bind_some]
        cases cfg'.lanes[laneId]? with
        | none => rfl
        | some lane => rfl

theorem getAsInteger_lt {s : List Char} {v : Nat} (h : getAsInteger s = some v) : v < 2 ^ 32 := by
  unfold getAsInteger at h
  simp only at h
  split_ifs at h with h1 h2
  exact Option.some.inj h ▸ h2

theorem parseSegment_lt {laneSpec : List Char} {laneId : Nat} {ok : Bool} {classes : ClassSet}
    (h : parseSegment laneSpec = .edit laneId ok classes) : laneId < 2 ^ 32 := by
  unfold parseSegment at h
  simp only at h
  split_ifs at h
  cases hi : getAsInteger (trim (splitFirst ':' (trim laneSpec)).1) with
  | none =>
    rw [hi] at h
    cases h
  | some v =>
    rw [hi] at h
    obtain ⟨rfl, -, -⟩ := Segment.edit.inj h
    exact getAsInteger_lt hi

/-! ## making lanes -/

/-- the lanes, with those up to `laneId` made -/
def extendTo (lanes : List LaneConfig) (laneId : Nat) : List LaneConfig :=
  lanes ++ (List.range' lanes.length (laneId + 1 - lanes.length)).map makeALULane

theorem length_extendTo (lanes : List LaneConfig) (laneId : Nat) :
    (extendTo lanes laneId).length = max lanes.length (laneId + 1) := by
  unfold extendTo
  rw [List.length_append, List.length_map, List.length_range']
  omega

theorem extendTo_of_lt {lanes : List LaneConfig} {laneId : Nat} (h : laneId < lanes.length) :
    extendTo lanes laneId = lanes := by
  unfold extendTo
  rw [Nat.sub_eq_zero_of_le h, List.range'_zero, List.map_nil, List.append_nil]

/-- below the greatest `unsigned` the counter wraps, and the loop does not end -/
theorem ensureLaneLoop_last (fuel : Nat) {i : Nat} (hi : i < 2 ^ 32) (lanes : List LaneConfig) :
    ensureLaneLoop (2 ^ 32 - 1) fuel i lanes = none := by
  induction fuel generalizing i lanes with
  | zero => rfl
  | succ fuel ih =>
    have hle : i ≤ 2 ^ 32 - 1 := by omega
    rw [ensureLaneLoop, if_pos hle]
    exact ih (Nat.mod_lt _ (by decide)) _

theorem ensureLaneLoop_eq {laneId fuel i : Nat} {lanes lanes' : List LaneConfig}
    (h : ensureLaneLoop laneId fuel i lanes = some lanes') (hpos : 0 < i) (hi : i < 2 ^ 32)
    (hlane : laneId < 2 ^ 32) :
    lanes' = lanes ++ (List.range' i (laneId + 1 - i)).map makeALULane
      ∧ laneId + 1 < 2 ^ 32 := by
  have hlast : laneId ≠ 2 ^ 32 - 1 := by
    rintro rfl
    rw [ensureLaneLoop_last fuel hi] at h
    cases h
  refine ⟨?_, by omega⟩
  induction fuel generalizing i lanes with
  | zero => cases h
  | succ fuel ih =>
    rw [ensureLaneLoop] at h
    split_ifs at h with hle h0
    · omega
    · have hmod : (i + 1) % 2 ^ 32 = i + 1 := Nat.mod_eq_of_lt (by omega)
      have hcount : laneId + 1 - i = laneId + 1 - (i + 1) + 1 := by omega
      rw [hmod] at h
      rw [ih h (Nat.succ_pos i) (by omega), hcount, List.range'_succ, List.map_cons,
        List.append_assoc]
      rfl
    · have hcount : laneId + 1 - i = 0 := by omega
      rw [hcount, List.range'_zero, List.map_nil, List.append_nil]
      exact (Option.some.inj h).symm

theorem ensureLaneExists_eq {fuel laneId : Nat} {cfg cfg' : StarbugVLIWConfig}
    (h : ensureLaneExists fuel cfg laneId = some cfg') (hpos : 0 < cfg.lanes.length)
    (hlt : cfg.lanes.length < 2 ^ 32) (hlane : laneId < 2 ^ 32) :
    cfg' = { cfg with lanes := extendTo cfg.lanes laneId }
      ∧ (extendTo cfg.lanes laneId).length < 2 ^ 32 := by
  obtain ⟨lanes, hloop, rfl⟩ := Option.map_eq_some_iff.mp h
  rw [Nat.mod_eq_of_lt hlt] at hloop
  obtain ⟨rfl, hsucc⟩ := ensureLaneLoop_eq hloop hpos hlt hlane
  refine ⟨rfl, ?_⟩
  rw [length_extendTo]
  exact Nat.max_lt.mpr ⟨hlt, hsucc⟩

/-! ## all pieces -/

def applyEdit (lanes : List LaneConfig) (e : Nat × ClassSet) : List LaneConfig :=
  (extendTo lanes e.1).set e.1 ⟨e.1, e.2⟩

theorem length_applyEdit (lanes : List LaneConfig) (e : Nat × ClassSet) :
    (applyEdit lanes e).length = max lanes.length (e.1 + 1) := by
  rw [applyEdit, List.length_set, length_extendTo]

/-- the lanes stay at least one and below `2^32` -/
theorem segment_edit {fuel laneId : Nat} {ok ok' : Bool} {classes : ClassSet}
    {cfg cfg' : StarbugVLIWConfig} (hpos : 0 < cfg.lanes.length) (hlt : cfg.lanes.length < 2 ^ 32)
    (hlane : laneId < 2 ^ 32)
    (h : (Segment.edit laneId ok classes).apply fuel cfg = some (ok', cfg')) :
    ok' = ok ∧ cfg' = { cfg with lanes := applyEdit cfg.lanes (laneId, classes) }
      ∧ 0 < cfg'.lanes.length ∧ cfg'.lanes.length < 2 ^ 32 := by
  obtain ⟨cfg₁, hens, h⟩ := Option.bind_eq_some_iff.mp h
  obtain ⟨rfl, hlen⟩ := ensureLaneExists_eq hens hpos hlt hlane
  obtain ⟨lane, -, h⟩ := Option.map_eq_some_iff.mp h
  obtain ⟨rfl, rfl⟩ := Prod.mk.inj h
  have hset : (applyEdit cfg.lanes (laneId, classes)).length = max cfg.lanes.length (laneId + 1) :=
    length_applyEdit _ _
  rw [length_extendTo] at hlen
  refine ⟨rfl, rfl, ?_, ?_⟩
  · show 0 < (applyEdit cfg.lanes (laneId, classes)).length
    omega
  · show (applyEdit cfg.lanes (laneId, classes)).length < 2 ^ 32
    rwa [hset]

/-- **The parser leaves the lanes as the edits make them, whether it fails or not.** -/
theorem applyLaneSpecs_eq {fuel : Nat} {specs : List (List Char)} {cfg cfg' : StarbugVLIWConfig}
    {ok : Bool} (h : applyLaneSpecs fuel specs cfg = some (ok, cfg'))
    (hpos : 0 < cfg.lanes.length) (hlt : cfg.lanes.length < 2 ^ 32) :
    cfg' = { cfg with lanes := (edits specs).foldl applyEdit cfg.lanes }
      ∧ cfg'.lanes.length < 2 ^ 32 := by
  induction specs generalizing cfg with
  | nil =>
    obtain ⟨-, rfl⟩ := Prod.mk.inj (Option.some.inj h)
    exact ⟨rfl, hlt⟩
  | cons spec rest ih =>
    rw [applyLaneSpecs, applyLaneSpec_eq] at h
    rw [edits]
    cases hseg : parseSegment spec with
    | blank =>
      rw [hseg] at h
      exact ih h hpos hlt
    | bad =>
      rw [hseg] at h
      obtain ⟨-, rfl⟩ := Prod.mk.inj (Option.some.inj h)
      exact ⟨rfl, hlt⟩
    | edit laneId ok' classes =>
      rw [hseg] at h
      cases happly : (Segment.edit laneId ok' classes).apply fuel cfg with
      | none =>
        rw [happly] at h
        cases h
      | some r =>
        obtain ⟨ok₁, cfg₁⟩ := r
        obtain ⟨rfl, rfl, hpos', hlt'⟩ := segment_edit hpos hlt (parseSegment_lt hseg) happly
        rw [happly] at h
        cases ok₁ with
        | false =>
          obtain ⟨-, rfl⟩ := Prod.mk.inj (Option.some.inj h)
          exact ⟨rfl, hlt'⟩
        | true => exact ih h hpos' hlt'

/-! ## edits that change nothing -/

theorem lt_length_foldl (es : List (Nat × ClassSet)) (lanes : List LaneConfig) :
    lanes.length ≤ (es.foldl applyEdit lanes).length
      ∧ ∀ e ∈ es, e.1 < (es.foldl applyEdit lanes).length := by
  induction es generalizing lanes with
  | nil => exact ⟨Nat.le_refl _, fun e h => absurd h List.not_mem_nil⟩
  | cons e es ih =>
    obtain ⟨hle, hmem⟩ := ih (applyEdit lanes e)
    rw [length_applyEdit] at hle
    rw [List.foldl_cons]
    refine ⟨by omega, fun e' he' => ?_⟩
    rcases List.mem_cons.mp he' with rfl | he'
    · omega
    · exact hmem e' he'

/-- the lane behind the edits is the last edit's, or the old one -/
theorem getElem?_foldl {es : List (Nat × ClassSet)} {lanes : List LaneConfig}
    (h : ∀ e ∈ es, e.1 < lanes.length) (i : Nat) :
    (es.foldl applyEdit lanes)[i]? = ((lastEdit es i).map (⟨i, ·⟩)).or lanes[i]? := by
  induction es generalizing lanes with
  | nil => rfl
  | cons e es ih =>
    obtain ⟨he, hes⟩ := List.forall_mem_cons.mp h
    have hset : applyEdit lanes e = lanes.set e.1 ⟨e.1, e.2⟩ := by
      rw [applyEdit, extendTo_of_lt he]
    rw [List.foldl_cons, hset, ih (by rw [List.length_set]; exact hes), lastEdit,
      List.getElem?_set]
    cases lastEdit es i with
    | some s => rfl
    | none =>
      by_cases hi : e.1 = i
      · subst hi
        rw [if_pos rfl, if_pos he, if_pos rfl]
        rfl
      · rw [if_neg hi, if_neg hi]
        rfl

theorem lastEdit_eq_none {es : List (Nat × ClassSet)} {i : Nat} :
    lastEdit es i = none ↔ ∀ e ∈ es, e.1 ≠ i := by
  induction es with
  | nil => simp [lastEdit]
  | cons e es ih =>
    have hite : (if e.1 = i then some e.2 else none) = none ↔ e.1 ≠ i := by simp
    rw [lastEdit, Option.or_eq_none_iff, ih, hite, List.forall_mem_cons, and_comm]

/-- **The edits leave the lanes as they are exactly if each edited lane exists and its last edit
is what it was.** -/
theorem foldl_applyEdit_eq_iff {es : List (Nat × ClassSet)} {lanes : List LaneConfig} :
    es.foldl applyEdit lanes = lanes
      ↔ ∀ e ∈ es, e.1 < lanes.length ∧ (lastEdit es e.1).map (⟨e.1, ·⟩) = lanes[e.1]? := by
  constructor
  · intro h e he
    have hlt : ∀ e ∈ es, e.1 < lanes.length := by
      intro e' he'
      have hmem := (lt_length_foldl es lanes).2 e' he'
      rwa [h] at hmem
    have hget := getElem?_foldl hlt e.1
    rw [h] at hget
    refine ⟨hlt e he, ?_⟩
    cases hlast : lastEdit es e.1 with
    | none => exact absurd rfl (lastEdit_eq_none.mp hlast e he)
    | some s =>
      rw [hlast] at hget
      exact hget.symm
  · intro h
    apply List.ext_getElem?
    intro i
    rw [getElem?_foldl fun e he => (h e he).1]
    cases hlast : lastEdit es i with
    | none => rfl
    | some s =>
      obtain ⟨e, he, rfl⟩ : ∃ e ∈ es, e.1 = i := by
        by_contra hno
        rw [lastEdit_eq_none.mpr fun e he heq => hno ⟨e, he, heq⟩] at hlast
        cases hlast
      rw [← hlast, (h e he).2, Option.or_self]

/-! ## a spec of one piece -/

theorem baseConfig_length (opts : CommandLine) :
    (baseConfig opts).lanes.length = max 1 opts.lanes := by
  show ((List.range' 1 (max 1 opts.lanes - 1)).map makeALULane).length + 1 = max 1 opts.lanes
  rw [List.length_map, List.length_range']
  omega

theorem baseConfig_lanes (opts : CommandLine) {laneId : Nat} (h : laneId < max 1 opts.lanes) :
    (baseConfig opts).lanes[laneId]? = some ⟨laneId, defaultClasses laneId⟩ := by
  cases laneId with
  | zero => rfl
  | succ j => exact baseConfig_lanes_succ opts h

/-- one readable piece for a lane that exists sets that lane -/
theorem fromCommandLine_single {opts : CommandLine} (laneSpec : List Char) {laneId : Nat}
    {classes : ClassSet} (hne : trim opts.laneOpClasses ≠ [])
    (hsplit : splitAll ';' (trim opts.laneOpClasses) = [laneSpec])
    (hseg : parseSegment laneSpec = .edit laneId true classes)
    (hlt : laneId < max 1 opts.lanes) :
    fromCommandLine 1 opts = some { baseConfig opts with
      lanes := (baseConfig opts).lanes.set laneId ⟨laneId, classes⟩ } := by
  have hlen := baseConfig_length opts
  have hmod : max 1 opts.lanes % 2 ^ 32 = max 1 opts.lanes :=
    Nat.mod_eq_of_lt (baseConfig_numLanes_lt opts)
  have hens : ensureLaneExists 1 (baseConfig opts) laneId = some (baseConfig opts) := by
    rw [ensureLaneExists, hlen, hmod, ensureLaneLoop, if_neg (Nat.not_le.mpr hlt)]
    rfl
  have hspec : applyLaneSpec 1 (baseConfig opts) laneSpec = some (true, { baseConfig opts with
      lanes := (baseConfig opts).lanes.set laneId ⟨laneId, classes⟩ }) := by
    rw [applyLaneSpec_eq, hseg, Segment.apply, hens, Option.bind_some, baseConfig_lanes opts hlt]
    rfl
  have hmax : max (baseConfig opts).numLanes
      (((baseConfig opts).lanes.set laneId ⟨laneId, classes⟩).length % 2 ^ 32)
        = (baseConfig opts).numLanes := by
    rw [List.length_set, hlen, hmod]
    exact Nat.max_self _
  rw [fromCommandLine, applyLaneOpClassOverrides]
  simp only [if_neg hne, hsplit, applyLaneSpecs, hspec, hmax]
  rfl

theorem isLaneLegal_set {cfg : StarbugVLIWConfig} {laneId : Nat}
    (h : laneId < cfg.lanes.length) (classes : ClassSet) (lane : Nat) (c : OpClass) :
    StarbugVLIWConfig.isLaneLegal
        { cfg with lanes := cfg.lanes.set laneId ⟨laneId, classes⟩ } lane c
      = if lane = laneId then classes.test .any || classes.test c else cfg.isLaneLegal lane c := by
  unfold StarbugVLIWConfig.isLaneLegal
  by_cases hl : lane = laneId
  · subst hl
    rw [if_pos rfl, List.getElem?_set_self h]
  · rw [if_neg hl, List.getElem?_set_ne (Ne.symm hl)]

/-! ## an ignored override -/

/-- what is left of a spec that is given up on -/
theorem ignored_config {fuel : Nat} {opts : CommandLine} {cfg : StarbugVLIWConfig}
    (h : applyLaneOpClassOverrides fuel (baseConfig opts) opts.laneOpClasses = some (false, cfg)) :
    cfg = { baseConfig opts with
      lanes := (edits (splitAll ';' (trim opts.laneOpClasses))).foldl applyEdit
        (baseConfig opts).lanes } := by
  have hlen := baseConfig_length opts
  unfold applyLaneOpClassOverrides at h
  simp only at h
  split_ifs at h
  · cases h
  · cases hspecs : applyLaneSpecs fuel (splitAll ';' (trim opts.laneOpClasses))
        (baseConfig opts) with
    | none =>
      rw [hspecs] at h
      cases h
    | some r =>
      obtain ⟨ok, cfg'⟩ := r
      rw [hspecs] at h
      cases ok with
      | true => cases h
      | false =>
        obtain ⟨-, rfl⟩ := Prod.mk.inj (Option.some.inj h)
        exact (applyLaneSpecs_eq hspecs (by omega) (hlen ▸ baseConfig_numLanes_lt opts)).1

theorem fromCommandLine_empty (fuel : Nat) (opts : CommandLine) :
    fromCommandLine fuel { opts with laneOpClasses := [] } = some (baseConfig opts) :=
  rfl

/-- **An override that is given up on, and warned about as ignored, leaves the configuration of
the empty spec exactly if every lane it edited exists and was last given the classes it had.** -/
theorem ignored_override_iff {fuel : Nat} {opts : CommandLine} {cfg : StarbugVLIWConfig}
    (h : applyLaneOpClassOverrides fuel (baseConfig opts) opts.laneOpClasses = some (false, cfg)) :
    fromCommandLine fuel opts = fromCommandLine fuel { opts with laneOpClasses := [] }
      ↔ LeavesNoTrace opts := by
  have hreturn : fromCommandLine fuel opts = some cfg := by
    rw [fromCommandLine, h]
    rfl
  have hlanes : cfg = baseConfig opts ↔ (edits (splitAll ';' (trim opts.laneOpClasses))).foldl
      applyEdit (baseConfig opts).lanes = (baseConfig opts).lanes := by
    rw [ignored_config h]
    constructor
    · intro heq
      exact congrArg StarbugVLIWConfig.lanes heq
    · intro heq
      rw [heq]
  rw [hreturn, fromCommandLine_empty, Option.some_inj, hlanes, foldl_applyEdit_eq_iff,
    baseConfig_length]
  refine forall₂_congr fun e _ => and_congr_right fun he => ?_
  rw [baseConfig_lanes opts he]
  cases lastEdit (edits (splitAll ';' (trim opts.laneOpClasses))) e.1 with
  | none => simp
  | some s => simp

/-- the second piece has no classes, and the first changes nothing -/
theorem ignored_override_iff_any :
    fromCommandLine 10 { laneOpClasses := "0:any;x".toList } = fromCommandLine 10 {} := by
  have h : applyLaneOpClassOverrides 10 (baseConfig { laneOpClasses := "0:any;x".toList })
      "0:any;x".toList = some (false, baseConfig {}) := by decide
  exact (ignored_override_iff h).mpr (by decide)

/-- here lane 0 has lost the class `any` -/
theorem ignored_override_edits_lane_zero :
    (applyLaneOpClassOverrides 10 (baseConfig { laneOpClasses := "0:alu;x".toList })
        "0:alu;x".toList).map Prod.fst = some false
      ∧ fromCommandLine 10 { laneOpClasses := "0:alu;x".toList } ≠ fromCommandLine 10 {} := by
  decide

end Starbug.Vliw
