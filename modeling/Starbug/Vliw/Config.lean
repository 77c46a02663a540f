import Mathlib.Data.List.Basic
import Mathlib.Data.List.GetD
import Mathlib.Data.BitVec

/-!
# The back end's configuration (`StarbugVLIWConfig.h`, `StarbugVLIWConfig.cpp`)

Op classes, lanes with their allowed classes, the parser of `-starbug-vliw-lane-op-classes`,
and `fromCommandLine`.  An `unsigned` is a `Nat` below `2^32`; where the source counts, the
wrap is written out.  The loop of `ensureLaneExists` need not end (its counter wraps below a
lane number of `2^32 - 1`), so it takes fuel, and `none` means that the fuel ran out.  A
`StringRef` is a `List Char`.
-/

namespace Starbug.Vliw

/-! ## op classes and lanes -/

inductive OpClass where
  | any | aluAddSub | aluMulDiv | aluShift | load | store | branch | compare | move | csr
  deriving DecidableEq, Repr

/-- the underlying value of the enumeration -/
def OpClass.toNat : OpClass → Nat
  | .any => 0
  | .aluAddSub => 1
  | .aluMulDiv => 2
  | .aluShift => 3
  | .load => 4
  | .store => 5
  | .branch => 6
  | .compare => 7
  | .move => 8
  | .csr => 9

/-- `OpClass::Last`, the size of every class set -/
def OpClass.last : Nat := 10

/-- a `BitVector` with one bit for each class -/
abbrev ClassSet := BitVec OpClass.last

def ClassSet.test (s : ClassSet) (c : OpClass) : Bool := s.getLsbD c.toNat

def ClassSet.set (s : ClassSet) (c : OpClass) : ClassSet := s ||| BitVec.twoPow _ c.toNat

def ClassSet.reset (_ : ClassSet) : ClassSet := 0

structure LaneConfig where
  laneId : Nat
  allowedClasses : ClassSet
  deriving DecidableEq

structure UnrollPolicy where
  forceUnroll : Bool := true
  defaultUnrollFactor : Nat := 32
  maxUnrollFactor : Nat := 128
  preferUnrollAndJam : Bool := true
  spillPressureGuard : Bool := true
  deriving DecidableEq

structure SchedulerPolicy where
  prioritizePointerBumps : Bool := true
  prioritizeReadyLoads : Bool := true
  latencyWeightLoad : Nat := 3
  latencyWeightMulDiv : Nat := 2
  latencyWeightStore : Nat := 1
  allowShortPackets : Bool := true
  emitSingleInstructionHints : Bool := false
  deriving DecidableEq

structure StarbugVLIWConfig where
  numLanes : Nat := 4
  lanes : List LaneConfig := []
  unroll : UnrollPolicy := {}
  scheduler : SchedulerPolicy := {}
  deriving DecidableEq

def StarbugVLIWConfig.maxBundleWidth (cfg : StarbugVLIWConfig) : Nat := cfg.numLanes

def makeLane0 : LaneConfig := ⟨0, (0 : ClassSet).set .any⟩

def ClassSet.setALU (s : ClassSet) : ClassSet :=
  ((s.set .aluAddSub).set .aluMulDiv).set .aluShift

def makeALULane (laneId : Nat) : LaneConfig := ⟨laneId, (0 : ClassSet).setALU⟩

def StarbugVLIWConfig.isLaneLegal (cfg : StarbugVLIWConfig) (lane : Nat) (cls : OpClass) : Bool :=
  match cfg.lanes[lane]? with
  | none => false
  | some l => l.allowedClasses.test .any || l.allowedClasses.test cls

/-! ## strings -/

/-- the characters `StringRef::trim` drops -/
def isBlank (c : Char) : Bool := c ∈ [' ', '\t', '\n', '\x0b', '\x0c', '\r']

def trim (s : List Char) : List Char :=
  ((s.dropWhile isBlank).reverse.dropWhile isBlank).reverse

/-- `split` into all pieces, without the empty ones -/
def splitAll (sep : Char) (s : List Char) : List (List Char) :=
  (s.splitOn sep).filter (· ≠ [])

/-- `split` at the first separator; without one, the second part is empty -/
def splitFirst (sep : Char) (s : List Char) : List Char × List Char :=
  (s.takeWhile (· ≠ sep), (s.dropWhile (· ≠ sep)).drop 1)

/-- `getAsInteger(10, unsigned &)`: `none` where the source returns `true` -/
def getAsInteger (s : List Char) : Option Nat :=
  if s ≠ [] ∧ s.all Char.isDigit then
    let v := s.foldl (fun v c => 10 * v + (c.toNat - '0'.toNat)) 0
    if v < 2 ^ 32 then some v else none
  else none

/-! ## the override parser -/

def applyClassToken (token : List Char) (allowed : ClassSet) : Option ClassSet :=
  let token := trim token
  if token = [] then some allowed
  else
    let key := token.map Char.toLower
    if key ∈ ["any", "all"].map String.toList then some (allowed.set .any)
    else if key ∈ ["alu", "int"].map String.toList then some allowed.setALU
    else if key ∈ ["alu_addsub", "addsub", "add", "sub"].map String.toList then
      some (allowed.set .aluAddSub)
    else if key ∈ ["alu_muldiv", "muldiv", "mul", "div"].map String.toList then
      some (allowed.set .aluMulDiv)
    else if key ∈ ["alu_shift", "shift", "sh"].map String.toList then
      some (allowed.set .aluShift)
    else if key ∈ ["load", "ld"].map String.toList then some (allowed.set .load)
    else if key ∈ ["store", "st"].map String.toList then some (allowed.set .store)
    else if key ∈ ["branch", "br"].map String.toList then some (allowed.set .branch)
    else if key ∈ ["compare", "cmp"].map String.toList then some (allowed.set .compare)
    else if key ∈ ["move", "mv", "li", "copy"].map String.toList then some (allowed.set .move)
    else if key = "csr".toList then some (allowed.set .csr)
    else none

/-- the tokens one after the other: whether all are known, and the set when the loop stops -/
def applyClassTokens : List (List Char) → ClassSet → Bool × ClassSet
  | [], allowed => (true, allowed)
  | token :: rest, allowed =>
    match applyClassToken token allowed with
    | none => (false, allowed)
    | some allowed' => applyClassTokens rest allowed'

def parseLaneClassList (laneClasses : List Char) (lane : LaneConfig) : Bool × LaneConfig :=
  let r := applyClassTokens (splitAll ',' laneClasses) lane.allowedClasses.reset
  (r.1, { lane with allowedClasses := r.2 })

/-- the loop of `ensureLaneExists` from counter `i`, which is 32 bits wide -/
def ensureLaneLoop (laneId : Nat) : Nat → Nat → List LaneConfig → Option (List LaneConfig)
  | 0, _, _ => none
  | fuel + 1, i, lanes =>
    if i ≤ laneId then
      ensureLaneLoop laneId fuel ((i + 1) % 2 ^ 32)
        (lanes ++ [if i = 0 then makeLane0 else makeALULane i])
    else some lanes

def ensureLaneExists (fuel : Nat) (cfg : StarbugVLIWConfig) (laneId : Nat) :
    Option StarbugVLIWConfig :=
  (ensureLaneLoop laneId fuel (cfg.lanes.length % 2 ^ 32) cfg.lanes).map
    fun lanes => { cfg with lanes := lanes }

/-- the effect of one `lane:classes` piece on the lanes; `false` where the source gives up -/
def applyLaneSpec (fuel : Nat) (cfg : StarbugVLIWConfig) (laneSpec : List Char) :
    Option (Bool × StarbugVLIWConfig) :=
  let laneSpec := trim laneSpec
  if laneSpec = [] then some (true, cfg)
  else
    let pair := splitFirst ':' laneSpec
    let laneIdStr := trim pair.1
    let classesStr := trim pair.2
    if laneIdStr = [] ∨ classesStr = [] then some (false, cfg)
    else
      match getAsInteger laneIdStr with
      | none => some (false, cfg)
      | some laneId =>
        match ensureLaneExists fuel cfg laneId with
        | none => none
        | some cfg =>
          match cfg.lanes[laneId]? with
          | none => none  -- out of bounds: no lane was made, which `ensureLaneExists` rules out
          | some lane =>
            let r := parseLaneClassList classesStr { lane with laneId := laneId }
            some (r.1, { cfg with lanes := cfg.lanes.set laneId r.2 })

def applyLaneSpecs (fuel : Nat) : List (List Char) → StarbugVLIWConfig →
    Option (Bool × StarbugVLIWConfig)
  | [], cfg => some (true, cfg)
  | laneSpec :: rest, cfg =>
    match applyLaneSpec fuel cfg laneSpec with
    | none => none
    | some (false, cfg) => some (false, cfg)
    | some (true, cfg) => applyLaneSpecs fuel rest cfg

def applyLaneOpClassOverrides (fuel : Nat) (cfg : StarbugVLIWConfig) (spec : List Char) :
    Option (Bool × StarbugVLIWConfig) :=
  let spec := trim spec
  if spec = [] then some (true, cfg)
  else
    match applyLaneSpecs fuel (splitAll ';' spec) cfg with
    | none => none
    | some (false, cfg) => some (false, cfg)
    | some (true, cfg) =>
      some (true, { cfg with numLanes := max cfg.numLanes (cfg.lanes.length % 2 ^ 32) })

/-! ## the command line -/

/-- the `cl::opt` values; those of type `unsigned` are below `2^32` -/
structure CommandLine where
  lanes : Nat := 4
  forceUnroll : Bool := true
  unrollFactor : Nat := 32
  maxUnroll : Nat := 128
  laneOpClasses : List Char := []
  emitSingleHints : Bool := false
  lanes_lt : lanes < 2 ^ 32 := by decide
  unrollFactor_lt : unrollFactor < 2 ^ 32 := by decide
  maxUnroll_lt : maxUnroll < 2 ^ 32 := by decide

def getDefault : StarbugVLIWConfig where
  numLanes := 4
  lanes := [makeLane0, makeALULane 1, makeALULane 2, makeALULane 3]
  unroll := {}
  scheduler := {}

/-- the configuration before the override is applied -/
def baseConfig (opts : CommandLine) : StarbugVLIWConfig :=
  let cfg := getDefault
  let numLanes := max 1 opts.lanes
  let factor := if opts.unrollFactor = 0 then 1 else opts.unrollFactor
  { cfg with
    numLanes := numLanes
    lanes := makeLane0 :: (List.range' 1 (numLanes - 1)).map makeALULane
    unroll := { cfg.unroll with
      forceUnroll := opts.forceUnroll
      defaultUnrollFactor := factor
      maxUnrollFactor := max opts.maxUnroll factor }
    scheduler := { cfg.scheduler with emitSingleInstructionHints := opts.emitSingleHints } }

/-- a spec that is given up on is only warned about -/
def fromCommandLine (fuel : Nat) (opts : CommandLine) : Option StarbugVLIWConfig :=
  (applyLaneOpClassOverrides fuel (baseConfig opts) opts.laneOpClasses).map Prod.snd

/-- `cfg` is what `fromCommandLine` returns for `opts` -/
def Returns (opts : CommandLine) (cfg : StarbugVLIWConfig) : Prop :=
  ∃ fuel, fromCommandLine fuel opts = some cfg

/-! ## what the override leaves alone -/

theorem ensureLaneExists_frame {fuel laneId : Nat} {cfg cfg' : StarbugVLIWConfig}
    (h : ensureLaneExists fuel cfg laneId = some cfg') :
    ∃ lanes, cfg' = { cfg with lanes := lanes } := by
  obtain ⟨lanes, -, rfl⟩ := Option.map_eq_some_iff.mp h
  exact ⟨lanes, rfl⟩

theorem applyLaneSpec_frame {fuel : Nat} {cfg cfg' : StarbugVLIWConfig} {laneSpec : List Char}
    {ok : Bool} (h : applyLaneSpec fuel cfg laneSpec = some (ok, cfg')) :
    ∃ lanes, cfg' = { cfg with lanes := lanes } := by
  unfold applyLaneSpec at h
  simp only at h
  split_ifs at h with h1 h2
  · obtain ⟨-, rfl⟩ := Prod.mk.inj (Option.some.inj h)
    exact ⟨cfg.lanes, rfl⟩
  · obtain ⟨-, rfl⟩ := Prod.mk.inj (Option.some.inj h)
    exact ⟨cfg.lanes, rfl⟩
  · split at h
    · obtain ⟨-, rfl⟩ := Prod.mk.inj (Option.some.inj h)
      exact ⟨cfg.lanes, rfl⟩
    · split at h
      · cases h
      · rename_i cfg₁ hens
        obtain ⟨lanes, rfl⟩ := ensureLaneExists_frame hens
        split at h
        · cases h
        · obtain ⟨-, rfl⟩ := Prod.mk.inj (Option.some.inj h)
          exact ⟨_, rfl⟩

theorem applyLaneSpecs_frame {fuel : Nat} {specs : List (List Char)}
    {cfg cfg' : StarbugVLIWConfig} {ok : Bool}
    (h : applyLaneSpecs fuel specs cfg = some (ok, cfg')) :
    ∃ lanes, cfg' = { cfg with lanes := lanes } := by
  induction specs generalizing cfg with
  | nil =>
    obtain ⟨-, rfl⟩ := Prod.mk.inj (Option.some.inj h)
    exact ⟨cfg.lanes, rfl⟩
  | cons spec rest ih =>
    rw [applyLaneSpecs] at h
    split at h
    · cases h
    · rename_i cfg₁ hspec
      obtain ⟨-, rfl⟩ := Prod.mk.inj (Option.some.inj h)
      exact applyLaneSpec_frame hspec
    · rename_i cfg₁ hspec
      obtain ⟨lanes₁, rfl⟩ := applyLaneSpec_frame hspec
      obtain ⟨lanes₂, rfl⟩ := ih h
      exact ⟨lanes₂, rfl⟩

theorem applyLaneOpClassOverrides_frame {fuel : Nat} {cfg cfg' : StarbugVLIWConfig}
    {spec : List Char} {ok : Bool}
    (h : applyLaneOpClassOverrides fuel cfg spec = some (ok, cfg')) (hn : cfg.numLanes < 2 ^ 32) :
    ∃ n lanes, cfg' = { cfg with numLanes := n, lanes := lanes } ∧ cfg.numLanes ≤ n
      ∧ n < 2 ^ 32 := by
  unfold applyLaneOpClassOverrides at h
  simp only at h
  split_ifs at h with h0
  · obtain ⟨-, rfl⟩ := Prod.mk.inj (Option.some.inj h)
    exact ⟨cfg.numLanes, cfg.lanes, rfl, Nat.le_refl _, hn⟩
  · split at h
    · cases h
    · rename_i cfg₁ hspecs
      obtain ⟨-, rfl⟩ := Prod.mk.inj (Option.some.inj h)
      obtain ⟨lanes, rfl⟩ := applyLaneSpecs_frame hspecs
      exact ⟨cfg.numLanes, lanes, rfl, Nat.le_refl _, hn⟩
    · rename_i cfg₁ hspecs
      obtain ⟨-, rfl⟩ := Prod.mk.inj (Option.some.inj h)
      obtain ⟨lanes, rfl⟩ := applyLaneSpecs_frame hspecs
      refine ⟨_, lanes, rfl, Nat.le_max_left _ _, Nat.max_lt.mpr ⟨hn, Nat.mod_lt _ (by decide)⟩⟩

theorem baseConfig_numLanes_lt (opts : CommandLine) : (baseConfig opts).numLanes < 2 ^ 32 :=
  Nat.max_lt.mpr ⟨by decide, opts.lanes_lt⟩

/-- what every configuration the command line can give has in common -/
structure Sane (opts : CommandLine) (cfg : StarbugVLIWConfig) : Prop where
  numLanes_pos : 1 ≤ cfg.numLanes
  numLanes_lt : cfg.numLanes < 2 ^ 32
  short : cfg.scheduler.allowShortPackets = true
  single : cfg.scheduler.emitSingleInstructionHints = opts.emitSingleHints

theorem Returns.sane {opts : CommandLine} {cfg : StarbugVLIWConfig} (h : Returns opts cfg) :
    Sane opts cfg := by
  obtain ⟨fuel, h⟩ := h
  obtain ⟨⟨ok, cfg'⟩, hov, rfl⟩ := Option.map_eq_some_iff.mp h
  obtain ⟨n, lanes, rfl, hle, hlt⟩ :=
    applyLaneOpClassOverrides_frame hov (baseConfig_numLanes_lt opts)
  exact ⟨Nat.le_trans (Nat.le_max_left 1 opts.lanes) hle, hlt, rfl, rfl⟩

/-! ## without an override -/

def OpClass.isALU : OpClass → Bool
  | .aluAddSub | .aluMulDiv | .aluShift => true
  | _ => false

theorem makeALULane_test (laneId : Nat) (c : OpClass) :
    (makeALULane laneId).allowedClasses.test c = c.isALU := by
  show ((0 : ClassSet).setALU).test c = c.isALU
  cases c <;> decide

theorem returns_iff_of_empty {opts : CommandLine} (h : opts.laneOpClasses = [])
    (cfg : StarbugVLIWConfig) : Returns opts cfg ↔ cfg = baseConfig opts := by
  have heq : ∀ fuel, fromCommandLine fuel opts = some (baseConfig opts) := fun fuel => by
    simp [fromCommandLine, applyLaneOpClassOverrides, h, trim]
  constructor
  · rintro ⟨fuel, hf⟩
    exact Option.some.inj (hf.symm.trans (heq fuel))
  · rintro rfl
    exact ⟨0, heq 0⟩

theorem baseConfig_lanes_succ (opts : CommandLine) {j : Nat}
    (h : j + 1 < (baseConfig opts).numLanes) :
    (baseConfig opts).lanes[j + 1]? = some (makeALULane (j + 1)) := by
  have hj : j < (baseConfig opts).numLanes - 1 := by omega
  show ((List.range' 1 ((baseConfig opts).numLanes - 1)).map makeALULane)[j]? = _
  rw [List.getElem?_map, List.getElem?_range' hj, Nat.one_mul, Nat.add_comm]
  rfl

theorem isLaneLegal_baseConfig (opts : CommandLine) {lane : Nat}
    (hl : lane < (baseConfig opts).numLanes) (c : OpClass) :
    (baseConfig opts).isLaneLegal lane c = (lane == 0 || c.isALU) := by
  cases lane with
  | zero => cases c <;> rfl
  | succ j =>
    have hbeq : (j + 1 == 0) = false := rfl
    unfold StarbugVLIWConfig.isLaneLegal
    rw [baseConfig_lanes_succ opts hl, hbeq, Bool.false_or]
    show ((makeALULane (j + 1)).allowedClasses.test .any
      || (makeALULane (j + 1)).allowedClasses.test c) = c.isALU
    rw [makeALULane_test, makeALULane_test]
    rfl

end Starbug.Vliw
