import Starbug.Check.Account

/-!
# Declined bundles (`tools/starbug_straddle.py`)

The tool walks the bundles of a scan and splits the executions of the safe ones into LIVE and
DECLINED: a bundle is declined if its HINT and its last byte are in different lines.  The profile
walks the listing instead, looks the bundles up by address and scans with its own line size.

* `straddle_eq`       the tool's totals and its records by function are sums over the safe bundles;
* `straddles_iff`     a contiguous bundle is declined exactly if its bytes are not all in one line;
* `straddle_agrees`   both tools measure the same bundles, whatever the line size.
-/

namespace Starbug

/-! ## the loop of the source -/

/-- `b` is declined; `members[-1]` raises where there are no members -/
def straddles (bundle : Bundle) (lineBytes : Int) : Except PyError Bool :=
  match bundle.members.getLast? with
  | none => .error .indexError
  | some m =>
    let start : Int := bundle.hintAddr
    let stop : Int := m.addr + m.size - 1
    if lineBytes = 0 then .error .zeroDivisionError
    else .ok (decide (start.fdiv lineBytes ≠ stop.fdiv lineBytes))

/-- executions of HINTs, and of the payload instructions behind them -/
structure Executions where
  live : Nat := 0
  dead : Nat := 0
  liveSlots : Nat := 0
  deadSlots : Nat := 0

/-- the two branches of the loop body: the same for the totals and for the record of a function -/
def Executions.charge (e : Executions) (declined : Bool) (n slots : Nat) : Executions :=
  if declined then { e with dead := e.dead + n, deadSlots := e.deadSlots + slots }
  else { e with live := e.live + n, liveSlots := e.liveSlots + slots }

structure Straddle where
  all : Executions := {}
  byFunc : Dict String Executions := Dict.empty

/-- the body of the loop over the bundles -/
def straddleStep (hist : Nat → Nat) (lineBytes : Int) (s : Straddle) (b : Bundle) :
    Except PyError Straddle :=
  if !b.safe then .ok s
  else
    let n := hist b.hintAddr
    let slots := n * b.members.length
    match straddles b lineBytes with
    | .error e => .error e
    | .ok declined =>
      .ok { all := s.all.charge declined n slots
            byFunc := s.byFunc.alter b.func fun rec => (rec.getD {}).charge declined n slots }

def straddle (bundles : List Bundle) (hist : Nat → Nat) (lineBytes : Int) :
    Except PyError Straddle :=
  bundles.foldlM (straddleStep hist lineBytes) {}

/-- `tot` and `tot_slots` -/
def Executions.tot (e : Executions) : Nat := e.live + e.dead

def Executions.totSlots (e : Executions) : Nat := e.liveSlots + e.deadSlots

/-- what is read of a function, `0` where it has no record -/
def Straddle.func (s : Straddle) (f : String) : Executions := (s.byFunc.get? f).getD {}

/-! ## the loop as sums over the safe bundles -/

/-- what `straddles` answers where it does not raise -/
def declined (L : Int) (b : Bundle) : Bool := decide (straddles b L = .ok true)

/-- the executions of the bundles `bs`, split by `d` -/
def tallied (d : Bundle → Bool) (hist : Nat → Nat) (bs : List Bundle) : Executions where
  live := ((bs.filter fun b => !d b).map fun b => hist b.hintAddr).sum
  dead := ((bs.filter d).map fun b => hist b.hintAddr).sum
  liveSlots := ((bs.filter fun b => !d b).map fun b => hist b.hintAddr * b.members.length).sum
  deadSlots := ((bs.filter d).map fun b => hist b.hintAddr * b.members.length).sum

theorem tallied_append (d : Bundle → Bool) (hist : Nat → Nat) (bs : List Bundle) (b : Bundle) :
    tallied d hist (bs ++ [b])
      = (tallied d hist bs).charge (d b) (hist b.hintAddr)
        (hist b.hintAddr * b.members.length) := by
  unfold tallied Executions.charge
  cases hd : d b with
  | true => simp [List.filter_append, hd]
  | false => simp [List.filter_append, hd]

theorem tot_tallied (d : Bundle → Bool) (hist : Nat → Nat) (bs : List Bundle) :
    (tallied d hist bs).tot = (bs.map fun b => hist b.hintAddr).sum
      ∧ (tallied d hist bs).totSlots
        = (bs.map fun b => hist b.hintAddr * b.members.length).sum := by
  have hsplit : ∀ f : Bundle → Nat, ((bs.filter fun b => !d b).map f).sum
      + ((bs.filter d).map f).sum = (bs.map f).sum := by
    intro f
    have h := List.sum_map_filter_add_sum_map_filter_not (fun b => d b = true) f bs
    rw [Nat.add_comm]
    simpa using h
  exact ⟨hsplit _, hsplit _⟩

/-- a bundle with members is declined or live: with a nonzero line size nothing is raised -/
theorem straddles_eq {b : Bundle} (hb : b.members ≠ []) {L : Int} (hL : L ≠ 0) :
    straddles b L = .ok (declined L b) := by
  have hok : ∃ d, straddles b L = .ok d := by
    unfold straddles
    rw [List.getLast?_eq_some_getLast hb]
    simp only [if_neg hL]
    exact ⟨_, rfl⟩
  obtain ⟨d, hd⟩ := hok
  unfold declined
  rw [hd]
  cases d <;> rfl

/-- `s` after the safe bundles `bs` -/
structure Straddle.Counts (hist : Nat → Nat) (L : Int) (bs : List Bundle) (s : Straddle) :
    Prop where
  all : s.all = tallied (declined L) hist bs
  func : ∀ f, s.func f = tallied (declined L) hist (bs.filter fun b => b.func = f)

theorem Straddle.Counts.step {hist : Nat → Nat} {L : Int} {bs : List Bundle} {s : Straddle}
    (h : s.Counts hist L bs) (hL : L ≠ 0) {b : Bundle} (hsafe : b.safe = true)
    (hb : b.members ≠ []) :
    ∃ s', straddleStep hist L s b = .ok s' ∧ s'.Counts hist L (bs ++ [b]) := by
  unfold straddleStep
  rw [hsafe]
  simp only [straddles_eq hb hL]
  refine ⟨_, rfl, ?_, fun f => ?_⟩
  · rw [tallied_append, h.all]
  · show ((s.byFunc.alter b.func fun rec => (rec.getD {}).charge (declined L b)
      (hist b.hintAddr) (hist b.hintAddr * b.members.length)).get? f).getD {} = _
    rw [Dict.get?_alter, List.filter_append]
    by_cases hf : f = b.func
    · have hone : [b].filter (fun b => decide (b.func = f)) = [b] := by simp [hf]
      rw [if_pos hf, hone, tallied_append, ← h.func f, ← hf]
      rfl
    · have hnone : [b].filter (fun b => decide (b.func = f)) = [] := by simp [Ne.symm hf]
      rw [if_neg hf, hnone, List.append_nil, ← h.func f]
      rfl

/-- **With a nonzero line size the loop returns, and its totals and its records are sums over the
safe bundles.** -/
theorem straddle_eq {bs : List Bundle} (hmem : ∀ b ∈ bs, b.safe = true → b.members ≠ [])
    (hist : Nat → Nat) {L : Int} (hL : L ≠ 0) :
    ∃ s, straddle bs hist L = .ok s ∧ s.Counts hist L (bs.filter Bundle.safe) := by
  have hrun : ∀ (rest done : List Bundle) (s : Straddle),
      (∀ b ∈ rest, b.safe = true → b.members ≠ []) → s.Counts hist L done →
      ∃ s', rest.foldlM (straddleStep hist L) s = .ok s'
        ∧ s'.Counts hist L (done ++ rest.filter Bundle.safe) := by
    intro rest
    induction rest with
    | nil =>
      intro done s _ hs
      refine ⟨s, rfl, ?_⟩
      rwa [List.filter_nil, List.append_nil]
    | cons b rest ih =>
      intro done s hne hs
      have hrest : ∀ b ∈ rest, b.safe = true → b.members ≠ [] :=
        fun c hc => hne c (List.mem_cons_of_mem b hc)
      by_cases hsafe : b.safe = true
      · obtain ⟨s₁, h₁, hc₁⟩ := hs.step hL hsafe (hne b List.mem_cons_self hsafe)
        obtain ⟨s', h', hc'⟩ := ih (done ++ [b]) s₁ hrest hc₁
        refine ⟨s', ?_, ?_⟩
        · rw [List.foldlM_cons, h₁]
          exact h'
        · rw [List.filter_cons_of_pos hsafe]
          rwa [List.append_assoc] at hc'
      · have hskip : straddleStep hist L s b = .ok s := by
          unfold straddleStep
          rw [Bool.not_eq_true] at hsafe
          rw [hsafe]
          rfl
        obtain ⟨s', h', hc'⟩ := ih done s hrest hs
        refine ⟨s', ?_, ?_⟩
        · rw [List.foldlM_cons, hskip]
          exact h'
        · rwa [List.filter_cons_of_neg hsafe]
  exact hrun bs [] {} hmem ⟨rfl, fun _ => rfl⟩

/-! ## the line size and the verdict -/

/-- the bundle without its warnings -/
def Bundle.judged (b : Bundle) : Bundle := { b with warnings := [] }

theorem judged_checkBundle (b : Bundle) (L L' : Int) :
    (checkBundle b L).1.judged = (checkBundle b L').1.judged := by
  have herr := checkBundle_errors_eq b L L'
  obtain ⟨es, ws, h⟩ := checkBundle_eq b L
  obtain ⟨es', ws', h'⟩ := checkBundle_eq b L'
  rw [h, h'] at herr
  rw [h, h']
  exact congrArg (fun es => { b with errors := es, warnings := [] }) herr

theorem analyse_judged {insns : List Line} {L L' : Int} {bs bs' : List Bundle}
    {cov cov' : Finset Nat} (h : analyse insns L = .ok (bs, cov))
    (h' : analyse insns L' = .ok (bs', cov')) :
    bs'.map Bundle.judged = bs.map Bundle.judged ∧ cov' = cov := by
  refine ⟨?_, Finset.ext fun i => ?_⟩
  · rw [analyse_eq h, analyse_eq h', List.map_map, List.map_map]
    exact List.map_congr_left fun x _ => judged_checkBundle (cut x) L' L
  · rw [mem_covered h, mem_covered h']

/-! ## bytes and lines -/

def Insn.bytes (i : Insn) : List Nat := List.range' i.addr i.size

/-- the bytes of the HINT and of the members -/
def Bundle.bytes (b : Bundle) : List Nat :=
  List.range' b.hintAddr 2 ++ b.members.flatMap Insn.bytes

/-- some line of `L` bytes holds all of the bundle -/
def Bundle.InOneLine (L : Int) (b : Bundle) : Prop :=
  ∃ k : Int, ∀ a ∈ b.bytes, k * L ≤ (a : Int) ∧ (a : Int) < k * L + L

instance (L : Int) (b : Bundle) : Decidable (b.InOneLine L) :=
  decidable_of_iff (0 < L ∧ ∀ a ∈ b.bytes, (a : Int) / L = (b.hintAddr : Int) / L) <| by
    have hmem : b.hintAddr ∈ b.bytes :=
      List.mem_append_left _ (List.mem_range'_1.mpr ⟨Nat.le_refl _, by omega⟩)
    constructor
    · rintro ⟨hL, hall⟩
      exact ⟨_, fun a ha => (Int.ediv_eq_iff_of_pos hL).mp (hall a ha)⟩
    · rintro ⟨k, hk⟩
      have hL : 0 < L := by
        have hhint := hk _ hmem
        omega
      refine ⟨hL, fun a ha => ?_⟩
      rw [(Int.ediv_eq_iff_of_pos hL).mpr (hk a ha),
        (Int.ediv_eq_iff_of_pos hL).mpr (hk _ hmem)]

theorem bytes_of_contiguous {a : Nat} {ms : List Insn} (h : ContiguousFrom a ms) :
    ms.flatMap Insn.bytes = List.range' a (ms.map Insn.size).sum
      ∧ ∀ m, ms.getLast? = some m → m.addr + m.size = a + (ms.map Insn.size).sum := by
  induction ms generalizing a with
  | nil => exact ⟨rfl, fun m hm => by cases hm⟩
  | cons m ms ih =>
    obtain ⟨rfl, hms⟩ := h
    obtain ⟨hbytes, hlast⟩ := ih hms
    rw [List.map_cons, List.sum_cons]
    refine ⟨?_, fun m' hm' => ?_⟩
    · rw [List.flatMap_cons, hbytes]
      exact List.range'_append_1
    · rw [List.getLast?_cons] at hm'
      obtain rfl := Option.some.inj hm'
      cases hl : ms.getLast? with
      | none =>
        rw [List.getLast?_eq_none_iff.mp hl]
        rfl
      | some m' =>
        rw [Option.getD_some, hlast m' hl, Nat.add_assoc]

/-- consecutive bytes are in one line if the first and the last of them are -/
theorem inOneLine_range' {L : Int} (hL : 0 < L) (s n : Nat) :
    (∃ k : Int, ∀ a ∈ List.range' s (n + 1), k * L ≤ (a : Int) ∧ (a : Int) < k * L + L)
      ↔ (s : Int) / L = ((s + n : Nat) : Int) / L := by
  have hfirst : s ∈ List.range' s (n + 1) := List.mem_range'_1.mpr ⟨Nat.le_refl s, by omega⟩
  have hlast : s + n ∈ List.range' s (n + 1) := List.mem_range'_1.mpr ⟨by omega, by omega⟩
  constructor
  · rintro ⟨k, hk⟩
    rw [(Int.ediv_eq_iff_of_pos hL).mpr (hk s hfirst),
      (Int.ediv_eq_iff_of_pos hL).mpr (hk (s + n) hlast)]
  · intro heq
    refine ⟨(s : Int) / L, fun a ha => (Int.ediv_eq_iff_of_pos hL).mp ?_⟩
    obtain ⟨hle, hlt⟩ := List.mem_range'_1.mp ha
    apply Int.le_antisymm
    · rw [heq]
      exact Int.ediv_le_ediv hL (by omega)
    · exact Int.ediv_le_ediv hL (by omega)

/-- **A contiguous bundle is declined exactly if its bytes are not all in one line.** -/
theorem straddles_iff {b : Bundle} (hb : b.members ≠ []) (hc : b.Contiguous) {L : Int}
    (hL : 0 < L) : straddles b L = .ok true ↔ ¬ b.InOneLine L := by
  obtain ⟨hbytes, hlast⟩ := bytes_of_contiguous hc
  obtain ⟨m, hm⟩ : ∃ m, b.members.getLast? = some m := ⟨_, List.getLast?_eq_some_getLast hb⟩
  have hstop : ((m.addr : Int) + m.size - 1)
      = ((b.hintAddr + ((b.members.map Insn.size).sum + 1) : Nat) : Int) := by
    have hend := hlast m hm
    omega
  have hall : b.bytes = List.range' b.hintAddr ((b.members.map Insn.size).sum + 1 + 1) := by
    unfold Bundle.bytes
    rw [hbytes, List.range'_append_1]
    congr 1
    omega
  unfold straddles Bundle.InOneLine
  rw [hm, hall, inOneLine_range' hL]
  simp only [if_neg (Int.ne_of_gt hL), hstop, Int.fdiv_eq_ediv_of_nonneg _ (Int.le_of_lt hL)]
  simp

/-! ## the two tools -/

/-- executions and slots, in all and by function -/
structure Straddle.Matches (s : Straddle) (p : Profile) : Prop where
  execs : s.all.tot = p.dynBundleExecs
  slots : s.all.totSlots = p.dynInBundles
  func : ∀ f, (s.func f).totSlots = p.fnBundled.get f

/-- declined are the executions of the safe bundles whose bytes are not all in one line -/
structure Straddle.DeclinesCrossing (s : Straddle) (hist : Nat → Nat) (L : Int)
    (bundles : List Bundle) : Prop where
  all : s.all = tallied (fun b => !decide (b.InOneLine L)) hist (bundles.filter Bundle.safe)
  func : ∀ f, s.func f = tallied (fun b => !decide (b.InOneLine L)) hist
    ((bundles.filter Bundle.safe).filter fun b => b.func = f)

section
variable {insns : List Line} {bs : List Bundle} {cov : Finset Nat} {L : Int}

theorem members_ne_nil (h : analyse insns L = .ok (bs, cov)) {b : Bundle} (hb : b ∈ bs)
    (hs : b.safe = true) : b.members ≠ [] := by
  have hlen := (length_of_safe h hb hs).1
  intro hnil
  rw [hnil, List.length_nil] at hlen
  omega

theorem contiguous_of_safe (h : analyse insns L = .ok (bs, cov))
    (hsolid : ∀ j, ¬ GapAt insns j) {b : Bundle} (hb : b ∈ bs) (hs : b.safe = true) :
    b.Contiguous := by
  rw [analyse_eq h] at hb
  obtain ⟨⟨l, n, ms⟩, hx, rfl⟩ := List.mem_map.mp hb
  obtain ⟨k, hk, hn, rfl, -⟩ := mem_hints.mp hx
  have hacc := ((checkBundle_errors_iff _ L).mp (List.isEmpty_iff.mp hs)).2
  exact (contiguous_cut hk hn (accepted_cut.mp hacc).2.1 L).mpr fun i _ => hsolid (k + i)

theorem tallied_congr {d d' : Bundle → Bool} (hist : Nat → Nat) {bs : List Bundle}
    (h : ∀ b ∈ bs, d b = d' b) : tallied d hist bs = tallied d' hist bs := by
  have hneg : (bs.filter fun b => !d b) = bs.filter fun b => !d' b :=
    List.filter_congr fun b hb => congrArg _ (h b hb)
  unfold tallied
  rw [List.filter_congr h, hneg]

theorem Straddle.Counts.declinesCrossing {s : Straddle} {hist : Nat → Nat}
    (hs : s.Counts hist L (bs.filter Bundle.safe)) (h : analyse insns L = .ok (bs, cov))
    (hL : 0 < L) (hsolid : ∀ j, ¬ GapAt insns j) : s.DeclinesCrossing hist L bs := by
  have hone : ∀ b ∈ bs.filter Bundle.safe, declined L b = !decide (b.InOneLine L) := by
    intro b hb
    obtain ⟨hmem, hsafe⟩ := List.mem_filter.mp hb
    unfold declined
    rw [decide_eq_decide.mpr (straddles_iff (members_ne_nil h hmem hsafe)
      (contiguous_of_safe h hsolid hmem hsafe) hL), decide_not]
  refine ⟨?_, fun f => ?_⟩
  · rw [hs.all]
    exact tallied_congr hist hone
  · rw [hs.func f]
    exact tallied_congr hist fun b hb => hone b (List.mem_of_mem_filter hb)

theorem Straddle.Counts.matches {s : Straddle} {hist : Nat → Nat} {L' : Int}
    {bs' : List Bundle} {cov' : Finset Nat} {p : Profile}
    (hs : s.Counts hist L (bs.filter Bundle.safe)) (h : analyse insns L = .ok (bs, cov))
    (h' : analyse insns L' = .ok (bs', cov')) (hd : (insns.map Line.addr).Nodup)
    (hp : profile insns bs' hist = some p) : s.Matches p := by
  obtain ⟨p₁, hp₁, -, hexecs, hslots⟩ := profile_totals h' hd hist
  obtain ⟨p₂, hp₂, hfuncs⟩ := profile_funcs h' hd hist
  obtain rfl := Option.some.inj (hp.symm.trans hp₁)
  obtain rfl := Option.some.inj (hp.symm.trans hp₂)
  -- a safe bundle of the scan reads the same as the group it was cut from
  have hgroup : ∀ (g : Nat → Nat → Nat) (P : String → Bool),
      (((bs.filter Bundle.safe).filter fun b => P b.func).map
        fun b => g (hist b.hintAddr) b.members.length).sum
      = ((safeHints insns).map fun x =>
        if P x.1.func then g (hist x.1.addr) x.2.2.length else 0).sum := by
    intro g P
    rw [safe_bundles_eq h, List.filter_map, List.map_map]
    induction safeHints insns with
    | nil => rfl
    | cons x xs ih =>
      rw [Sweep.sum_filter_cons, ih, List.map_cons, List.sum_cons]
      simp only [Function.comp_apply, checkBundle_func, checkBundle_hintAddr,
        checkBundle_members]
      have hlen : (cut x).members.length = x.2.2.length := List.length_map _
      rw [hlen]
      rfl
  refine ⟨?_, ?_, fun f => ?_⟩
  · rw [hs.all, (tot_tallied _ _ _).1, hexecs]
    simpa using hgroup (fun n _ => n) fun _ => true
  · rw [hs.all, (tot_tallied _ _ _).2, hslots]
    simpa using hgroup (fun n k => n * k) fun _ => true
  · rw [hs.func f, (tot_tallied _ _ _).2, hfuncs f]
    simpa using hgroup (fun n k => n * k) fun g => decide (g = f)

end

/-- **Where no address is listed twice, both tools return and measure the same bundles, and the
verdicts on these are those of any other line size; where moreover the lines are contiguous,
declined are exactly the executions of the safe bundles that cross a line.** -/
theorem straddle_agrees {insns : List Line} (hd : (insns.map Line.addr).Nodup)
    (hist : Nat → Nat) {L : Int} (hL : 0 < L) :
    ∃ bs cov s bs' cov' p, analyse insns L = .ok (bs, cov) ∧ straddle bs hist L = .ok s
      ∧ analyse insns defaultIcacheLineBytes = .ok (bs', cov') ∧ profile insns bs' hist = some p
      ∧ (∀ L', 0 < L' → ∃ bs₁, analyse insns L' = .ok (bs₁, cov)
        ∧ bs₁.map Bundle.judged = bs.map Bundle.judged)
      ∧ s.Matches p
      ∧ ((∀ j, ¬ GapAt insns j) → s.DeclinesCrossing hist L bs) := by
  obtain ⟨⟨bs, cov⟩, h⟩ := analyse_returns insns (Int.ne_of_gt hL)
  obtain ⟨s, hs, hcounts⟩ := straddle_eq (fun b hb => members_ne_nil h hb) hist (Int.ne_of_gt hL)
  obtain ⟨⟨bs', cov'⟩, h'⟩ := analyse_returns insns (L := defaultIcacheLineBytes) (by decide)
  obtain ⟨p, hp, -⟩ := profile_totals h' hd hist
  refine ⟨bs, cov, s, bs', cov', p, h, hs, h', hp, fun L' hL' => ?_, hcounts.matches h h' hd hp,
    hcounts.declinesCrossing h hL⟩
  obtain ⟨⟨bs₁, cov₁⟩, h₁⟩ := analyse_returns insns (Int.ne_of_gt hL')
  obtain ⟨hjudged, rfl⟩ := analyse_judged h h₁
  exact ⟨bs₁, h₁, hjudged⟩

/-- three runs of a bundle of ten bytes in lines of eight -/
theorem straddle_agrees_crossing : ∃ bs cov s, analyse (twoAddi 6) 8 = .ok (bs, cov)
    ∧ straddle bs (fun _ => 3) 8 = .ok s ∧ s.DeclinesCrossing (fun _ => 3) 8 bs := by
  have hd : ((twoAddi 6).map Line.addr).Nodup := by decide
  obtain ⟨bs, cov, s, -, -, -, h, hs, -, -, -, -, hcross⟩ :=
    straddle_agrees hd (fun _ => 3) (L := 8) (by decide)
  exact ⟨bs, cov, s, h, hs, hcross twoAddi_solid⟩

end Starbug
