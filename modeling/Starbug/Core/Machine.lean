import Starbug.Check.Analyse
import Starbug.Check.Issue
import Starbug.Check.Steer
import Starbug.Lib.Simulation

/-!
# The core that runs a listing (`docs/HARDWARE_CONTRACT.md`)

The bundle checker is there for one thing: a binary that it passes runs on the STARBUG core as it
runs on a stock RV32C core.  Both cores are here, over the listing that the checker read.

* `stock`   fetches the line at the PC and executes it, HINTs included (section 1);
* `Step`    one issue of the STARBUG core.  At a HINT of a legal length the fetch unit extracts
            the lines behind it, byte after byte (section 2), and issues them at once (sections 3
            and 4), or it declines and goes on scalar behind the two bytes of the HINT (sections
            4.1 and 5).  Whether it declines is a parameter, and may depend on all it did before.

What an instruction does is the parameter `Hart`: it obeys the register sets and the class of the
decoder, and only the classes of `steering` redirect the PC or write `fcsr`; so no load or store
faults and no word is illegal.  It reads no counter of cycles, which the two cores would answer
differently.  A run ends where the PC is not the address of a line.

`Verified` is what a report of the checker says about a listing.  For it, `core_traces_stock` and
`core_halts_with_stock` compare whole runs, from every state and through every branch.
-/

namespace Starbug
open Footprint

section
variable {V M : Type*}

/-! ## harts -/

@[ext] structure Core (V M : Type*) where
  pc : Nat
  arch : State Nat V M
  frm : BitVec 3
  fflags : BitVec 5

/-- what instructions do: a system instruction may depend on all of `fcsr` and write it, any other
one depends on the rounding mode and raises `flags` -/
structure Hart (V M : Type*) where
  effect : BitVec 3 → ∀ i : Insn, Effect V M i
  system : BitVec 3 → BitVec 5 → ∀ i : Insn, Effect V M i
  redirect : Insn → Core V M → Option Nat
  fcsr : Insn → Core V M → BitVec 3 × BitVec 5
  flags : BitVec 3 → Insn → (Nat → V) → BitVec 5
  flags_local : ∀ rm i s t, (∀ r ∈ i.reads, s r = t r) → flags rm i s = flags rm i t
  flags_int : ∀ rm i s, i.cls ≠ .fpu → i.cls ≠ .fpdiv → flags rm i s = 0

variable (H : Hart V M)

def Hart.act (c : Core V M) (i : Insn) : Effect V M i :=
  if i.cls = .system then H.system c.frm c.fflags i else H.effect c.frm i

def Hart.frm (i : Insn) (c : Core V M) : BitVec 3 :=
  if i.cls = .system then (H.fcsr i c).1 else c.frm

def Hart.fflags (i : Insn) (c : Core V M) : BitVec 5 :=
  if i.cls = .system then (H.fcsr i c).2 else c.fflags ||| H.flags c.frm i c.arch.regs

def Hart.branch (i : Insn) (c : Core V M) : Option Nat :=
  if i.cls ∈ steering then H.redirect i c else none

/-- one instruction alone -/
def Hart.exec (c : Core V M) (i : Insn) : Core V M where
  pc := (H.branch i c).getD (i.addr + i.size)
  arch := (H.act c i).run i.addr c.arch
  frm := H.frm i c
  fflags := H.fflags i c

/-- the flags that the instructions `is` raise in one state, ORed -/
def Hart.accrued (is : List Insn) (rm : BitVec 3) (regs : Nat → V) : BitVec 5 :=
  is.foldr (fun i a => H.flags rm i regs ||| a) 0

def Hart.interp (c : Core V M) (is : List Insn) : Interp V M is := fun k => H.act c (is.get k)

/-- `i` in lane 0 and `ws` in the workers, all at once; `stop` is the address behind them.  The
workers are fed some PC and commit whatever lane 0 does, and the flags of all lanes are ORed.  What
becomes of the flags beside a system instruction in lane 0 the contract does not say. -/
structure Hart.Issued (i : Insn) (ws : List Insn) (stop : Nat) (c c' : Core V M) : Prop where
  arch : ∃ pcE, Issue (lanes (H.interp c (i :: ws)) pcE) c.arch c'.arch
  frm : c'.frm = H.frm i c
  fflags : i.cls ≠ .system → c'.fflags = c.fflags ||| H.accrued (i :: ws) c.frm c.arch.regs
  pc : c'.pc = (H.branch i c).getD stop

/-! ## fetching -/

variable (insns : List Line)

def fetch (pc : Nat) : Option Line := insns.find? fun l => l.addr == pc

/-- the extractor: `n` instructions that lie one behind the other from `a` on -/
def extract : Nat → Nat → Option (List Line)
  | _, 0 => some []
  | a, n + 1 => (fetch insns a).bind fun l => (extract (a + wordLength l.word) n).map (l :: ·)

/-- the members of the bundle that the line `l` may form: `1 ≤ imm_c ≤ 4`, and all of them there -/
def formed (l : Line) : Option (List Line) :=
  l.hint.bind fun n => if n ≤ maxBundle then extract insns (l.addr + 2) n else none

def stopOf (a : Nat) (ms : List Line) : Nat := a + (ms.map fun l => wordLength l.word).sum

/-! ## the two cores -/

def stock (c : Core V M) : Option (Line × Core V M) :=
  (fetch insns c.pc).map fun l => (l, H.exec c l.decode)

/-- one issue of the STARBUG core, with the lines that it issues -/
inductive Slot where
  | alone (l : Line)
  | bundle (l : Line) (ms : List Line)
  deriving DecidableEq

def Slot.lines : Slot → List Line
  | .alone l => [l]
  | .bundle l ms => l :: ms

/-- one step, where the fetch unit forms a bundle if it can and `take` lets it -/
inductive Step (take : Bool) (c : Core V M) : Slot → Core V M → Prop
  | alone {l : Line} : fetch insns c.pc = some l → (take = true → formed insns l = none) →
      Step take c (.alone l) (H.exec c l.decode)
  | bundle {l m : Line} {ws : List Line} {c' : Core V M} : fetch insns c.pc = some l →
      take = true → formed insns l = some (m :: ws) →
      H.Issued m.decode (ws.map Line.decode) (stopOf (l.addr + 2) (m :: ws)) c c' →
      Step take c (.bundle l (m :: ws)) c'

/-- the STARBUG core under a policy that sees all it did before -/
def Steps (takes : List Slot → Core V M → Bool) (h : List Slot) (c : Core V M) (x : Slot)
    (c' : Core V M) : Prop := Step H insns (takes h c) c x c'

/-! ## what the checker says -/

/-- a report without errors in which every bundle is contiguous and lane 0 does not steer, and
which has a bundle for every HINT that the fetch unit can take -/
structure Verified (bs : List Bundle) : Prop where
  addrs : (insns.map Line.addr).Nodup
  safe : ∀ b ∈ bs, b.errors = []
  contiguous : ∀ b ∈ bs, b.Contiguous
  lane0 : ∀ b ∈ bs, ∀ i ∈ b.members.head?, i.cls ∉ steering
  swept : ∀ l ∈ insns, ∀ n, l.hint = some n → n ≤ maxBundle → ∃ b ∈ bs, b.hintAddr = l.addr

end

/-! ## fetching, looked up -/

section
variable {insns : List Line}

theorem fetch_spec {pc : Nat} {l : Line} (h : fetch insns pc = some l) :
    l ∈ insns ∧ l.addr = pc := by
  have hb : (l.addr == pc) = true := List.find?_some (p := fun l : Line => l.addr == pc) h
  exact ⟨List.mem_of_find?_eq_some h, beq_iff_eq.mp hb⟩

theorem eq_of_addr_eq (hd : (insns.map Line.addr).Nodup) {a b : Line} (ha : a ∈ insns)
    (hb : b ∈ insns) (h : a.addr = b.addr) : a = b :=
  List.inj_on_of_nodup_map hd ha hb h

theorem fetch_of_mem (hd : (insns.map Line.addr).Nodup) {l : Line} (hl : l ∈ insns) :
    fetch insns l.addr = some l := by
  cases hf : fetch insns l.addr with
  | none => exact absurd (beq_self_eq_true l.addr) (List.find?_eq_none.mp hf l hl)
  | some a =>
    obtain ⟨ha, haddr⟩ := fetch_spec hf
    rw [eq_of_addr_eq hd ha hl haddr]

theorem extract_cons {a n : Nat} {m : Line} {ws : List Line} :
    extract insns a (n + 1) = some (m :: ws)
      ↔ fetch insns a = some m ∧ extract insns (a + wordLength m.word) n = some ws := by
  rw [extract, Option.bind_eq_some_iff]
  constructor
  · rintro ⟨l, hl, hmap⟩
    obtain ⟨ws', hws, heq⟩ := Option.map_eq_some_iff.mp hmap
    obtain ⟨rfl, rfl⟩ := List.cons.inj heq
    exact ⟨hl, hws⟩
  · rintro ⟨hm, hws⟩
    exact ⟨m, hm, Option.map_eq_some_iff.mpr ⟨ws, hws, rfl⟩⟩

theorem extract_length {a n : Nat} {ms : List Line} (h : extract insns a n = some ms) :
    ms.length = n := by
  induction n generalizing a ms with
  | zero =>
    obtain rfl := Option.some.inj h
    rfl
  | succ n ih =>
    cases ms with
    | nil =>
      obtain ⟨l, -, hmap⟩ := Option.bind_eq_some_iff.mp h
      obtain ⟨ws, -, heq⟩ := Option.map_eq_some_iff.mp hmap
      cases heq
    | cons m ws => exact congrArg (· + 1) (ih (extract_cons.mp h).2)

/-- contiguous members are what the extractor finds -/
theorem extract_of_contiguous (hd : (insns.map Line.addr).Nodup) {a : Nat} {ms : List Line}
    (hms : ∀ m ∈ ms, m ∈ insns) (hc : ContiguousFrom a (ms.map Line.decode)) :
    extract insns a ms.length = some ms := by
  induction ms generalizing a with
  | nil => rfl
  | cons m ms ih =>
    obtain ⟨hm, hrest⟩ := hc
    have hma : m.addr = a := (decode_addr m.addr m.word m.text).symm.trans hm
    have hnext : m.decode.addr + m.decode.size = a + wordLength m.word := by
      rw [hm]
      exact congrArg (a + ·) (decode_size m.addr m.word m.text)
    rw [hnext] at hrest
    refine extract_cons.mpr ⟨?_, ih (fun x hx => hms x (List.mem_cons_of_mem m hx)) hrest⟩
    rw [← hma]
    exact fetch_of_mem hd (hms m List.mem_cons_self)

theorem formed_spec {l : Line} {ms : List Line} (h : formed insns l = some ms) :
    ∃ n, l.hint = some n ∧ n ≤ maxBundle ∧ extract insns (l.addr + 2) n = some ms := by
  obtain ⟨n, hn, hif⟩ := Option.bind_eq_some_iff.mp h
  obtain ⟨hmax, hext⟩ := Option.ite_none_right_eq_some.mp hif
  exact ⟨n, hn, hmax, hext⟩

/-- a bundle has at least one member -/
theorem exists_of_formed {l : Line} {ms : List Line} (h : formed insns l = some ms) :
    ∃ m ws, ms = m :: ws := by
  obtain ⟨n, hn, -, hext⟩ := formed_spec h
  have hpos := Line.hint_pos hn
  have hlen := extract_length hext
  exact List.exists_cons_of_length_pos (by omega)

/-! ## the bundle that is fetched is the bundle that was checked -/

/-- the sweep cut the members `ms` behind `l`, they form an accepted bundle, and no lane steers -/
structure Checked (insns : List Line) (l : Line) (ms : List Line) : Prop where
  accepted : ∃ n, (l, n, ms) ∈ hints insns ∧ Accepted (cut (l, n, ms))
  straight : ∀ m ∈ ms, m.decode.cls ∉ steering

theorem not_steering_of_worker {i : Insn} (h : i.isLane0Only = false) : i.cls ∉ steering := by
  unfold Insn.isLane0Only at h
  revert h
  cases i.cls <;> decide

theorem Verified.bundle {bs : List Bundle} {cov : Finset Nat} {L : Int} (hv : Verified insns bs)
    (h : analyse insns L = .ok (bs, cov)) {l : Line} (hl : l ∈ insns) {n : Nat}
    (hn : l.hint = some n) (hmax : n ≤ maxBundle) :
    ∃ k, (l, n, behind insns k n) ∈ hints insns
      ∧ (checkBundle (cut (l, n, behind insns k n)) L).1 ∈ bs := by
  obtain ⟨b, hb, haddr⟩ := hv.swept l hl n hn hmax
  have hb' := hb
  rw [analyse_eq h] at hb'
  obtain ⟨⟨l', n', ms⟩, hx, rfl⟩ := List.mem_map.mp hb'
  obtain ⟨k, hk, hn', rfl, -⟩ := mem_hints.mp hx
  rw [checkBundle_hintAddr] at haddr
  obtain rfl : l' = l := eq_of_addr_eq hv.addrs (List.mem_of_getElem? hk) hl haddr
  obtain rfl : n' = n := Option.some.inj (hn'.symm.trans hn)
  exact ⟨k, hx, hb⟩

theorem Verified.checked {bs : List Bundle} {cov : Finset Nat} {L : Int} (hv : Verified insns bs)
    (h : analyse insns L = .ok (bs, cov)) {l : Line} (hl : l ∈ insns) {ms : List Line}
    (hf : formed insns l = some ms) : Checked insns l ms := by
  obtain ⟨n, hn, hmax, hext⟩ := formed_spec hf
  obtain ⟨k, hx, hb⟩ := hv.bundle h hl hn hmax
  have hacc := ((checkBundle_errors_iff _ L).mp (hv.safe _ hb)).2
  have hlen : n ≤ (behind insns k n).length := (accepted_cut.mp hacc).2.1
  have hcont := hv.contiguous _ hb
  unfold Bundle.Contiguous at hcont
  rw [checkBundle_hintAddr, checkBundle_members] at hcont
  -- the lines behind the HINT in the listing are those the extractor meets in memory
  have hext' : extract insns (l.addr + 2) (behind insns k n).length = some (behind insns k n) :=
    extract_of_contiguous hv.addrs
      (fun m hm => List.mem_of_mem_drop (List.mem_of_mem_take hm)) hcont
  have heq : (behind insns k n).length = n := Nat.le_antisymm (List.length_take_le _ _) hlen
  rw [heq] at hext'
  obtain rfl : behind insns k n = ms := Option.some.inj (hext'.symm.trans hext)
  refine ⟨⟨n, hx, hacc⟩, ?_⟩
  have hlane0 := hv.lane0 _ hb
  rw [checkBundle_members] at hlane0
  obtain ⟨m, ws, hms⟩ := exists_of_formed hf
  intro x hx
  rw [hms] at hx
  rcases List.mem_cons.mp hx with rfl | hx
  · apply hlane0
    show x.decode ∈ ((behind insns k n).map Line.decode).head?
    rw [hms]
    exact Option.mem_some_self _
  · apply not_steering_of_worker
    apply hacc.workers
    show x.decode ∈ ((behind insns k n).map Line.decode).tail
    rw [hms]
    exact List.mem_map_of_mem hx

end

/-! ## one instruction that does not steer -/

section
variable {V M : Type*} {H : Hart V M} {insns : List Line}

theorem not_system {i : Insn} (h : i.cls ∉ steering) : i.cls ≠ .system := fun hs =>
  h (hs ▸ by decide)

theorem Hart.exec_straight {i : Insn} (h : i.cls ∉ steering) (c : Core V M) :
    H.exec c i = { pc := i.addr + i.size
                   arch := (H.effect c.frm i).run i.addr c.arch
                   frm := c.frm
                   fflags := c.fflags ||| H.flags c.frm i c.arch.regs } := by
  unfold Hart.exec Hart.branch Hart.act Hart.frm Hart.fflags
  rw [if_neg h, if_neg (not_system h), if_neg (not_system h), if_neg (not_system h)]
  rfl

/-- a HINT reads nothing and writes nothing -/
theorem decode_hint {l : Line} {n : Nat} (h : l.hint = some n) :
    l.decode.cls = .alu ∧ l.decode.writes = ∅ := by
  unfold Line.hint at h
  obtain ⟨-, h⟩ := Option.ite_none_right_eq_some.mp h
  unfold hintLength at h
  split_ifs at h with h1 h2 h3 h4
  have h1' : l.word &&& 3 = 1 := not_not.mp h1
  have h2' : (l.word >>> 13) &&& 7 = 2 := not_not.mp h2
  have h3' : (l.word >>> 7) &&& 0x1F = 0 := not_not.mp h3
  have hc : isCompressed l.word = true := by
    simp [isCompressed, h1']
  have m1 : (l.word &&& 0xFFFF) &&& 3 = 1 := by
    rw [Nat.and_assoc]
    exact h1'
  have m2 : ((l.word &&& 0xFFFF) >>> 13) &&& 7 = 2 := by
    rw [Nat.shiftRight_and_distrib, Nat.and_assoc]
    exact h2'
  have m3 : ((l.word &&& 0xFFFF) >>> 7) &&& 0x1F = 0 := by
    rw [Nat.shiftRight_and_distrib, Nat.and_assoc]
    exact h3'
  have hd : decode16 l.addr (l.word &&& 0xFFFF)
      = .init l.addr (l.word &&& 0xFFFF) 2 .alu [] [0] := by
    simp [decode16, m1, m2, m3]
  unfold Line.decode Starbug.decode
  rw [if_pos hc, hd]
  exact ⟨rfl, rfl⟩

/-- **A HINT is a NOP on the stock core.** -/
theorem Hart.exec_hint {l : Line} {n : Nat} (h : l.hint = some n) (c : Core V M) :
    H.exec c l.decode = { c with pc := l.addr + 2 } := by
  obtain ⟨hcls, hw⟩ := decode_hint h
  have hs : l.decode.cls ∉ steering := by
    rw [hcls]
    decide
  have hlsu : l.decode.usesLsu = false := by
    unfold Insn.usesLsu
    rw [hcls]
    decide
  have hsize : l.decode.size = 2 := (decode_size _ _ _).trans (wordLength_of_hint h)
  have harch : (H.effect c.frm l.decode).run l.decode.addr c.arch = c.arch := by
    apply State.ext
    · funext r
      apply (H.effect c.frm l.decode).frame
      rw [hw]
      exact Finset.notMem_empty r
    · exact (H.effect c.frm l.decode).mem_frame hlsu _ _
  have hflags : H.flags c.frm l.decode c.arch.regs = 0#5 := by
    apply H.flags_int
    · rw [hcls]
      decide
    · rw [hcls]
      decide
  rw [Hart.exec_straight hs, harch, hflags, hsize, BitVec.or_zero]
  rw [show l.decode.addr = l.addr from decode_addr _ _ _]

/-! ## a bundle, one instruction after the other -/

/-- the instructions as operations under one rounding mode -/
def Hart.ops (H : Hart V M) (rm : BitVec 3) (is : List Insn) : List (Op Nat V M) :=
  is.map fun i => (H.effect rm i).op i.addr

theorem Hart.program_interp {is : List Insn} (h : ∀ i ∈ is, i.cls ∉ steering) (c : Core V M) :
    program (H.interp c is) = H.ops c.frm is := by
  have hact : ∀ k : Fin is.length, (H.interp c is k).op (is.get k).addr
      = (H.effect c.frm (is.get k)).op (is.get k).addr := by
    intro k
    have hk := h _ (List.get_mem is k)
    unfold Hart.interp Hart.act
    rw [if_neg (not_system hk)]
  unfold program Hart.ops
  rw [funext hact]
  conv_rhs => rw [← List.ofFn_get is, List.map_ofFn]
  rfl

/-- an instruction before an independent one that is no memory operation leaves its flags alone -/
theorem Hart.flags_run {i j : Insn} (h : RegIndependent i j) (rm : BitVec 3) (pc : Nat)
    (s : State Nat V M) :
    H.flags rm j ((H.effect rm i).run pc s).regs = H.flags rm j s.regs := by
  apply H.flags_local
  intro r hr
  exact (H.effect rm i).frame pc s r fun hw => Finset.disjoint_left.mp h.raw hw hr

/-- independent members that do not steer, one after the other: the rounding mode stays, and the
flags are those that all of them raise in the first state -/
theorem Hart.foldl_exec {is : List Insn} (hs : ∀ i ∈ is, i.cls ∉ steering)
    (hp : is.Pairwise RegIndependent) (c : Core V M) :
    is.foldl H.exec c = { pc := (is.getLast?.map fun i => i.addr + i.size).getD c.pc
                          arch := seq (H.ops c.frm is) c.arch
                          frm := c.frm
                          fflags := c.fflags ||| H.accrued is c.frm c.arch.regs } := by
  induction is generalizing c with
  | nil =>
    show c = { pc := c.pc, arch := c.arch, frm := c.frm, fflags := c.fflags ||| 0#5 }
    rw [BitVec.or_zero]
  | cons i is ih =>
    obtain ⟨hi, hrest⟩ := List.pairwise_cons.mp hp
    have hflags : H.accrued is c.frm ((H.effect c.frm i).run i.addr c.arch).regs
        = H.accrued is c.frm c.arch.regs :=
      List.foldr_ext _ _ _ fun j hj a => by rw [Hart.flags_run (hi j hj)]
    rw [List.foldl_cons, Hart.exec_straight (hs i List.mem_cons_self),
      ih (fun j hj => hs j (List.mem_cons_of_mem i hj)) hrest]
    apply Core.ext
    · show _ = (((i :: is).getLast?).map fun i => i.addr + i.size).getD c.pc
      rw [List.getLast?_cons]
      cases is.getLast? with
      | none => rfl
      | some j => rfl
    · rfl
    · rfl
    · show (c.fflags ||| H.flags c.frm i c.arch.regs) ||| H.accrued is c.frm _
        = c.fflags ||| (H.flags c.frm i c.arch.regs ||| H.accrued is c.frm c.arch.regs)
      rw [hflags, BitVec.or_assoc]

theorem stopOf_cons (a : Nat) (m : Line) (ms : List Line) :
    stopOf a (m :: ms) = stopOf (a + wordLength m.word) ms := by
  unfold stopOf
  rw [List.map_cons, List.sum_cons, Nat.add_assoc]

/-- the stock core runs extracted lines that do not steer one behind the other -/
theorem trace_extract {ms : List Line} (hs : ∀ m ∈ ms, m.decode.cls ∉ steering) {a n : Nat}
    (h : extract insns a n = some ms) (c : Core V M) (hc : c.pc = a) :
    Simulation.Trace (stock H insns) c ms ((ms.map Line.decode).foldl H.exec c)
      ∧ ((ms.map Line.decode).foldl H.exec c).pc = stopOf a ms := by
  induction ms generalizing a n c with
  | nil => exact ⟨(rfl : c = c), hc⟩
  | cons m ms ih =>
    obtain ⟨n, rfl⟩ : ∃ n', n = n' + 1 :=
      Nat.exists_eq_succ_of_ne_zero fun h0 => by
        have hlen := extract_length h
        rw [h0] at hlen
        cases hlen
    obtain ⟨hm, hrest⟩ := extract_cons.mp h
    have hpc : (H.exec c m.decode).pc = a + wordLength m.word := by
      rw [Hart.exec_straight (hs m List.mem_cons_self)]
      show m.decode.addr + m.decode.size = _
      rw [show m.decode.addr = m.addr from decode_addr _ _ _,
        show m.decode.size = wordLength m.word from decode_size _ _ _, (fetch_spec hm).2]
    obtain ⟨htrace, hstop⟩ := ih (fun x hx => hs x (List.mem_cons_of_mem m hx)) hrest _ hpc
    have hone : stock H insns c = some (m, H.exec c m.decode) := by
      unfold stock
      rw [hc, hm]
      rfl
    exact ⟨⟨_, hone, htrace⟩, hstop.trans (stopOf_cons a m ms).symm⟩

/-! ## one issue -/

theorem Checked.hint {l : Line} {ms : List Line} (hk : Checked insns l ms) :
    ∃ n, l.hint = some n := by
  obtain ⟨n, hx, -⟩ := hk.accepted
  obtain ⟨k, -, hn, -⟩ := mem_hints.mp hx
  exact ⟨n, hn⟩

/-- a checked bundle issued at once: its HINT and its members ran one after the other -/
theorem Checked.issued_iff {l m : Line} {ws : List Line} (hk : Checked insns l (m :: ws))
    (hf : formed insns l = some (m :: ws)) (c c' : Core V M) :
    H.Issued m.decode (ws.map Line.decode) (stopOf (l.addr + 2) (m :: ws)) c c'
      ↔ c' = ((m :: ws).map Line.decode).foldl H.exec (H.exec c l.decode) := by
  obtain ⟨n, -, hacc⟩ := hk.accepted
  obtain ⟨n₀, hn⟩ := hk.hint
  obtain ⟨n', -, -, hext⟩ := formed_spec hf
  have hs : ∀ i ∈ (m :: ws).map Line.decode, i.cls ∉ steering := by
    intro i hi
    obtain ⟨x, hx, rfl⟩ := List.mem_map.mp hi
    exact hk.straight x hx
  have hp : ((m :: ws).map Line.decode).Pairwise RegIndependent := hacc.pairs
  have herr : (checkBundle (cut (l, n, m :: ws)) 64).1.errors = [] :=
    (checkBundle_errors_iff _ 64).mpr ⟨rfl, hacc⟩
  have hm := hs m.decode List.mem_cons_self
  have hstop := (trace_extract (H := H) hk.straight hext { c with pc := l.addr + 2 } rfl).2
  have harch : ∀ pcE, Issue (lanes (H.interp c (m.decode :: ws.map Line.decode)) pcE) c.arch c'.arch
      ↔ c'.arch = seq (H.ops c.frm ((m :: ws).map Line.decode)) c.arch := by
    intro pcE
    rw [← Hart.program_interp hs c]
    exact issue_iff_program herr (H.interp c ((m :: ws).map Line.decode)) pcE c.arch c'.arch
  have hfrm : H.frm m.decode c = c.frm := if_neg (not_system hm)
  have hbr : H.branch m.decode c = none := if_neg hm
  rw [Hart.exec_hint hn]
  rw [Hart.foldl_exec hs hp] at hstop ⊢
  constructor
  · rintro ⟨⟨pcE, ha⟩, h1, h2, h3⟩
    rw [hbr] at h3
    exact Core.ext (h3.trans hstop.symm) ((harch pcE).mp ha) (h1.trans hfrm)
      (h2 (not_system hm))
  · rintro rfl
    refine ⟨⟨0, (harch 0).mpr rfl⟩, hfrm.symm, fun _ => rfl, ?_⟩
    rw [hbr]
    exact hstop

/-! ## runs -/

variable {bs : List Bundle} {cov : Finset Nat} {L : Int}

/-- one issue of the STARBUG core is a run of the stock core, and nothing in it is left open -/
theorem Verified.coarse (hv : Verified insns bs) (h : analyse insns L = .ok (bs, cov))
    (takes : List Slot → Core V M → Bool) :
    Simulation.Coarse (stock H insns) Slot.lines (Steps H insns takes) := by
  have hone : ∀ {c : Core V M} {l : Line}, fetch insns c.pc = some l →
      stock H insns c = some (l, H.exec c l.decode) := by
    intro c l hl
    unfold stock
    rw [hl]
    rfl
  constructor
  case sound =>
    rintro hist c x c' (⟨hl, -⟩ | ⟨hl, -, hf, hi⟩)
    case alone l => exact ⟨List.cons_ne_nil _ _, _, hone hl, rfl⟩
    case bundle l m ws =>
      have hk := hv.checked h (fetch_spec hl).1 hf
      obtain ⟨n, hn⟩ := hk.hint
      obtain ⟨n', -, -, hext⟩ := formed_spec hf
      have hpc : (H.exec c l.decode).pc = l.addr + 2 := by rw [Hart.exec_hint hn]
      obtain rfl := (hk.issued_iff hf c c').mp hi
      exact ⟨List.cons_ne_nil _ _, _, hone hl, (trace_extract hk.straight hext _ hpc).1⟩
  case total =>
    intro hist c hne
    obtain ⟨⟨l, c₁⟩, hs⟩ := Option.ne_none_iff_exists'.mp hne
    obtain ⟨l, hl, -⟩ := Option.map_eq_some_iff.mp hs
    by_cases hform : takes hist c = true ∧ ∃ ms, formed insns l = some ms
    · obtain ⟨ht, ms, hf⟩ := hform
      obtain ⟨m, ws, rfl⟩ := exists_of_formed hf
      have hk := hv.checked h (fetch_spec hl).1 hf
      exact ⟨_, _, .bundle hl ht hf ((hk.issued_iff hf c _).mpr rfl)⟩
    · refine ⟨_, _, .alone hl fun ht => ?_⟩
      cases hf : formed insns l with
      | none => rfl
      | some ms => exact absurd ⟨ht, ms, hf⟩ hform
  case functional =>
    rintro hist c x c' y c'' (⟨hl, ht⟩ | ⟨hl, ht, hf, hi⟩) (⟨hl', ht'⟩ | ⟨hl', ht', hf', hi'⟩)
    case alone.alone =>
      obtain rfl := Option.some.inj (hl.symm.trans hl')
      exact ⟨rfl, rfl⟩
    case alone.bundle =>
      obtain rfl := Option.some.inj (hl.symm.trans hl')
      rw [ht ht'] at hf'
      cases hf'
    case bundle.alone =>
      obtain rfl := Option.some.inj (hl.symm.trans hl')
      rw [ht' ht] at hf
      cases hf
    case bundle.bundle =>
      obtain rfl := Option.some.inj (hl.symm.trans hl')
      obtain ⟨rfl, rfl⟩ := List.cons.inj (Option.some.inj (hf.symm.trans hf'))
      have hk := hv.checked h (fetch_spec hl).1 hf
      rw [(hk.issued_iff hf c c').mp hi, (hk.issued_iff hf c c'').mp hi']
      exact ⟨rfl, rfl⟩

/-- the STARBUG core against the stock core, from one state on -/
structure RunsAsStock (H : Hart V M) (insns : List Line) (takes : List Slot → Core V M → Bool)
    (c : Core V M) : Prop where
  traces : ∀ xs d, Simulation.Run (Steps H insns takes) c xs d →
    Simulation.Trace (stock H insns) c (xs.flatMap Slot.lines) d
  halts : ∀ w d, Simulation.Trace (stock H insns) c w d → fetch insns d.pc = none →
    ∃ xs, Simulation.Run (Steps H insns takes) c xs d ∧ xs.flatMap Slot.lines = w
      ∧ xs.length ≤ w.length
      ∧ ∀ ys e, Simulation.Run (Steps H insns takes) c ys e → ys <+: xs
  goes_on : (∀ n, ∃ w d, w.length = n ∧ Simulation.Trace (stock H insns) c w d) →
    ∀ n, ∃ xs d, xs.length = n ∧ Simulation.Run (Steps H insns takes) c xs d

theorem Verified.runsAsStock (hv : Verified insns bs) (h : analyse insns L = .ok (bs, cov))
    (takes : List Slot → Core V M → Bool) (c : Core V M) : RunsAsStock H insns takes c where
  traces := fun _ _ hr => (hv.coarse h takes).trace hr
  halts := by
    intro w d htrace hhalt
    apply (hv.coarse h takes).reaches htrace
    unfold stock
    rw [hhalt]
    rfl
  goes_on := fun hlong n => (hv.coarse h takes).goes_on hlong n

/-- **Over a verified listing a run of the STARBUG core, whatever the fetch unit decides, is the
run of the stock core over the same lines.** -/
theorem core_traces_stock (hv : Verified insns bs) (h : analyse insns L = .ok (bs, cov))
    (H : Hart V M) (takes : List Slot → Core V M → Bool) (c d : Core V M) (xs : List Slot)
    (hr : Simulation.Run (Steps H insns takes) c xs d) :
    Simulation.Trace (stock H insns) c (xs.flatMap Slot.lines) d :=
  (hv.runsAsStock h takes c).traces xs d hr

/-- **Over a verified listing the STARBUG core halts exactly where the stock core does.**  If the
stock core halts, the fetch unit cannot help but reach the same state over the same lines, in no
more steps, and no run of it leaves the way there; if the stock core runs for ever, so does it. -/
theorem core_halts_with_stock (hv : Verified insns bs) (h : analyse insns L = .ok (bs, cov))
    (H : Hart V M) (takes : List Slot → Core V M → Bool) (c : Core V M) :
    (∀ w d, Simulation.Trace (stock H insns) c w d → fetch insns d.pc = none →
      ∃ xs, Simulation.Run (Steps H insns takes) c xs d ∧ xs.flatMap Slot.lines = w
        ∧ xs.length ≤ w.length
        ∧ ∀ ys e, Simulation.Run (Steps H insns takes) c ys e → ys <+: xs)
    ∧ ((∀ n, ∃ w d, w.length = n ∧ Simulation.Trace (stock H insns) c w d) →
      ∀ n, ∃ xs d, xs.length = n ∧ Simulation.Run (Steps H insns takes) c xs d) :=
  ⟨(hv.runsAsStock h takes c).halts, (hv.runsAsStock h takes c).goes_on⟩

end

/-! ## two additions in a bundle -/

/-- any values, for the registers that `i` writes, computed from the registers it reads -/
def Effect.ofValue (i : Insn) (value : (Nat → Nat) → Nat → Nat) : Effect Nat Unit i where
  run _ s := { s with
    regs := fun r => if r ∈ i.writes then value (fun q => if q ∈ i.reads then s.regs q else 0) r
      else s.regs r }
  frame := fun _ _ _ hr => if_neg hr
  mem_frame := fun _ _ _ => rfl
  local_regs := fun _ s t hr _ r hw => by
    have hread : (fun q => if q ∈ i.reads then s.regs q else 0)
        = fun q => if q ∈ i.reads then t.regs q else 0 := by
      funext q
      exact ite_congr rfl (fun hq => hr q hq) fun _ => rfl
    simp only [if_pos hw, hread]
  local_mem := fun _ _ _ _ _ _ => rfl
  pc_free := fun _ _ _ => rfl

/-- a hart of which only `addi` is known -/
def addiHart : Hart Nat Unit where
  effect _ i := .ofValue i fun regs _ => regs ((i.word >>> 15) &&& 0x1F) + (i.word >>> 20)
  system _ _ i := .ofValue i fun _ _ => 0
  redirect _ _ := none
  fcsr _ c := (c.frm, c.fflags)
  flags _ _ _ := 0
  flags_local := fun _ _ _ _ _ => rfl
  flags_int := fun _ _ _ _ _ => rfl

def addiStart : Core Nat Unit := { pc := 0, arch := ⟨fun _ => 0, ()⟩, frm := 0, fflags := 0 }

def addiStop : Core Nat Unit :=
  ((twoAddi 6).map Line.decode).foldl addiHart.exec addiStart

theorem twoAddi_verified {bs : List Bundle} {cov : Finset Nat}
    (h : analyse (twoAddi 6) 64 = .ok (bs, cov)) : Verified (twoAddi 6) bs := by
  have hints_eq : hints (twoAddi 6)
      = [(⟨0, 0x4009, 2, "", ""⟩, 2, behind (twoAddi 6) 0 2)] := by decide
  obtain rfl : bs = _ := (analyse_eq h).trans (congrArg (List.map _) hints_eq)
  have hacc : Accepted (cut (⟨0, 0x4009, 2, "", ""⟩, 2, behind (twoAddi 6) 0 2)) := by decide
  constructor
  case addrs => decide
  case safe =>
    intro b hb
    obtain rfl := List.mem_singleton.mp hb
    exact (checkBundle_errors_iff _ 64).mpr ⟨rfl, hacc⟩
  case contiguous =>
    intro b hb
    obtain rfl := List.mem_singleton.mp hb
    exact (contiguous_cut rfl (by decide) (by decide) 64).mpr fun i _ => twoAddi_solid (0 + i)
  case lane0 =>
    intro b hb
    obtain rfl := List.mem_singleton.mp hb
    rw [checkBundle_members]
    decide
  case swept =>
    intro l hl n hn hmax
    refine ⟨_, List.mem_singleton_self _, ?_⟩
    rw [checkBundle_hintAddr]
    rcases List.mem_cons.mp hl with rfl | hl
    · rfl
    · have hnone : ∀ m ∈ (twoAddi 6).tail, m.hint = none := by decide
      rw [hnone l hl] at hn
      cases hn

theorem core_halts_with_stock_addi : ∃ xs,
    Simulation.Run (Steps addiHart (twoAddi 6) fun _ _ => true) addiStart xs addiStop
      ∧ xs.flatMap Slot.lines = twoAddi 6 ∧ xs.length ≤ 3
      ∧ ∀ ys e, Simulation.Run (Steps addiHart (twoAddi 6) fun _ _ => true) addiStart ys e →
        ys <+: xs := by
  obtain ⟨⟨bs, cov⟩, h⟩ := analyse_returns (twoAddi 6) (L := 64) (by decide)
  exact (core_halts_with_stock (twoAddi_verified h) h addiHart (fun _ _ => true) addiStart).1
    (twoAddi 6) addiStop ⟨_, rfl, _, rfl, _, rfl, rfl⟩ rfl

/-- the run that issues the bundle -/
theorem addi_run : Simulation.Run (Steps addiHart (twoAddi 6) fun _ _ => true) addiStart
    [.bundle ⟨0, 0x4009, 2, "", ""⟩ (twoAddi 6).tail] addiStop := by
  obtain ⟨⟨bs, cov⟩, h⟩ := analyse_returns (twoAddi 6) (L := 64) (by decide)
  have hf : formed (twoAddi 6) ⟨0, 0x4009, 2, "", ""⟩ = some (twoAddi 6).tail := rfl
  have hk := (twoAddi_verified h).checked h List.mem_cons_self hf
  have hstep : Step addiHart (twoAddi 6) true addiStart
      (.bundle ⟨0, 0x4009, 2, "", ""⟩ (twoAddi 6).tail) addiStop :=
    .bundle rfl rfl hf ((hk.issued_iff hf addiStart addiStop).mpr rfl)
  exact Simulation.Run.nil.snoc hstep

theorem core_traces_stock_addi :
    Simulation.Trace (stock addiHart (twoAddi 6)) addiStart (twoAddi 6) addiStop := by
  obtain ⟨⟨bs, cov⟩, h⟩ := analyse_returns (twoAddi 6) (L := 64) (by decide)
  exact core_traces_stock (twoAddi_verified h) h addiHart (fun _ _ => true) addiStart addiStop _
    addi_run

end Starbug
