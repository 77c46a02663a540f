import Starbug.Core.Compiled

/-!
# Linking

A program is linked from functions that the pass left without an override and for at most four
lanes, from verified listings, and from code without HINTs, each taken on its own.

`linked_runs_as_stock`: if the addresses are distinct, the program needs no check of its own, and it
runs on the STARBUG core as it runs on a stock core, from one object into another and back.
-/

namespace Starbug
open Vliw

/-! ## what a report says, whatever the line size -/

structure Sound (insns : List Line) : Prop where
  accepted : ∀ x ∈ hints insns, Accepted (cut x)
  contiguous : ∀ x ∈ hints insns, (cut x).Contiguous
  lane0 : ∀ x ∈ hints insns, ∀ i ∈ (cut x).members.head?, i.cls ∉ steering
  swept : ∀ l ∈ insns, ∀ n, l.hint = some n → n ≤ maxBundle → ∃ x ∈ hints insns, x.1.addr = l.addr

section
variable {insns : List Line} {L : Int} {bs : List Bundle} {cov : Finset Nat}

theorem checkBundle_contiguous (b : Bundle) (L : Int) :
    (checkBundle b L).1.Contiguous ↔ b.Contiguous := by
  unfold Bundle.Contiguous
  rw [checkBundle_hintAddr, checkBundle_members]

theorem Verified.sound (hv : Verified insns bs) (h : analyse insns L = .ok (bs, cov)) :
    Sound insns := by
  have hmem : ∀ x ∈ hints insns, (checkBundle (cut x) L).1 ∈ bs := by
    intro x hx
    rw [analyse_eq h]
    exact List.mem_map_of_mem hx
  constructor
  case accepted => exact fun x hx => ((checkBundle_errors_iff _ L).mp (hv.safe _ (hmem x hx))).2
  case contiguous => exact fun x hx => (checkBundle_contiguous _ L).mp (hv.contiguous _ (hmem x hx))
  case lane0 =>
    intro x hx i hi
    apply hv.lane0 _ (hmem x hx) i
    rw [checkBundle_members]
    exact hi
  case swept =>
    intro l hl n hn hmax
    obtain ⟨b, hb, haddr⟩ := hv.swept l hl n hn hmax
    rw [analyse_eq h] at hb
    obtain ⟨x, hx, rfl⟩ := List.mem_map.mp hb
    rw [checkBundle_hintAddr] at haddr
    exact ⟨x, hx, haddr⟩

theorem Sound.verified (hs : Sound insns) (hd : (insns.map Line.addr).Nodup)
    (h : analyse insns L = .ok (bs, cov)) : Verified insns bs := by
  have hmem : ∀ b ∈ bs, ∃ x ∈ hints insns, (checkBundle (cut x) L).1 = b := by
    intro b hb
    rw [analyse_eq h] at hb
    exact List.mem_map.mp hb
  constructor
  case addrs => exact hd
  case safe =>
    intro b hb
    obtain ⟨x, hx, rfl⟩ := hmem b hb
    exact (checkBundle_errors_iff _ L).mpr ⟨rfl, hs.accepted x hx⟩
  case contiguous =>
    intro b hb
    obtain ⟨x, hx, rfl⟩ := hmem b hb
    exact (checkBundle_contiguous _ L).mpr (hs.contiguous x hx)
  case lane0 =>
    intro b hb i hi
    obtain ⟨x, hx, rfl⟩ := hmem b hb
    rw [checkBundle_members] at hi
    exact hs.lane0 x hx i hi
  case swept =>
    intro l hl n hn hmax
    obtain ⟨x, hx, haddr⟩ := hs.swept l hl n hn hmax
    refine ⟨(checkBundle (cut x) L).1, ?_, ?_⟩
    · rw [analyse_eq h]
      exact List.mem_map_of_mem hx
    · rw [checkBundle_hintAddr]
      exact haddr

end

/-! ## one listing behind another -/

section
variable {a b : List Line}

/-- an accepted bundle is complete, so none reaches into what is linked behind it -/
theorem Sound.hints_append (ha : Sound a) (b : List Line) :
    hints (a ++ b) = hints a ++ hints b := by
  apply Sweep.headers_append Line.hint (Nat.zero_le _)
  intro x hx
  have hlen := (ha.accepted x hx).complete
  rw [show (cut x).members = x.2.2.map Line.decode from rfl, List.length_map] at hlen
  exact hlen

theorem Sound.append (ha : Sound a) (hb : Sound b) : Sound (a ++ b) := by
  have happ := ha.hints_append b
  constructor
  case accepted =>
    rw [happ]
    exact List.forall_mem_append.mpr ⟨ha.accepted, hb.accepted⟩
  case contiguous =>
    rw [happ]
    exact List.forall_mem_append.mpr ⟨ha.contiguous, hb.contiguous⟩
  case lane0 =>
    rw [happ]
    exact List.forall_mem_append.mpr ⟨ha.lane0, hb.lane0⟩
  case swept =>
    rw [happ]
    intro l hl n hn hmax
    rcases List.mem_append.mp hl with hl | hl
    · obtain ⟨x, hx, haddr⟩ := ha.swept l hl n hn hmax
      exact ⟨x, List.mem_append_left _ hx, haddr⟩
    · obtain ⟨x, hx, haddr⟩ := hb.swept l hl n hn hmax
      exact ⟨x, List.mem_append_right _ hx, haddr⟩

theorem sound_of_plain {insns : List Line} (h : ∀ l ∈ insns, l.hint = none) : Sound insns := by
  have hnone : hints insns = [] := by
    unfold hints
    induction insns with
    | nil => rfl
    | cons l insns ih =>
      obtain ⟨hl, hrest⟩ := List.forall_mem_cons.mp h
      rw [Sweep.headers_cons_none _ hl]
      exact ih hrest
  constructor
  case swept =>
    intro l hl n hn
    rw [h l hl] at hn
    cases hn
  all_goals
    rw [hnone]
    exact fun x hx => absurd hx List.not_mem_nil

end

/-! ## programs -/

/-- what a program is linked from: `checked` needs all that `Verified` says, not an exit status, and
`compiled` has the default lanes, at most four of them -/
inductive Object : List Line → Prop
  | plain {insns : List Line} : (∀ l ∈ insns, l.hint = none) → Object insns
  | checked {insns : List Line} {L : Int} {bs : List Bundle} {cov : Finset Nat} :
      analyse insns L = .ok (bs, cov) → Verified insns bs → Object insns
  | compiled {enc : Encoder} {num : Nat → Nat} {opts : CommandLine} {cfg : StarbugVLIWConfig}
      {mf : MachineFunction} {addr : Nat} : opts.laneOpClasses = [] → opts.lanes ≤ 4 →
      Returns opts cfg → Function.Injective num →
      (∀ block ∈ mf.blocks, ∀ m ∈ block, Assembles enc num m) →
      Object (enc.lower addr (runOnMachineFunction cfg mf).1.flatten)

theorem Object.sound {insns : List Line} (h : Object insns) : Sound insns := by
  cases h with
  | plain hplain => exact sound_of_plain hplain
  | checked hscan hv => exact hv.sound hscan
  | @compiled enc num opts cfg mf addr ho h4 hr hinj hasm =>
    obtain ⟨⟨bs, cov⟩, hscan⟩ := analyse_returns
      (enc.lower addr (runOnMachineFunction cfg mf).1.flatten)
      (L := defaultIcacheLineBytes) (by decide)
    exact (verified_runOnMachineFunction ho h4 hr hinj hasm addr hscan).sound hscan

theorem sound_flatten {objs : List (List Line)} (h : ∀ o ∈ objs, Object o) :
    Sound objs.flatten := by
  induction objs with
  | nil => exact sound_of_plain fun l hl => absurd hl List.not_mem_nil
  | cons o objs ih =>
    obtain ⟨ho, hobjs⟩ := List.forall_mem_cons.mp h
    rw [List.flatten_cons]
    exact ho.sound.append (ih hobjs)

/-- **A program that is linked at distinct addresses, from functions that the pass left for at most
four lanes, verified listings, and code without HINTs: it is verified by its own report, and it runs
on the STARBUG core as on a stock core, whatever the fetch unit decides and wherever control enters
it.** -/
theorem linked_runs_as_stock {V M : Type*} {objs : List (List Line)} (h : ∀ o ∈ objs, Object o)
    (hd : (objs.flatten.map Line.addr).Nodup) (H : Hart V M)
    (takes : List Slot → Core V M → Bool) (c : Core V M) :
    (∀ L bs cov, analyse objs.flatten L = .ok (bs, cov) → Verified objs.flatten bs)
    ∧ RunsAsStock H objs.flatten takes c := by
  have hs := sound_flatten h
  refine ⟨fun L bs cov hscan => hs.verified hd hscan, ?_⟩
  obtain ⟨⟨bs, cov⟩, hscan⟩ := analyse_returns objs.flatten (L := defaultIcacheLineBytes) (by decide)
  exact (hs.verified hd hscan).runsAsStock hscan takes c

/-! ## two functions and an instruction between them -/

def linkedLwAdd (opts : CommandLine) : List (List Line) :=
  [twoAddi 6, [⟨10, 0x00100293, 4, "", ""⟩], lwAddEncoder.lower 0x80000000
    (runOnMachineFunction (baseConfig opts) ⟨true, false, [lwAdd]⟩).1.flatten]

theorem linkedLwAdd_objects : ∀ o ∈ linkedLwAdd {}, Object o := by
  obtain ⟨⟨bs, cov⟩, h⟩ := analyse_returns (twoAddi 6) (L := 64) (by decide)
  refine List.forall_mem_cons.mpr ⟨.checked h (twoAddi_verified h), ?_⟩
  refine List.forall_mem_cons.mpr ⟨.plain (by decide), ?_⟩
  refine List.forall_mem_singleton.mpr (.compiled rfl (by decide)
    ((returns_iff_of_empty rfl _).mpr rfl) regNumber_injective fun block hb => ?_)
  obtain rfl := List.mem_singleton.mp hb
  exact lwAdd_assembles

theorem linked_runs_as_stock_lwAdd :
    RunsAsStock addiHart (linkedLwAdd {}).flatten (fun h _ => h.isEmpty) addiStart :=
  (linked_runs_as_stock linkedLwAdd_objects (by decide) addiHart _ addiStart).2

end Starbug
