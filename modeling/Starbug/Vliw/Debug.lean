import Starbug.Vliw.Groups

/-!
# Debug information and the packetizer

`Woven` is a block into which debug and meta instructions ("notes") were put; `withoutNotes` and
`withNotes` are the block before and after.  A note is not packetizable, so the loop flushes in
front of it.

* `notes_harmless_iff`   the hints are the same with and without the notes exactly if no note
                         stands between an open packet and an instruction that would join it.

The scan of the block with the notes is compared with that of the block without them, from the
same open packet (`sameHints_iff`): a note that meets no packet changes nothing, one that meets a
packet whose next instruction does not join closes it early (`groupsFrom_of_apart`), and any other
makes the first hint behind it shorter (`emit_ne_of_split`).
-/

namespace Starbug.Vliw

/-! ## notes -/

/-- the assembler emits no bytes for it -/
def MachineInstr.emitsNothing (mi : MachineInstr) : Bool :=
  mi.isDebugInstr || mi.isMetaInstruction

/-- an instruction of the block, or a debug or meta instruction put into it -/
inductive Woven where
  | own (mi : MachineInstr)
  | note (mi : MachineInstr) (silent : mi.emitsNothing = true)

def Woven.instr : Woven → MachineInstr
  | .own mi => mi
  | .note mi _ => mi

def Woven.own? : Woven → Option MachineInstr
  | .own mi => some mi
  | .note _ _ => none

def withNotes (xs : List Woven) : List MachineInstr := xs.map Woven.instr

def withoutNotes (xs : List Woven) : List MachineInstr := xs.filterMap Woven.own?

def Emitted.isVisible : Emitted → Bool
  | .hint _ => true
  | .inst mi => !mi.emitsNothing

/-- the block the pass leaves, without its debug and meta instructions -/
def eraseDebug (out : List Emitted) : List Emitted := out.filter Emitted.isVisible

/-! ## when a note does no harm -/

/-- the tests `mi` has to pass to be added to the packet that is open in `st` -/
def joins (cfg : StarbugVLIWConfig) (st : State) (mi : MachineInstr) : Bool :=
  isPacketizableMI mi
    && !hasPacketDependency mi.uses mi.defs st.packetUses st.packetDefs
    && decide (0 ≤ tryAssignLane cfg st.packetLanes (classifyOpClass mi))

/-- no note stands between an open packet and an instruction that would join it -/
def NotesApart (cfg : StarbugVLIWConfig) (xs : List Woven) : Prop :=
  ∀ pre d silent post, xs = pre ++ .note d silent :: post →
    (scanned cfg (withoutNotes pre)).packet = []
      ∨ ∀ mi ∈ (withoutNotes post).head?, joins cfg (scanned cfg (withoutNotes pre)) mi = false

section
variable {cfg : StarbugVLIWConfig}

/-! ## of packets instead of the locals -/

theorem joins_eq {st : State} {p : Packet} {k : Nat} (h : Holds st p k) (mi : MachineInstr) :
    joins cfg st mi = (join cfg p mi).isSome := by
  unfold joins join freeLane
  rw [h.uses, h.defs, h.lanes]
  by_cases hl : tryAssignLane cfg p.lanes (classifyOpClass mi) < 0
  · rw [decide_eq_false (Int.not_le.mpr hl), Bool.and_false, if_pos hl, Option.map_none]
    split_ifs <;> rfl
  · rw [decide_eq_true (Int.not_lt.mp hl), Bool.and_true, if_neg hl, Option.map_some]
    split_ifs with hc
    · exact hc
    · exact Bool.eq_false_iff.mpr hc

/-- `p` is not open, or the next instruction does not join it -/
def Apart (cfg : StarbugVLIWConfig) (p : Packet) (block : List MachineInstr) : Prop :=
  p.members = [] ∨ ∀ mi ∈ block.head?, join cfg p mi = none

/-- `NotesApart`, of the packets instead of the locals -/
def ApartFrom (cfg : StarbugVLIWConfig) (p : Packet) (xs : List Woven) : Prop :=
  ∀ pre d silent post, xs = pre ++ .note d silent :: post →
    Apart cfg (openAfter cfg p (withoutNotes pre)) (withoutNotes post)

theorem notesApart_iff (xs : List Woven) : NotesApart cfg xs ↔ ApartFrom cfg {} xs := by
  refine forall₅_congr fun pre d silent post _ => ?_
  obtain ⟨k, h⟩ := scanned_holds cfg (withoutNotes pre)
  have hp : (scanned cfg (withoutNotes pre)).packet = []
      ↔ (openAfter cfg {} (withoutNotes pre)).members = [] := by
    rw [← List.length_eq_zero_iff, ← List.length_eq_zero_iff]
    exact Eq.congr_left h.length
  refine or_congr hp (forall₂_congr fun mi _ => ?_)
  rw [joins_eq h, Option.isSome_eq_false_iff, Option.isNone_iff_eq_none]

theorem forall_note_cons {Q : List Woven → List Woven → Prop} {x : Woven} {xs : List Woven} :
    (∀ pre d silent post, x :: xs = pre ++ .note d silent :: post → Q pre post)
      ↔ (∀ d silent, x = .note d silent → Q [] xs)
        ∧ ∀ pre d silent post, xs = pre ++ .note d silent :: post → Q (x :: pre) post := by
  constructor
  · intro h
    refine ⟨?_, ?_⟩
    · rintro d silent rfl
      exact h [] d silent xs rfl
    · rintro pre d silent post rfl
      exact h (x :: pre) d silent post rfl
  · rintro ⟨h1, h2⟩ pre d silent post heq
    cases pre with
    | nil =>
      obtain ⟨hx, rfl⟩ := List.cons.inj heq
      exact h1 d silent hx
    | cons y pre =>
      obtain ⟨rfl, hxs⟩ := List.cons.inj heq
      exact h2 pre d silent post hxs

theorem apartFrom_nil (p : Packet) : ApartFrom cfg p [] := by
  intro pre d silent post h
  cases pre <;> cases h

theorem apartFrom_own (p : Packet) (mi : MachineInstr) (xs : List Woven) :
    ApartFrom cfg p (.own mi :: xs) ↔ ApartFrom cfg (groupStep cfg p mi).2 xs := by
  refine forall_note_cons.trans (and_iff_right ?_)
  intro d silent h
  cases h

theorem apartFrom_note (p : Packet) (d : MachineInstr) (silent : d.emitsNothing = true)
    (xs : List Woven) :
    ApartFrom cfg p (.note d silent :: xs)
      ↔ Apart cfg p (withoutNotes xs) ∧ ApartFrom cfg p xs := by
  refine forall_note_cons.trans (and_congr_left fun _ => ?_)
  exact ⟨fun h => h d silent rfl, fun h _ _ _ => h⟩

/-! ## a note that does no harm -/

theorem groupStep_empty (mi : MachineInstr) : groupStep cfg {} mi = restart cfg mi := by
  unfold groupStep restart
  cases join cfg {} mi <;> rfl

theorem Apart.groupStep_cons {p : Packet} {mi : MachineInstr} {rest : List MachineInstr}
    (h : Apart cfg p (mi :: rest)) :
    groupStep cfg p mi = (p.close ++ (groupStep cfg {} mi).1, (groupStep cfg {} mi).2) := by
  rcases h with h | h
  · rw [Packet.eq_empty h]
    rfl
  · rw [groupStep_empty]
    exact groupStep_of_join_none (h mi rfl)

/-- the packet may as well be closed at once -/
theorem Apart.groupsFrom_eq {p : Packet} {block : List MachineInstr} (h : Apart cfg p block) :
    groupsFrom cfg p block = p.close ++ groupsFrom cfg {} block := by
  cases block with
  | nil => exact (List.append_nil _).symm
  | cons mi rest => rw [groupsFrom, groupsFrom, h.groupStep_cons, List.append_assoc]

theorem Apart.apartFrom_iff {p : Packet} {xs : List Woven} (h : Apart cfg p (withoutNotes xs)) :
    ApartFrom cfg p xs ↔ ApartFrom cfg {} xs := by
  refine forall₅_congr fun pre d silent post hxs => ?_
  have hsplit : withoutNotes xs = withoutNotes pre ++ withoutNotes post := by
    rw [hxs]
    exact List.filterMap_append
  rw [hsplit] at h
  cases hpre : withoutNotes pre with
  | nil =>
    rw [hpre, List.nil_append] at h
    exact iff_of_true h (Or.inl rfl)
  | cons mi rest =>
    rw [hpre] at h
    show Apart cfg (openAfter cfg (groupStep cfg p mi).2 rest) _ ↔ _
    rw [h.groupStep_cons]
    rfl

/-! ## what is left when the notes are erased -/

def visible (cfg : StarbugVLIWConfig) (gs : List Group) : List Emitted :=
  eraseDebug (gs.flatMap (Group.emit cfg))

theorem visible_append (gs gs' : List Group) :
    visible cfg (gs ++ gs') = visible cfg gs ++ visible cfg gs' := by
  unfold visible eraseDebug
  rw [List.flatMap_append, List.filter_append]

theorem isPacketizableMI_of_emitsNothing {mi : MachineInstr} (h : mi.emitsNothing = true) :
    isPacketizableMI mi = false := by
  unfold MachineInstr.emitsNothing at h
  unfold isPacketizableMI
  rw [h]
  rfl

theorem emitsNothing_of_packetizable {mi : MachineInstr} (h : isPacketizableMI mi = true) :
    mi.emitsNothing = false := by
  rw [Bool.eq_false_iff]
  intro hmi
  rw [isPacketizableMI_of_emitsNothing hmi] at h
  cases h

/-- a note closes the open packet and leaves nothing -/
theorem visible_note (p : Packet) {d : MachineInstr} (silent : d.emitsNothing = true)
    (block : List MachineInstr) :
    visible cfg (groupsFrom cfg p (d :: block))
      = visible cfg p.close ++ visible cfg (groupsFrom cfg {} block) := by
  have hd := isPacketizableMI_of_emitsNothing silent
  have hbare : visible cfg [.bare d] = [] := by
    show eraseDebug [.inst d] = []
    simp [eraseDebug, Emitted.isVisible, silent]
  rw [groupsFrom, groupStep_of_join_none (join_of_not_packetizable hd), restart,
    join_of_not_packetizable hd, visible_append, visible_append, hbare, List.append_nil]

/-! ## a note that splits a packet -/

/-- a packet that is put down, at once or later, has at least the members it has now -/
theorem settle_packet {p : Packet} (hne : p.members ≠ []) {block : List MachineInstr}
    (h : ∃ q gs, groupsFrom cfg p block = .packet q :: gs
      ∧ p.members.length ≤ q.members.length) :
    ∃ q gs, (settle cfg p).1 ++ groupsFrom cfg (settle cfg p).2 block = .packet q :: gs
      ∧ p.members.length ≤ q.members.length := by
  unfold settle
  split_ifs
  · rw [p.close_eq hne]
    exact ⟨p, _, rfl, Nat.le_refl _⟩
  · exact h

theorem groupsFrom_packet {p : Packet} (hne : p.members ≠ []) (block : List MachineInstr) :
    ∃ q gs, groupsFrom cfg p block = .packet q :: gs
      ∧ p.members.length ≤ q.members.length := by
  induction block generalizing p with
  | nil => exact ⟨p, [], p.close_eq hne, Nat.le_refl _⟩
  | cons mi rest ih =>
    rw [groupsFrom]
    cases hj : join cfg p mi with
    | none =>
      rw [groupStep_of_join_none hj, p.close_eq hne]
      exact ⟨p, _, rfl, Nat.le_refl _⟩
    | some p' =>
      have hm := join_members hj
      have hne' : p'.members ≠ [] := by
        rw [hm]
        exact List.append_ne_nil_of_right_ne_nil _ (List.cons_ne_nil mi [])
      obtain ⟨q, gs, hq, hle⟩ := settle_packet hne' (ih hne')
      rw [groupStep, hj]
      refine ⟨q, gs, hq, Nat.le_trans ?_ hle⟩
      rw [hm, List.length_append]
      exact Nat.le_add_right _ _

theorem groupsFrom_join {p p' : Packet} {mi : MachineInstr} (hj : join cfg p mi = some p')
    (block : List MachineInstr) :
    ∃ q gs, groupsFrom cfg p (mi :: block) = .packet q :: gs
      ∧ p.members.length + 1 ≤ q.members.length := by
  have hm := join_members hj
  have hne : p'.members ≠ [] := by
    rw [hm]
    exact List.append_ne_nil_of_right_ne_nil _ (List.cons_ne_nil mi [])
  have hlater : ∃ q gs, groupsFrom cfg p' block = .packet q :: gs
      ∧ p'.members.length ≤ q.members.length := groupsFrom_packet hne block
  obtain ⟨q, gs, hq, hle⟩ := settle_packet hne hlater
  rw [hm, List.length_append] at hle
  rw [groupsFrom, groupStep, hj]
  exact ⟨q, gs, hq, hle⟩

/-- the first thing of an open packet that is closed: its hint, or an instruction -/
theorem head_visible_close {p : Packet} (hp : p.WellFormed cfg) (hne : p.members ≠ []) :
    ∃ e rest, visible cfg p.close = e :: rest ∧ ∀ n, e = .hint n → n = p.members.length := by
  rw [p.close_eq hne, visible, List.flatMap_singleton]
  by_cases hs : shouldEmitHint cfg p.members.length = true
  · rw [Group.emit_packet hs]
    refine ⟨_, _, rfl, ?_⟩
    rintro n ⟨⟩
    rfl
  · obtain ⟨m, ms, hm⟩ := List.exists_cons_of_ne_nil hne
    have hvis := emitsNothing_of_packetizable (hp.packetizable m (hm ▸ List.mem_cons_self))
    rw [Group.emit_packet_bare hs, hm, List.map_cons, eraseDebug,
      List.filter_cons_of_pos (by simp [Emitted.isVisible, hvis])]
    refine ⟨_, _, rfl, ?_⟩
    rintro n ⟨⟩

/-- the packet that is split has a shorter first hint, or none -/
theorem visible_ne_of_join (hs : cfg.scheduler.allowShortPackets = true) {p p' : Packet}
    {mi : MachineInstr} (hp : p.WellFormed cfg) (hne : p.members ≠ [])
    (hj : join cfg p mi = some p') (block : List MachineInstr) (out : List Emitted) :
    visible cfg p.close ++ out ≠ visible cfg (groupsFrom cfg p (mi :: block)) := by
  obtain ⟨e, rest, he, hlen⟩ := head_visible_close hp hne
  obtain ⟨q, gs, hq, hle⟩ := groupsFrom_join hj block
  have hpos : 1 ≤ p.members.length := List.length_pos_iff.mpr hne
  have hhint : shouldEmitHint cfg q.members.length = true :=
    shouldEmitHint_of_two_le hs (by omega)
  intro heq
  rw [he, hq, visible, List.flatMap_cons, Group.emit_packet hhint] at heq
  have hcount := hlen _ (List.cons.inj heq).1
  omega

/-! ## the whole block -/

theorem visible_eq_iff (hs : cfg.scheduler.allowShortPackets = true) {p : Packet}
    (hp : p.WellFormed cfg) (xs : List Woven) :
    visible cfg (groupsFrom cfg p (withNotes xs)) = visible cfg (groupsFrom cfg p (withoutNotes xs))
      ↔ ApartFrom cfg p xs := by
  induction xs generalizing p with
  | nil => exact iff_of_true rfl (apartFrom_nil p)
  | cons x xs ih =>
    cases x with
    | own mi =>
      show visible cfg (groupsFrom cfg p (mi :: withNotes xs))
          = visible cfg (groupsFrom cfg p (mi :: withoutNotes xs)) ↔ _
      rw [apartFrom_own, groupsFrom, groupsFrom, visible_append, visible_append,
        List.append_cancel_left_eq]
      exact ih (groupStep_wellFormed hp mi).2
    | note d silent =>
      show visible cfg (groupsFrom cfg p (d :: withNotes xs))
          = visible cfg (groupsFrom cfg p (withoutNotes xs)) ↔ _
      rw [apartFrom_note, visible_note p silent]
      by_cases hA : Apart cfg p (withoutNotes xs)
      · rw [hA.groupsFrom_eq, visible_append, List.append_cancel_left_eq,
          ih (Packet.wellFormed_empty cfg), and_iff_right hA, hA.apartFrom_iff]
      · refine iff_of_false ?_ fun h => hA h.1
        obtain ⟨hne, hnext⟩ := not_or.mp hA
        obtain ⟨mi, hmi⟩ := not_forall.mp hnext
        obtain ⟨hhead, hj⟩ := Classical.not_imp.mp hmi
        obtain ⟨p', hj⟩ := Option.ne_none_iff_exists'.mp hj
        obtain ⟨rest, hrest⟩ := List.head?_eq_some_iff.mp hhead
        rw [hrest]
        exact visible_ne_of_join hs hp hne hj rest _

/-- **Debug and meta instructions leave the hints as they are exactly if none stands between an
open packet and an instruction that would join it.** -/
theorem notes_harmless_iff {opts : CommandLine} (h : Returns opts cfg) (xs : List Woven) :
    eraseDebug (packetizeBasicBlock cfg (withNotes xs)).1
        = eraseDebug (packetizeBasicBlock cfg (withoutNotes xs)).1
      ↔ NotesApart cfg xs := by
  rw [(packetizeBasicBlock_eq cfg _).1, (packetizeBasicBlock_eq cfg _).1, notesApart_iff]
  exact visible_eq_iff h.sane.short (Packet.wellFormed_empty cfg) xs

end

/-- `DBG_VALUE` -/
def dbgValue : MachineInstr where
  name := "DBG_VALUE"
  operands := [.reg 11 false, .other]
  isDebugInstr := true
  isMetaInstruction := true

/-- `ADD xN, x1, x2`, register `xN` being the operand `N + 1` -/
def addTo (r : Nat) : MachineInstr where
  name := "ADD"
  operands := [.reg r true, .reg 2 false, .reg 3 false]

theorem notes_harmless_iff_front :
    NotesApart (baseConfig {}) [.note dbgValue rfl, .own (addTo 11), .own (addTo 12)] :=
  (notes_harmless_iff ((returns_iff_of_empty rfl _).mpr rfl) _).mp (by decide)

/-- with the note between them, the two `ADD`s get no hint -/
theorem note_splits_packet :
    Returns {} (baseConfig {})
      ∧ eraseDebug (packetizeBasicBlock (baseConfig {})
          (withoutNotes [.own (addTo 11), .note dbgValue rfl, .own (addTo 12)])).1
        = [.hint 2, .inst (addTo 11), .inst (addTo 12)]
      ∧ eraseDebug (packetizeBasicBlock (baseConfig {})
          (withNotes [.own (addTo 11), .note dbgValue rfl, .own (addTo 12)])).1
        = [.inst (addTo 11), .inst (addTo 12)] :=
  ⟨(returns_iff_of_empty rfl _).mpr rfl, by decide, by decide⟩

end Starbug.Vliw
