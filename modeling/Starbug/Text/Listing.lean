import Starbug.Text.Lines
import Starbug.Lib.Pattern

/-!
# The listing that is checked (`disassemble` of `tools/starbug_bundle_check.py`)

`disassemble` reads what `objdump -d -z` prints.  `Spells` is the grammar of that output, said
without the patterns: a line names a function, lists an instruction, or is skipped.

* `disassemble_iff`      the reader returns a listing exactly if the output spells it;
* `disassemble_render`   what is read is `Listed`, and what is `Listed` is read back from `render`.
-/

namespace Starbug

open Regex Bench

/-! ## the source -/

/-- `SYMBOL_LINE` -/
def symbolLine : Pattern Char := .all
  [.group (.many 1 isHex), .many 1 isSpace, .one fun c => c == '<', .group (.many 1 anyLetter),
    .one fun c => c == '>', .one fun c => c == ':', .many 0 isSpace, .look atEnd]

/-- `OBJDUMP_LINE` -/
def objdumpLine : Pattern Char := .all
  [.many 0 isSpace, .group (.many 1 isHex), .one fun c => c == ':', .many 1 isSpace,
    .group (.seq (.times 4 isHex) (.opt (.times 4 isHex))), .many 1 isSpace,
    .group (.many 0 anyLetter), .look atEnd]

/-- what is appended for a line that matches -/
def listedLine (groups : List Text) (func : String) : Line where
  addr := hexValue (groups.getD 0 [])
  word := hexValue (groups.getD 1 [])
  size := if (groups.getD 1 []).length = 4 then 2 else 4
  text := String.ofList (strip (groups.getD 2 []))
  func := func

/-- the body of the loop, on `insns` and `func` -/
def disassembleNext (r : List Line × String) (line : Text) : List Line × String :=
  match symbolLine.first (strip line) with
  | some m => (r.1, String.ofList (m.1.getD 1 []))
  | none =>
    match objdumpLine.first line with
    | some m => (r.1 ++ [listedLine m.1 r.2], r.2)
    | none => r

/-- `disassemble` on the standard output of `objdump` -/
def disassemble (out : Text) : List Line := ((splitLines [] out).foldl disassembleNext ([], "")).1

/-! ## the lines of an output -/

/-- an address, blanks, and `<g>:` -/
def NamesFunction (line : Text) (g : String) : Prop :=
  ∃ b h b₁ b₂, line = b ++ (h ++ (b₁ ++ '<' :: (g.toList ++ ['>', ':'])) ++ b₂) ∧ Blank b
    ∧ HexText h ∧ b₁ ≠ [] ∧ Blank b₁ ∧ g ≠ "" ∧ Blank b₂

/-- an address, a colon, the word in four or eight digits, and the text, with blanks between -/
def ListsInsn (line : Text) (l : Line) : Prop :=
  ∃ b a b₁ w b₂ rest, line = b ++ (a ++ ':' :: (b₁ ++ (w ++ (b₂ ++ rest)))) ∧ Blank b ∧ HexText a
    ∧ b₁ ≠ [] ∧ Blank b₁ ∧ HexText w ∧ b₂ ≠ [] ∧ Blank b₂ ∧ hexValue a = l.addr
    ∧ hexValue w = l.word ∧ (w.length = 4 ∧ l.size = 2 ∨ w.length = 8 ∧ l.size = 4)
    ∧ strip rest = l.text.toList

/-- the lines that follow where `func` is the function named last -/
inductive Spells : String → List Text → List Line → Prop
  | done {func} : Spells func [] []
  | skip {func line rest ls} : (∀ g, ¬ NamesFunction line g) → (∀ l, ¬ ListsInsn line l) →
      Spells func rest ls → Spells func (line :: rest) ls
  | name {func g line rest ls} : NamesFunction line g → Spells g rest ls →
      Spells func (line :: rest) ls
  | insn {func line l rest ls} : ListsInsn line l → l.func = func → Spells func rest ls →
      Spells func (line :: rest) (l :: ls)

/-! ## the patterns on one line -/

theorem mem_symbolLine {s t : Text} {gs : List Text} : (gs, t) ∈ symbolLine.ways s
    ↔ ∃ h b g v, s = h ++ (b ++ '<' :: (g ++ '>' :: ':' :: (v ++ t))) ∧ HexText h ∧ b ≠ []
      ∧ Blank b ∧ g ≠ [] ∧ (∀ c ∈ g, anyLetter c = true) ∧ Blank v ∧ atEnd t = true
      ∧ gs = [h, g] := by
  unfold symbolLine
  simp only [Pattern.mem_ways_all_run, Pattern.mem_ways_all_many, Pattern.mem_ways_all_one,
    Pattern.mem_ways_all_look, hexText_iff, ← List.length_pos_iff]
  constructor
  · intro hs
    obtain ⟨h, _, _, rfl, hlen, hh, ⟨b, _, rfl, hblen, hb, _, _, rfl, hlt, g, _, _, rfl, hglen, hg,
      ⟨_, _, rfl, hgt, _, _, rfl, hcolon, v, _, rfl, _, hv, ht, rfl, rfl⟩, rfl⟩, rfl⟩ := hs
    obtain rfl := eq_of_beq hlt
    obtain rfl := eq_of_beq hgt
    obtain rfl := eq_of_beq hcolon
    exact ⟨h, b, g, v, rfl, ⟨hlen, hh⟩, hblen, hb, hglen, hg, hv, ht, rfl⟩
  · intro hs
    obtain ⟨h, b, g, v, rfl, ⟨hlen, hh⟩, hblen, hb, hglen, hg, hv, ht, rfl⟩ := hs
    exact ⟨h, _, _, rfl, hlen, hh, ⟨b, _, rfl, hblen, hb, _, _, rfl, beq_self_eq_true _, g, _, _,
      rfl, hglen, hg, ⟨_, _, rfl, beq_self_eq_true _, _, _, rfl, beq_self_eq_true _, v, _, rfl,
        Nat.zero_le _, hv, ht, rfl, rfl⟩, rfl⟩, rfl⟩

/-- `([0-9a-f]{4}(?:[0-9a-f]{4})?)` -/
theorem mem_word {s t : Text} {gs : List Text} {rs : List (Pattern Char)} :
    (gs, t) ∈ (Pattern.all (.group (.seq (.times 4 isHex) (.opt (.times 4 isHex))) :: rs)).ways s
      ↔ ∃ w u gs', s = w ++ u ∧ HexText w ∧ (w.length = 4 ∨ w.length = 8)
        ∧ (gs', t) ∈ (Pattern.all rs).ways u ∧ gs = w :: gs' := by
  unfold Pattern.opt
  simp only [Pattern.mem_ways_all_group, Pattern.mem_ways_seq, Pattern.mem_ways_alt,
    Pattern.mem_ways_times, Pattern.mem_ways_empty]
  constructor
  · intro hs
    obtain ⟨w, u, _, gs', hw, ⟨_, v, _, ⟨x, rfl, hx4, hx, rfl⟩, hopt, rfl⟩, hrest, rfl⟩ := hs
    rcases hopt with ⟨y, rfl, hy4, hy, rfl⟩ | ⟨rfl, rfl⟩
    · rw [← List.append_assoc] at hw ⊢
      obtain rfl := List.append_cancel_right hw
      refine ⟨x ++ y, u, gs', rfl, hexText_iff.mpr ⟨?_, ?_⟩, Or.inr ?_, hrest, rfl⟩
      · rw [List.length_append]
        omega
      · exact List.forall_mem_append.mpr ⟨hx, hy⟩
      · rw [List.length_append, hx4, hy4]
    · obtain rfl := List.append_cancel_right hw
      exact ⟨x, v, gs', rfl, hexText_iff.mpr ⟨by omega, hx⟩, Or.inl hx4, hrest, rfl⟩
  · intro hs
    obtain ⟨w, u, gs', rfl, ⟨_, hw⟩, hlen, hrest, rfl⟩ := hs
    rcases hlen with h4 | h8
    · exact ⟨w, u, [], gs', rfl, ⟨[], u, [], ⟨w, rfl, h4, hw, rfl⟩, Or.inr ⟨rfl, rfl⟩, rfl⟩, hrest,
        rfl⟩
    · refine ⟨w, u, [], gs', rfl, ⟨[], w.drop 4 ++ u, [], ⟨w.take 4, ?_, ?_, ?_, rfl⟩,
        Or.inl ⟨w.drop 4, rfl, ?_, ?_, rfl⟩, rfl⟩, hrest, rfl⟩
      · rw [← List.append_assoc, List.take_append_drop]
      · rw [List.length_take, h8]
        rfl
      · exact fun c hc => hw c (List.mem_of_mem_take hc)
      · rw [List.length_drop, h8]
      · exact fun c hc => hw c (List.mem_of_mem_drop hc)

theorem mem_objdumpLine {s t : Text} {gs : List Text} : (gs, t) ∈ objdumpLine.ways s
    ↔ ∃ b a b₁ w b₂ rest, s = b ++ (a ++ ':' :: (b₁ ++ (w ++ (b₂ ++ (rest ++ t))))) ∧ Blank b
      ∧ HexText a ∧ b₁ ≠ [] ∧ Blank b₁ ∧ HexText w ∧ (w.length = 4 ∨ w.length = 8) ∧ b₂ ≠ []
      ∧ Blank b₂ ∧ (∀ c ∈ rest, anyLetter c = true) ∧ atEnd t = true ∧ gs = [a, w, rest] := by
  unfold objdumpLine
  simp only [mem_word, Pattern.mem_ways_all_run, Pattern.mem_ways_all_many,
    Pattern.mem_ways_all_one, Pattern.mem_ways_all_look, ← List.length_pos_iff]
  constructor
  · intro hs
    obtain ⟨b, _, rfl, _, hb, a, _, _, rfl, halen, ha, ⟨_, _, rfl, hcolon, b₁, _, rfl, hb₁len, hb₁,
      w, _, _, rfl, hw, hlen, ⟨b₂, _, rfl, hb₂len, hb₂, rest, _, _, rfl, _, hrest,
        ⟨ht, rfl, rfl⟩, rfl⟩, rfl⟩, rfl⟩ := hs
    obtain rfl := eq_of_beq hcolon
    exact ⟨b, a, b₁, w, b₂, rest, rfl, hb, hexText_iff.mpr ⟨halen, ha⟩, hb₁len, hb₁, hw, hlen,
      hb₂len, hb₂, hrest, ht, rfl⟩
  · intro hs
    obtain ⟨b, a, b₁, w, b₂, rest, rfl, hb, ha, hb₁len, hb₁, hw, hlen, hb₂len, hb₂, hrest, ht,
      rfl⟩ := hs
    obtain ⟨halen, ha⟩ := hexText_iff.mp ha
    exact ⟨b, _, rfl, Nat.zero_le _, hb, a, _, _, rfl, halen, ha, ⟨_, _, rfl, beq_self_eq_true _, b₁,
      _, rfl, hb₁len, hb₁, w, _, _, rfl, hw, hlen, ⟨b₂, _, rfl, hb₂len, hb₂, rest, _, _, rfl,
        Nat.zero_le _, hrest, ⟨ht, rfl, rfl⟩, rfl⟩, rfl⟩, rfl⟩

/-! ## one reading of a line -/

theorem ListsInsn.unique {line : Text} {l l' : Line} (h : ListsInsn line l)
    (h' : ListsInsn line l') (hfunc : l.func = l'.func) : l = l' := by
  obtain ⟨b, a, b₁, w, b₂, rest, heq, hb, ha, hb₁, hbl₁, hw, hb₂, hbl₂, haddr, hword, hsize,
    htext⟩ := h
  obtain ⟨b', a', b₁', w', b₂', rest', heq', hb', ha', hb₁', hbl₁', hw', hb₂', hbl₂', haddr',
    hword', hsize', htext'⟩ := h'
  rw [heq] at heq'
  obtain ⟨-, heq₁⟩ := run_eq hb hb' (ha.head_not_space _) (ha'.head_not_space _) heq'
  obtain ⟨rfl, heq₂⟩ := run_eq ha.2 ha'.2 (head_cons (by decide)) (head_cons (by decide)) heq₁
  obtain ⟨-, heq₃⟩ := run_eq hbl₁ hbl₁' (hw.head_not_space _) (hw'.head_not_space _)
    (List.cons.inj heq₂).2
  obtain ⟨rfl, heq₄⟩ := run_eq hw.2 hw'.2 (Blank.head_not_hex hb₂ hbl₂ _)
    (Blank.head_not_hex hb₂' hbl₂' _) heq₃
  have hstrip : strip rest = strip rest' := by
    rw [← strip_append hbl₂, heq₄, strip_append hbl₂']
  obtain ⟨addr, word, size, text, func⟩ := l
  obtain ⟨addr', word', size', text', func'⟩ := l'
  have htexts : text = text' := String.toList_inj.mp (by rw [← htext, hstrip, htext'])
  have hsizes : size = size' := by
    rcases hsize with ⟨h4, rfl⟩ | ⟨h8, rfl⟩ <;> rcases hsize' with ⟨h4', rfl⟩ | ⟨h8', rfl⟩
    all_goals first | rfl | omega
  have haddrs : addr = addr' := haddr.symm.trans haddr'
  have hwords : word = word' := hword.symm.trans hword'
  have hfuncs : func = func' := hfunc
  rw [haddrs, hwords, hsizes, htexts, hfuncs]

/-- a line that names a function lists no instruction -/
theorem NamesFunction.not_listsInsn {line : Text} {g : String} (h : NamesFunction line g)
    (l : Line) : ¬ ListsInsn line l := by
  obtain ⟨b, h, b₁, b₂, rfl, hb, hh, hb₁, hbl₁, -, -⟩ := h
  intro hl
  obtain ⟨b', a, _, _, _, _, heq, hb', ha, -⟩ := hl
  rw [List.append_assoc, List.append_assoc] at heq
  obtain ⟨-, heq₁⟩ := run_eq hb hb' (hh.head_not_space _) (ha.head_not_space _) heq
  obtain ⟨-, heq₂⟩ := run_eq hh.2 ha.2 (Blank.head_not_hex hb₁ hbl₁ _) (head_cons (by decide)) heq₁
  have hcolon := head?_of_append hb₁ hbl₁ ('<' :: (g.toList ++ ['>', ':']) ++ b₂) ':'
  rw [heq₂] at hcolon
  exact absurd (hcolon rfl) (by decide)

/-! ## the patterns read what is spelled -/

/-- a line that names `g`, without the blanks around it -/
theorem NamesFunction.strip {line : Text} {g : String} (hg : NamesFunction line g) :
    ∃ h b, strip line = h ++ (b ++ '<' :: (g.toList ++ ['>', ':'])) ∧ HexText h ∧ b ≠ []
      ∧ Blank b ∧ g ≠ "" := by
  obtain ⟨b, h, b₁, b₂, rfl, hb, hh, hb₁, hbl₁, hne, hb₂⟩ := hg
  refine ⟨h, b₁, strip_blanks hb ⟨?_, ?_⟩ ?_ hb₂, hh, hb₁, hbl₁, hne⟩
  · exact hh.head_not_space _
  · intro c hc
    have hlast : (h ++ (b₁ ++ '<' :: (g.toList ++ ['>', ':']))).getLast? = some ':' := by
      have hsplit : h ++ (b₁ ++ '<' :: (g.toList ++ ['>', ':']))
          = (h ++ (b₁ ++ '<' :: (g.toList ++ ['>']))) ++ [':'] := by
        simp only [List.append_assoc, List.cons_append, List.nil_append]
      rw [hsplit, List.getLast?_concat]
    rw [hlast] at hc
    obtain rfl := Option.some.inj hc
    decide
  · exact List.append_ne_nil_of_left_ne_nil hh.1 _

theorem first_symbolLine {line : Text} {g : String} (hg : NamesFunction line g)
    (hone : OneLine line) :
    (symbolLine.first (strip line)).map (fun m => String.ofList (m.1.getD 1 [])) = some g := by
  have hstrip : OneLine (Starbug.strip line) := fun c hc => hone c (mem_of_mem_strip hc)
  obtain ⟨h, b, heq, hh, hb, hbl, hne⟩ := hg.strip
  rw [heq] at hstrip ⊢
  have hname : OneLine g.toList := by
    simp only [OneLine.append, OneLine.cons] at hstrip
    exact hstrip.2.2.2.1
  have hnil : g.toList ≠ [] := fun h0 => hne (String.toList_eq_nil_iff.mp h0)
  have hway : ([h, g.toList], []) ∈ symbolLine.ways (h ++ (b ++ '<' :: (g.toList ++ ['>', ':']))) :=
    mem_symbolLine.mpr ⟨h, b, g.toList, [], rfl, hh, hb, hbl, hnil, hname.anyLetter,
      fun c hc => absurd hc List.not_mem_nil, rfl, rfl⟩
  apply Pattern.map_first hway
  intro gs t hway
  obtain ⟨h', b', g', v, heq', hh', hb', hbl', -, -, hv, ht, rfl⟩ := mem_symbolLine.mp hway
  obtain ⟨-, heq₁⟩ := run_eq hh.2 hh'.2 (Blank.head_not_hex hb hbl _)
    (Blank.head_not_hex hb' hbl' _) heq'
  obtain ⟨-, heq₂⟩ := run_eq hbl hbl' (head_cons (by decide)) (head_cons (by decide)) heq₁
  have heq₃ : g.toList ++ ['>', ':'] = g' ++ '>' :: ':' :: (v ++ t) := (List.cons.inj heq₂).2
  have hrest : OneLine t := by
    rw [heq₁] at hstrip
    simp only [OneLine.append, OneLine.cons] at hstrip
    exact hstrip.2.2.2.2.2.2.2
  obtain rfl := hrest.eq_nil ht
  -- the line ends in the colon
  have hvnil : v = [] := by
    rcases List.eq_nil_or_concat v with h0 | ⟨v', c, hc⟩
    · exact h0
    · rw [List.concat_eq_append] at hc
      subst hc
      have hlast := congrArg List.getLast? heq₃
      rw [show g.toList ++ ['>', ':'] = (g.toList ++ ['>']) ++ [':'] by simp,
        show g' ++ '>' :: ':' :: ((v' ++ [c]) ++ []) = (g' ++ '>' :: ':' :: v') ++ [c] by simp,
        List.getLast?_concat, List.getLast?_concat] at hlast
      obtain rfl := Option.some.inj hlast
      exact absurd (hv ':' (List.mem_append_right v' List.mem_cons_self)) (by decide)
  subst hvnil
  have hg' : g.toList = g' := List.append_cancel_right heq₃
  show String.ofList g' = g
  rw [← hg', String.ofList_toList]

theorem namesFunction_of_first {line : Text} (hone : OneLine line) {m : List Text × Text}
    (h : symbolLine.first (strip line) = some m) :
    NamesFunction line (String.ofList (m.1.getD 1 [])) := by
  obtain ⟨h, b, g, v, heq, hh, hb, hbl, hne, -, hv, ht, hgs⟩ :=
    mem_symbolLine.mp (Pattern.mem_ways_of_first h)
  obtain ⟨u, v₀, hu, hv₀, hline⟩ := exists_blanks line
  have hstrip : OneLine (strip line) := fun c hc => hone c (mem_of_mem_strip hc)
  have hnil : m.2 = [] := by
    apply OneLine.eq_nil _ ht
    rw [heq] at hstrip
    simp only [OneLine.append, OneLine.cons] at hstrip
    exact hstrip.2.2.2.2.2.2.2
  rw [hnil, List.append_nil] at heq
  have hname : (String.ofList (m.1.getD 1 [])).toList = g := by
    rw [String.toList_ofList, hgs]
    rfl
  refine ⟨u, h, b, v ++ v₀, ?_, hu, hh, hb, hbl, ?_, List.forall_mem_append.mpr ⟨hv, hv₀⟩⟩
  · rw [hname, hline, heq]
    simp only [List.append_assoc, List.cons_append, List.nil_append]
  · intro h0
    rw [h0] at hname
    exact hne hname.symm

theorem listsInsn_of_way {line t : Text} {gs : List Text} (hone : OneLine line)
    (h : (gs, t) ∈ objdumpLine.ways line) (func : String) :
    ListsInsn line (listedLine gs func) := by
  obtain ⟨b, a, b₁, w, b₂, rest, rfl, hb, ha, hb₁, hbl₁, hw, hlen, hb₂, hbl₂, -, ht, rfl⟩ :=
    mem_objdumpLine.mp h
  have hnil : t = [] := by
    apply OneLine.eq_nil _ ht
    simp only [OneLine.append, OneLine.cons] at hone
    exact hone.2.2.2.2.2.2.2
  subst hnil
  refine ⟨b, a, b₁, w, b₂, rest, by rw [List.append_nil], hb, ha, hb₁, hbl₁, hw, hb₂, hbl₂, rfl,
    rfl, ?_, ?_⟩
  · rcases hlen with h4 | h8
    · exact Or.inl ⟨h4, if_pos h4⟩
    · exact Or.inr ⟨h8, if_neg (by show w.length ≠ 4; omega)⟩
  · exact String.toList_ofList.symm

theorem first_objdumpLine {line : Text} {l : Line} (hl : ListsInsn line l) (hone : OneLine line) :
    (objdumpLine.first line).map (fun m => listedLine m.1 l.func) = some l := by
  obtain ⟨b, a, b₁, w, b₂, rest, heq, hb, ha, hb₁, hbl₁, hw, hb₂, hbl₂, -, -, hsize, -⟩ := id hl
  have hrest : OneLine rest := by
    rw [heq] at hone
    simp only [OneLine.append, OneLine.cons] at hone
    exact hone.2.2.2.2.2.2
  have hway : ([a, w, rest], []) ∈ objdumpLine.ways line := by
    apply mem_objdumpLine.mpr
    refine ⟨b, a, b₁, w, b₂, rest, ?_, hb, ha, hb₁, hbl₁, hw, hsize.imp And.left And.left, hb₂,
      hbl₂, hrest.anyLetter, rfl, rfl⟩
    rw [List.append_nil]
    exact heq
  apply Pattern.map_first hway
  intro gs t h
  exact (listsInsn_of_way hone h l.func).unique hl rfl

/-! ## the reader -/

theorem disassembleNext_name {r : List Line × String} {line : Text} {g : String}
    (h : NamesFunction line g) (hone : OneLine line) : disassembleNext r line = (r.1, g) := by
  obtain ⟨m, hm, heq⟩ := Option.map_eq_some_iff.mp (first_symbolLine h hone)
  unfold disassembleNext
  rw [hm]
  exact congrArg (Prod.mk r.1) heq

theorem first_symbolLine_eq_none {line : Text} (h : ∀ g, ¬ NamesFunction line g)
    (hone : OneLine line) : symbolLine.first (strip line) = none := by
  cases hm : symbolLine.first (strip line) with
  | none => rfl
  | some m => exact absurd (namesFunction_of_first hone hm) (h _)

theorem disassembleNext_insn {r : List Line × String} {line : Text} {l : Line}
    (h : ListsInsn line l) (hfunc : l.func = r.2) (hone : OneLine line) :
    disassembleNext r line = (r.1 ++ [l], r.2) := by
  have hnone := first_symbolLine_eq_none (fun g hg => hg.not_listsInsn l h) hone
  obtain ⟨m, hm, heq⟩ := Option.map_eq_some_iff.mp (first_objdumpLine h hone)
  unfold disassembleNext
  rw [hnone, hm, ← heq, hfunc]

theorem disassembleNext_skip {r : List Line × String} {line : Text}
    (hname : ∀ g, ¬ NamesFunction line g) (hinsn : ∀ l, ¬ ListsInsn line l)
    (hone : OneLine line) : disassembleNext r line = r := by
  have hnone := first_symbolLine_eq_none hname hone
  unfold disassembleNext
  rw [hnone]
  cases hm : objdumpLine.first line with
  | none => rfl
  | some m =>
    exact absurd (listsInsn_of_way hone (Pattern.mem_ways_of_first hm) r.2) (hinsn _)

theorem foldl_disassembleNext {func : String} {doc : List Text} {ls : List Line}
    (h : Spells func doc ls) (hone : ∀ line ∈ doc, OneLine line) (acc : List Line) :
    (doc.foldl disassembleNext (acc, func)).1 = acc ++ ls := by
  induction h generalizing acc with
  | done => exact (List.append_nil acc).symm
  | skip hname hinsn _ ih =>
    obtain ⟨hline, hrest⟩ := List.forall_mem_cons.mp hone
    rw [List.foldl_cons, disassembleNext_skip hname hinsn hline, ih hrest]
  | name hname _ ih =>
    obtain ⟨hline, hrest⟩ := List.forall_mem_cons.mp hone
    rw [List.foldl_cons, disassembleNext_name hname hline, ih hrest]
  | @insn func line l rest ls hinsn hfunc _ ih =>
    obtain ⟨hline, hrest⟩ := List.forall_mem_cons.mp hone
    rw [List.foldl_cons, disassembleNext_insn hinsn hfunc hline, ih hrest, List.append_assoc]
    rfl

/-- every output spells a listing -/
theorem exists_spells (func : String) (doc : List Text) : ∃ ls, Spells func doc ls := by
  induction doc generalizing func with
  | nil => exact ⟨[], .done⟩
  | cons line doc ih =>
    by_cases hname : ∃ g, NamesFunction line g
    · obtain ⟨g, hg⟩ := hname
      obtain ⟨ls, hls⟩ := ih g
      exact ⟨ls, .name hg hls⟩
    obtain ⟨ls, hls⟩ := ih func
    by_cases hinsn : ∃ l, ListsInsn line l
    · obtain ⟨l, hl⟩ := hinsn
      exact ⟨{ l with func := func } :: ls, .insn hl rfl hls⟩
    · exact ⟨ls, .skip (fun g hg => hname ⟨g, hg⟩) (fun l hl => hinsn ⟨l, hl⟩) hls⟩

theorem disassemble_of_spells {out : Text} {ls : List Line}
    (h : Spells "" (splitLines [] out) ls) : disassemble out = ls :=
  foldl_disassembleNext h (fun _ hline =>
    oneLine_of_mem_splitLines (fun _ hc => absurd hc List.not_mem_nil) hline) []

/-- **The reader returns a listing exactly if the output spells it.** -/
theorem disassemble_iff (out : Text) (ls : List Line) :
    disassemble out = ls ↔ Spells "" (splitLines [] out) ls := by
  constructor
  · intro h
    obtain ⟨ls', hls'⟩ := exists_spells "" (splitLines [] out)
    rw [← h, disassemble_of_spells hls']
    exact hls'
  · exact disassemble_of_spells

example : disassemble "80000000 <main>:\n80000000:\t4009      \tli\tzero,2\n".toList
    = [⟨0x80000000, 0x4009, 2, "li\tzero,2", "main"⟩] := by decide

/-! ## printing a listing -/

/-- the header in front of a function -/
def renderName (l : Line) : Text :=
  Nat.toDigits 16 l.addr ++ ' ' :: '<' :: (l.func.toList ++ ['>', ':'])

def renderInsn (l : Line) : Text :=
  Nat.toDigits 16 l.addr ++ ':' :: '\t' :: (fixedHex (2 * l.size) l.word ++ '\t' :: l.text.toList)

/-- the lines of a listing where `func` was named last -/
def renderFrom (func : String) : List Line → List Text
  | [] => []
  | l :: rest =>
    (if l.func = func then [] else [renderName l]) ++ renderInsn l :: renderFrom l.func rest

def render (ls : List Line) : Text := unlines (renderFrom "" ls)

/-- what a line of a listing can be -/
structure Listable (l : Line) : Prop where
  word : l.size = 2 ∧ l.word < 2 ^ 16 ∨ l.size = 4 ∧ l.word < 2 ^ 32
  stripped : Stripped l.text.toList
  text : OneLine l.text.toList
  func : OneLine l.func.toList

/-- behind a function there is no line outside a function -/
structure Listed (ls : List Line) : Prop where
  lines : ∀ l ∈ ls, Listable l
  funcs : ls.Pairwise fun l l' => l.func ≠ "" → l'.func ≠ ""

theorem ListsInsn.listable {line : Text} {l : Line} (h : ListsInsn line l) (hone : OneLine line)
    (hfunc : OneLine l.func.toList) : Listable l := by
  obtain ⟨b, a, b₁, w, b₂, rest, rfl, -, -, -, -, hw, -, -, -, hword, hsize, htext⟩ := h
  simp only [OneLine.append, OneLine.cons] at hone
  have hrest : OneLine rest := hone.2.2.2.2.2.2
  have hlt := hexValue_lt hw.2
  refine ⟨?_, htext ▸ stripped_strip rest, ?_, hfunc⟩
  · rw [hword] at hlt
    rcases hsize with ⟨h4, hsize⟩ | ⟨h8, hsize⟩
    · rw [h4] at hlt
      exact Or.inl ⟨hsize, hlt⟩
    · rw [h8] at hlt
      exact Or.inr ⟨hsize, hlt⟩
  · rw [← htext]
    exact fun c hc => hrest c (mem_of_mem_strip hc)

theorem NamesFunction.func {line : Text} {g : String} (h : NamesFunction line g)
    (hone : OneLine line) : g ≠ "" ∧ OneLine g.toList := by
  obtain ⟨b, h, b₁, b₂, rfl, -, -, -, -, hne, -⟩ := h
  simp only [OneLine.append, OneLine.cons] at hone
  exact ⟨hne, hone.2.1.2.2.2.1⟩

theorem Spells.listed {func : String} {doc : List Text} {ls : List Line} (h : Spells func doc ls)
    (hone : ∀ line ∈ doc, OneLine line) (hfunc : OneLine func.toList) :
    Listed ls ∧ (func ≠ "" → ∀ l ∈ ls, l.func ≠ "") := by
  induction h with
  | done =>
    exact ⟨⟨fun l hl => absurd hl List.not_mem_nil, List.Pairwise.nil⟩,
      fun _ l hl => absurd hl List.not_mem_nil⟩
  | skip _ _ _ ih => exact ih (List.forall_mem_cons.mp hone).2 hfunc
  | name hname _ ih =>
    obtain ⟨hline, hrest⟩ := List.forall_mem_cons.mp hone
    obtain ⟨hne, hg⟩ := hname.func hline
    obtain ⟨hls, hfuncs⟩ := ih hrest hg
    exact ⟨hls, fun _ => hfuncs hne⟩
  | insn hinsn heq _ ih =>
    obtain ⟨hline, hrest⟩ := List.forall_mem_cons.mp hone
    obtain ⟨hls, hfuncs⟩ := ih hrest hfunc
    subst heq
    refine ⟨⟨?_, ?_⟩, fun hne => ?_⟩
    · exact List.forall_mem_cons.mpr ⟨hinsn.listable hline hfunc, hls.lines⟩
    · exact List.pairwise_cons.mpr ⟨fun l' hl' hne => hfuncs hne l' hl', hls.funcs⟩
    · exact List.forall_mem_cons.mpr ⟨hne, hfuncs hne⟩

theorem namesFunction_renderName {l : Line} (h : l.func ≠ "") :
    NamesFunction (renderName l) l.func := by
  refine ⟨[], Nat.toDigits 16 l.addr, [' '], [], ?_, fun c hc => absurd hc List.not_mem_nil,
    hexText_toDigits l.addr, List.cons_ne_nil _ _, ?_, h, fun c hc => absurd hc List.not_mem_nil⟩
  · rw [List.append_nil]
    rfl
  · exact List.forall_mem_singleton.mpr (by decide)

theorem listsInsn_renderInsn {l : Line} (h : Listable l) : ListsInsn (renderInsn l) l := by
  have hlen := length_fixedHex (2 * l.size) l.word
  have hblank : Blank ['\t'] := List.forall_mem_singleton.mpr (by decide)
  refine ⟨[], Nat.toDigits 16 l.addr, ['\t'], fixedHex (2 * l.size) l.word, ['\t'], l.text.toList,
    rfl, fun c hc => absurd hc List.not_mem_nil, hexText_toDigits l.addr, List.cons_ne_nil _ _,
    hblank, ⟨?_, isHex_fixedHex _ _⟩, List.cons_ne_nil _ _, hblank, hexValue_toDigits l.addr, ?_,
    ?_, strip_of_stripped h.stripped⟩
  · intro h0
    rw [h0, List.length_nil] at hlen
    rcases h.word with ⟨hsize, -⟩ | ⟨hsize, -⟩
    · omega
    · omega
  · apply hexValue_fixedHex
    rcases h.word with ⟨hsize, hlt⟩ | ⟨hsize, hlt⟩
    · rw [hsize]
      exact hlt
    · rw [hsize]
      exact hlt
  · rw [hlen]
    rcases h.word with ⟨hsize, -⟩ | ⟨hsize, -⟩
    · exact Or.inl ⟨by rw [hsize], hsize⟩
    · exact Or.inr ⟨by rw [hsize], hsize⟩

theorem oneLine_renderFrom {func : String} {ls : List Line} (h : ∀ l ∈ ls, Listable l) :
    ∀ line ∈ renderFrom func ls, OneLine line := by
  induction ls generalizing func with
  | nil => exact fun line hline => absurd hline List.not_mem_nil
  | cons l ls ih =>
    obtain ⟨hl, hls⟩ := List.forall_mem_cons.mp h
    have haddr : OneLine (Nat.toDigits 16 l.addr) := oneLine_of_hex (isHex_toDigits l.addr)
    have hword := oneLine_of_hex (isHex_fixedHex (2 * l.size) l.word)
    intro line hline
    rcases List.mem_append.mp hline with hname | hline
    · split_ifs at hname
      · exact absurd hname List.not_mem_nil
      · obtain rfl := List.mem_singleton.mp hname
        unfold renderName
        simp only [OneLine.append, OneLine.cons]
        exact ⟨haddr, by decide, by decide, hl.func, by decide, by decide,
          fun c hc => absurd hc List.not_mem_nil⟩
    · rcases List.mem_cons.mp hline with rfl | hline
      · unfold renderInsn
        simp only [OneLine.append, OneLine.cons]
        exact ⟨haddr, by decide, by decide, hword, by decide, hl.text⟩
      · exact ih hls line hline

theorem spells_renderFrom {func : String} {ls : List Line} (h : Listed ls)
    (hfunc : func ≠ "" → ∀ l ∈ ls, l.func ≠ "") : Spells func (renderFrom func ls) ls := by
  induction ls generalizing func with
  | nil => exact .done
  | cons l ls ih =>
    obtain ⟨hl, hls⟩ := List.forall_mem_cons.mp h.lines
    obtain ⟨hnext, hfuncs⟩ := List.pairwise_cons.mp h.funcs
    have hrest := ih ⟨hls, hfuncs⟩ fun hne l' hl' => hnext l' hl' hne
    have hinsn : Spells l.func (renderInsn l :: renderFrom l.func ls) (l :: ls) :=
      .insn (listsInsn_renderInsn hl) rfl hrest
    unfold renderFrom
    split_ifs with heq
    · rw [← heq]
      exact hinsn
    · have hne : l.func ≠ "" := by
        intro h0
        rw [h0] at heq
        exact hfunc (Ne.symm heq) l List.mem_cons_self h0
      exact .name (namesFunction_renderName hne) hinsn

theorem spells_render {ls : List Line} (h : Listed ls) :
    Spells "" (splitLines [] (render ls)) ls := by
  unfold render
  rw [splitLines_unlines (oneLine_renderFrom h.lines)]
  exact spells_renderFrom h fun hne => absurd rfl hne

/-- **Whatever the output, what is read from it is `Listed`; and every such listing is read back
from its own print.** -/
theorem disassemble_render : (∀ out, Listed (disassemble out))
    ∧ ∀ ls, Listed ls → disassemble (render ls) = ls := by
  have hnil : OneLine [] := fun c hc => absurd hc List.not_mem_nil
  constructor
  · intro out
    obtain ⟨ls, hls⟩ := exists_spells "" (splitLines [] out)
    rw [disassemble_of_spells hls]
    exact (hls.listed (fun _ hline => oneLine_of_mem_splitLines hnil hline) hnil).1
  · intro ls h
    exact disassemble_of_spells (spells_render h)

end Starbug
