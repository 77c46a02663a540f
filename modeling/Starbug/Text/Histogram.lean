import Starbug.Text.Lines
import Starbug.Lib.Pattern
import Starbug.Lib.Dict

/-!
# The histogram of a run (`spike_histogram` of `tools/starbug_profile.py`)

Spike prints one line for each PC, anywhere among what the program prints.  `Prints` says which
lines of an output count a PC, without the pattern.

`spikeHistogram_get`: what is read at an address is the sum of the counts of the lines whose PC
has this address in its low 32 bits, in whatever order and however often they stand there.  A count
may have any number of digits; the limit that CPython puts on `int` is left out.
-/

namespace Starbug

open Regex Bench

/-! ## the source -/

/-- `HIST_LINE` -/
def histLine : Pattern Char := .all
  [.opt (.all [.one fun c => c == '0', .one fun c => c == 'x' || c == 'X']),
    .group (.many 1 isHex), .many 1 isSpace, .group (.many 1 isDecimal), .many 0 isSpace,
    .look atEnd]

def addrMask : Nat := 1 <<< 32 - 1

/-- the body of the loop; `hist` reads `0` where nothing is stored -/
def histogramNext (hist : Counter Nat) (line : Text) : Counter Nat :=
  match histLine.first (strip line) with
  | none => hist
  | some m =>
    Counter.bump hist (hexValue (m.1.getD 0 []) &&& addrMask) (decimalValue (m.1.getD 1 []))

/-- `spike_histogram` on what the run of Spike leaves -/
def spikeHistogram (stdout stderr : Text) : Counter Nat × Text :=
  let text := stdout ++ stderr
  ((splitLines [] text).foldl histogramNext Dict.empty, text)

/-! ## the lines of an output -/

/-- nothing or `0x` -/
def HexPrefix (s : Text) : Prop := s = [] ∨ ∃ x, (x = 'x' ∨ x = 'X') ∧ s = ['0', x]

def DecimalText (s : Text) : Prop := s ≠ [] ∧ ∀ c ∈ s, isDecimal c = true

/-- an address, blanks, and a count -/
def CountsPc (line : Text) (pc n : Nat) : Prop :=
  ∃ b pre h b₁ d b₂, line = b ++ (pre ++ (h ++ (b₁ ++ d)) ++ b₂) ∧ Blank b ∧ HexPrefix pre
    ∧ HexText h ∧ b₁ ≠ [] ∧ Blank b₁ ∧ DecimalText d ∧ Blank b₂ ∧ hexValue h = pc
    ∧ decimalValue d = n

/-- the PCs that are counted, with their counts, in the order of the lines -/
inductive Prints : List Text → List (Nat × Nat) → Prop
  | done : Prints [] []
  | skip {line rest es} : (∀ pc n, ¬ CountsPc line pc n) → Prints rest es →
      Prints (line :: rest) es
  | count {line pc n rest es} : CountsPc line pc n → Prints rest es →
      Prints (line :: rest) ((pc, n) :: es)

/-! ## the pattern on one line -/

theorem not_isSpace_of_isDecimal {c : Char} (h : isDecimal c = true) : isSpace c = false := by
  obtain ⟨z, hz, hle, hlt⟩ := isDecimal_iff.mp h
  have hrange : ∀ z ∈ decimalZeros,
      z = 0x30 ∨ 0x660 ≤ z ∧ z ≤ 0x1090 ∨ 0x17E0 ≤ z ∧ z ≤ 0x1C50 ∨ 0xA620 ≤ z := by
    decide
  have hz' := hrange z hz
  apply Bool.eq_false_iff.mpr
  unfold isSpace
  simp only [Bool.or_eq_true, Bool.and_eq_true, decide_eq_true_eq, List.mem_cons,
    List.not_mem_nil, or_false, ne_eq]
  omega

theorem mem_hexPrefix {s t : Text} {gs : List Text} {rs : List (Pattern Char)} :
    (gs, t) ∈ (Pattern.all (.opt (.all [.one fun c => c == '0',
        .one fun c => c == 'x' || c == 'X']) :: rs)).ways s
      ↔ ∃ pre u, s = pre ++ u ∧ HexPrefix pre ∧ (gs, t) ∈ (Pattern.all rs).ways u := by
  unfold Pattern.opt
  rw [Pattern.mem_ways_all_cons]
  simp only [Pattern.mem_ways_alt, Pattern.mem_ways_all_one, Pattern.mem_ways_empty]
  constructor
  · intro hs
    obtain ⟨gs₁, u, gs₂, hopt, hrest, rfl⟩ := hs
    rcases hopt with ⟨_, _, rfl, hzero, x, _, rfl, hx, hnil⟩ | ⟨rfl, rfl⟩
    · obtain ⟨rfl, rfl⟩ := Pattern.mem_ways_empty.mp hnil
      obtain rfl := eq_of_beq hzero
      refine ⟨['0', x], _, rfl, Or.inr ⟨x, ?_, rfl⟩, hrest⟩
      exact (Bool.or_eq_true_iff.mp hx).imp eq_of_beq eq_of_beq
    · exact ⟨[], s, rfl, Or.inl rfl, hrest⟩
  · intro hs
    obtain ⟨pre, u, rfl, hpre, hrest⟩ := hs
    rcases hpre with rfl | ⟨x, hx, rfl⟩
    · exact ⟨[], u, gs, Or.inr ⟨rfl, rfl⟩, hrest, rfl⟩
    · refine ⟨[], u, gs, Or.inl ⟨'0', _, rfl, beq_self_eq_true _, x, u, rfl, ?_,
        Pattern.mem_ways_empty.mpr ⟨rfl, rfl⟩⟩, hrest, rfl⟩
      exact Bool.or_eq_true_iff.mpr (hx.imp beq_iff_eq.mpr beq_iff_eq.mpr)

theorem mem_histLine {s t : Text} {gs : List Text} : (gs, t) ∈ histLine.ways s
    ↔ ∃ pre h b d v, s = pre ++ (h ++ (b ++ (d ++ (v ++ t)))) ∧ HexPrefix pre ∧ HexText h
      ∧ b ≠ [] ∧ Blank b ∧ DecimalText d ∧ Blank v ∧ atEnd t = true ∧ gs = [h, d] := by
  unfold histLine
  simp only [mem_hexPrefix, Pattern.mem_ways_all_run, Pattern.mem_ways_all_many,
    Pattern.mem_ways_all_look, ← List.length_pos_iff, DecimalText]
  constructor
  · intro hs
    obtain ⟨pre, _, rfl, hpre, h, _, _, rfl, hlen, hh, ⟨b, _, rfl, hblen, hb, d, _, _, rfl, hdlen,
      hd, ⟨v, _, rfl, _, hv, ht, rfl, rfl⟩, rfl⟩, rfl⟩ := hs
    exact ⟨pre, h, b, d, v, rfl, hpre, hexText_iff.mpr ⟨hlen, hh⟩, hblen, hb, ⟨hdlen, hd⟩, hv, ht,
      rfl⟩
  · intro hs
    obtain ⟨pre, h, b, d, v, rfl, hpre, hh, hblen, hb, ⟨hdlen, hd⟩, hv, ht, rfl⟩ := hs
    obtain ⟨hlen, hh⟩ := hexText_iff.mp hh
    exact ⟨pre, _, rfl, hpre, h, _, _, rfl, hlen, hh, ⟨b, _, rfl, hblen, hb, d, _, _, rfl, hdlen, hd,
      ⟨v, _, rfl, Nat.zero_le _, hv, ht, rfl, rfl⟩, rfl⟩, rfl⟩

/-- the optional `0x` cannot be read in two ways -/
theorem not_prefix_of_hex {h b r r' : Text} {x : Char} (hx : x = 'x' ∨ x = 'X') (hh : HexText h)
    (hb : b ≠ []) (hbl : Blank b) : h ++ (b ++ r) ≠ '0' :: x :: r' := by
  intro heq
  have hhex : isHex x = false ∧ isSpace x = false := by
    rcases hx with rfl | rfl
    · decide
    · decide
  have hzero : ∀ c ∈ ['0'], isHex c = true := List.forall_mem_singleton.mpr (by decide)
  obtain ⟨-, heq₁⟩ : h = ['0'] ∧ b ++ r = x :: r' :=
    run_eq hh.2 hzero (Blank.head_not_hex hb hbl r) (head_cons hhex.1) heq
  have hspace := head?_of_append hb hbl r x
  rw [heq₁] at hspace
  rw [hhex.2] at hspace
  exact Bool.false_ne_true (hspace rfl)

theorem hexPrefix_unique {pre pre' h h' b b' r r' : Text} (hpre : HexPrefix pre)
    (hpre' : HexPrefix pre') (hh : HexText h) (hh' : HexText h') (hb : b ≠ []) (hb' : b' ≠ [])
    (hbl : Blank b) (hbl' : Blank b') (heq : pre ++ (h ++ (b ++ r)) = pre' ++ (h' ++ (b' ++ r'))) :
    h = h' ∧ b ++ r = b' ++ r' := by
  have hrest : h ++ (b ++ r) = h' ++ (b' ++ r') := by
    rcases hpre with rfl | ⟨x, hx, rfl⟩ <;> rcases hpre' with rfl | ⟨x', hx', rfl⟩
    · exact heq
    · have heq' : h ++ (b ++ r) = '0' :: x' :: (h' ++ (b' ++ r')) := heq
      exact absurd heq' (not_prefix_of_hex hx' hh hb hbl)
    · have heq' : h' ++ (b' ++ r') = '0' :: x :: (h ++ (b ++ r)) := heq.symm
      exact absurd heq' (not_prefix_of_hex hx hh' hb' hbl')
    · exact (List.cons.inj (List.cons.inj heq).2).2
  exact run_eq hh.2 hh'.2 (Blank.head_not_hex hb hbl r) (Blank.head_not_hex hb' hbl' r') hrest

/-! ## the pattern reads what is spelled -/

theorem DecimalText.head_not_space {s : Text} (h : DecimalText s) (r : Text) :
    ∀ c ∈ (s ++ r).head?, isSpace c = false :=
  fun c hc => not_isSpace_of_isDecimal (head?_of_append h.1 h.2 r c hc)

/-- a line that counts a PC, without the blanks around it -/
theorem CountsPc.strip {line : Text} {pc n : Nat} (hc : CountsPc line pc n) :
    ∃ pre h b d, strip line = pre ++ (h ++ (b ++ d)) ∧ HexPrefix pre ∧ HexText h ∧ b ≠ []
      ∧ Blank b ∧ DecimalText d ∧ hexValue h = pc ∧ decimalValue d = n := by
  obtain ⟨b, pre, h, b₁, d, b₂, rfl, hb, hpre, hh, hb₁, hbl₁, hd, hb₂, hpc, hn⟩ := hc
  refine ⟨pre, h, b₁, d, strip_blanks hb ⟨?_, ?_⟩ ?_ hb₂, hpre, hh, hb₁, hbl₁, hd, hpc, hn⟩
  · rcases hpre with rfl | ⟨x, -, rfl⟩
    · exact hh.head_not_space _
    · exact head_cons (by decide)
  · intro c hc
    rw [← List.append_assoc, ← List.append_assoc, List.getLast?_append_of_ne_nil _ hd.1] at hc
    exact not_isSpace_of_isDecimal (hd.2 c (List.mem_of_getLast? hc))
  · exact List.append_ne_nil_of_right_ne_nil pre (List.append_ne_nil_of_left_ne_nil hh.1 _)

theorem first_histLine {line : Text} {pc n : Nat} (hc : CountsPc line pc n) (hone : OneLine line) :
    (histLine.first (strip line)).map
      (fun m => (hexValue (m.1.getD 0 []), decimalValue (m.1.getD 1 []))) = some (pc, n) := by
  have hstrip : OneLine (Starbug.strip line) := fun c hc => hone c (mem_of_mem_strip hc)
  obtain ⟨pre, h, b, d, heq, hpre, hh, hb, hbl, hd, hpc, hn⟩ := hc.strip
  rw [heq] at hstrip ⊢
  have hway : ([h, d], []) ∈ histLine.ways (pre ++ (h ++ (b ++ d))) := by
    apply mem_histLine.mpr
    refine ⟨pre, h, b, d, [], ?_, hpre, hh, hb, hbl, hd, fun c hc => absurd hc List.not_mem_nil,
      rfl, rfl⟩
    rw [List.append_nil, List.append_nil]
  apply Pattern.map_first hway
  intro gs t hway
  obtain ⟨pre', h', b', d', v, heq', hpre', hh', hb', hbl', hd', hv, ht, rfl⟩ :=
    mem_histLine.mp hway
  obtain ⟨rfl, heq₁⟩ := hexPrefix_unique hpre hpre' hh hh' hb hb' hbl hbl' heq'
  obtain ⟨-, heq₂⟩ := run_eq hbl hbl' (s := d) (by
    rw [← List.append_nil d]
    exact hd.head_not_space []) (hd'.head_not_space _) heq₁
  -- what the pattern leaves of the count would be both decimal and blank
  have hvt : v ++ t = [] := by
    have hdec : ∀ c ∈ v ++ t, isDecimal c = true := by
      intro c hc
      apply hd.2 c
      rw [heq₂]
      exact List.mem_append_right d' hc
    have hspace : ∀ c ∈ v ++ t, isSpace c = true := by
      unfold atEnd at ht
      apply List.forall_mem_append.mpr ⟨hv, ?_⟩
      rcases Bool.or_eq_true_iff.mp ht with ht | ht
      · rw [eq_of_beq ht]
        exact fun c hc => absurd hc List.not_mem_nil
      · rw [eq_of_beq ht]
        exact List.forall_mem_singleton.mpr (by decide)
    apply List.eq_nil_iff_forall_not_mem.mpr
    intro c hc
    have hboth := not_isSpace_of_isDecimal (hdec c hc)
    rw [hspace c hc] at hboth
    cases hboth
  rw [hvt, List.append_nil] at heq₂
  show (hexValue h, decimalValue d') = (pc, n)
  rw [← heq₂, hpc, hn]

theorem countsPc_of_first {line : Text} (hone : OneLine line) {m : List Text × Text}
    (h : histLine.first (strip line) = some m) :
    CountsPc line (hexValue (m.1.getD 0 [])) (decimalValue (m.1.getD 1 [])) := by
  obtain ⟨pre, h, b, d, v, heq, hpre, hh, hb, hbl, hd, hv, ht, hgs⟩ :=
    mem_histLine.mp (Pattern.mem_ways_of_first h)
  obtain ⟨u, v₀, hu, hv₀, hline⟩ := exists_blanks line
  have hstrip : OneLine (strip line) := fun c hc => hone c (mem_of_mem_strip hc)
  have hnil : m.2 = [] := by
    apply OneLine.eq_nil _ ht
    rw [heq] at hstrip
    simp only [OneLine.append] at hstrip
    exact hstrip.2.2.2.2.2
  rw [hnil, List.append_nil] at heq
  refine ⟨u, pre, h, b, d, v ++ v₀, ?_, hu, hpre, hh, hb, hbl, hd,
    List.forall_mem_append.mpr ⟨hv, hv₀⟩, by rw [hgs]; rfl, by rw [hgs]; rfl⟩
  rw [hline, heq]
  simp only [List.append_assoc]

/-! ## the reader -/

theorem histogramNext_count {hist : Counter Nat} {line : Text} {pc n : Nat}
    (h : CountsPc line pc n) (hone : OneLine line) :
    histogramNext hist line = Counter.bump hist (pc % 2 ^ 32) n := by
  obtain ⟨m, hm, heq⟩ := Option.map_eq_some_iff.mp (first_histLine h hone)
  obtain ⟨hpc, hn⟩ := Prod.mk.inj heq
  unfold histogramNext
  rw [hm]
  show Counter.bump hist (hexValue _ &&& (2 ^ 32 - 1)) _ = _
  rw [hpc, hn, Nat.and_two_pow_sub_one_eq_mod]

theorem histogramNext_skip {hist : Counter Nat} {line : Text} (h : ∀ pc n, ¬ CountsPc line pc n)
    (hone : OneLine line) : histogramNext hist line = hist := by
  unfold histogramNext
  cases hm : histLine.first (strip line) with
  | none => rfl
  | some m => exact absurd (countsPc_of_first hone hm) (h _ _)

/-- the executions counted at `a`, a PC being known by its low 32 bits -/
def countedAt (es : List (Nat × Nat)) (a : Nat) : Nat :=
  ((es.filter fun e => e.1 % 2 ^ 32 = a).map Prod.snd).sum

theorem countedAt_cons (pc n : Nat) (es : List (Nat × Nat)) (a : Nat) :
    countedAt ((pc, n) :: es) a = (if a = pc % 2 ^ 32 then n else 0) + countedAt es a := by
  unfold countedAt
  by_cases h : pc % 2 ^ 32 = a
  · rw [List.filter_cons_of_pos (by simpa using h), List.map_cons, List.sum_cons, if_pos h.symm]
  · rw [List.filter_cons_of_neg (by simpa using h), if_neg (Ne.symm h), Nat.zero_add]

/-- one store for each line that counts a PC -/
theorem foldl_histogramNext {doc : List Text} {es : List (Nat × Nat)} (h : Prints doc es)
    (hone : ∀ line ∈ doc, OneLine line) (hist : Counter Nat) :
    doc.foldl histogramNext hist
      = es.foldl (fun hist e => Counter.bump hist (e.1 % 2 ^ 32) e.2) hist := by
  induction h generalizing hist with
  | done => rfl
  | skip hno _ ih =>
    obtain ⟨hline, hrest⟩ := List.forall_mem_cons.mp hone
    rw [List.foldl_cons, histogramNext_skip hno hline, ih hrest]
  | count hc _ ih =>
    obtain ⟨hline, hrest⟩ := List.forall_mem_cons.mp hone
    rw [List.foldl_cons, histogramNext_count hc hline, ih hrest, List.foldl_cons]

theorem get_foldl_bump (es : List (Nat × Nat)) (hist : Counter Nat) (a : Nat) :
    Counter.get (es.foldl (fun hist e => Counter.bump hist (e.1 % 2 ^ 32) e.2) hist) a
      = Counter.get hist a + countedAt es a := by
  induction es generalizing hist with
  | nil => rfl
  | cons e es ih =>
    obtain ⟨pc, n⟩ := e
    rw [List.foldl_cons, ih, Counter.get_bump, countedAt_cons, Nat.add_assoc]

theorem exists_prints (doc : List Text) : ∃ es, Prints doc es := by
  induction doc with
  | nil => exact ⟨[], .done⟩
  | cons line doc ih =>
    obtain ⟨es, hes⟩ := ih
    by_cases hc : ∃ pc n, CountsPc line pc n
    · obtain ⟨pc, n, hc⟩ := hc
      exact ⟨(pc, n) :: es, .count hc hes⟩
    · exact ⟨es, .skip (fun pc n h => hc ⟨pc, n, h⟩) hes⟩

theorem spikeHistogram_eq {stdout stderr : Text} {es : List (Nat × Nat)}
    (h : Prints (splitLines [] (stdout ++ stderr)) es) : (spikeHistogram stdout stderr).1
      = es.foldl (fun hist e => Counter.bump hist (e.1 % 2 ^ 32) e.2) Dict.empty :=
  foldl_histogramNext h (fun _ hline =>
    oneLine_of_mem_splitLines (fun _ hc => absurd hc List.not_mem_nil) hline) Dict.empty

theorem get_spikeHistogram {stdout stderr : Text} {es : List (Nat × Nat)}
    (h : Prints (splitLines [] (stdout ++ stderr)) es) (a : Nat) :
    Counter.get (spikeHistogram stdout stderr).1 a = countedAt es a := by
  rw [spikeHistogram_eq h, get_foldl_bump]
  exact Nat.zero_add _

/-! ## printing a histogram -/

def renderCount (e : Nat × Nat) : Text := Nat.toDigits 16 e.1 ++ ' ' :: Nat.toDigits 10 e.2

theorem digitChar_decimal {d : Nat} (h : d < 10) :
    isDecimal d.digitChar = true ∧ digit d.digitChar = some d := by
  revert d
  decide

theorem decimalValue_toDigits (n : Nat) : decimalValue (Nat.toDigits 10 n) = n
    ∧ ∀ c ∈ Nat.toDigits 10 n, isDecimal c = true := by
  have hconcat : ∀ (s : Text) (c : Char),
      decimalValue (s ++ [c]) = 10 * decimalValue s + (digit c).getD 0 := by
    intro s c
    unfold decimalValue
    rw [List.foldl_append]
    rfl
  induction n using Nat.strongRecOn with
  | ind n ih =>
    rw [Nat.toDigits_eq_if (by decide)]
    split_ifs with hn
    · obtain ⟨hdec, hdigit⟩ := digitChar_decimal hn
      refine ⟨?_, List.forall_mem_singleton.mpr hdec⟩
      show 10 * 0 + (digit n.digitChar).getD 0 = n
      rw [hdigit, Option.getD_some]
      omega
    · obtain ⟨hvalue, hall⟩ := ih (n / 10) (by omega)
      obtain ⟨hdec, hdigit⟩ := digitChar_decimal (Nat.mod_lt n (by decide : 0 < 10))
      refine ⟨?_, List.forall_mem_append.mpr ⟨hall, List.forall_mem_singleton.mpr hdec⟩⟩
      rw [hconcat, hvalue, hdigit, Option.getD_some]
      omega

theorem countsPc_renderCount (e : Nat × Nat) : CountsPc (renderCount e) e.1 e.2 := by
  obtain ⟨hvalue, hdec⟩ := decimalValue_toDigits e.2
  have hnil : Blank [] := fun c hc => absurd hc List.not_mem_nil
  refine ⟨[], [], Nat.toDigits 16 e.1, [' '], Nat.toDigits 10 e.2, [], ?_, hnil, Or.inl rfl,
    hexText_toDigits e.1, List.cons_ne_nil _ _, List.forall_mem_singleton.mpr (by decide),
    ⟨Nat.toDigits_ne_nil, hdec⟩, hnil, hexValue_toDigits e.1, hvalue⟩
  rw [List.append_nil]
  rfl

theorem oneLine_renderCount (e : Nat × Nat) : OneLine (renderCount e) := by
  unfold renderCount
  rw [OneLine.append, OneLine.cons]
  refine ⟨oneLine_of_hex (isHex_toDigits e.1), by decide, fun c hc => ?_⟩
  have hdec := (decimalValue_toDigits e.2).2 c hc
  apply Bool.eq_false_iff.mpr
  intro hbreak
  have hspace := not_isSpace_of_isDecimal hdec
  rw [isBreak_space hbreak] at hspace
  cases hspace

theorem prints_renderCount (es : List (Nat × Nat)) :
    Prints (splitLines [] (unlines (es.map renderCount))) es := by
  rw [splitLines_unlines]
  · induction es with
    | nil => exact .done
    | cons e es ih => exact .count (countsPc_renderCount e) ih
  · intro line hline
    obtain ⟨e, -, rfl⟩ := List.mem_map.mp hline
    exact oneLine_renderCount e

/-- **Every output prints some counts, every histogram has a print, and whatever an output prints,
in whatever order and with whatever between the lines, the histogram that is read has at each
address the sum of the counts printed for it.** -/
theorem spikeHistogram_get :
    (∀ doc : List Text, ∃ es, Prints doc es)
    ∧ (∀ es, Prints (splitLines [] (unlines (es.map renderCount))) es)
    ∧ ∀ stdout stderr es, Prints (splitLines [] (stdout ++ stderr)) es →
      ∀ a, Counter.get (spikeHistogram stdout stderr).1 a = countedAt es a :=
  ⟨exists_prints, prints_renderCount, fun _ _ _ h a => get_spikeHistogram h a⟩

end Starbug
