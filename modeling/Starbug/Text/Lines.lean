import Starbug.Bench.Run
import Starbug.Check.ArchTag
import Mathlib.Data.List.DropRight

/-!
# Lines and numerals of a tool's output

What the readers of the tools' output share: `strip`, the numerals of `int(.., 16)`, and the lines
of a text.

* `splitLines_unlines`   lines without breaks, each ended by a line feed, are split into themselves;
* `hexValue_toDigits`    a numeral is read as the number it spells, with leading zeros too
                         (`hexValue_fixedHex`).
-/

namespace Starbug

open Regex Bench

/-! ## blanks -/

/-- `str.strip()` -/
def strip (s : Text) : Text := (s.dropWhile isSpace).rdropWhile isSpace

/-- there is no blank at either end -/
structure Stripped (s : Text) : Prop where
  head : ∀ c ∈ s.head?, isSpace c = false
  last : ∀ c ∈ s.getLast?, isSpace c = false

theorem stripped_strip (s : Text) : Stripped (strip s) where
  head := by
    intro c hc
    unfold strip at hc
    obtain ⟨t, ht⟩ := List.rdropWhile_prefix isSpace (l := s.dropWhile isSpace)
    cases hr : (s.dropWhile isSpace).rdropWhile isSpace with
    | nil =>
      rw [hr] at hc
      cases hc
    | cons d u =>
      rw [hr] at hc ht
      obtain rfl := Option.some.inj hc
      apply Bool.eq_false_iff.mpr
      intro hsp
      have hne : s.dropWhile isSpace ≠ [] := by
        rw [← ht]
        exact List.cons_ne_nil _ _
      have hhead := List.head_dropWhile_not isSpace hne
      simp only [← ht] at hhead
      rw [show (d :: u ++ t).head _ = d from rfl, hsp] at hhead
      cases hhead
  last := by
    intro c hc
    unfold strip at hc
    have hne : (s.dropWhile isSpace).rdropWhile isSpace ≠ [] := by
      intro h0
      rw [h0] at hc
      cases hc
    have hlast := List.rdropWhile_last_not isSpace (s.dropWhile isSpace) hne
    rw [List.getLast?_eq_some_getLast hne] at hc
    obtain rfl := Option.some.inj hc
    exact Bool.eq_false_iff.mpr hlast

theorem dropWhile_of_head {s : Text} (h : ∀ c ∈ s.head?, isSpace c = false) :
    s.dropWhile isSpace = s := by
  cases s with
  | nil => rfl
  | cons c s =>
    apply List.dropWhile_cons_of_neg
    rw [h c rfl]
    exact Bool.false_ne_true

theorem rdropWhile_of_last {s : Text} (h : ∀ c ∈ s.getLast?, isSpace c = false) :
    s.rdropWhile isSpace = s := by
  rw [List.rdropWhile_eq_self_iff]
  intro hne
  rw [h _ (List.getLast?_eq_some_getLast hne)]
  exact Bool.false_ne_true

theorem strip_of_stripped {s : Text} (h : Stripped s) : strip s = s := by
  unfold strip
  rw [dropWhile_of_head h.head, rdropWhile_of_last h.last]

def Blank (s : Text) : Prop := ∀ c ∈ s, isSpace c = true

/-- blanks in front are stripped with those the text has -/
theorem strip_append {u s : Text} (hu : Blank u) : strip (u ++ s) = strip s := by
  unfold strip
  rw [List.dropWhile_append_of_pos hu]

/-- blanks around a stripped text are stripped -/
theorem strip_blanks {u s v : Text} (hu : Blank u) (hs : Stripped s) (hne : s ≠ [])
    (hv : Blank v) : strip (u ++ (s ++ v)) = s := by
  have hhead : ∀ c ∈ (s ++ v).head?, isSpace c = false := by
    obtain ⟨c, s, rfl⟩ := List.exists_cons_of_ne_nil hne
    exact hs.head
  have hback : (s ++ v).rdropWhile isSpace = s.rdropWhile isSpace := by
    unfold List.rdropWhile
    rw [List.reverse_append,
      List.dropWhile_append_of_pos fun c hc => hv c (List.mem_reverse.mp hc)]
  rw [strip_append hu]
  unfold strip
  rw [dropWhile_of_head hhead, hback, rdropWhile_of_last hs.last]

/-- what is stripped is blank -/
theorem exists_blanks (s : Text) : ∃ u v, Blank u ∧ Blank v ∧ s = u ++ (strip s ++ v) := by
  refine ⟨s.takeWhile isSpace, (s.dropWhile isSpace).rtakeWhile isSpace, ?_, ?_, ?_⟩
  · exact fun c hc => List.mem_takeWhile_imp hc
  · exact fun c hc => List.mem_rtakeWhile_imp hc
  · unfold strip
    rw [List.rdropWhile_append_rtakeWhile, List.takeWhile_append_dropWhile]

theorem mem_of_mem_strip {s : Text} {c : Char} (h : c ∈ strip s) : c ∈ s := by
  have hpre := (List.rdropWhile_prefix isSpace (l := s.dropWhile isSpace)).subset h
  exact (List.dropWhile_suffix isSpace).subset hpre

theorem isBreak_space {c : Char} (h : isLineBreak c = true) : isSpace c = true := by
  have hc : c.toNat ∈ [0xA, 0xB, 0xC, 0xD, 0x1C, 0x1D, 0x1E, 0x85, 0x2028, 0x2029] :=
    of_decide_eq_true h
  unfold isSpace
  simp only [List.mem_cons, List.not_mem_nil, or_false] at hc
  simp only [Bool.or_eq_true, Bool.and_eq_true, decide_eq_true_eq, List.mem_cons,
    List.not_mem_nil, or_false]
  omega

/-! ## numerals -/

/-- a digit of `int(.., 16)` -/
def hexDigit (c : Char) : Nat :=
  if c.isDigit then c.toNat - 48 else if 'a' ≤ c then c.toNat - 87 else c.toNat - 55

/-- `int(s, 16)` -/
def hexValue (s : Text) : Nat := s.foldl (fun n c => 16 * n + hexDigit c) 0

theorem hexValue_concat (s : Text) (c : Char) :
    hexValue (s ++ [c]) = 16 * hexValue s + hexDigit c := by
  unfold hexValue
  rw [List.foldl_append]
  rfl

theorem isHex_iff {c : Char} : isHex c = true
    ↔ 48 ≤ c.toNat ∧ c.toNat ≤ 57 ∨ 97 ≤ c.toNat ∧ c.toNat ≤ 102 ∨ 65 ≤ c.toNat ∧ c.toNat ≤ 70 := by
  unfold isHex
  simp only [Char.isDigit, Char.le_def, UInt32.le_iff_toNat_le, Bool.or_eq_true, Bool.and_eq_true,
    decide_eq_true_eq, ge_iff_le]
  show (48 ≤ c.toNat ∧ c.toNat ≤ 57 ∨ 97 ≤ c.toNat ∧ c.toNat ≤ 102)
    ∨ 65 ≤ c.toNat ∧ c.toNat ≤ 70 ↔ _
  omega

theorem not_isSpace_of_isHex {c : Char} (h : isHex c = true) : isSpace c = false := by
  rw [isHex_iff] at h
  apply Bool.eq_false_iff.mpr
  unfold isSpace
  simp only [Bool.or_eq_true, Bool.and_eq_true, decide_eq_true_eq, List.mem_cons,
    List.not_mem_nil, or_false, ne_eq]
  omega

theorem digitChar_hex {d : Nat} (h : d < 16) :
    isHex d.digitChar = true ∧ hexDigit d.digitChar = d := by
  revert d
  decide

theorem hexDigit_lt {c : Char} (h : isHex c = true) : hexDigit c < 16 := by
  rw [isHex_iff] at h
  have ha : 'a' ≤ c ↔ 97 ≤ c.toNat := by
    rw [Char.le_def, UInt32.le_iff_toNat_le]
    exact Iff.rfl
  have hd : c.isDigit = true ↔ 48 ≤ c.toNat ∧ c.toNat ≤ 57 := by
    simp only [Char.isDigit, UInt32.le_iff_toNat_le, Bool.and_eq_true, decide_eq_true_eq,
      ge_iff_le]
    exact Iff.rfl
  unfold hexDigit
  split_ifs with h1 h2
  · have hle := hd.mp h1
    omega
  · have hle := ha.mp h2
    omega
  · rw [hd] at h1
    rw [ha] at h2
    omega

theorem hexValue_lt {s : Text} (h : ∀ c ∈ s, isHex c = true) : hexValue s < 16 ^ s.length := by
  induction s using List.reverseRecOn with
  | nil => exact Nat.one_pos
  | append_singleton s c ih =>
    have hs := ih fun d hd => h d (List.mem_append_left [c] hd)
    have hc := hexDigit_lt (h c (List.mem_append_right s List.mem_cons_self))
    rw [hexValue_concat, List.length_append, List.length_singleton, Nat.pow_succ]
    omega

def HexText (s : Text) : Prop := s ≠ [] ∧ ∀ c ∈ s, isHex c = true

theorem hexText_iff {s : Text} : HexText s ↔ 1 ≤ s.length ∧ ∀ c ∈ s, isHex c = true :=
  and_congr_left' List.length_pos_iff.symm

theorem hexValue_toDigits (n : Nat) : hexValue (Nat.toDigits 16 n) = n := by
  induction n using Nat.strongRecOn with
  | ind n ih =>
    rw [Nat.toDigits_eq_if (by decide)]
    split_ifs with hn
    · show 16 * 0 + hexDigit n.digitChar = n
      rw [(digitChar_hex hn).2]
      omega
    · have hd := (digitChar_hex (Nat.mod_lt n (by decide : 0 < 16))).2
      rw [hexValue_concat, ih (n / 16) (by omega), hd]
      omega

theorem isHex_toDigits (n : Nat) : ∀ c ∈ Nat.toDigits 16 n, isHex c = true := by
  induction n using Nat.strongRecOn with
  | ind n ih =>
    rw [Nat.toDigits_eq_if (by decide)]
    split_ifs with hn
    · intro c hc
      obtain rfl := List.mem_singleton.mp hc
      exact (digitChar_hex hn).1
    · intro c hc
      rcases List.mem_append.mp hc with hc | hc
      · exact ih (n / 16) (by omega) c hc
      · obtain rfl := List.mem_singleton.mp hc
        exact (digitChar_hex (Nat.mod_lt n (by decide))).1

theorem hexText_toDigits (n : Nat) : HexText (Nat.toDigits 16 n) :=
  ⟨Nat.toDigits_ne_nil, isHex_toDigits n⟩

/-- the last `k` digits of a number -/
def fixedHex : Nat → Nat → Text
  | 0, _ => []
  | k + 1, n => fixedHex k (n / 16) ++ [(n % 16).digitChar]

theorem length_fixedHex (k n : Nat) : (fixedHex k n).length = k := by
  induction k generalizing n with
  | zero => rfl
  | succ k ih => rw [fixedHex, List.length_append, ih, List.length_singleton]

theorem isHex_fixedHex (k n : Nat) : ∀ c ∈ fixedHex k n, isHex c = true := by
  induction k generalizing n with
  | zero => exact fun c hc => absurd hc List.not_mem_nil
  | succ k ih =>
    intro c hc
    rcases List.mem_append.mp hc with hc | hc
    · exact ih (n / 16) c hc
    · obtain rfl := List.mem_singleton.mp hc
      exact (digitChar_hex (Nat.mod_lt n (by decide))).1

theorem hexValue_fixedHex {k n : Nat} (h : n < 16 ^ k) : hexValue (fixedHex k n) = n := by
  induction k generalizing n with
  | zero =>
    rw [Nat.pow_zero] at h
    show 0 = n
    omega
  | succ k ih =>
    rw [Nat.pow_succ] at h
    have hd := (digitChar_hex (Nat.mod_lt n (by decide : 0 < 16))).2
    rw [fixedHex, hexValue_concat, ih (by omega), hd]
    omega

/-! ## lines -/

def unlines (ls : List Text) : Text := ls.flatMap fun l => l ++ ['\n']

/-- no letter ends a line -/
def OneLine (s : Text) : Prop := ∀ c ∈ s, isLineBreak c = false

theorem OneLine.append {s t : Text} : OneLine (s ++ t) ↔ OneLine s ∧ OneLine t :=
  List.forall_mem_append

theorem OneLine.cons {c : Char} {s : Text} :
    OneLine (c :: s) ↔ isLineBreak c = false ∧ OneLine s :=
  List.forall_mem_cons

theorem OneLine.eq_nil {t : Text} (h : OneLine t) (ht : atEnd t = true) : t = [] := by
  unfold atEnd at ht
  rcases Bool.or_eq_true_iff.mp ht with ht | ht
  · exact eq_of_beq ht
  · obtain rfl := eq_of_beq ht
    exact absurd (h _ List.mem_cons_self) (by decide)

theorem oneLine_of_hex {s : Text} (h : ∀ c ∈ s, isHex c = true) : OneLine s := by
  intro c hc
  apply Bool.eq_false_iff.mpr
  intro hbreak
  have hsp := not_isSpace_of_isHex (h c hc)
  rw [isBreak_space hbreak] at hsp
  cases hsp

/-- `.` -/
def anyLetter (c : Char) : Bool := c != '\n'

theorem OneLine.anyLetter {s : Text} (h : OneLine s) : ∀ c ∈ s, anyLetter c = true := by
  intro c hc
  unfold Starbug.anyLetter
  rw [bne_iff_ne]
  intro heq
  subst heq
  exact absurd (h _ hc) (by decide)

theorem splitLines_cons {c : Char} (h : isLineBreak c = false) (line s : Text) :
    splitLines line (c :: s) = splitLines (c :: line) s := by
  rw [splitLines, h]
  · rfl
  · intro s' hc
    subst hc
    exact absurd h (by decide)

theorem splitLines_append {l : Text} (h : OneLine l) (line rest : Text) :
    splitLines line (l ++ '\n' :: rest) = (line.reverse ++ l) :: splitLines [] rest := by
  induction l generalizing line with
  | nil =>
    rw [List.append_nil]
    rfl
  | cons c l ih =>
    rw [List.cons_append, splitLines_cons (h c List.mem_cons_self),
      ih fun d hd => h d (List.mem_cons_of_mem c hd), List.reverse_cons, List.append_assoc]
    rfl

theorem splitLines_unlines {ls : List Text} (h : ∀ l ∈ ls, OneLine l) :
    splitLines [] (unlines ls) = ls := by
  induction ls with
  | nil => rfl
  | cons l ls ih =>
    have hl : unlines (l :: ls) = l ++ '\n' :: unlines ls := by
      show (l ++ ['\n']) ++ unlines ls = _
      rw [List.append_assoc]
      rfl
    rw [hl, splitLines_append (h l List.mem_cons_self),
      ih fun l' h' => h l' (List.mem_cons_of_mem l h')]
    rfl

/-- the lines of any text have no breaks -/
theorem oneLine_of_mem_splitLines {line s l : Text} (hline : OneLine line)
    (hl : l ∈ splitLines line s) : OneLine l := by
  have hrev : ∀ {u : Text}, OneLine u → OneLine u.reverse :=
    fun h c hc => h c (List.mem_reverse.mp hc)
  have hnil : OneLine [] := fun c hc => absurd hc List.not_mem_nil
  fun_induction splitLines line s with
  | case1 => exact absurd hl List.not_mem_nil
  | case2 line hne =>
    obtain rfl := List.mem_singleton.mp hl
    exact hrev hline
  | case3 line s ih =>
    rcases List.mem_cons.mp hl with rfl | hl
    · exact hrev hline
    · exact ih hnil hl
  | case4 line c s hcr hc ih =>
    rcases List.mem_cons.mp hl with rfl | hl
    · exact hrev hline
    · exact ih hnil hl
  | case5 line c s hcr hc ih =>
    exact ih (List.forall_mem_cons.mpr ⟨Bool.eq_false_iff.mpr hc, hline⟩) hl

/-! ## what a text goes on with -/

theorem head?_of_append {p : Char → Bool} {s : Text} (hne : s ≠ []) (hs : ∀ c ∈ s, p c = true)
    (r : Text) : ∀ c ∈ (s ++ r).head?, p c = true := by
  obtain ⟨d, s, rfl⟩ := List.exists_cons_of_ne_nil hne
  intro c hc
  obtain rfl := Option.some.inj hc
  exact hs d List.mem_cons_self

/-- a numeral does not go on with a blank -/
theorem HexText.head_not_space {s : Text} (h : HexText s) (r : Text) :
    ∀ c ∈ (s ++ r).head?, isSpace c = false :=
  fun c hc => not_isSpace_of_isHex (head?_of_append h.1 h.2 r c hc)

/-- blanks do not go on with a digit -/
theorem Blank.head_not_hex {s : Text} (hne : s ≠ []) (h : Blank s) (r : Text) :
    ∀ c ∈ (s ++ r).head?, isHex c = false := by
  intro c hc
  apply Bool.eq_false_iff.mpr
  intro hhex
  have hsp := head?_of_append hne h r c hc
  rw [not_isSpace_of_isHex hhex] at hsp
  cases hsp

theorem head_cons {p : Char → Bool} {d : Char} {r : Text} (h : p d = false) :
    ∀ c ∈ (d :: r).head?, p c = false := by
  intro c hc
  obtain rfl := Option.some.inj hc
  exact h

end Starbug
