import Mathlib.Data.List.Infix
import Starbug.Lib.Regex

/-!
# The ISA string of an ELF (`isa_from_elf` of `tools/starbug_profile.py`)

`Tag_RISCV_arch` spells out every extension with a version.  The tool strips the versions, puts the
one-letter extensions behind the base and the longer ones behind underscores.

* `erase_version`        what the suffix pattern takes off a versioned name is its version, also
                         where the name itself has digits and the letter `p`;
* `search_archTag`       the pattern of the tag finds the first tag of the text;
* `isaFromElf_of_tag`    the tool returns the base and the names of the extensions, each once.
-/

namespace Starbug

open Regex

/-! ## the source -/

/-- `a or b` -/
def orElse (a b : Option Text) : Option Text :=
  match a with
  | some (c :: s) => some (c :: s)
  | _ => b

/-- `Tag_RISCV_arch:\s*"([^"]+)"` -/
def archTag : List (Item Char) :=
  lit "Tag_RISCV_arch:".toList ++ [.many 0 isSpace false, .one fun c => c == '"',
    .many 1 (fun c => c != '"') true, .one fun c => c == '"']

/-- `$` -/
def atEnd (s : Text) : Bool := s == [] || s == ['\n']

/-- `\d+p\d+$` -/
def version : List (Item Char) :=
  [.many 1 isDecimal false, .one fun c => c == 'p', .many 1 isDecimal false, .look atEnd]

/-- `isa_from_elf` from the split on -/
def rewriteArch (tag : Text) : Text :=
  let parts := (tag.splitOn '_').map (erase version)
  -- `split` never returns an empty list
  let base := parts.headD []
  let single := (parts.tail.filter fun t => t.length == 1).flatten
  let multi := parts.tail.filter fun t => 1 < t.length
  ['_'].intercalate ((base ++ single) :: multi)

/-- the `readelf` that is run; `which` is `shutil.which` -/
def findReadelf (which : Text → Option Text) (readelf : Option Text) : Option Text :=
  orElse (orElse (orElse readelf (which "riscv64-unknown-elf-readelf".toList))
    (which "llvm-readelf".toList)) (which "readelf".toList)

/-- `run` is the standard output of a command, `none` where `subprocess.run` raises -/
def isaFromElf (which : Text → Option Text) (run : List Text → Option Text) (elf : Text)
    (readelf : Option Text) : Option Text :=
  match findReadelf which readelf with
  | none => none
  | some tool =>
    match run [tool, "-A".toList, elf] with
    | none => none
    | some stdout => ((search archTag stdout).bind List.head?).map rewriteArch

/-! ## names and versions -/

structure IsName (s : Text) : Prop where
  ne_nil : s ≠ []
  alnum : ∀ c ∈ s, c.isLower = true ∨ c.isDigit = true
  last : (s.getLast ne_nil).isDigit = false

structure IsNumber (s : Text) : Prop where
  ne_nil : s ≠ []
  digits : ∀ c ∈ s, c.isDigit = true

instance (s : Text) : Decidable (IsName s) :=
  decidable_of_iff (∃ h : s ≠ [], (s.all fun c => c.isLower || c.isDigit) = true
      ∧ (s.getLast h).isDigit = false)
    ⟨fun ⟨h, hs, hl⟩ => ⟨h, fun c hc => Bool.or_eq_true_iff.mp (List.all_eq_true.mp hs c hc), hl⟩,
      fun h => ⟨h.ne_nil,
        List.all_eq_true.mpr fun c hc => Bool.or_eq_true_iff.mpr (h.alnum c hc), h.last⟩⟩

instance (s : Text) : Decidable (IsNumber s) :=
  decidable_of_iff (s ≠ [] ∧ s.all Char.isDigit = true)
    ⟨fun h => ⟨h.1, List.all_eq_true.mp h.2⟩, fun h => ⟨h.ne_nil, List.all_eq_true.mpr h.digits⟩⟩

/-- a name followed by MAJORpMINOR -/
structure Versioned where
  name : Text
  major : Text
  minor : Text
  name_ok : IsName name
  major_ok : IsNumber major
  minor_ok : IsNumber minor

def Versioned.suffix (e : Versioned) : Text := e.major ++ 'p' :: e.minor

def Versioned.spelled (e : Versioned) : Text := e.name ++ e.suffix

/-- the tag: base and extensions, each with its version, joined by underscores -/
def archString (base : Versioned) (exts : List Versioned) : Text :=
  ['_'].intercalate ((base :: exts).map Versioned.spelled)

def oneLetter (exts : List Versioned) : List Text :=
  (exts.map Versioned.name).filter fun n => n.length == 1

def longer (exts : List Versioned) : List Text :=
  (exts.map Versioned.name).filter fun n => 1 < n.length

/-- the base, the one-letter extensions, each longer one behind an underscore -/
def isaString (base : Versioned) (exts : List Versioned) : Text :=
  base.name ++ (oneLetter exts).flatten ++ (longer exts).flatMap fun n => '_' :: n

theorem toNat_of_alnum {c : Char} (h : c.isLower = true ∨ c.isDigit = true) :
    48 ≤ c.toNat ∧ c.toNat ≤ 57 ∨ 97 ≤ c.toNat ∧ c.toNat ≤ 122 := by
  rcases h with h | h
  · right
    have hb : (decide ('a'.val ≤ c.val) && decide (c.val ≤ 'z'.val)) = true := h
    obtain ⟨hle, hge⟩ := Bool.and_eq_true_iff.mp hb
    exact ⟨UInt32.le_iff_toNat_le.mp (of_decide_eq_true hle),
      UInt32.le_iff_toNat_le.mp (of_decide_eq_true hge)⟩
  · left
    simpa [Char.isDigit, UInt32.le_iff_toNat_le] using h

theorem not_mem_of_alnum {s : Text} (h : ∀ c ∈ s, c.isLower = true ∨ c.isDigit = true) {c : Char}
    (hc : ¬ (48 ≤ c.toNat ∧ c.toNat ≤ 57 ∨ 97 ≤ c.toNat ∧ c.toNat ≤ 122)) : c ∉ s :=
  fun hmem => hc (toNat_of_alnum (h c hmem))

theorem IsNumber.decimal {s : Text} (h : IsNumber s) : ∀ c ∈ s, isDecimal c = true :=
  fun c hc => isDecimal_of_isDigit (h.digits c hc)

/-- a name ends in a letter -/
theorem IsName.eq_concat {s : Text} (h : IsName s) :
    ∃ x c, s = x ++ [c] ∧ isDecimal c = false ∧ c ≠ '\n' := by
  refine ⟨s.dropLast, s.getLast h.ne_nil, (List.dropLast_append_getLast h.ne_nil).symm, ?_, ?_⟩
  · have hc := toNat_of_alnum (h.alnum _ (List.getLast_mem h.ne_nil))
    rw [Bool.eq_false_iff]
    intro hdec
    have hdig := isDigit_of_isDecimal (by omega) hdec
    rw [h.last] at hdig
    exact Bool.false_ne_true hdig
  · rintro hn
    have hmem := List.getLast_mem h.ne_nil
    rw [hn] at hmem
    exact not_mem_of_alnum h.alnum (by decide) hmem

theorem IsName.append {s : Text} (h : IsName s) {ls : List Text} (hls : ∀ l ∈ ls, IsName l) :
    IsName (s ++ ls.flatten) := by
  induction ls generalizing s with
  | nil => simpa using h
  | cons l ls ih =>
    have hl := hls l List.mem_cons_self
    have happ : IsName (s ++ l) := by
      refine ⟨List.append_ne_nil_of_left_ne_nil h.ne_nil l, ?_, ?_⟩
      · intro c hc
        exact (List.mem_append.mp hc).elim (h.alnum c) (hl.alnum c)
      · rw [List.getLast_append_of_ne_nil _ hl.ne_nil]
        exact hl.last
    rw [List.flatten_cons, ← List.append_assoc]
    exact ih happ fun l' hl' => hls l' (List.mem_cons_of_mem l hl')

theorem Versioned.alnum (e : Versioned) : ∀ c ∈ e.spelled, c.isLower = true ∨ c.isDigit = true := by
  intro c hc
  rcases List.mem_append.mp hc with hc | hc
  · exact e.name_ok.alnum c hc
  rcases List.mem_append.mp hc with hc | hc
  · exact Or.inr (e.major_ok.digits c hc)
  rcases List.mem_cons.mp hc with rfl | hc
  · exact Or.inl rfl
  · exact Or.inr (e.minor_ok.digits c hc)

/-! ## the version pattern -/

theorem matches_version {s t : Text} {gs : List Text} (h : Matches version s gs t) :
    ∃ u v, s = u ++ 'p' :: (v ++ t) ∧ (∀ c ∈ u, isDecimal c = true) ∧ v ≠ []
      ∧ (∀ c ∈ v, isDecimal c = true) ∧ (t = [] ∨ t = ['\n']) ∧ gs = [] := by
  obtain ⟨u, s₁, gs₁, rfl, -, hu, rfl, h⟩ := matches_many.mp h
  obtain ⟨c, s₂, rfl, hc, h⟩ := matches_one.mp h
  obtain ⟨v, s₃, gs₃, rfl, hv, hvd, rfl, h⟩ := matches_many.mp h
  obtain ⟨hend, h⟩ := matches_look.mp h
  obtain ⟨rfl, rfl⟩ := matches_nil.mp h
  obtain rfl := eq_of_beq hc
  refine ⟨u, v, rfl, hu, ?_, hvd, ?_, rfl⟩
  · exact List.ne_nil_of_length_pos hv
  · simpa [atEnd] using hend

/-- the last letter of a text that matches is a digit or a newline -/
theorem version_last {x t : Text} {c : Char} {gs : List Text} (h : Matches version (x ++ [c]) gs t) :
    gs = [] ∧ (t = [] ∧ isDecimal c = true ∨ c = '\n') := by
  obtain ⟨u, v, hs, -, hv, hvd, ht, hgs⟩ := matches_version h
  refine ⟨hgs, ?_⟩
  rcases ht with rfl | rfl
  · left
    have hlast := congrArg List.getLast? hs
    rw [List.append_nil, List.getLast?_concat, List.getLast?_append_of_ne_nil _ (List.cons_ne_nil _ v),
      List.getLast?_cons_of_ne_nil hv] at hlast
    exact ⟨rfl, hvd c (List.mem_of_getLast? hlast.symm)⟩
  · right
    have hlast := congrArg List.getLast? hs
    rw [List.getLast?_concat, ← List.cons_append, ← List.append_assoc, List.getLast?_concat] at hlast
    exact Option.some.inj hlast

/-- the letters that are no digits: the `p`, and a newline that is left -/
theorem version_count {s t : Text} {gs : List Text} (h : Matches version s gs t) :
    s.countP (fun c => !isDecimal c) = 1 + t.length := by
  obtain ⟨u, v, rfl, hu, -, hv, ht, -⟩ := matches_version h
  have hzero : ∀ w : Text, (∀ c ∈ w, isDecimal c = true) → w.countP (fun c => !isDecimal c) = 0 := by
    intro w hw
    rw [List.countP_eq_zero]
    intro c hc
    simp [hw c hc]
  rw [List.countP_append, List.countP_cons, List.countP_append, hzero u hu, hzero v hv]
  rcases ht with rfl | rfl
  · decide
  · decide

/-- the version ends in a digit -/
theorem Versioned.suffix_eq_concat (e : Versioned) :
    ∃ x d, e.suffix = x ++ [d] ∧ isDecimal d = true ∧ d ≠ '\n' := by
  have hmin := e.minor_ok.ne_nil
  have hd := e.minor_ok.decimal _ (List.getLast_mem hmin)
  refine ⟨e.major ++ 'p' :: e.minor.dropLast, e.minor.getLast hmin, ?_, hd, ?_⟩
  · rw [List.append_assoc, List.cons_append, List.dropLast_append_getLast hmin]
    rfl
  · intro hnl
    rw [hnl] at hd
    exact absurd hd (by decide)

/-- the pattern takes a version whole -/
theorem matchHere_suffix (e : Versioned) : matchHere version e.suffix = some ([], []) := by
  obtain ⟨x, d, hx, -, hnl⟩ := e.suffix_eq_concat
  have hend : Matches [Item.look atEnd] ([] : Text) [] [] := Matches.look rfl Matches.nil
  have hminor : Matches [.many 1 isDecimal false, .look atEnd] e.minor [] [] :=
    matches_many.mpr ⟨e.minor, [], [], (List.append_nil e.minor).symm,
      List.length_pos_iff.mpr e.minor_ok.ne_nil, e.minor_ok.decimal, rfl, hend⟩
  apply matchHere_eq_some
  · exact Matches.many (List.length_pos_iff.mpr e.major_ok.ne_nil) e.major_ok.decimal
      (Matches.one rfl hminor)
  · intro gs t h
    rw [hx] at h
    obtain ⟨hgs, ⟨ht, -⟩ | hc⟩ := version_last h
    · exact ⟨hgs, ht⟩
    · exact absurd hc hnl

/-- no match begins inside the name: its last letter and the `p` of the version are two letters that
are no digits -/
theorem matchHere_inside (e : Versioned) {a y : Text} (hay : e.name = a ++ y) (hy : y ≠ []) :
    matchHere version (y ++ e.suffix) = none := by
  apply matchHere_eq_none
  intro gs t h
  obtain ⟨x, d, hx, -, hnl⟩ := e.suffix_eq_concat
  have ht : t = [] := by
    have h' := h
    rw [hx, ← List.append_assoc] at h'
    exact (version_last h').2.elim And.left fun hd => absurd hd hnl
  obtain ⟨z, c, hz, hc, -⟩ := e.name_ok.eq_concat
  have hcy : c ∈ y := by
    have hl : (a ++ y).getLast? = some c := by rw [← hay, hz, List.getLast?_concat]
    rw [List.getLast?_append_of_ne_nil _ hy] at hl
    exact List.mem_of_getLast? hl
  have hone : 1 ≤ y.countP (fun c => !isDecimal c) :=
    List.countP_pos_iff.mpr ⟨c, hcy, by rw [hc]; rfl⟩
  have hp : 1 ≤ e.suffix.countP (fun c => !isDecimal c) :=
    List.countP_pos_iff.mpr ⟨'p', List.mem_append_right _ List.mem_cons_self, by decide⟩
  have hcount := version_count h
  rw [List.countP_append, ht, List.length_nil] at hcount
  omega

/-- **The pattern takes the version off a versioned name, and nothing else.** -/
theorem erase_version (e : Versioned) : erase version e.spelled = e.name := by
  unfold Versioned.spelled
  rw [erase_append fun a y hay hy => matchHere_inside e hay hy, erase_whole (matchHere_suffix e),
    List.append_nil]

theorem erase_name {s : Text} (h : IsName s) : erase version s = s := by
  apply erase_eq_self
  intro x y hxy hy
  apply matchHere_eq_none
  intro gs t hm
  obtain ⟨z, c, hz, hc, hnl⟩ := h.eq_concat
  have hl : y.getLast? = some c := by
    rw [← List.getLast?_append_of_ne_nil x hy, ← hxy, hz, List.getLast?_concat]
  obtain ⟨y', rfl⟩ := List.getLast?_eq_some_iff.mp hl
  rcases (version_last hm).2 with ⟨-, hd⟩ | hn
  · rw [hc] at hd
    exact Bool.false_ne_true hd
  · exact hnl hn

/-! ## the tag -/

/-- `s` begins with a tag -/
def TagAt (s tag : Text) : Prop :=
  ∃ space after, s = "Tag_RISCV_arch:".toList ++ (space ++ '"' :: (tag ++ '"' :: after))
    ∧ (∀ c ∈ space, isSpace c = true) ∧ tag ≠ [] ∧ '"' ∉ tag

/-- the first tag of the text -/
def Tagged (stdout tag : Text) : Prop :=
  ∃ before s, stdout = before ++ s ∧ TagAt s tag
    ∧ ∀ x y, before = x ++ y → y ≠ [] → ∀ tag', ¬ TagAt (y ++ s) tag'

theorem forall_ne_of_notMem {s : Text} {a : Char} (h : a ∉ s) : ∀ c ∈ s, (c != a) = true := by
  intro c hc
  rw [bne_iff_ne]
  rintro rfl
  exact h hc

theorem matches_archTag {s : Text} {gs : List Text} :
    (∃ t, Matches archTag s gs t) ↔ ∃ tag, TagAt s tag ∧ gs = [tag] := by
  constructor
  · rintro ⟨t, hm⟩
    obtain ⟨s₁, rfl, hm₁⟩ := matches_lit.mp hm
    obtain ⟨space, s₂, gs₂, rfl, -, hspace, rfl, hm₂⟩ := matches_many.mp hm₁
    obtain ⟨c, s₃, rfl, hc, hm₃⟩ := matches_one.mp hm₂
    obtain ⟨tag, s₄, gs₄, rfl, htag, hq, rfl, hm₄⟩ := matches_many.mp hm₃
    obtain ⟨d, s₅, rfl, hd, hm₅⟩ := matches_one.mp hm₄
    obtain ⟨rfl, rfl⟩ := matches_nil.mp hm₅
    obtain rfl := eq_of_beq hc
    obtain rfl := eq_of_beq hd
    have hmem : '"' ∉ tag := fun hc => absurd (hq _ hc) (by decide)
    exact ⟨tag, ⟨space, s₅, rfl, hspace, List.ne_nil_of_length_pos htag, hmem⟩, rfl⟩
  · rintro ⟨tag, ⟨space, after, rfl, hspace, htag, hq⟩, rfl⟩
    refine ⟨after, matches_lit.mpr ⟨_, rfl, Matches.many (Nat.zero_le _) hspace ?_⟩⟩
    refine Matches.one rfl ?_
    have hend : Matches [Item.one fun c => c == '"'] ('"' :: after) [] after :=
      Matches.one rfl Matches.nil
    exact Matches.many (List.length_pos_iff.mpr htag) (forall_ne_of_notMem hq) hend

theorem tagAt_unique {s tag tag' : Text} (h : TagAt s tag) (h' : TagAt s tag') : tag = tag' := by
  obtain ⟨space, after, rfl, hspace, -, hq⟩ := h
  obtain ⟨space', after', heq, hspace', -, hq'⟩ := h'
  obtain ⟨-, hrest⟩ := run_unique hspace hspace' (by decide) (by decide)
    (List.append_cancel_left heq)
  exact (run_unique (forall_ne_of_notMem hq) (forall_ne_of_notMem hq') (by decide) (by decide)
    (List.cons.inj hrest).2).1

theorem search_archTag {stdout tag : Text} (h : Tagged stdout tag) :
    search archTag stdout = some [tag] := by
  obtain ⟨before, s, rfl, htag, hfirst⟩ := h
  have hnone : ∀ x y, before = x ++ y → y ≠ [] → matchHere archTag (y ++ s) = none := by
    intro x y hxy hy
    apply matchHere_eq_none
    intro gs t hm
    obtain ⟨tag', htag', -⟩ := matches_archTag.mp ⟨t, hm⟩
    exact hfirst x y hxy hy tag' htag'
  obtain ⟨t, ht⟩ := matches_archTag.mpr ⟨tag, htag, rfl⟩
  obtain ⟨⟨gs, t'⟩, hm⟩ := matchHere_of_matches ht
  obtain ⟨tag', htag', rfl⟩ := matches_archTag.mp ⟨t', matches_of_matchHere hm⟩
  obtain rfl := tagAt_unique htag htag'
  rw [search_append hnone, search_of_matchHere hm]

/-! ## the rewriting -/

theorem rewriteArch_of_parts {tag base : Text} {rest : List Text}
    (h : (tag.splitOn '_').map (erase version) = base :: rest) :
    rewriteArch tag = ['_'].intercalate
      ((base ++ (rest.filter fun t => t.length == 1).flatten)
        :: rest.filter fun t => 1 < t.length) := by
  unfold rewriteArch
  rw [h]
  rfl

theorem intercalate_cons (a : Text) (rest : List Text) :
    ['_'].intercalate (a :: rest) = a ++ rest.flatMap fun n => '_' :: n := by
  induction rest generalizing a with
  | nil => simp
  | cons b rest ih =>
    rw [List.intercalate_cons_cons, ih, List.flatMap_cons, List.append_assoc]
    rfl

theorem underscore_notMem {s : Text} (h : ∀ c ∈ s, c.isLower = true ∨ c.isDigit = true) :
    '_' ∉ s :=
  not_mem_of_alnum h (by decide)

theorem isaString_eq (base : Versioned) (exts : List Versioned) :
    isaString base exts
      = ['_'].intercalate ((base.name ++ (oneLetter exts).flatten) :: longer exts) :=
  (intercalate_cons _ _).symm

theorem rewriteArch_archString (base : Versioned) (exts : List Versioned) :
    rewriteArch (archString base exts) = isaString base exts := by
  have hparts : ((archString base exts).splitOn '_').map (erase version)
      = base.name :: exts.map Versioned.name := by
    unfold archString
    rw [List.splitOn_intercalate '_' _ (by simp), List.map_map]
    · exact List.map_congr_left fun e _ => erase_version e
    · intro l hl
      obtain ⟨e, -, rfl⟩ := List.mem_map.mp hl
      exact underscore_notMem e.alnum
  rw [rewriteArch_of_parts hparts, isaString_eq]
  rfl

example : rewriteArch "rv32i2p1_m2p0_zp1p1p0".toList = "rv32im_zp1p".toList := by decide

/-- **The string is a fixed point of the rewriting.** -/
theorem rewriteArch_isaString (base : Versioned) (exts : List Versioned) :
    rewriteArch (isaString base exts) = isaString base exts := by
  have hname : ∀ n ∈ exts.map Versioned.name, IsName n := by
    intro n hn
    obtain ⟨e, -, rfl⟩ := List.mem_map.mp hn
    exact e.name_ok
  have hbase : IsName (base.name ++ (oneLetter exts).flatten) :=
    base.name_ok.append fun n hn => hname n (List.mem_of_mem_filter hn)
  have hlonger : ∀ n ∈ longer exts, IsName n := fun n hn => hname n (List.mem_of_mem_filter hn)
  have hall : ∀ n ∈ (base.name ++ (oneLetter exts).flatten) :: longer exts, IsName n := by
    intro n hn
    rcases List.mem_cons.mp hn with rfl | hn
    · exact hbase
    · exact hlonger n hn
  have hparts : ((isaString base exts).splitOn '_').map (erase version)
      = (base.name ++ (oneLetter exts).flatten) :: longer exts := by
    rw [isaString_eq, List.splitOn_intercalate '_' _ (by simp)]
    · exact (List.map_congr_left fun n hn => erase_name (hall n hn)).trans (List.map_id _)
    · exact fun n hn => underscore_notMem (hall n hn).alnum
  have hlong : ∀ n ∈ longer exts, 1 < n.length := fun n hn => by
    simpa using (List.mem_filter.mp hn).2
  have hones : (longer exts).filter (fun t => t.length == 1) = [] := by
    rw [List.filter_eq_nil_iff]
    intro n hn h1
    have := hlong n hn
    have := eq_of_beq h1
    omega
  have hkeep : (longer exts).filter (fun t => 1 < t.length) = longer exts := by
    rw [List.filter_eq_self]
    exact fun n hn => decide_eq_true (hlong n hn)
  rw [rewriteArch_of_parts hparts, hones, hkeep, List.flatten_nil, List.append_nil]
  exact (isaString_eq base exts).symm

/-- no extension is lost and none is there twice -/
theorem oneLetter_longer_perm (exts : List Versioned) :
    (oneLetter exts ++ longer exts).Perm (exts.map Versioned.name) := by
  have hsplit : longer exts
      = (exts.map Versioned.name).filter fun n => !(n.length == 1) := by
    apply List.filter_congr
    intro n hn
    obtain ⟨e, -, rfl⟩ := List.mem_map.mp hn
    have hpos := List.length_pos_iff.mpr e.name_ok.ne_nil
    rw [Bool.eq_iff_iff, decide_eq_true_iff, Bool.not_eq_true', beq_eq_false_iff_ne]
    omega
  rw [hsplit]
  exact List.filter_append_perm _ _

/-- **The names of the tag come through.**  The tool returns the base, the one-letter extensions and
each longer one behind an underscore; the same rewriting leaves that string as it is. -/
theorem isaFromElf_of_tag {which : Text → Option Text} {run : List Text → Option Text} {elf : Text}
    {readelf : Option Text} {tool stdout : Text} (htool : findReadelf which readelf = some tool)
    (hrun : run [tool, "-A".toList, elf] = some stdout) (base : Versioned) (exts : List Versioned)
    (htag : Tagged stdout (archString base exts)) :
    isaFromElf which run elf readelf = some (isaString base exts)
      ∧ (oneLetter exts ++ longer exts).Perm (exts.map Versioned.name)
      ∧ rewriteArch (isaString base exts) = isaString base exts := by
  refine ⟨?_, oneLetter_longer_perm exts, rewriteArch_isaString base exts⟩
  unfold isaFromElf
  rw [htool]
  show (match run [tool, "-A".toList, elf] with
    | none => none
    | some stdout => ((search archTag stdout).bind List.head?).map rewriteArch) = _
  rw [hrun]
  show ((search archTag stdout).bind List.head?).map rewriteArch = _
  rw [search_archTag htag]
  exact congrArg some (rewriteArch_archString base exts)

/-- `rv32i2p1_m2p0_zp1p1p0` -/
def tagBase : Versioned where
  name := "rv32i".toList
  major := "2".toList
  minor := "1".toList
  name_ok := by decide
  major_ok := by decide
  minor_ok := by decide

def tagExts : List Versioned :=
  [⟨"m".toList, "2".toList, "0".toList, by decide, by decide, by decide⟩,
    ⟨"zp1p".toList, "1".toList, "0".toList, by decide, by decide, by decide⟩]

def tagOutput : Text :=
  "File Attributes\n  Tag_RISCV_arch: \"rv32i2p1_m2p0_zp1p1p0\"\n".toList

theorem not_tagAt_of_label {s : Text} (h : ¬ "Tag_RISCV_arch:".toList <+: s) (tag : Text) :
    ¬ TagAt s tag := by
  rintro ⟨space, after, rfl, -⟩
  exact h (List.prefix_append _ _)

theorem tagged_tagOutput : Tagged tagOutput (archString tagBase tagExts) := by
  refine ⟨"File Attributes\n  ".toList,
    "Tag_RISCV_arch: \"rv32i2p1_m2p0_zp1p1p0\"\n".toList, by decide,
    ⟨" ".toList, "\n".toList, by decide, List.all_eq_true.mp rfl, by decide, by decide⟩, ?_⟩
  intro x y hxy hy tag
  apply not_tagAt_of_label
  have hall : ∀ z ∈ "File Attributes\n  ".toList.tails, z ≠ [] → ¬ "Tag_RISCV_arch:".toList
      <+: z ++ "Tag_RISCV_arch: \"rv32i2p1_m2p0_zp1p1p0\"\n".toList := by decide
  exact hall y ((List.mem_tails _ _).mpr ⟨x, hxy.symm⟩) hy

theorem isaFromElf_of_tag_rv32i :
    isaFromElf (fun _ => some "readelf".toList) (fun _ => some tagOutput) "a.elf".toList none
        = some (isaString tagBase tagExts)
      ∧ (oneLetter tagExts ++ longer tagExts).Perm (tagExts.map Versioned.name)
      ∧ rewriteArch (isaString tagBase tagExts) = isaString tagBase tagExts :=
  isaFromElf_of_tag rfl rfl tagBase tagExts tagged_tagOutput

end Starbug
