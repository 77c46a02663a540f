import Mathlib.Data.List.Basic
import Mathlib.Data.List.TakeWhile

/-!
# Patterns with greedy repetitions

A pattern is a list of items: one letter of a class, a greedy repetition of a class (a group
when it is to be reported), a look at what is left.  `matchHere` tries the repetitions from the
longest down and goes back where the rest of the pattern fails; `search` takes the leftmost place
that matches, `erase` drops every match.

`Matches` says what a match is without saying which one is found: `matches_of_matchHere` and
`matchHere_of_matches`.
-/

namespace Regex

/-- a text is its code points -/
abbrev Text := List Char

/-! ## character classes -/

/-- the zeros of the decimal digits of Unicode; each begins a run of ten -/
def decimalZeros : List Nat :=
  [0x30, 0x660, 0x6F0, 0x7C0, 0x966, 0x9E6, 0xA66, 0xAE6, 0xB66, 0xBE6, 0xC66, 0xCE6, 0xD66, 0xDE6,
   0xE50, 0xED0, 0xF20, 0x1040, 0x1090, 0x17E0, 0x1810, 0x1946, 0x19D0, 0x1A80, 0x1A90, 0x1B50,
   0x1BB0, 0x1C40, 0x1C50, 0xA620, 0xA8D0, 0xA900, 0xA9D0, 0xA9F0, 0xAA50, 0xABF0, 0xFF10, 0x104A0,
   0x10D30, 0x11066, 0x110F0, 0x11136, 0x111D0, 0x112F0, 0x11450, 0x114D0, 0x11650, 0x116C0,
   0x11730, 0x118E0, 0x11950, 0x11C50, 0x11D50, 0x11DA0, 0x16A60, 0x16AC0, 0x16B50, 0x1D7CE,
   0x1D7D8, 0x1D7E2, 0x1D7EC, 0x1D7F6, 0x1E140, 0x1E2F0, 0x1E950, 0x1FBF0]

/-- the value of a decimal digit -/
def digit (c : Char) : Option Nat :=
  (decimalZeros.find? fun z => z ≤ c.toNat && c.toNat < z + 10).map fun z => c.toNat - z

/-- `\d` -/
def isDecimal (c : Char) : Bool := (digit c).isSome

/-- `\s` -/
def isSpace (c : Char) : Bool :=
  c.toNat ∈ [0x20, 0x85, 0xA0, 0x1680, 0x2028, 0x2029, 0x202F, 0x205F, 0x3000]
    || (9 ≤ c.toNat && c.toNat ≤ 0xD) || (0x1C ≤ c.toNat && c.toNat ≤ 0x1F)
    || (0x2000 ≤ c.toNat && c.toNat ≤ 0x200A)

/-- what a string of decimal digits counts -/
def decimalValue (s : Text) : Nat := s.foldl (fun n c => 10 * n + (digit c).getD 0) 0

theorem isDecimal_iff {c : Char} :
    isDecimal c = true ↔ ∃ z ∈ decimalZeros, z ≤ c.toNat ∧ c.toNat < z + 10 := by
  simp [isDecimal, digit]

theorem isDecimal_of_isDigit {c : Char} (h : c.isDigit = true) : isDecimal c = true := by
  have hc : 48 ≤ c.toNat ∧ c.toNat ≤ 57 := by
    simpa [Char.isDigit, UInt32.le_iff_toNat_le] using h
  exact isDecimal_iff.mpr ⟨0x30, List.mem_cons_self, hc.1, by omega⟩

/-- of the first 128 code points only the ten digits are decimal -/
theorem isDigit_of_isDecimal {c : Char} (hc : c.toNat < 128) (h : isDecimal c = true) :
    c.isDigit = true := by
  obtain ⟨z, hz, hle, hlt⟩ := isDecimal_iff.mp h
  have hz0 : z = 0x30 := by
    have : ∀ z ∈ decimalZeros, z = 0x30 ∨ 128 ≤ z := by decide
    rcases this z hz with rfl | h
    · rfl
    · omega
  subst hz0
  simp [Char.isDigit, UInt32.le_iff_toNat_le]
  exact ⟨hle, by have := hlt; show c.toNat ≤ 57; omega⟩

/-! ## patterns -/

section
variable {α : Type*}

inductive Item (α : Type*) where
  | one (p : α → Bool)
  | many (least : Nat) (p : α → Bool) (group : Bool)
  | look (test : List α → Bool)

/-- the letters of `w` one after the other -/
def lit [DecidableEq α] (w : List α) : List (Item α) := w.map fun c => .one fun x => x == c

/-- the lengths a repetition tries, from the longest -/
def lengths (least n : Nat) : List Nat := (List.range' least (n + 1 - least)).reverse

/-- a match at the front of the text: its groups, and what is left behind it -/
def matchHere : List (Item α) → List α → Option (List (List α) × List α)
  | [], s => some ([], s)
  | .one _ :: _, [] => none
  | .one p :: r, c :: s => if p c then matchHere r s else none
  | .many least p group :: r, s =>
    (lengths least (s.takeWhile p).length).findSome? fun k =>
      (matchHere r (s.drop k)).map fun m => (if group then s.take k :: m.1 else m.1, m.2)
  | .look test :: r, s => if test s then matchHere r s else none

/-- the groups of the leftmost match -/
def search (r : List (Item α)) : List α → Option (List (List α))
  | [] => (matchHere r []).map Prod.fst
  | c :: s => match matchHere r (c :: s) with
    | some m => some m.1
    | none => search r s

/-- drops `skip` letters, then every match behind them; an empty match drops nothing -/
def eraseFrom (r : List (Item α)) : Nat → List α → List α
  | _, [] => []
  | skip + 1, _ :: s => eraseFrom r skip s
  | 0, c :: s => match matchHere r (c :: s) with
    | some m => if m.2.length ≤ s.length then eraseFrom r (s.length - m.2.length) s
                else c :: eraseFrom r 0 s
    | none => c :: eraseFrom r 0 s

def erase (r : List (Item α)) (s : List α) : List α := eraseFrom r 0 s

/-! ## what a match is -/

/-- `Matches r s gs t`: a match of `r` at the front of `s` has the groups `gs` and leaves `t` -/
inductive Matches : List (Item α) → List α → List (List α) → List α → Prop where
  | nil {s} : Matches [] s [] s
  | one {p r c s gs t} (hc : p c = true) (h : Matches r s gs t) :
      Matches (.one p :: r) (c :: s) gs t
  | many {least p group r u s gs t} (hlen : least ≤ u.length) (hu : ∀ c ∈ u, p c = true)
      (h : Matches r s gs t) :
      Matches (.many least p group :: r) (u ++ s) (if group then u :: gs else gs) t
  | look {test r s gs t} (hs : test s = true) (h : Matches r s gs t) :
      Matches (.look test :: r) s gs t

theorem mem_lengths {least n k : Nat} : k ∈ lengths least n ↔ least ≤ k ∧ k ≤ n := by
  unfold lengths
  rw [List.mem_reverse, List.mem_range'_1]
  omega

/-- a prefix lies in the class exactly if it is no longer than the longest one -/
theorem length_le_takeWhile {p : α → Bool} {u s : List α} (hu : ∀ c ∈ u, p c = true) :
    u.length ≤ ((u ++ s).takeWhile p).length := by
  rw [List.takeWhile_append_of_pos hu, List.length_append]
  omega

theorem forall_mem_take {p : α → Bool} {s : List α} {k : Nat} (hk : k ≤ (s.takeWhile p).length) :
    ∀ c ∈ s.take k, p c = true := by
  intro c hc
  have hpre : s.take k <+: s.takeWhile p := by
    rw [List.prefix_iff_eq_take.mp (List.takeWhile_prefix p)]
    exact List.take_prefix_take_left hk
  exact List.mem_takeWhile_imp (hpre.subset hc)

theorem matches_of_matchHere {r : List (Item α)} {s t : List α} {gs : List (List α)}
    (h : matchHere r s = some (gs, t)) : Matches r s gs t := by
  induction r generalizing s gs t with
  | nil =>
    obtain ⟨rfl, rfl⟩ := Prod.mk.inj (Option.some.inj h)
    exact Matches.nil
  | cons i r ih =>
    cases i with
    | one p =>
      cases s with
      | nil => exact absurd h (by simp [matchHere])
      | cons c s =>
        rw [matchHere, Option.ite_none_right_eq_some] at h
        exact Matches.one h.1 (ih h.2)
    | many least p group =>
      rw [matchHere] at h
      obtain ⟨k, hk, hm⟩ := List.exists_of_findSome?_eq_some h
      obtain ⟨⟨gs', t'⟩, hm', heq⟩ := Option.map_eq_some_iff.mp hm
      obtain ⟨rfl, rfl⟩ := Prod.mk.inj heq
      obtain ⟨hle, hkn⟩ := mem_lengths.mp hk
      have hks : k ≤ s.length := Nat.le_trans hkn (List.takeWhile_prefix p).length_le
      have hlen : least ≤ (s.take k).length := by
        rw [List.length_take]
        omega
      have hmany := @Matches.many α least p group r _ _ _ _ hlen (forall_mem_take hkn) (ih hm')
      rwa [List.take_append_drop] at hmany
    | look test =>
      rw [matchHere, Option.ite_none_right_eq_some] at h
      exact Matches.look h.1 (ih h.2)

theorem matchHere_of_matches {r : List (Item α)} {s t : List α} {gs : List (List α)}
    (h : Matches r s gs t) : ∃ m, matchHere r s = some m := by
  induction h with
  | nil => exact ⟨_, rfl⟩
  | one hc _ ih =>
    obtain ⟨m, hm⟩ := ih
    exact ⟨m, by rw [matchHere, if_pos hc, hm]⟩
  | @many least p group r u s gs t hlen hu _ ih =>
    obtain ⟨m, hm⟩ := ih
    rw [matchHere]
    apply Option.isSome_iff_exists.mp
    rw [List.findSome?_isSome_iff]
    refine ⟨u.length, mem_lengths.mpr ⟨hlen, length_le_takeWhile hu⟩, ?_⟩
    rw [List.drop_left, hm]
    rfl
  | look hs _ ih =>
    obtain ⟨m, hm⟩ := ih
    exact ⟨m, by rw [matchHere, if_pos hs, hm]⟩

theorem matchHere_eq_none {r : List (Item α)} {s : List α} (h : ∀ gs t, ¬ Matches r s gs t) :
    matchHere r s = none := by
  cases hm : matchHere r s with
  | none => rfl
  | some m => exact absurd (matches_of_matchHere hm) (h m.1 m.2)

/-- where there is only one way to match, it is the one found -/
theorem matchHere_eq_some {r : List (Item α)} {s t : List α} {gs : List (List α)}
    (h : Matches r s gs t) (huniq : ∀ gs' t', Matches r s gs' t' → gs' = gs ∧ t' = t) :
    matchHere r s = some (gs, t) := by
  obtain ⟨⟨gs', t'⟩, hm⟩ := matchHere_of_matches h
  obtain ⟨rfl, rfl⟩ := huniq gs' t' (matches_of_matchHere hm)
  exact hm

/-! ## taking a match apart -/

theorem matches_nil {s t : List α} {gs : List (List α)} :
    Matches [] s gs t ↔ gs = [] ∧ s = t := by
  constructor
  · rintro ⟨⟩
    exact ⟨rfl, rfl⟩
  · rintro ⟨rfl, rfl⟩
    exact Matches.nil

theorem matches_one {p : α → Bool} {r : List (Item α)} {s t : List α} {gs : List (List α)} :
    Matches (.one p :: r) s gs t ↔ ∃ c s', s = c :: s' ∧ p c = true ∧ Matches r s' gs t := by
  constructor
  · rintro ⟨⟩
    exact ⟨_, _, rfl, ‹_›, ‹_›⟩
  · rintro ⟨c, s', rfl, hc, h⟩
    exact Matches.one hc h

theorem matches_many {least : Nat} {p : α → Bool} {group : Bool} {r : List (Item α)}
    {s t : List α} {gs : List (List α)} :
    Matches (.many least p group :: r) s gs t ↔ ∃ u s' gs', s = u ++ s' ∧ least ≤ u.length
      ∧ (∀ c ∈ u, p c = true) ∧ gs = (if group then u :: gs' else gs') ∧ Matches r s' gs' t := by
  constructor
  · intro h
    cases h with
    | many hlen hu h => exact ⟨_, _, _, rfl, hlen, hu, rfl, h⟩
  · rintro ⟨u, s', gs', rfl, hlen, hu, rfl, h⟩
    exact Matches.many hlen hu h

theorem matches_look {test : List α → Bool} {r : List (Item α)} {s t : List α}
    {gs : List (List α)} :
    Matches (.look test :: r) s gs t ↔ test s = true ∧ Matches r s gs t := by
  constructor
  · rintro ⟨⟩
    exact ⟨‹_›, ‹_›⟩
  · rintro ⟨hs, h⟩
    exact Matches.look hs h

theorem matches_lit [DecidableEq α] {w : List α} {r : List (Item α)} {s t : List α}
    {gs : List (List α)} :
    Matches (lit w ++ r) s gs t ↔ ∃ s', s = w ++ s' ∧ Matches r s' gs t := by
  induction w generalizing s with
  | nil => simp [lit]
  | cons a w ih =>
    show Matches (.one (fun x => x == a) :: (lit w ++ r)) s gs t ↔ _
    rw [matches_one]
    constructor
    · rintro ⟨c, s', rfl, hc, hrest⟩
      obtain ⟨s'', rfl, h⟩ := ih.mp hrest
      obtain rfl := eq_of_beq hc
      exact ⟨s'', rfl, h⟩
    · rintro ⟨s', rfl, h⟩
      exact ⟨a, w ++ s', rfl, beq_self_eq_true a, ih.mpr ⟨s', rfl, h⟩⟩

/-- a text has one way to be a run of a class with a letter outside the class behind it -/
theorem run_unique {p : α → Bool} {u u' s s' : List α} {a a' : α} (hu : ∀ c ∈ u, p c = true)
    (hu' : ∀ c ∈ u', p c = true) (ha : p a = false) (ha' : p a' = false)
    (h : u ++ a :: s = u' ++ a' :: s') : u = u' ∧ a :: s = a' :: s' := by
  have hlen : u = u' := by
    have htake := congrArg (List.takeWhile p) h
    rw [List.takeWhile_append_of_pos hu, List.takeWhile_append_of_pos hu',
      List.takeWhile_cons_of_neg (by rw [ha]; exact Bool.false_ne_true),
      List.takeWhile_cons_of_neg (by rw [ha']; exact Bool.false_ne_true)] at htake
    simpa using htake
  subst hlen
  exact ⟨rfl, List.append_cancel_left h⟩

/-! ## searching and erasing -/

theorem search_append {r : List (Item α)} {a b : List α}
    (h : ∀ x y, a = x ++ y → y ≠ [] → matchHere r (y ++ b) = none) :
    search r (a ++ b) = search r b := by
  induction a with
  | nil => rfl
  | cons c a ih =>
    have hc : matchHere r (c :: (a ++ b)) = none := h [] (c :: a) rfl (List.cons_ne_nil c a)
    show search r (c :: (a ++ b)) = search r b
    rw [search, hc]
    exact ih fun x y hxy hy => h (c :: x) y (by rw [hxy]; rfl) hy

theorem search_of_matchHere {r : List (Item α)} {s : List α} {m : List (List α) × List α}
    (h : matchHere r s = some m) : search r s = some m.1 := by
  cases s with
  | nil => rw [search, h]; rfl
  | cons c s => rw [search, h]

theorem matches_of_search {r : List (Item α)} {s : List α} {gs : List (List α)}
    (h : search r s = some gs) : ∃ a b t, s = a ++ b ∧ Matches r b gs t := by
  induction s with
  | nil =>
    obtain ⟨m, hm, rfl⟩ := Option.map_eq_some_iff.mp h
    exact ⟨[], [], m.2, rfl, matches_of_matchHere hm⟩
  | cons c s ih =>
    rw [search] at h
    cases hm : matchHere r (c :: s) with
    | some m =>
      rw [hm] at h
      obtain rfl := Option.some.inj h
      exact ⟨[], c :: s, m.2, rfl, matches_of_matchHere hm⟩
    | none =>
      rw [hm] at h
      obtain ⟨a, b, t, rfl, hmatch⟩ := ih h
      exact ⟨c :: a, b, t, rfl, hmatch⟩

theorem erase_append {r : List (Item α)} {a b : List α}
    (h : ∀ x y, a = x ++ y → y ≠ [] → matchHere r (y ++ b) = none) :
    erase r (a ++ b) = a ++ erase r b := by
  induction a with
  | nil => rfl
  | cons c a ih =>
    have hc : matchHere r (c :: (a ++ b)) = none := h [] (c :: a) rfl (List.cons_ne_nil c a)
    show eraseFrom r 0 (c :: (a ++ b)) = c :: (a ++ erase r b)
    rw [eraseFrom, hc]
    exact congrArg (List.cons c) (ih fun x y hxy hy => h (c :: x) y (by rw [hxy]; rfl) hy)

theorem erase_eq_self {r : List (Item α)} {s : List α}
    (h : ∀ x y, s = x ++ y → y ≠ [] → matchHere r y = none) : erase r s = s := by
  have hs := erase_append (r := r) (a := s) (b := []) fun x y hxy hy => by
    rw [List.append_nil]
    exact h x y hxy hy
  rwa [List.append_nil, show erase r [] = [] from rfl, List.append_nil] at hs

theorem eraseFrom_length (r : List (Item α)) (s : List α) : eraseFrom r s.length s = [] := by
  induction s with
  | nil => rfl
  | cons c s ih => exact ih

/-- a match of all that is left is dropped -/
theorem erase_whole {r : List (Item α)} {s : List α} {gs : List (List α)}
    (h : matchHere r s = some (gs, [])) : erase r s = [] := by
  cases s with
  | nil => rfl
  | cons c s =>
    show eraseFrom r 0 (c :: s) = []
    rw [eraseFrom, h]
    exact eraseFrom_length r s

end

end Regex
