import Mathlib.Algebra.BigOperators.Group.List.Basic
import Mathlib.Algebra.GroupWithZero.Nat
import Mathlib.Data.List.Nodup
import Mathlib.Data.List.Pairwise

/-!
# Linear sweeps: headers that own the elements behind them

A sweep walks a list.  An element `a` with `len a = some n` is a HEADER of length `n`: the sweep
hands it the next `n` elements and goes on behind them, so a header among these is never looked
at.  `headers len 0 l` lists what a sweep of `l` finds; the counter is the number of elements
still to be skipped.

`owed len pre` is that counter after the prefix `pre`, computed from the input alone.
`mem_headers`: the element at index `k` is found exactly if `owed` of the `k` elements before it
is `0`.

`pieces len l` is the whole list as the sweep sees it: LONE elements, and GROUPS of a header and
what it owns.  `place i ps` lays pieces out from index `i` on; the pieces of a list tile its
indices (`at_of_mem_place_pieces`, `place_increasing`, `exists_mem_place`).
-/

namespace Sweep

section
variable {α : Type*} (len : α → Option Nat)

/-! ## the sweep -/

/-- what the sweep finds behind `p` elements it still has to skip: each header, its length and
the elements it owns (fewer than its length only at the end of the list) -/
def headers : Nat → List α → List (α × Nat × List α)
  | _, [] => []
  | 0, a :: rest =>
    match len a with
    | none => headers 0 rest
    | some n => (a, n, rest.take n) :: headers n rest
  | p + 1, _ :: rest => headers p rest

@[simp] theorem headers_nil (p : Nat) : headers len p [] = [] := by
  cases p <;> rfl

theorem headers_cons_none {a : α} (h : len a = none) (rest : List α) :
    headers len 0 (a :: rest) = headers len 0 rest := by
  simp only [headers, h]

theorem headers_cons_some {a : α} {n : Nat} (h : len a = some n) (rest : List α) :
    headers len 0 (a :: rest) = (a, n, rest.take n) :: headers len n rest := by
  simp only [headers, h]

theorem headers_drop (p : Nat) (l : List α) : headers len p l = headers len 0 (l.drop p) := by
  induction p generalizing l with
  | zero => rfl
  | succ p ih =>
    cases l with
    | nil => simp
    | cons a rest =>
      rw [headers, List.drop_succ_cons]
      exact ih rest

theorem headers_block {a : α} {ms : List α} (h : len a = some ms.length) (rest : List α) :
    headers len 0 (a :: (ms ++ rest)) = (a, ms.length, ms) :: headers len 0 rest := by
  rw [headers_cons_some len h, List.take_left, headers_drop, List.drop_left]

/-- where every header has all it owns, the sweep goes on behind the list as if from the start -/
theorem headers_append {p : Nat} {l : List α} (hp : p ≤ l.length)
    (h : ∀ x ∈ headers len p l, x.2.1 ≤ x.2.2.length) (l' : List α) :
    headers len p (l ++ l') = headers len p l ++ headers len 0 l' := by
  induction l generalizing p with
  | nil =>
    obtain rfl := Nat.le_zero.mp hp
    rfl
  | cons a rest ih =>
    cases p with
    | succ p => exact ih (Nat.le_of_succ_le_succ hp) h
    | zero =>
      cases hl : len a with
      | none =>
        rw [headers_cons_none len hl] at h ⊢
        rw [List.cons_append, headers_cons_none len hl]
        exact ih (Nat.zero_le _) h
      | some n =>
        rw [headers_cons_some len hl] at h ⊢
        obtain ⟨hn, hrest⟩ := List.forall_mem_cons.mp h
        have hle : n ≤ rest.length := Nat.le_trans hn (List.length_take_le' n rest)
        rw [List.cons_append, headers_cons_some len hl, List.take_append_of_le_length hle,
          ih hle hrest]
        rfl

/-! ## which headers are found -/

/-- one element, read with `p` elements still to be skipped -/
def skip (p : Nat) (a : α) : Nat := if p = 0 then (len a).getD 0 else p - 1

/-- how many elements are still to be skipped after the prefix `pre` -/
def owed (pre : List α) : Nat := pre.foldl (skip len) 0

theorem mem_headers_aux (p : Nat) (l : List α) (x : α × Nat × List α) :
    x ∈ headers len p l ↔ ∃ k, l[k]? = some x.1 ∧ len x.1 = some x.2.1
      ∧ x.2.2 = (l.drop (k + 1)).take x.2.1 ∧ (l.take k).foldl (skip len) p = 0 := by
  induction l generalizing p with
  | nil => simp
  | cons a rest ih =>
    -- an index behind the head is an index of `rest`, read with the counter after the head
    have hsplit : (∃ k, (a :: rest)[k]? = some x.1 ∧ len x.1 = some x.2.1
        ∧ x.2.2 = ((a :: rest).drop (k + 1)).take x.2.1
        ∧ ((a :: rest).take k).foldl (skip len) p = 0)
        ↔ (a = x.1 ∧ len x.1 = some x.2.1 ∧ x.2.2 = rest.take x.2.1 ∧ p = 0)
          ∨ x ∈ headers len (skip len p a) rest := by
      rw [← Nat.or_exists_add_one]
      apply or_congr
      · exact and_congr Option.some_inj Iff.rfl
      · exact (ih (skip len p a)).symm
    rw [hsplit]
    cases p with
    | succ p =>
      rw [headers]
      constructor
      · exact Or.inr
      · rintro (⟨-, -, -, h⟩ | h)
        · exact absurd h (Nat.succ_ne_zero p)
        · exact h
    | zero =>
      have hskip : skip len 0 a = (len a).getD 0 := rfl
      rw [hskip]
      cases hl : len a with
      | none =>
        rw [headers_cons_none len hl]
        constructor
        · exact Or.inr
        · rintro (⟨rfl, h, -⟩ | h)
          · rw [hl] at h
            cases h
          · exact h
      | some n =>
        rw [headers_cons_some len hl, List.mem_cons]
        refine or_congr ⟨?_, ?_⟩ Iff.rfl
        · rintro rfl
          exact ⟨rfl, hl, rfl, rfl⟩
        · rintro ⟨rfl, h, hm, -⟩
          rw [hl] at h
          obtain ⟨y, m, ms⟩ := x
          obtain rfl := Option.some.inj h
          exact congrArg (fun z => (y, n, z)) hm

/-- **The sweep finds the element at `k` exactly if no earlier header owns it.** -/
theorem mem_headers (l : List α) (a : α) (n : Nat) (ms : List α) :
    (a, n, ms) ∈ headers len 0 l ↔ ∃ k, l[k]? = some a ∧ len a = some n
      ∧ ms = (l.drop (k + 1)).take n ∧ owed len (l.take k) = 0 :=
  mem_headers_aux len 0 l (a, n, ms)

/-! ## the list in pieces -/

inductive Piece (α : Type*) where
  | lone (a : α)
  | group (a : α) (n : Nat) (ms : List α)

def Piece.elems : Piece α → List α
  | .lone a => [a]
  | .group a _ ms => a :: ms

def Piece.header : Piece α → Option (α × Nat × List α)
  | .lone _ => none
  | .group a n ms => some (a, n, ms)

def pieces : List α → List (Piece α)
  | [] => []
  | a :: rest =>
    match len a with
    | none => .lone a :: pieces rest
    | some n => .group a n (rest.take n) :: pieces (rest.drop n)
termination_by l => l.length
decreasing_by
  · exact Nat.lt_succ_self _
  · rw [List.length_drop, List.length_cons]
    omega

@[simp] theorem pieces_nil : pieces len [] = [] := by
  rw [pieces]

theorem pieces_cons_none {a : α} (h : len a = none) (rest : List α) :
    pieces len (a :: rest) = .lone a :: pieces len rest := by
  rw [pieces, h]

theorem pieces_cons_some {a : α} {n : Nat} (h : len a = some n) (rest : List α) :
    pieces len (a :: rest) = .group a n (rest.take n) :: pieces len (rest.drop n) := by
  rw [pieces, h]

theorem flatMap_elems_pieces (l : List α) : (pieces len l).flatMap Piece.elems = l := by
  fun_induction pieces len l with
  | case1 => rfl
  | case2 a rest h ih =>
    rw [List.flatMap_cons, ih]
    rfl
  | case3 a rest n h ih =>
    rw [List.flatMap_cons, ih]
    show a :: (rest.take n ++ rest.drop n) = _
    rw [List.take_append_drop]

theorem filterMap_header_pieces (l : List α) :
    (pieces len l).filterMap Piece.header = headers len 0 l := by
  fun_induction pieces len l with
  | case1 => rfl
  | case2 a rest h ih =>
    rw [headers_cons_none len h, ← ih]
    rfl
  | case3 a rest n h ih =>
    rw [headers_cons_some len h, headers_drop, ← ih]
    rfl

/-- a lone element is no header, the header of a group is one -/
def Piece.Fits : Piece α → Prop
  | .lone a => len a = none
  | .group a n ms => len a = some n ∧ ms.length ≤ n

theorem fits_of_mem_pieces {l : List α} {p : Piece α} (hp : p ∈ pieces len l) : p.Fits len := by
  fun_induction pieces len l with
  | case1 => exact absurd hp List.not_mem_nil
  | case2 a rest h ih =>
    rcases List.mem_cons.mp hp with rfl | hp
    · exact h
    · exact ih hp
  | case3 a rest n h ih =>
    rcases List.mem_cons.mp hp with rfl | hp
    · exact ⟨h, List.length_take_le _ _⟩
    · exact ih hp

theorem mem_of_mem_pieces {l : List α} {p : Piece α} (hp : p ∈ pieces len l) {a : α}
    (ha : a ∈ p.elems) : a ∈ l := by
  rw [← flatMap_elems_pieces len l]
  exact List.mem_flatMap.mpr ⟨p, hp, ha⟩

/-- if no two elements of the list share a key, elements of two pieces do not -/
theorem pieces_inj {κ : Type*} (key : α → κ) {l : List α} (hl : (l.map key).Nodup)
    {p q : Piece α} (hp : p ∈ pieces len l) (hq : q ∈ pieces len l) {a b : α} (ha : a ∈ p.elems)
    (hb : b ∈ q.elems) (hab : key a = key b) : p = q ∧ a = b := by
  refine ⟨?_, List.inj_on_of_nodup_map hl (mem_of_mem_pieces len hp ha)
    (mem_of_mem_pieces len hq hb) hab⟩
  rw [← flatMap_elems_pieces len l, List.map_flatMap, List.nodup_flatMap] at hl
  have hsymm : Std.Symm (Function.onFun List.Disjoint fun p : Piece α => p.elems.map key) :=
    ⟨fun _ _ h _ hx hy => h hy hx⟩
  by_contra hne
  have hdisj := hl.2.forall hp hq hne
  refine hdisj (List.mem_map_of_mem ha) ?_
  rw [hab]
  exact List.mem_map_of_mem hb

/-- the header of a group is not among its elements -/
theorem header_notMem {κ : Type*} (key : α → κ) {l : List α} (hl : (l.map key).Nodup)
    {a : α} {n : Nat} {ms : List α} (hp : .group a n ms ∈ pieces len l) : a ∉ ms := by
  rw [← flatMap_elems_pieces len l, List.map_flatMap, List.nodup_flatMap] at hl
  have hnodup := hl.1 _ hp
  intro ha
  exact (List.nodup_cons.mp hnodup).1 (List.mem_map_of_mem ha)

/-! ## sums -/

/-- `g` of the group, if the piece is a group with `P` -/
def Piece.groupSum (P : α × Nat × List α → Bool) (g : α × Nat × List α → Nat) : Piece α → Nat
  | .lone _ => 0
  | .group a n ms => if P (a, n, ms) then g (a, n, ms) else 0

theorem sum_filter_cons {β : Type*} (P : β → Bool) (g : β → Nat) (x : β) (xs : List β) :
    (((x :: xs).filter P).map g).sum = (if P x then g x else 0) + ((xs.filter P).map g).sum := by
  rw [List.filter_cons]
  split_ifs
  · rw [List.map_cons, List.sum_cons]
  · exact (Nat.zero_add _).symm

theorem sum_pieces (f : α → Nat) (l : List α) :
    (l.map f).sum = ((pieces len l).map fun p => (p.elems.map f).sum).sum := by
  have hp : ∀ ps : List (Piece α), ((ps.flatMap Piece.elems).map f).sum
      = (ps.map fun p => (p.elems.map f).sum).sum := by
    intro ps
    induction ps with
    | nil => rfl
    | cons p ps ih => rw [List.flatMap_cons, List.map_append, List.sum_append, ih, List.map_cons,
        List.sum_cons]
  rw [← hp, flatMap_elems_pieces]

theorem sum_groupSum (P : α × Nat × List α → Bool) (g : α × Nat × List α → Nat) (l : List α) :
    ((pieces len l).map (Piece.groupSum P g)).sum
      = (((headers len 0 l).filter P).map g).sum := by
  have hp : ∀ ps : List (Piece α), (ps.map (Piece.groupSum P g)).sum
      = (((ps.filterMap Piece.header).filter P).map g).sum := by
    intro ps
    induction ps with
    | nil => rfl
    | cons p ps ih =>
      rw [List.map_cons, List.sum_cons, ih]
      cases p with
      | lone a => exact Nat.zero_add _
      | group a n ms =>
        exact (sum_filter_cons P g (a, n, ms) (ps.filterMap Piece.header)).symm
  rw [hp, filterMap_header_pieces]

/-- the headers and what they own are elements of the list -/
theorem length_headers_le (l : List α) :
    (headers len 0 l).length + ((headers len 0 l).map fun x => x.2.2.length).sum ≤ l.length := by
  have hp : ∀ ps : List (Piece α), (ps.filterMap Piece.header).length
      + ((ps.filterMap Piece.header).map fun x => x.2.2.length).sum
        ≤ (ps.flatMap Piece.elems).length := by
    intro ps
    induction ps with
    | nil => exact Nat.le_refl 0
    | cons p ps ih =>
      rw [List.flatMap_cons, List.length_append]
      cases p with
      | lone a => exact Nat.le_trans ih (Nat.le_add_left _ _)
      | group a n ms =>
        show (ps.filterMap Piece.header).length + 1
          + (ms.length + ((ps.filterMap Piece.header).map fun x => x.2.2.length).sum)
          ≤ ms.length + 1 + (ps.flatMap Piece.elems).length
        omega
  have hall := hp (pieces len l)
  rwa [flatMap_elems_pieces, filterMap_header_pieces] at hall

/-! ## where the pieces lie -/

def place : Nat → List (Piece α) → List (Nat × Piece α)
  | _, [] => []
  | i, p :: ps => (i, p) :: place (i + p.elems.length) ps

theorem map_snd_place (i : Nat) (ps : List (Piece α)) : (place i ps).map Prod.snd = ps := by
  induction ps generalizing i with
  | nil => rfl
  | cons p ps ih => rw [place, List.map_cons, ih]

theorem le_of_mem_place {i : Nat} {ps : List (Piece α)} {x : Nat × Piece α}
    (hx : x ∈ place i ps) : i ≤ x.1 := by
  induction ps generalizing i with
  | nil => exact absurd hx List.not_mem_nil
  | cons p ps ih =>
    rcases List.mem_cons.mp hx with rfl | hx
    · exact Nat.le_refl i
    · exact Nat.le_trans (Nat.le_add_right _ _) (ih hx)

theorem place_increasing (i : Nat) (ps : List (Piece α)) :
    (place i ps).Pairwise fun x y => x.1 + x.2.elems.length ≤ y.1 := by
  induction ps generalizing i with
  | nil => exact List.Pairwise.nil
  | cons p ps ih => exact List.Pairwise.cons (fun _ hy => le_of_mem_place hy) (ih _)

/-- the groups with the index of their header -/
def spots (i : Nat) (ps : List (Piece α)) : List (Nat × α × Nat × List α) :=
  (place i ps).filterMap fun x => x.2.header.map fun y => (x.1, y)

theorem spots_cons_lone (i : Nat) (a : α) (ps : List (Piece α)) :
    spots i (.lone a :: ps) = spots (i + 1) ps := rfl

theorem spots_cons_group (i : Nat) (a : α) (n : Nat) (ms : List α) (ps : List (Piece α)) :
    spots i (.group a n ms :: ps) = (i, a, n, ms) :: spots (i + (ms.length + 1)) ps := rfl

theorem map_snd_spots (i : Nat) (ps : List (Piece α)) :
    (spots i ps).map Prod.snd = ps.filterMap Piece.header := by
  induction ps generalizing i with
  | nil => rfl
  | cons p ps ih =>
    cases p with
    | lone a =>
      rw [spots_cons_lone, ih]
      rfl
    | group a n ms =>
      rw [spots_cons_group, List.map_cons, ih]
      rfl

theorem mem_spots {i : Nat} {ps : List (Piece α)} {k : Nat} {a : α} {n : Nat} {ms : List α} :
    (k, a, n, ms) ∈ spots i ps ↔ (k, Piece.group a n ms) ∈ place i ps := by
  unfold spots
  rw [List.mem_filterMap]
  constructor
  · rintro ⟨⟨j, p⟩, hx, hp⟩
    cases p with
    | lone b => cases hp
    | group b m ns =>
      cases hp
      exact hx
  · intro hx
    exact ⟨_, hx, rfl⟩

theorem spots_increasing (i : Nat) (ps : List (Piece α)) :
    (spots i ps).Pairwise fun x y => x.1 + x.2.2.2.length < y.1 := by
  refine (place_increasing i ps).filterMap _ ?_
  rintro ⟨k, p⟩ ⟨k', p'⟩ hle x hx y hy
  cases p with
  | lone a => cases hx
  | group a n ms =>
    cases p' with
    | lone a' => cases hy
    | group a' n' ms' =>
      cases hx
      cases hy
      have hle' : k + (ms.length + 1) ≤ k' := hle
      show k + ms.length < k'
      omega

/-- every index is in a piece -/
theorem exists_mem_place {i j : Nat} {ps : List (Piece α)} (hi : i ≤ j)
    (hj : j < i + (ps.flatMap Piece.elems).length) :
    ∃ x ∈ place i ps, x.1 ≤ j ∧ j < x.1 + x.2.elems.length := by
  induction ps generalizing i with
  | nil => exact absurd hj (Nat.not_lt.mpr hi)
  | cons p ps ih =>
    rw [List.flatMap_cons, List.length_append] at hj
    by_cases h : j < i + p.elems.length
    · exact ⟨(i, p), List.mem_cons_self, hi, h⟩
    · obtain ⟨x, hx, hle, hlt⟩ := ih (i := i + p.elems.length) (Nat.not_lt.mp h) (by omega)
      exact ⟨x, List.mem_cons_of_mem _ hx, hle, hlt⟩

/-- the piece holds the elements of `l` from `k` on, a group as many as there are -/
def Piece.At (l : List α) (k : Nat) : Piece α → Prop
  | .lone a => l[k]? = some a
  | .group a n ms => l[k]? = some a ∧ ms = (l.drop (k + 1)).take n

theorem at_of_mem_place (pre l : List α) {k : Nat} {p : Piece α}
    (hp : (k, p) ∈ place pre.length (pieces len l)) : p.At (pre ++ l) k := by
  fun_induction pieces len l generalizing pre with
  | case1 => exact absurd hp List.not_mem_nil
  | case2 a rest h ih =>
    rcases List.mem_cons.mp hp with he | hp
    · obtain ⟨rfl, rfl⟩ := Prod.mk.inj he
      show (pre ++ a :: rest)[pre.length]? = some a
      rw [List.getElem?_append_right (Nat.le_refl _), Nat.sub_self]
      rfl
    · have hlen : pre.length + (Piece.lone a).elems.length = (pre ++ [a]).length := by
        simp [Piece.elems]
      rw [hlen] at hp
      have hat := ih (pre ++ [a]) hp
      rwa [List.append_assoc] at hat
  | case3 a rest n h ih =>
    rcases List.mem_cons.mp hp with he | hp
    · obtain ⟨rfl, rfl⟩ := Prod.mk.inj he
      refine ⟨?_, ?_⟩
      · rw [List.getElem?_append_right (Nat.le_refl _), Nat.sub_self]
        rfl
      · rw [← List.drop_drop, List.drop_left]
        rfl
    · have hlen : pre.length + (Piece.group a n (rest.take n)).elems.length
          = (pre ++ a :: rest.take n).length := by
        simp [Piece.elems]
      rw [hlen] at hp
      have hat := ih (pre ++ a :: rest.take n) hp
      rwa [List.append_assoc, List.cons_append, List.take_append_drop] at hat

theorem at_of_mem_place_pieces {l : List α} {k : Nat} {p : Piece α}
    (hp : (k, p) ∈ place 0 (pieces len l)) : p.At l k :=
  at_of_mem_place len [] l hp

end

end Sweep
