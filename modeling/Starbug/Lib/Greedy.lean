import Mathlib.Data.List.Infix
import Mathlib.Order.Bounds.Basic

/-!
# Dividing a list into few parts

`Divides P l gs` says that the parts `gs`, in order, are the list `l` and that each of them has
`P`.  `Maximal P gs` says that no part could have taken the first element behind it as well, which
is what a scan leaves that closes a part only when it must.

If `P` is `Hereditary` (a contiguous part of what has `P` has `P`), such a scan wastes nothing:

* `Divides.length_le`   no other division has fewer parts;
* `length_le_of_imp`    and to allow more never makes it longer.
-/

namespace Greedy

section
variable {α : Type*} {P Q : List α → Prop}

def Hereditary (P : List α → Prop) : Prop := ∀ {u v : List α}, u <:+: v → P v → P u

structure Divides (P : List α → Prop) (l : List α) (gs : List (List α)) : Prop where
  flatten : gs.flatten = l
  parts : ∀ g ∈ gs, P g

structure Maximal (P : List α → Prop) (gs : List (List α)) : Prop where
  nonempty : ∀ g ∈ gs, g ≠ []
  closed : ∀ a g b x post, gs = a ++ g :: b → b.flatten = x :: post → ¬ P (g ++ [x])

theorem Maximal.tail {g : List α} {gs : List (List α)} (h : Maximal P (g :: gs)) :
    Maximal P gs where
  nonempty := fun g' h' => h.nonempty g' (List.mem_cons_of_mem g h')
  closed := fun a g' b x post heq hx =>
    h.closed (g :: a) g' b x post (by rw [heq, List.cons_append]) hx

/-- a part that has all of `g` in it and goes on behind it is longer than `P` allows -/
theorem Maximal.not_longer (hP : Hereditary P) {g : List α} {gs : List (List α)}
    (h : Maximal P (g :: gs)) {pre o rest : List α} (ho : P o)
    (heq : o ++ rest = pre ++ (g ++ gs.flatten)) : o.length ≤ (pre ++ g).length := by
  by_contra hlt
  rw [← List.append_assoc] at heq
  obtain ⟨y, rfl, hy⟩ : ∃ y, o = (pre ++ g) ++ y ∧ gs.flatten = y ++ rest := by
    rcases List.append_eq_append_iff.mp heq with ⟨y, hy, -⟩ | ⟨y, hy, hy'⟩
    · rw [hy, List.length_append] at hlt
      omega
    · exact ⟨y, hy, hy'⟩
  cases y with
  | nil =>
    rw [List.append_nil] at hlt
    exact hlt (Nat.le_refl _)
  | cons x y =>
    refine h.closed [] g gs x (y ++ rest) rfl hy (hP ?_ ho)
    exact ⟨pre, y, by simp only [List.append_assoc, List.singleton_append]⟩

/-- the greedy parts of what is left are no more than the parts of the whole -/
theorem Maximal.length_le_append (hP : Hereditary P) {gs os : List (List α)} {pre : List α}
    (h : Maximal P gs) (ho : ∀ o ∈ os, P o) (heq : os.flatten = pre ++ gs.flatten) :
    gs.length ≤ os.length := by
  induction os generalizing gs pre with
  | nil =>
    have hnil : gs.flatten = [] := (List.append_eq_nil_iff.mp heq.symm).2
    cases gs with
    | nil => exact Nat.le_refl _
    | cons g gs =>
      exact absurd (List.append_eq_nil_iff.mp hnil).1 (h.nonempty g List.mem_cons_self)
  | cons o os ih =>
    cases gs with
    | nil => exact Nat.zero_le _
    | cons g gs =>
      rw [List.flatten_cons, List.flatten_cons] at heq
      have hlen := h.not_longer hP (ho o List.mem_cons_self) heq
      -- what `o` leaves of `pre ++ g` is in front of the rest
      rw [← List.append_assoc] at heq
      obtain ⟨pre', -, hrest⟩ : ∃ y, pre ++ g = o ++ y ∧ os.flatten = y ++ gs.flatten := by
        rcases List.append_eq_append_iff.mp heq with ⟨y, hy, hy'⟩ | ⟨y, rfl, hy'⟩
        · exact ⟨y, hy, hy'⟩
        · have hlen' : (pre ++ g).length + y.length ≤ (pre ++ g).length :=
            List.length_append ▸ hlen
          obtain rfl : y = [] := List.length_eq_zero_iff.mp (by omega)
          exact ⟨[], by rw [List.append_nil, List.append_nil], hy'.symm⟩
      have hle := ih h.tail (fun o' h' => ho o' (List.mem_cons_of_mem o h')) hrest
      exact Nat.succ_le_succ hle

/-- **No division has fewer parts than a maximal one.** -/
theorem Divides.length_le (hP : Hereditary P) {l : List α} {gs os : List (List α)}
    (hg : Divides P l gs) (hm : Maximal P gs) (ho : Divides P l os) : gs.length ≤ os.length :=
  hm.length_le_append hP ho.parts (show os.flatten = [] ++ gs.flatten from
    ho.flatten.trans hg.flatten.symm)

theorem Divides.isLeast (hP : Hereditary P) {l : List α} {gs : List (List α)}
    (hg : Divides P l gs) (hm : Maximal P gs) :
    IsLeast {n | ∃ os, Divides P l os ∧ os.length = n} gs.length := by
  refine ⟨⟨gs, hg, rfl⟩, ?_⟩
  rintro n ⟨os, ho, rfl⟩
  exact hg.length_le hP hm ho

/-- a maximal division under a weaker condition has no more parts than any under a stronger one -/
theorem length_le_of_imp (hQ : Hereditary Q) (himp : ∀ g, P g → Q g) {l : List α}
    {gs os : List (List α)} (hg : Divides Q l gs) (hm : Maximal Q gs) (ho : Divides P l os) :
    gs.length ≤ os.length :=
  hg.length_le hQ hm ⟨ho.flatten, fun o h => himp o (ho.parts o h)⟩

end

end Greedy
