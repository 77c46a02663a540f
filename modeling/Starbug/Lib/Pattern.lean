import Starbug.Lib.Regex

/-!
# Patterns with alternatives and groups

`ways` lists every way in which a pattern matches at the front of a text, each with its groups and
what is left behind it, the preferred one first: a repetition prefers more letters, an alternative
its left side, and to go back to a choice made before is to go on in the list.  `first` is the
match that is found.

`map_first`: where all ways give the same answer it does not matter which one is found.
-/

namespace Regex

/-! ## patterns -/

inductive Pattern (α : Type*) where
  | empty
  | one (p : α → Bool)
  | many (least : Nat) (p : α → Bool)
  | seq (a b : Pattern α)
  | alt (a b : Pattern α)
  | group (a : Pattern α)
  | look (test : List α → Bool)

namespace Pattern
section
variable {α : Type*}

/-- one behind the other -/
def all (rs : List (Pattern α)) : Pattern α := rs.foldr seq empty

def times (n : Nat) (p : α → Bool) : Pattern α := all (List.replicate n (one p))

/-- rather with than without -/
def opt (r : Pattern α) : Pattern α := alt r empty

def ways : Pattern α → List α → List (List (List α) × List α)
  | empty, s => [([], s)]
  | one _, [] => []
  | one p, c :: s => if p c then [([], s)] else []
  | many least p, s => (lengths least (s.takeWhile p).length).map fun k => ([], s.drop k)
  | seq a b, s => (ways a s).flatMap fun m => (ways b m.2).map fun n => (m.1 ++ n.1, n.2)
  | alt a b, s => ways a s ++ ways b s
  | group a, s => (ways a s).map fun m => (s.take (s.length - m.2.length) :: m.1, m.2)
  | look test, s => if test s then [([], s)] else []

def first (r : Pattern α) (s : List α) : Option (List (List α) × List α) := (r.ways s).head?

/-! ## the ways of a pattern -/

@[simp] theorem ways_empty (s : List α) : ways empty s = [([], s)] := rfl

@[simp] theorem ways_one_cons (p : α → Bool) (c : α) (s : List α) :
    ways (one p) (c :: s) = if p c then [([], s)] else [] := rfl

@[simp] theorem ways_many (least : Nat) (p : α → Bool) (s : List α) : ways (many least p) s
    = (lengths least (s.takeWhile p).length).map fun k => ([], s.drop k) := rfl

@[simp] theorem ways_seq (a b : Pattern α) (s : List α) : ways (seq a b) s
    = (ways a s).flatMap fun m => (ways b m.2).map fun n => (m.1 ++ n.1, n.2) := rfl

@[simp] theorem ways_alt (a b : Pattern α) (s : List α) :
    ways (alt a b) s = ways a s ++ ways b s := rfl

@[simp] theorem ways_group (a : Pattern α) (s : List α) : ways (group a) s
    = (ways a s).map fun m => (s.take (s.length - m.2.length) :: m.1, m.2) := rfl

@[simp] theorem ways_look (test : List α → Bool) (s : List α) :
    ways (look test) s = if test s then [([], s)] else [] := rfl

variable {s t : List α} {gs : List (List α)}

theorem mem_ways_empty : (gs, t) ∈ ways empty s ↔ s = t ∧ gs = [] := by
  rw [ways_empty, List.mem_singleton, Prod.mk.injEq]
  exact ⟨fun h => ⟨h.2.symm, h.1⟩, fun h => ⟨h.2, h.1.symm⟩⟩

theorem mem_ways_one {p : α → Bool} :
    (gs, t) ∈ ways (one p) s ↔ ∃ c, s = c :: t ∧ p c = true ∧ gs = [] := by
  cases s with
  | nil =>
    refine ⟨fun h => absurd h List.not_mem_nil, fun h => ?_⟩
    obtain ⟨c, hc, -⟩ := h
    cases hc
  | cons c s =>
    rw [ways_one_cons]
    constructor
    · intro h
      split_ifs at h with hc
      · obtain ⟨rfl, rfl⟩ := Prod.mk.inj (List.mem_singleton.mp h)
        exact ⟨c, rfl, hc, rfl⟩
      · exact absurd h List.not_mem_nil
    · intro h
      obtain ⟨c', heq, hc, rfl⟩ := h
      obtain ⟨rfl, rfl⟩ := List.cons.inj heq
      rw [if_pos hc]
      exact List.mem_singleton.mpr rfl

theorem mem_ways_many {least : Nat} {p : α → Bool} : (gs, t) ∈ ways (many least p) s
    ↔ ∃ u, s = u ++ t ∧ least ≤ u.length ∧ (∀ c ∈ u, p c = true) ∧ gs = [] := by
  rw [ways_many, List.mem_map]
  constructor
  · intro h
    obtain ⟨k, hk, heq⟩ := h
    obtain ⟨rfl, rfl⟩ := Prod.mk.inj heq
    obtain ⟨hle, hkn⟩ := mem_lengths.mp hk
    have hks : k ≤ s.length := Nat.le_trans hkn (List.takeWhile_prefix p).length_le
    refine ⟨s.take k, (List.take_append_drop k s).symm, ?_, forall_mem_take hkn, rfl⟩
    rw [List.length_take]
    omega
  · intro h
    obtain ⟨u, rfl, hlen, hu, rfl⟩ := h
    refine ⟨u.length, mem_lengths.mpr ⟨hlen, length_le_takeWhile hu⟩, ?_⟩
    rw [List.drop_left]

theorem mem_ways_seq {a b : Pattern α} : (gs, t) ∈ ways (seq a b) s
    ↔ ∃ gs₁ u gs₂, (gs₁, u) ∈ ways a s ∧ (gs₂, t) ∈ ways b u ∧ gs = gs₁ ++ gs₂ := by
  rw [ways_seq, List.mem_flatMap]
  constructor
  · intro h
    obtain ⟨m, hm, hmap⟩ := h
    obtain ⟨n, hn, heq⟩ := List.mem_map.mp hmap
    obtain ⟨rfl, rfl⟩ := Prod.mk.inj heq
    exact ⟨m.1, m.2, n.1, hm, hn, rfl⟩
  · intro h
    obtain ⟨gs₁, u, gs₂, hm, hn, rfl⟩ := h
    exact ⟨(gs₁, u), hm, List.mem_map.mpr ⟨(gs₂, t), hn, rfl⟩⟩

theorem mem_ways_alt {a b : Pattern α} :
    (gs, t) ∈ ways (alt a b) s ↔ (gs, t) ∈ ways a s ∨ (gs, t) ∈ ways b s := by
  rw [ways_alt, List.mem_append]

theorem mem_ways_look {test : List α → Bool} :
    (gs, t) ∈ ways (look test) s ↔ test s = true ∧ s = t ∧ gs = [] := by
  rw [ways_look]
  constructor
  · intro h
    split_ifs at h with hs
    · obtain ⟨rfl, rfl⟩ := Prod.mk.inj (List.mem_singleton.mp h)
      exact ⟨hs, rfl, rfl⟩
    · exact absurd h List.not_mem_nil
  · intro h
    obtain ⟨hs, rfl, rfl⟩ := h
    rw [if_pos hs]
    exact List.mem_singleton.mpr rfl

/-- a match takes letters from the front of the text -/
theorem exists_append_of_mem_ways {r : Pattern α} (h : (gs, t) ∈ ways r s) : ∃ u, s = u ++ t := by
  induction r generalizing s t gs with
  | empty =>
    obtain ⟨rfl, -⟩ := mem_ways_empty.mp h
    exact ⟨[], rfl⟩
  | one p =>
    obtain ⟨c, rfl, -⟩ := mem_ways_one.mp h
    exact ⟨[c], rfl⟩
  | many least p =>
    obtain ⟨u, rfl, -⟩ := mem_ways_many.mp h
    exact ⟨u, rfl⟩
  | seq a b iha ihb =>
    obtain ⟨gs₁, v, gs₂, ha, hb, -⟩ := mem_ways_seq.mp h
    obtain ⟨x, rfl⟩ := iha ha
    obtain ⟨y, rfl⟩ := ihb hb
    exact ⟨x ++ y, (List.append_assoc x y t).symm⟩
  | alt a b iha ihb =>
    rcases mem_ways_alt.mp h with h | h
    · exact iha h
    · exact ihb h
  | group a iha =>
    obtain ⟨⟨gs', t'⟩, hm, heq⟩ := List.mem_map.mp h
    obtain ⟨-, rfl⟩ := Prod.mk.inj heq
    exact iha hm
  | look test =>
    obtain ⟨-, rfl, -⟩ := mem_ways_look.mp h
    exact ⟨[], rfl⟩

theorem mem_ways_group {a : Pattern α} : (gs, t) ∈ ways (group a) s
    ↔ ∃ u gs', s = u ++ t ∧ (gs', t) ∈ ways a s ∧ gs = u :: gs' := by
  rw [ways_group, List.mem_map]
  have htake : ∀ u v : List α, (u ++ v).take ((u ++ v).length - v.length) = u := by
    intro u v
    rw [List.length_append, Nat.add_sub_cancel, List.take_left]
  constructor
  · intro h
    obtain ⟨⟨gs', t'⟩, hm, heq⟩ := h
    obtain ⟨rfl, rfl⟩ := Prod.mk.inj heq
    obtain ⟨u, rfl⟩ := exists_append_of_mem_ways hm
    exact ⟨u, gs', rfl, hm, by rw [htake]⟩
  · intro h
    obtain ⟨u, gs', rfl, hm, rfl⟩ := h
    exact ⟨(gs', t), hm, by rw [htake]⟩

theorem mem_ways_all_cons {r : Pattern α} {rs : List (Pattern α)} : (gs, t) ∈ ways (all (r :: rs)) s
    ↔ ∃ gs₁ u gs₂, (gs₁, u) ∈ ways r s ∧ (gs₂, t) ∈ ways (all rs) u ∧ gs = gs₁ ++ gs₂ :=
  mem_ways_seq

theorem mem_ways_times {n : Nat} {p : α → Bool} : (gs, t) ∈ ways (times n p) s
    ↔ ∃ u, s = u ++ t ∧ u.length = n ∧ (∀ c ∈ u, p c = true) ∧ gs = [] := by
  induction n generalizing s gs with
  | zero =>
    show (gs, t) ∈ ways empty s ↔ _
    rw [mem_ways_empty]
    constructor
    · intro h
      obtain ⟨rfl, rfl⟩ := h
      exact ⟨[], rfl, rfl, fun c hc => absurd hc List.not_mem_nil, rfl⟩
    · intro h
      obtain ⟨u, rfl, hlen, -, rfl⟩ := h
      obtain rfl := List.length_eq_zero_iff.mp hlen
      exact ⟨rfl, rfl⟩
  | succ n ih =>
    show (gs, t) ∈ ways (all (one p :: List.replicate n (one p))) s ↔ _
    rw [mem_ways_all_cons]
    constructor
    · intro h
      obtain ⟨gs₁, v, gs₂, hone, hrest, rfl⟩ := h
      obtain ⟨c, rfl, hc, rfl⟩ := mem_ways_one.mp hone
      obtain ⟨u, rfl, rfl, hu, rfl⟩ := ih.mp hrest
      exact ⟨c :: u, rfl, rfl, List.forall_mem_cons.mpr ⟨hc, hu⟩, rfl⟩
    · intro h
      obtain ⟨u, rfl, hlen, hu, rfl⟩ := h
      obtain ⟨c, u, rfl⟩ := List.exists_cons_of_length_eq_add_one hlen
      obtain ⟨hc, hu⟩ := List.forall_mem_cons.mp hu
      exact ⟨[], u ++ t, [], mem_ways_one.mpr ⟨c, rfl, hc, rfl⟩,
        ih.mpr ⟨u, rfl, Nat.succ.inj hlen, hu, rfl⟩, rfl⟩

/-! ## a pattern behind another -/

variable {rs : List (Pattern α)} {p : α → Bool} {least : Nat}

theorem mem_ways_all_one : (gs, t) ∈ ways (all (one p :: rs)) s
    ↔ ∃ c u, s = c :: u ∧ p c = true ∧ (gs, t) ∈ ways (all rs) u := by
  rw [mem_ways_all_cons]
  constructor
  · intro h
    obtain ⟨gs₁, u, gs₂, hone, hrest, rfl⟩ := h
    obtain ⟨c, rfl, hc, rfl⟩ := mem_ways_one.mp hone
    exact ⟨c, u, rfl, hc, hrest⟩
  · intro h
    obtain ⟨c, u, rfl, hc, hrest⟩ := h
    exact ⟨[], u, gs, mem_ways_one.mpr ⟨c, rfl, hc, rfl⟩, hrest, rfl⟩

theorem mem_ways_all_many : (gs, t) ∈ ways (all (many least p :: rs)) s
    ↔ ∃ b u, s = b ++ u ∧ least ≤ b.length ∧ (∀ c ∈ b, p c = true)
      ∧ (gs, t) ∈ ways (all rs) u := by
  rw [mem_ways_all_cons]
  constructor
  · intro h
    obtain ⟨gs₁, u, gs₂, hmany, hrest, rfl⟩ := h
    obtain ⟨b, rfl, hlen, hb, rfl⟩ := mem_ways_many.mp hmany
    exact ⟨b, u, rfl, hlen, hb, hrest⟩
  · intro h
    obtain ⟨b, u, rfl, hlen, hb, hrest⟩ := h
    exact ⟨[], u, gs, mem_ways_many.mpr ⟨b, rfl, hlen, hb, rfl⟩, hrest, rfl⟩

theorem mem_ways_all_group {a : Pattern α} : (gs, t) ∈ ways (all (group a :: rs)) s
    ↔ ∃ b u gs₁ gs₂, s = b ++ u ∧ (gs₁, u) ∈ ways a s ∧ (gs₂, t) ∈ ways (all rs) u
      ∧ gs = b :: (gs₁ ++ gs₂) := by
  rw [mem_ways_all_cons]
  constructor
  · intro h
    obtain ⟨gs₁, u, gs₂, hgroup, hrest, rfl⟩ := h
    obtain ⟨b, gs', hs, ha, rfl⟩ := mem_ways_group.mp hgroup
    exact ⟨b, u, gs', gs₂, hs, ha, hrest, rfl⟩
  · intro h
    obtain ⟨b, u, gs₁, gs₂, hs, ha, hrest, rfl⟩ := h
    exact ⟨b :: gs₁, u, gs₂, mem_ways_group.mpr ⟨b, gs₁, hs, ha, rfl⟩, hrest, rfl⟩

theorem mem_ways_all_run : (gs, t) ∈ ways (all (group (many least p) :: rs)) s
    ↔ ∃ b u gs', s = b ++ u ∧ least ≤ b.length ∧ (∀ c ∈ b, p c = true)
      ∧ (gs', t) ∈ ways (all rs) u ∧ gs = b :: gs' := by
  rw [mem_ways_all_group]
  constructor
  · intro h
    obtain ⟨b, u, gs₁, gs₂, hs, hmany, hrest, rfl⟩ := h
    obtain ⟨b', hs', hlen, hb, rfl⟩ := mem_ways_many.mp hmany
    obtain rfl := List.append_cancel_right (hs.symm.trans hs')
    exact ⟨b, u, gs₂, hs, hlen, hb, hrest, rfl⟩
  · intro h
    obtain ⟨b, u, gs', hs, hlen, hb, hrest, rfl⟩ := h
    exact ⟨b, u, [], gs', hs, mem_ways_many.mpr ⟨b, hs, hlen, hb, rfl⟩, hrest, rfl⟩

theorem mem_ways_all_look {test : List α → Bool} : (gs, t) ∈ ways (all [look test]) s
    ↔ test t = true ∧ s = t ∧ gs = [] := by
  rw [mem_ways_all_cons]
  constructor
  · intro h
    obtain ⟨gs₁, u, gs₂, hlook, hrest, rfl⟩ := h
    obtain ⟨ht, rfl, rfl⟩ := mem_ways_look.mp hlook
    obtain ⟨rfl, rfl⟩ := mem_ways_empty.mp hrest
    exact ⟨ht, rfl, rfl⟩
  · intro h
    obtain ⟨ht, rfl, rfl⟩ := h
    exact ⟨[], s, [], mem_ways_look.mpr ⟨ht, rfl, rfl⟩, mem_ways_empty.mpr ⟨rfl, rfl⟩, rfl⟩

/-! ## the match that is found -/

theorem mem_ways_of_first {r : Pattern α} {m : List (List α) × List α} (h : r.first s = some m) :
    m ∈ r.ways s :=
  List.mem_of_head? h

/-- there is a way and all ways give the same answer -/
theorem map_first {β : Type*} {r : Pattern α} {f : List (List α) × List α → β} {y : β}
    (h : (gs, t) ∈ ways r s) (hall : ∀ gs' t', (gs', t') ∈ ways r s → f (gs', t') = y) :
    (r.first s).map f = some y := by
  unfold first
  cases hw : ways r s with
  | nil =>
    rw [hw] at h
    exact absurd h List.not_mem_nil
  | cons m ms =>
    exact congrArg some (hall m.1 m.2 (hw ▸ List.mem_cons_self))

end
end Pattern

/-- a text has one way to be a run of a class and something that does not go on with the class -/
theorem run_eq {α : Type*} {p : α → Bool} {u u' s s' : List α} (hu : ∀ c ∈ u, p c = true)
    (hu' : ∀ c ∈ u', p c = true) (hs : ∀ c ∈ s.head?, p c = false)
    (hs' : ∀ c ∈ s'.head?, p c = false) (h : u ++ s = u' ++ s') : u = u' ∧ s = s' := by
  have hrun : ∀ {u s : List α}, (∀ c ∈ u, p c = true) → (∀ c ∈ s.head?, p c = false) →
      (u ++ s).takeWhile p = u := by
    intro u s hu hs
    rw [List.takeWhile_append_of_pos hu]
    cases s with
    | nil => exact List.append_nil u
    | cons c s =>
      rw [List.takeWhile_cons_of_neg (by rw [hs c rfl]; exact Bool.false_ne_true)]
      exact List.append_nil u
  have heq := congrArg (List.takeWhile p) h
  rw [hrun hu hs, hrun hu' hs'] at heq
  subst heq
  exact ⟨rfl, List.append_cancel_left h⟩

end Regex
