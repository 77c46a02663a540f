import Mathlib.Algebra.BigOperators.Group.List.Basic
import Mathlib.Algebra.GroupWithZero.Nat
import Mathlib.Data.List.Nodup

/-!
# Insertion-ordered dictionaries and counters

A `Dict` is an association list without a repeated key, in the order in which the keys were
first stored.  `Dict.alter k f` replaces what is stored under `k` in its place, or appends the
key; every store is one of these.

A `Counter` is a dictionary of numbers that reads `0` where nothing is stored.
`Counter.weigh_bump`: a weighted sum over a counter grows with one `bump` by the weight of the
key times the amount.
-/

structure Dict (κ ν : Type*) where
  items : List (κ × ν)
  nodup : (items.map Prod.fst).Nodup

namespace Dict

section
variable {κ ν : Type*}

def empty : Dict κ ν := ⟨[], List.nodup_nil⟩

def keys (d : Dict κ ν) : List κ := d.items.map Prod.fst

@[simp] theorem keys_empty : (empty : Dict κ ν).keys = [] := rfl

variable [DecidableEq κ]

/-! ## association lists -/

def alterItems (k : κ) (f : Option ν → ν) : List (κ × ν) → List (κ × ν)
  | [] => [(k, f none)]
  | (k', v) :: rest => if k' = k then (k', f (some v)) :: rest else (k', v) :: alterItems k f rest

theorem keys_alterItems (k : κ) (f : Option ν → ν) (l : List (κ × ν)) :
    (alterItems k f l).map Prod.fst
      = if k ∈ l.map Prod.fst then l.map Prod.fst else l.map Prod.fst ++ [k] := by
  induction l with
  | nil => rfl
  | cons p rest ih =>
    obtain ⟨k', v⟩ := p
    by_cases h : k' = k
    · simp [alterItems, h]
    · have hk : (k ∈ ((k', v) :: rest).map Prod.fst) ↔ k ∈ rest.map Prod.fst := by
        simp [Ne.symm h]
      rw [alterItems, if_neg h, List.map_cons, ih]
      simp only [hk]
      split_ifs
      · rfl
      · rfl

theorem lookup_cons (k k' : κ) (v : ν) (l : List (κ × ν)) :
    ((k', v) :: l).lookup k = if k = k' then some v else l.lookup k := by
  by_cases h : k = k'
  · simp [h]
  · rw [List.lookup_cons, beq_eq_false_iff_ne.mpr h, if_neg h]

theorem lookup_alterItems (k k' : κ) (f : Option ν → ν) (l : List (κ × ν)) :
    (alterItems k f l).lookup k' = if k' = k then some (f (l.lookup k)) else l.lookup k' := by
  induction l with
  | nil =>
    show [(k, f none)].lookup k' = _
    rw [lookup_cons]
    rfl
  | cons p rest ih =>
    obtain ⟨k₀, v⟩ := p
    by_cases h₀ : k₀ = k
    · subst h₀
      rw [alterItems, if_pos rfl, lookup_cons, lookup_cons, lookup_cons, if_pos rfl]
      split_ifs
      · rfl
      · rfl
    · rw [alterItems, if_neg h₀, lookup_cons, lookup_cons, lookup_cons, ih,
        if_neg (Ne.symm h₀)]
      by_cases h : k' = k₀
      · rw [if_pos h, if_pos h, if_neg (fun h' => h₀ (h ▸ h'))]
      · rw [if_neg h, if_neg h]

/-! ## dictionaries -/

def get? (d : Dict κ ν) (k : κ) : Option ν := d.items.lookup k

/-- `d[k] = f(d.get(k))` -/
def alter (d : Dict κ ν) (k : κ) (f : Option ν → ν) : Dict κ ν where
  items := alterItems k f d.items
  nodup := by
    rw [keys_alterItems]
    split_ifs with h
    · exact d.nodup
    · rw [← List.concat_eq_append]
      exact List.Nodup.concat h d.nodup

/-- `for k in d: d[k] = f(k, d[k])` -/
def mapItems {ν' : Type*} (f : κ → ν → ν') (d : Dict κ ν) : Dict κ ν' where
  items := d.items.map fun p => (p.1, f p.1 p.2)
  nodup := by
    rw [List.map_map]
    exact d.nodup

/-- `d[k] = f(d[k])`; nothing happens where there is no `d[k]` -/
def modify (d : Dict κ ν) (k : κ) (f : ν → ν) : Dict κ ν :=
  d.mapItems fun k' v => if k' = k then f v else v

/-- `d[k] = v` -/
def set (d : Dict κ ν) (k : κ) (v : ν) : Dict κ ν := d.alter k fun _ => v

@[simp] theorem get?_empty (k : κ) : (empty : Dict κ ν).get? k = none := rfl

theorem get?_alter (d : Dict κ ν) (k k' : κ) (f : Option ν → ν) :
    (d.alter k f).get? k' = if k' = k then some (f (d.get? k)) else d.get? k' :=
  lookup_alterItems k k' f d.items

theorem get?_set (d : Dict κ ν) (k k' : κ) (v : ν) :
    (d.set k v).get? k' = if k' = k then some v else d.get? k' :=
  get?_alter d k k' fun _ => v

/-- what a loop has stored that stores a value for each key -/
theorem get?_foldl_set (f : κ → ν) (ks : List κ) (d : Dict κ ν) (k : κ) :
    (ks.foldl (fun d k => d.set k (f k)) d).get? k = if k ∈ ks then some (f k) else d.get? k := by
  induction ks generalizing d with
  | nil => rfl
  | cons k' ks ih =>
    rw [List.foldl_cons, ih, get?_set]
    by_cases hmem : k ∈ ks
    · rw [if_pos hmem, if_pos (List.mem_cons_of_mem k' hmem)]
    · by_cases hk : k = k'
      · rw [if_neg hmem, if_pos hk, hk, if_pos List.mem_cons_self]
      · rw [if_neg hmem, if_neg hk, if_neg fun h => (List.mem_cons.mp h).elim hk hmem]

theorem get?_mapItems {ν' : Type*} (f : κ → ν → ν') (d : Dict κ ν) (k : κ) :
    (d.mapItems f).get? k = (d.get? k).map (f k) := by
  show (d.items.map fun p => (p.1, f p.1 p.2)).lookup k = (d.items.lookup k).map (f k)
  induction d.items with
  | nil => rfl
  | cons p rest ih =>
    obtain ⟨k', v⟩ := p
    rw [List.map_cons, lookup_cons, lookup_cons, ih]
    split_ifs with h
    · rw [h]
      rfl
    · rfl

theorem get?_modify (d : Dict κ ν) (k k' : κ) (f : ν → ν) :
    (d.modify k f).get? k' = if k' = k then (d.get? k').map f else d.get? k' := by
  rw [modify, get?_mapItems]
  split_ifs with h
  · rfl
  · exact Option.map_id'

theorem mem_items {d : Dict κ ν} {k : κ} {v : ν} : (k, v) ∈ d.items ↔ d.get? k = some v := by
  obtain ⟨l, hl⟩ := d
  show (k, v) ∈ l ↔ l.lookup k = some v
  induction l with
  | nil => simp
  | cons p rest ih =>
    obtain ⟨k', v'⟩ := p
    obtain ⟨hk, hrest⟩ := List.nodup_cons.mp hl
    rw [List.mem_cons, lookup_cons, ih hrest]
    split_ifs with h
    · subst h
      have hnone : rest.lookup k ≠ some v := by
        intro h'
        exact hk (List.mem_map.mpr ⟨(k, v), (ih hrest).mpr h', rfl⟩)
      simp [hnone, eq_comm]
    · simp [h]

theorem keys_alter (d : Dict κ ν) (k : κ) (f : Option ν → ν) :
    (d.alter k f).keys = if k ∈ d.keys then d.keys else d.keys ++ [k] :=
  keys_alterItems k f d.items

/-- what is read after a loop of stores was stored by one of them, or was there before -/
theorem stored_of_get? {β : Type*} (key : β → κ) (val : β → ν) {xs : List β} {d : Dict κ ν}
    {k : κ} {v : ν} (h : (xs.foldl (fun d x => d.set (key x) (val x)) d).get? k = some v) :
    (∃ x ∈ xs, key x = k ∧ val x = v) ∨ d.get? k = some v := by
  induction xs generalizing d with
  | nil => exact Or.inr h
  | cons x xs ih =>
    rcases ih h with ⟨y, hy, hk⟩ | hd
    · exact Or.inl ⟨y, List.mem_cons_of_mem x hy, hk⟩
    · rw [get?_set] at hd
      split_ifs at hd with hx
      · exact Or.inl ⟨x, List.mem_cons_self, hx.symm, Option.some.inj hd⟩
      · exact Or.inr hd

/-- after a loop of stores every key of the loop reads something -/
theorem exists_get?_of_stored {β : Type*} (key : β → κ) (val : β → ν) {xs : List β}
    {d : Dict κ ν} {k : κ} (h : (∃ x ∈ xs, key x = k) ∨ ∃ v, d.get? k = some v) :
    ∃ v, (xs.foldl (fun d x => d.set (key x) (val x)) d).get? k = some v := by
  induction xs generalizing d with
  | nil =>
    rcases h with ⟨x, hx, -⟩ | hd
    · exact absurd hx List.not_mem_nil
    · exact hd
  | cons x xs ih =>
    apply ih (d := d.set (key x) (val x))
    rw [get?_set]
    split_ifs with hx
    · exact Or.inr ⟨_, rfl⟩
    · rcases h with ⟨y, hy, hk⟩ | hd
      · rcases List.mem_cons.mp hy with rfl | hy
        · exact absurd hk.symm hx
        · exact Or.inl ⟨y, hy, hk⟩
      · exact Or.inr hd

/-- a dictionary is given by its keys, in order, and what it reads at them -/
theorem items_eq (d : Dict κ ν) (v₀ : ν) :
    d.items = d.keys.map fun k => (k, (d.get? k).getD v₀) := by
  obtain ⟨l, hl⟩ := d
  show l = (l.map Prod.fst).map fun k => (k, (l.lookup k).getD v₀)
  induction l with
  | nil => rfl
  | cons p rest ih =>
    obtain ⟨k, v⟩ := p
    obtain ⟨hk, hrest⟩ := List.nodup_cons.mp hl
    rw [List.map_cons, List.map_cons, lookup_cons, if_pos rfl]
    refine congrArg (List.cons (k, v)) ((ih hrest).trans (List.map_congr_left fun k' hk' => ?_))
    have hne : k' ≠ k := by
      rintro rfl
      exact hk hk'
    rw [lookup_cons, if_neg hne]

end

end Dict

/-! ## counters -/

abbrev Counter (κ : Type*) := Dict κ Nat

namespace Counter

section
variable {κ : Type*}

/-- `sum(c.values())` -/
def total (c : Counter κ) : Nat := (c.items.map Prod.snd).sum

/-- the sum of the counts, each times the weight of its key -/
def weigh (w : κ → Nat) (c : Counter κ) : Nat := (c.items.map fun p => w p.1 * p.2).sum

theorem weigh_one (c : Counter κ) : weigh (fun _ => 1) c = total c := by
  simp [weigh, total]

variable [DecidableEq κ]

/-- `c[k]` -/
def get (c : Counter κ) (k : κ) : Nat := (Dict.get? c k).getD 0

/-- `c[k] += n` -/
def bump (c : Counter κ) (k : κ) (n : Nat) : Counter κ := c.alter k fun v => v.getD 0 + n

/-- `for k in ks: c[k] += n` -/
def bumpAll (c : Counter κ) (ks : List κ) (n : Nat) : Counter κ :=
  ks.foldl (fun c k => bump c k n) c

theorem get_bump (c : Counter κ) (k k' : κ) (n : Nat) :
    get (bump c k n) k' = get c k' + if k' = k then n else 0 := by
  unfold get bump
  rw [Dict.get?_alter]
  split_ifs with h
  · rw [h]
    rfl
  · rfl

theorem weigh_bump (w : κ → Nat) (c : Counter κ) (k : κ) (n : Nat) :
    weigh w (bump c k n) = weigh w c + w k * n := by
  obtain ⟨l, hl⟩ := c
  show ((Dict.alterItems k (fun v => v.getD 0 + n) l).map fun p => w p.1 * p.2).sum
    = (l.map fun p => w p.1 * p.2).sum + w k * n
  induction l with
  | nil => simp [Dict.alterItems]
  | cons p rest ih =>
    obtain ⟨k', v⟩ := p
    have hrest := ih (List.nodup_cons.mp hl).2
    by_cases h : k' = k
    · subst h
      simp only [Dict.alterItems, if_true, List.map_cons, List.sum_cons, Option.getD_some,
        Nat.mul_add]
      omega
    · simp only [Dict.alterItems, if_neg h, List.map_cons, List.sum_cons, hrest]
      omega

theorem total_bump (c : Counter κ) (k : κ) (n : Nat) : total (bump c k n) = total c + n := by
  rw [← weigh_one, ← weigh_one, weigh_bump, Nat.one_mul]

theorem total_bumpAll (c : Counter κ) (ks : List κ) (n : Nat) :
    total (bumpAll c ks n) = total c + n * ks.length := by
  induction ks generalizing c with
  | nil => rfl
  | cons k ks ih =>
    show total (bumpAll (bump c k n) ks n) = _
    rw [ih, total_bump, List.length_cons, Nat.mul_succ]
    omega

theorem get_bumpAll (c : Counter κ) {ks : List κ} (hks : ks.Nodup) (n : Nat) (k : κ) :
    get (bumpAll c ks n) k = get c k + if k ∈ ks then n else 0 := by
  induction ks generalizing c with
  | nil => rfl
  | cons a ks ih =>
    obtain ⟨ha, hks⟩ := List.nodup_cons.mp hks
    show get (bumpAll (bump c a n) ks n) k = _
    rw [ih _ hks, get_bump]
    by_cases h : k = a
    · subst h
      simp [ha]
    · simp [h]

theorem values_eq (c : Counter κ) : c.items.map Prod.snd = c.keys.map (get c) := by
  rw [Dict.items_eq c 0, List.map_map]
  rfl

end

end Counter
