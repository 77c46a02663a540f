import Mathlib.Data.List.Induction

/-!
# Coarse steps over a labelled deterministic system

A deterministic system is a function `f : σ → Option (α × σ)`; `Trace f s w t` says that it shows
the labels `w` on the way from `s` to `t`.  A second system takes coarse steps `B h s b t`, where
`h` is what it did before, so that it may depend on its own history (a cache, a predictor).

`Coarse f word B` are three facts about ONE step: a coarse step `b` runs the labels `word b`, at
least one of them (`sound`), it is possible wherever `f` can go on (`total`), and nothing in it is
left open (`functional`).  They are lifted to runs:

* `Coarse.trace`     a run of coarse steps is the run of `f` over the words of its steps;
* `Coarse.reaches`   if `f` halts, the second system halts in the same state, on the same labels,
                    in no more steps, and every run of it is a prefix of that one;
* `Coarse.goes_on`   if `f` runs for ever, so does the second system.
-/

namespace Simulation

section
variable {σ α β : Type*} {f : σ → Option (α × σ)}

/-! ## traces -/

def Trace (f : σ → Option (α × σ)) : σ → List α → σ → Prop
  | s, [], t => s = t
  | s, a :: w, t => ∃ s', f s = some (a, s') ∧ Trace f s' w t

theorem Trace.append {s t u : σ} {v w : List α} (h : Trace f s v t) (h' : Trace f t w u) :
    Trace f s (v ++ w) u := by
  induction v generalizing s with
  | nil =>
    obtain rfl : s = t := h
    exact h'
  | cons a v ih =>
    obtain ⟨s', hs, hv⟩ := h
    exact ⟨s', hs, ih hv⟩

/-- a trace to a halting state runs through every other trace -/
theorem Trace.prefix_of_halted {s t u : σ} {v w : List α} (h : Trace f s v t)
    (h' : Trace f s w u) (hu : f u = none) : ∃ rest, w = v ++ rest ∧ Trace f t rest u := by
  induction v generalizing s w with
  | nil =>
    obtain rfl : s = t := h
    exact ⟨w, rfl, h'⟩
  | cons a v ih =>
    obtain ⟨s', hs, hv⟩ := h
    cases w with
    | nil =>
      obtain rfl : s = u := h'
      rw [hu] at hs
      cases hs
    | cons b w =>
      obtain ⟨s'', hs', hw⟩ := h'
      rw [hs] at hs'
      obtain ⟨rfl, rfl⟩ := Prod.mk.inj (Option.some.inj hs')
      obtain ⟨rest, rfl, hrest⟩ := ih hv hw
      exact ⟨rest, rfl, hrest⟩

theorem Trace.step_ne_none {s t : σ} {w : List α} (h : Trace f s w t) (hw : w ≠ []) :
    f s ≠ none := by
  cases w with
  | nil => exact absurd rfl hw
  | cons a w =>
    obtain ⟨s', hs, -⟩ := h
    rw [hs]
    exact Option.some_ne_none _

/-- a system that shows arbitrarily long traces from `s` has not halted at the end of a trace -/
theorem Trace.not_halted {s t : σ} {v : List α} (h : Trace f s v t)
    (hlong : ∀ n, ∃ w u, w.length = n ∧ Trace f s w u) : f t ≠ none := by
  intro ht
  obtain ⟨w, u, hlen, hw⟩ := hlong (v.length + 1)
  obtain ⟨rest, rfl, -⟩ := hw.prefix_of_halted h ht
  rw [List.length_append] at hlen
  omega

/-! ## runs of coarse steps -/

/-- a run from `s`, with the steps it took, the first one first -/
inductive Run (B : List β → σ → β → σ → Prop) (s : σ) : List β → σ → Prop
  | nil : Run B s [] s
  | snoc {h : List β} {t : σ} {b : β} {u : σ} : Run B s h t → B h t b u → Run B s (h ++ [b]) u

structure Coarse (f : σ → Option (α × σ)) (word : β → List α)
    (B : List β → σ → β → σ → Prop) : Prop where
  sound : ∀ {h s b t}, B h s b t → word b ≠ [] ∧ Trace f s (word b) t
  total : ∀ (h : List β) {s : σ}, f s ≠ none → ∃ b t, B h s b t
  functional : ∀ {h s b t b' t'}, B h s b t → B h s b' t' → b = b' ∧ t = t'

variable {B : List β → σ → β → σ → Prop} {word : β → List α} {s t u : σ} {h h' : List β}

theorem Run.nil_inv (hr : Run B s [] t) : s = t := by
  generalize hnil : ([] : List β) = xs at hr
  cases hr with
  | nil => rfl
  | snoc _ _ => exact absurd hnil.symm (List.append_ne_nil_of_right_ne_nil _ (List.cons_ne_nil _ _))

theorem Run.snoc_inv {b : β} (hr : Run B s (h ++ [b]) u) : ∃ t, Run B s h t ∧ B h t b u := by
  generalize hx : h ++ [b] = xs at hr
  cases hr with
  | nil => exact absurd hx (List.append_ne_nil_of_right_ne_nil _ (List.cons_ne_nil _ _))
  | snoc hr' hb =>
    obtain ⟨rfl, hbb⟩ := List.append_inj' hx rfl
    obtain rfl := List.singleton_inj.mp hbb
    exact ⟨_, hr', hb⟩

/-- the steps taken so far are part of the history of every later step -/
theorem Run.of_append (hr : Run B s (h ++ h') u) : ∃ t, Run B s h t := by
  induction h' using List.reverseRecOn generalizing u with
  | nil =>
    rw [List.append_nil] at hr
    exact ⟨u, hr⟩
  | append_singleton h' b ih =>
    rw [← List.append_assoc] at hr
    obtain ⟨t, ht, -⟩ := hr.snoc_inv
    exact ih ht

theorem Run.forall {P : β → Prop} (hr : Run B s h t)
    (hP : ∀ {h s b t}, B h s b t → P b) : ∀ b ∈ h, P b := by
  induction hr with
  | nil => exact fun b hb => absurd hb List.not_mem_nil
  | snoc _ hb ih =>
    intro b hmem
    rcases List.mem_append.mp hmem with hmem | hmem
    · exact ih b hmem
    · obtain rfl := List.mem_singleton.mp hmem
      exact hP hb

theorem Run.cons {b : β} (hb : B [] s b t) (hr : Run (fun h => B (b :: h)) t h u) :
    Run B s (b :: h) u := by
  induction hr with
  | nil => exact Run.nil.snoc hb
  | snoc _ hc ih => exact Run.snoc ih hc

/-- a system that does what `f` does, step by step, has the runs of `f` -/
theorem run_iff_trace {B : List α → σ → α → σ → Prop}
    (hB : ∀ h s a t, B h s a t ↔ f s = some (a, t)) {w : List α} :
    Run B s w t ↔ Trace f s w t := by
  constructor
  · intro hr
    induction hr with
    | nil => exact (rfl : s = s)
    | snoc _ hb ih => exact ih.append ⟨_, (hB _ _ _ _).mp hb, rfl⟩
  · intro hw
    induction w generalizing B s with
    | nil =>
      obtain rfl : s = t := hw
      exact Run.nil
    | cons a w ih =>
      obtain ⟨s', hs, hw⟩ := hw
      exact Run.cons ((hB _ _ _ _).mpr hs) (ih (fun h => hB (a :: h)) hw)

/-! ## from one step to runs -/

theorem Coarse.trace (hm : Coarse f word B) (hr : Run B s h t) : Trace f s (h.flatMap word) t := by
  induction hr with
  | nil => exact (rfl : s = s)
  | snoc _ hb ih =>
    rw [List.flatMap_append, List.flatMap_singleton]
    exact ih.append (hm.sound hb).2

theorem Coarse.run_functional (hm : Coarse f word B) (hr : Run B s h t) (hr' : Run B s h u) :
    t = u := by
  induction hr generalizing u with
  | nil => exact hr'.nil_inv
  | snoc _ hb ih =>
    obtain ⟨t', ht', hb'⟩ := hr'.snoc_inv
    obtain rfl := ih ht'
    exact (hm.functional hb hb').2

/-- the steps of a run are no more than the labels under them -/
theorem Coarse.length_le (hm : Coarse f word B) (hr : Run B s h t) :
    h.length ≤ (h.flatMap word).length := by
  induction hr with
  | nil => exact Nat.le_refl _
  | snoc _ hb ih =>
    have hpos := List.length_pos_iff.mpr (hm.sound hb).1
    rw [List.length_append, List.flatMap_append, List.flatMap_singleton, List.length_append,
      List.length_singleton]
    omega

/-- a run goes on to the halting state of `f` -/
theorem Coarse.extend (hm : Coarse f word B) {v : List α} (hr : Run B s h t)
    (hv : Trace f t v u) (hu : f u = none) : ∃ h₂, Run B s (h ++ h₂) u ∧ h₂.flatMap word = v := by
  induction hn : v.length using Nat.strongRecOn generalizing h t v with
  | ind n ih =>
    subst hn
    cases v with
    | nil =>
      obtain rfl : t = u := hv
      rw [← List.append_nil h] at hr
      exact ⟨[], hr, rfl⟩
    | cons a v =>
      obtain ⟨b, t', hb⟩ := hm.total h (hv.step_ne_none (List.cons_ne_nil a v))
      obtain ⟨hne, hword⟩ := hm.sound hb
      obtain ⟨rest, hsplit, hrest⟩ := hword.prefix_of_halted hv hu
      have hlt : rest.length < (a :: v).length := by
        rw [hsplit, List.length_append]
        have := List.length_pos_iff.mpr hne
        omega
      obtain ⟨h₂, hrun, hflat⟩ := ih _ hlt (hr.snoc hb) hrest rfl
      rw [List.append_assoc] at hrun
      refine ⟨b :: h₂, hrun, ?_⟩
      rw [List.flatMap_cons, hflat, hsplit]

/-- once `f` has halted, nothing but a prefix of the run was possible -/
theorem Coarse.prefix_of_halted (hm : Coarse f word B) (hr : Run B s h u) (hu : f u = none)
    (hr' : Run B s h' t) : h' <+: h := by
  induction hr' with
  | nil => exact List.nil_prefix
  | snoc hr₁ hb ih =>
    obtain ⟨rest, rfl⟩ := ih
    cases rest with
    | nil =>
      rw [List.append_nil] at hr
      obtain rfl := hm.run_functional hr₁ hr
      exact absurd hu ((hm.sound hb).2.step_ne_none (hm.sound hb).1)
    | cons b' rest =>
      rw [List.append_cons] at hr
      obtain ⟨t', ht'⟩ := hr.of_append
      obtain ⟨t₁, ht₁, hb'⟩ := ht'.snoc_inv
      obtain rfl := hm.run_functional hr₁ ht₁
      obtain ⟨rfl, -⟩ := hm.functional hb hb'
      refine ⟨rest, ?_⟩
      rw [List.append_assoc, List.singleton_append]

/-- **Where `f` halts, the coarse steps halt: in the same state, on the same labels, in no more
steps, whatever was done before.** -/
theorem Coarse.reaches (hm : Coarse f word B) {v : List α} (hv : Trace f s v u) (hu : f u = none) :
    ∃ h, Run B s h u ∧ h.flatMap word = v ∧ h.length ≤ v.length
      ∧ ∀ h' t, Run B s h' t → h' <+: h := by
  obtain ⟨h, hrun, hflat⟩ := hm.extend Run.nil hv hu
  rw [List.nil_append] at hrun
  exact ⟨h, hrun, hflat, hflat ▸ hm.length_le hrun, fun h' t => hm.prefix_of_halted hrun hu⟩

/-- **Where `f` runs for ever, so do the coarse steps.** -/
theorem Coarse.goes_on (hm : Coarse f word B) (hlong : ∀ n, ∃ w u, w.length = n ∧ Trace f s w u)
    (n : Nat) : ∃ h t, h.length = n ∧ Run B s h t := by
  induction n with
  | zero => exact ⟨[], s, rfl, .nil⟩
  | succ n ih =>
    obtain ⟨h, t, rfl, hr⟩ := ih
    obtain ⟨b, t', hb⟩ := hm.total h ((hm.trace hr).not_halted hlong)
    exact ⟨h ++ [b], t', List.length_append, hr.snoc hb⟩

end

end Simulation
