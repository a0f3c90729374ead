/-
Machines whose inputs touch one key each.

A state holds a value under every key.  An input is `Local` to its key when what it
answers and what it leaves under the key depend only on what was there, and it changes
nothing under any other key; an input without a key touches nothing.  Then inputs under
different keys do not see one another: under each key a run leaves what the inputs of
that key alone leave (`get_run_filter`) and answers as they do (`trace_filter`), and an
input without a key gets its one answer anywhere (`trace_of_forall_none`).  So all orders
that agree under each key come to the same (`sameOutcome`), as do those that a change of
neighbours leads to (`sameOrder_swap`).
-/
import Evoting.Lib.Machine

namespace Evoting.Footprint

open Machine

variable {σ ι ρ κ ω : Type} {step : σ → ι → ρ × σ} {get : σ → κ → ω} {key : ι → Option κ}

/-- Two states hold the same under a key, if there is one. -/
def Agree (get : σ → κ → ω) (k : Option κ) (s t : σ) : Prop := ∀ k' ∈ k, get s k' = get t k'

/-- Each input touches what is under its key, and nothing else. -/
structure Local (step : σ → ι → ρ × σ) (get : σ → κ → ω) (key : ι → Option κ) : Prop where
  answer : ∀ s t i, Agree get (key i) s t → (step s i).1 = (step t i).1
  effect : ∀ s t i, Agree get (key i) s t → Agree get (key i) (step s i).2 (step t i).2
  frame : ∀ s i k, key i ≠ some k → get (step s i).2 k = get s k

/-- The same inputs, those of each key in the same order. -/
structure SameOrder [DecidableEq κ] (key : ι → Option κ) (inputs inputs' : List ι) : Prop where
  perm : inputs.Perm inputs'
  inOrder : ∀ k, inputs.filter (key · = some k) = inputs'.filter (key · = some k)

/-- Two orders come to the same: one state, the same inputs with the same answers, for each key
these in the same order, and without a key the answer that there would have been at once. -/
structure SameOutcome [DecidableEq κ] (step : σ → ι → ρ × σ) (key : ι → Option κ) (s : σ)
    (inputs inputs' : List ι) : Prop where
  state : run step s inputs = run step s inputs'
  answers : (trace step s inputs).Perm (trace step s inputs')
  inOrder : ∀ k, (trace step s inputs).filter (key ·.1 = some k)
    = (trace step s inputs').filter (key ·.1 = some k)
  keyless : ∀ e ∈ trace step s inputs, key e.1 = none → e.2 = (step s e.1).1

/-- Neighbours that have no key in common change places. -/
theorem sameOrder_swap [DecidableEq κ] {i j : ι} (hne : key i = key j → key i = none)
    (before after : List ι) :
    SameOrder key (before ++ i :: j :: after) (before ++ j :: i :: after) where
  perm := (List.Perm.swap j i after).append_left before
  inOrder k := by
    rw [List.filter_append, List.filter_append]
    by_cases hi : key i = some k
    · have hj : key j ≠ some k := by
        intro hj
        have hnone := hne (hi.trans hj.symm)
        rw [hi] at hnone
        cases hnone
      simp [hi, hj]
    · simp [List.filter_cons, hi]

/-- An element is counted among those of its key, or among those without one. -/
theorem perm_of_filter [DecidableEq κ] {α : Type} (keyOf : α → Option κ) {l l' : List α}
    (hnone : (l.filter (keyOf · = none)).Perm (l'.filter (keyOf · = none)))
    (hkey : ∀ k, (l.filter (keyOf · = some k)).Perm (l'.filter (keyOf · = some k))) :
    l.Perm l' := by
  classical
  refine List.perm_iff_count.mpr fun a => ?_
  have hall : ∀ k, (l.filter (keyOf · = k)).Perm (l'.filter (keyOf · = k)) := by
    intro k
    cases k with
    | none => exact hnone
    | some k => exact hkey k
  have hcount := (hall (keyOf a)).count_eq a
  rwa [List.count_filter (by simp), List.count_filter (by simp)] at hcount

theorem agree_some_iff {k : κ} {s t : σ} : Agree get (some k) s t ↔ get s k = get t k := by
  simp [Agree]

namespace Local

variable (h : Local step get key)

include h

/-- An input of another key is not seen. -/
theorem agree_step {k : Option κ} {i : ι} (hne : key i ≠ k) (s : σ) :
    Agree get k (step s i).2 s := by
  rintro k' rfl
  exact h.frame s i k' hne

/-- States that agree under a key still do after the same input. -/
theorem agree_step_step {k : Option κ} {s t : σ} (hst : Agree get k s t) (i : ι) :
    Agree get k (step s i).2 (step t i).2 := by
  intro k' hk'
  by_cases hi : key i = some k'
  · refine h.effect s t i ?_ k' hi
    rw [hi, agree_some_iff]
    exact hst k' hk'
  · rw [h.frame s i k' hi, h.frame t i k' hi]
    exact hst k' hk'

theorem agree_run_run {k : Option κ} (inputs : List ι) : ∀ {s t : σ}, Agree get k s t →
    Agree get k (run step s inputs) (run step t inputs) := by
  induction inputs with
  | nil => intro s t hst; exact hst
  | cons i rest ih =>
      intro s t hst
      exact ih (h.agree_step_step hst i)

/-- Inputs of one key are answered alike in states that agree there. -/
theorem trace_congr {k : Option κ} (inputs : List ι) : ∀ {s t : σ}, Agree get k s t →
    (∀ i ∈ inputs, key i = k) → trace step s inputs = trace step t inputs := by
  induction inputs with
  | nil => intro s t _ _; rfl
  | cons i rest ih =>
      intro s t hst hkeys
      have hanswer : (step s i).1 = (step t i).1 := by
        refine h.answer s t i ?_
        rw [hkeys i (by simp)]
        exact hst
      have hrest := ih (h.agree_step_step hst i) fun j hj => hkeys j (by simp [hj])
      rw [trace, trace, hanswer, hrest]

variable [DecidableEq κ]

/-- **What is under a key** was left there by the inputs of that key alone. -/
theorem get_run_filter (k : κ) (inputs : List ι) : ∀ s : σ,
    get (run step s inputs) k = get (run step s (inputs.filter (key · = some k))) k := by
  induction inputs with
  | nil => intro s; rfl
  | cons i rest ih =>
      intro s
      rw [run_cons, ih]
      by_cases hi : key i = some k
      · rw [List.filter_cons_of_pos (by simpa using hi), run_cons]
      · rw [List.filter_cons_of_neg (by simpa using hi)]
        exact agree_some_iff.mp (h.agree_run_run _ (h.agree_step hi s))

/-- **The inputs of a key** are answered as if there were no others. -/
theorem trace_filter (k : Option κ) (inputs : List ι) : ∀ s : σ,
    (trace step s inputs).filter (key ·.1 = k) = trace step s (inputs.filter (key · = k)) := by
  induction inputs with
  | nil => intro s; rfl
  | cons i rest ih =>
      intro s
      rw [trace]
      by_cases hi : key i = k
      · rw [List.filter_cons_of_pos (by simpa using hi),
          List.filter_cons_of_pos (by simpa using hi),
          trace, ih]
      · rw [List.filter_cons_of_neg (by simpa using hi),
          List.filter_cons_of_neg (by simpa using hi),
          ih]
        refine h.trace_congr _ (h.agree_step hi s) fun j hj => ?_
        simpa using (List.mem_filter.mp hj).2

omit [DecidableEq κ] in
/-- Inputs without a key are answered as if each were the first. -/
theorem trace_of_forall_none {s : σ} : ∀ {inputs : List ι}, (∀ i ∈ inputs, key i = none) →
    ∀ t, trace step t inputs = inputs.map fun i => (i, (step s i).1) := by
  intro inputs
  induction inputs with
  | nil => intro _ t; rfl
  | cons i rest ih =>
      intro hnone t
      have hi : key i = none := hnone i (by simp)
      have hanswer : (step t i).1 = (step s i).1 :=
        h.answer t s i (by simp [Agree, hi])
      rw [trace, ih (fun j hj => hnone j (by simp [hj])), hanswer, List.map_cons]

/-- **Orders that agree under each key come to the same**, in a state that is what it holds. -/
theorem sameOutcome (hext : ∀ s t : σ, (∀ k, get s k = get t k) → s = t)
    {inputs inputs' : List ι} (horder : SameOrder key inputs inputs') (s : σ) :
    SameOutcome step key s inputs inputs' := by
  have hinOrder : ∀ k, (trace step s inputs).filter (key ·.1 = some k)
      = (trace step s inputs').filter (key ·.1 = some k) := by
    intro k
    rw [h.trace_filter, h.trace_filter, horder.inOrder k]
  have hnone : ∀ inputs : List ι, (trace step s inputs).filter (key ·.1 = none)
      = (inputs.filter (key · = none)).map fun i => (i, (step s i).1) := by
    intro inputs
    rw [h.trace_filter]
    exact h.trace_of_forall_none (fun i hi => by simpa using (List.mem_filter.mp hi).2) s
  have hkeyless : ((trace step s inputs).filter (key ·.1 = none)).Perm
      ((trace step s inputs').filter (key ·.1 = none)) := by
    rw [hnone, hnone]
    exact (horder.perm.filter _).map _
  refine ⟨hext _ _ fun k => ?_, ?_, hinOrder, fun e he hkey => ?_⟩
  · rw [h.get_run_filter k inputs, h.get_run_filter k inputs', horder.inOrder k]
  · exact perm_of_filter (fun e => key e.1) hkeyless fun k => .of_eq (hinOrder k)
  · have hfiltered : e ∈ (trace step s inputs).filter (key ·.1 = none) :=
      List.mem_filter.mpr ⟨he, by simpa using hkey⟩
    rw [hnone] at hfiltered
    obtain ⟨i, -, rfl⟩ := List.mem_map.mp hfiltered
    rfl

end Local

end Evoting.Footprint
