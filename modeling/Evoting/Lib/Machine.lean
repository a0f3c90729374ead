/-
Machines that answer every input, and what a run of one leaves behind.

A machine is a step function giving an answer and a next state.  `run` is the
state after a list of inputs, `trace` pairs each input with its answer.  The
lemmas are the ones a proof about all runs needs: an invariant that one step
keeps is kept by a run, a part of the state that steps leave alone is left alone
by a run of such steps, and a place in the trace is an input answered in the
state the inputs before it lead to.

What a run takes out of a queue and adds to it is accounted for step by step
(`gather_queue`).  The last part is the map a sequence of writes amounts to: under
each key, what was written there last, and what they leave in a list.
-/
import Mathlib.Data.List.Induction

namespace Evoting.Machine

variable {σ ι ρ : Type}

/-- The state after a list of inputs. -/
def run (step : σ → ι → ρ × σ) (s : σ) (inputs : List ι) : σ :=
  inputs.foldl (fun s i => (step s i).2) s

/-- Each input with the answer it got. -/
def trace (step : σ → ι → ρ × σ) : σ → List ι → List (ι × ρ)
  | _, [] => []
  | s, i :: rest => (i, (step s i).1) :: trace step (step s i).2 rest

variable (step : σ → ι → ρ × σ)

@[simp] theorem run_nil (s : σ) : run step s [] = s := rfl

@[simp] theorem run_cons (s : σ) (i : ι) (rest : List ι) :
    run step s (i :: rest) = run step (step s i).2 rest := rfl

@[simp] theorem run_append (s : σ) (first rest : List ι) :
    run step s (first ++ rest) = run step (run step s first) rest := by
  simp [run]

/-- **What one step keeps, a run keeps.** -/
theorem run_invariant {Inv : σ → Prop} (hstep : ∀ s i, Inv s → Inv (step s i).2) :
    ∀ (inputs : List ι) (s : σ), Inv s → Inv (run step s inputs) := by
  intro inputs
  induction inputs with
  | nil => intro s hs; exact hs
  | cons i rest ih => intro s hs; exact ih _ (hstep s i hs)

/-- An invariant that holds at the start and is kept by the inputs of a class is
kept by a run of such inputs, together with a part of the state they leave alone. -/
theorem run_frame {τ : Type} (Inv : σ → Prop) (P : ι → Prop) (part : σ → τ)
    (hstep : ∀ s i, Inv s → P i → Inv (step s i).2 ∧ part (step s i).2 = part s) :
    ∀ (inputs : List ι) (s : σ), Inv s → (∀ i ∈ inputs, P i) →
      part (run step s inputs) = part s := by
  intro inputs
  induction inputs with
  | nil => intro s _ _; rfl
  | cons i rest ih =>
      intro s hs hP
      obtain ⟨hs', hpart⟩ := hstep s i hs (hP i (by simp))
      rw [run_cons, ih _ hs' (fun j hj => hP j (by simp [hj])), hpart]

theorem trace_append (s : σ) (first rest : List ι) :
    trace step s (first ++ rest) = trace step s first ++ trace step (run step s first) rest := by
  induction first generalizing s with
  | nil => rfl
  | cons i first ih =>
      rw [List.cons_append, trace, ih]
      rfl

/-- **A place in the trace is an input answered in the state before it.** -/
theorem trace_eq_append {s : σ} {inputs : List ι} {before after : List (ι × ρ)} {i : ι} {r : ρ}
    (h : trace step s inputs = before ++ (i, r) :: after) :
    ∃ first rest, inputs = first ++ i :: rest ∧ before = trace step s first ∧
      r = (step (run step s first) i).1 ∧
      after = trace step (step (run step s first) i).2 rest := by
  induction before generalizing s inputs with
  | nil =>
      cases inputs with
      | nil => simp [trace] at h
      | cons j rest =>
          simp only [trace, List.nil_append, List.cons.injEq, Prod.mk.injEq] at h
          obtain ⟨⟨rfl, rfl⟩, rfl⟩ := h
          exact ⟨[], rest, rfl, rfl, rfl, rfl⟩
  | cons x before ih =>
      cases inputs with
      | nil => simp [trace] at h
      | cons j rest =>
          simp only [trace, List.cons_append, List.cons.injEq] at h
          obtain ⟨rfl, htail⟩ := h
          obtain ⟨first, rest', rfl, hbefore, hr, hafter⟩ := ih htail
          exact ⟨j :: first, rest', rfl, by rw [hbefore]; rfl, hr, hafter⟩

/-- **Simulation.**  Where one machine answers as another, on inputs translated for it, and
related states stay related, runs answer alike. -/
theorem trace_simulation {τ κ : Type} {step' : τ → κ → ρ × τ} (R : σ → τ → Prop) (P : ι → Prop)
    (f : ι → κ) (hstep : ∀ s t i, R s t → P i →
      (step s i).1 = (step' t (f i)).1 ∧ R (step s i).2 (step' t (f i)).2) :
    ∀ (inputs : List ι) (s : σ) (t : τ), R s t → (∀ i ∈ inputs, P i) →
      (trace step s inputs).map Prod.snd = (trace step' t (inputs.map f)).map Prod.snd ∧
        R (run step s inputs) (run step' t (inputs.map f)) := by
  intro inputs
  induction inputs with
  | nil => intro s t hR _; exact ⟨rfl, hR⟩
  | cons i inputs ih =>
      intro s t hR hP
      obtain ⟨hanswer, hnext⟩ := hstep s t i hR (hP i (by simp))
      obtain ⟨hanswers, hend⟩ := ih _ _ hnext fun j hj => hP j (by simp [hj])
      refine ⟨?_, hend⟩
      rw [List.map_cons, trace, trace, List.map_cons, List.map_cons, hanswers, hanswer]

/-- **Abstraction.**  The same for machines whose answers agree in what each of them shows. -/
theorem trace_abstraction {τ ρ' α : Type} {step' : τ → ι → ρ' × τ} (view : ρ → α)
    (view' : ρ' → α) (R : σ → τ → Prop) (P : ι → Prop)
    (hstep : ∀ s t i, R s t → P i →
      view (step s i).1 = view' (step' t i).1 ∧ R (step s i).2 (step' t i).2) :
    ∀ (inputs : List ι) (s : σ) (t : τ), R s t → (∀ i ∈ inputs, P i) →
      (trace step s inputs).map (fun e => view e.2)
          = (trace step' t inputs).map (fun e => view' e.2) ∧
        R (run step s inputs) (run step' t inputs) := by
  intro inputs
  induction inputs with
  | nil => intro s t hR _; exact ⟨rfl, hR⟩
  | cons i inputs ih =>
      intro s t hR hP
      obtain ⟨hanswer, hnext⟩ := hstep s t i hR (hP i (by simp))
      obtain ⟨hanswers, hend⟩ := ih _ _ hnext fun j hj => hP j (by simp [hj])
      refine ⟨?_, hend⟩
      rw [trace, trace, List.map_cons, List.map_cons, hanswers, hanswer]

/-- **What happens at most once.**  Inputs answered in a class `P` find a flag down
and raise it, and nothing lowers it: then there is one such input at most, and
none once the flag is up. -/
theorem filter_trace_le_one (Inv up : σ → Prop) {P : ι × ρ → Bool}
    (hinv : ∀ s i, Inv s → Inv (step s i).2) (hkeep : ∀ s i, Inv s → up s → up (step s i).2)
    (hraise : ∀ s i, Inv s → P (i, (step s i).1) → ¬up s ∧ up (step s i).2) :
    ∀ (inputs : List ι) (s : σ), Inv s →
      ((trace step s inputs).filter P).length ≤ 1 ∧
        (up s → (trace step s inputs).filter P = []) := by
  intro inputs
  induction inputs with
  | nil => intro s _; simp [trace]
  | cons i rest ih =>
      intro s hs
      obtain ⟨hle, hnone⟩ := ih _ (hinv s i hs)
      cases hP : P (i, (step s i).1) with
      | false =>
          simp only [trace, List.filter_cons, hP]
          exact ⟨hle, fun hup => hnone (hkeep s i hs hup)⟩
      | true =>
          obtain ⟨hdown, hup⟩ := hraise s i hs hP
          simp only [trace, List.filter_cons, hP, if_true, hnone hup]
          exact ⟨Nat.le_refl 1, fun h => absurd h hdown⟩

/-- Every input of a run meets a condition in the state it is answered in. -/
def AllSteps (P : σ → ι → Prop) : σ → List ι → Prop
  | _, [] => True
  | s, i :: rest => P s i ∧ AllSteps P (step s i).2 rest

instance (P : σ → ι → Prop) [∀ s i, Decidable (P s i)] :
    ∀ (s : σ) (inputs : List ι), Decidable (AllSteps step P s inputs)
  | _, [] => inferInstanceAs (Decidable True)
  | s, i :: rest =>
      have := instDecidableAllSteps P (step s i).2 rest
      inferInstanceAs (Decidable (P s i ∧ AllSteps step P (step s i).2 rest))

/-- **Every place of a run.** -/
theorem allSteps_iff {P : σ → ι → Prop} : ∀ (inputs : List ι) (s : σ),
    AllSteps step P s inputs ↔
      ∀ first i rest, inputs = first ++ i :: rest → P (run step s first) i := by
  intro inputs
  induction inputs with
  | nil => intro s; simp [AllSteps]
  | cons i inputs ih =>
      intro s
      rw [AllSteps, ih]
      constructor
      · rintro ⟨hi, hall⟩ first j rest hsplit
        cases first with
        | nil => exact (List.cons.inj hsplit).1 ▸ hi
        | cons k first =>
            obtain ⟨rfl, htail⟩ := List.cons.inj hsplit
            exact hall first j rest htail
      · intro hall
        exact ⟨hall [] i inputs rfl, fun first j rest hsplit =>
          hall (i :: first) j rest (congrArg (i :: ·) hsplit)⟩

/-- A condition on the inputs alone. -/
theorem AllSteps.of_forall {P : ι → Prop} {inputs : List ι} (h : ∀ i ∈ inputs, P i) (s : σ) :
    AllSteps step (fun _ i => P i) s inputs := by
  rw [allSteps_iff]
  rintro first i rest rfl
  exact h i (by simp)

/-- An invariant that is kept by the steps that meet a condition is kept by a run of them. -/
theorem AllSteps.run_invariant (Inv : σ → Prop) {P : σ → ι → Prop}
    (hstep : ∀ s i, Inv s → P s i → Inv (step s i).2) :
    ∀ (inputs : List ι) (s : σ), Inv s → AllSteps step P s inputs → Inv (run step s inputs) := by
  intro inputs
  induction inputs with
  | nil => intro s hs _; exact hs
  | cons i inputs ih =>
      rintro s hs ⟨hi, hrest⟩
      exact ih _ (hstep s i hs hi) hrest

/-- What follows in a state that meets the invariant follows along every run from one. -/
theorem AllSteps.mono {Inv : σ → Prop} {P Q : σ → ι → Prop}
    (hstep : ∀ s i, Inv s → Inv (step s i).2) (himp : ∀ s i, Inv s → P s i → Q s i) :
    ∀ (inputs : List ι) (s : σ), Inv s → AllSteps step P s inputs → AllSteps step Q s inputs := by
  intro inputs
  induction inputs with
  | nil => intro s _ _; exact trivial
  | cons i rest ih =>
      rintro s hs ⟨hP, hrest⟩
      exact ⟨himp s i hs hP, ih _ (hstep s i hs) hrest⟩

theorem allSteps_append {P : σ → ι → Prop} (first rest : List ι) : ∀ s : σ,
    AllSteps step P s (first ++ rest) ↔
      AllSteps step P s first ∧ AllSteps step P (run step s first) rest := by
  induction first with
  | nil => intro s; simp [AllSteps]
  | cons i first ih =>
      intro s
      rw [List.cons_append, AllSteps, AllSteps, ih, and_assoc, run_cons]

/-- **Two machines side by side**: a condition means the same along both runs, if it does in
related states and the steps that meet it keep them related. -/
theorem allSteps_congr {τ ρ' : Type} {step' : τ → ι → ρ' × τ} {P : σ → ι → Prop}
    {P' : τ → ι → Prop} (R : σ → τ → Prop) (hsame : ∀ s t i, R s t → (P s i ↔ P' t i))
    (hstep : ∀ s t i, R s t → P s i → R (step s i).2 (step' t i).2) :
    ∀ (inputs : List ι) (s : σ) (t : τ), R s t →
      (AllSteps step P s inputs ↔ AllSteps step' P' t inputs) := by
  intro inputs
  induction inputs with
  | nil => intro s t _; exact Iff.rfl
  | cons i rest ih =>
      intro s t hR
      rw [AllSteps, AllSteps, ← hsame s t i hR]
      exact and_congr_right fun hP => ih _ _ (hstep s t i hR hP)

/-! ### What passes through a queue -/

section Queue

variable {α : Type}

/-- What the steps of a run amount to, one after the other. -/
def gather (f : σ → ι → List α) : σ → List ι → List α
  | _, [] => []
  | s, i :: rest => f s i ++ gather f (step s i).2 rest

/-- What depends on the inputs alone. -/
theorem gather_inputs (f : ι → List α) (inputs : List ι) :
    ∀ s : σ, gather step (fun _ i => f i) s inputs = inputs.flatMap f := by
  induction inputs with
  | nil => intro s; rfl
  | cons i inputs ih => intro s; rw [gather, ih, List.flatMap_cons]

/-- Steps of which nothing comes. -/
theorem gather_eq_nil {f : σ → ι → List α} (Inv : σ → Prop) {P : σ → ι → Prop}
    (hstep : ∀ s i, Inv s → P s i → Inv (step s i).2 ∧ f s i = []) :
    ∀ (inputs : List ι) (s : σ), Inv s → AllSteps step P s inputs →
      gather step f s inputs = [] := by
  intro inputs
  induction inputs with
  | nil => intro s _ _; rfl
  | cons i inputs ih =>
      rintro s hs ⟨hi, hrest⟩
      obtain ⟨hnext, hnil⟩ := hstep s i hs hi
      rw [gather, hnil, ih _ hnext hrest, List.append_nil]

variable {queue : σ → List α} {out inp : σ → ι → List α} (Inv : σ → Prop)

/-- **Nothing is lost, in order.**  Where every step takes from the front of a queue what comes
out, and adds at its back what comes in, so does a run. -/
theorem gather_queue {P : σ → ι → Prop}
    (hstep : ∀ s i, Inv s → P s i →
      Inv (step s i).2 ∧ out s i ++ queue (step s i).2 = queue s ++ inp s i) :
    ∀ (inputs : List ι) (s : σ), Inv s → AllSteps step P s inputs →
      gather step out s inputs ++ queue (run step s inputs)
        = queue s ++ gather step inp s inputs := by
  intro inputs
  induction inputs with
  | nil => intro s _ _; simp [gather]
  | cons i inputs ih =>
      rintro s hs ⟨hi, hrest⟩
      obtain ⟨hnext, hqueue⟩ := hstep s i hs hi
      rw [gather, run_cons, List.append_assoc, ih _ hnext hrest, ← List.append_assoc, hqueue,
        List.append_assoc, gather]

/-- **Nothing comes out twice, or out of order**, where steps may drop things as well. -/
theorem gather_queue_sublist {P : σ → ι → Prop}
    (hstep : ∀ s i, Inv s → P s i →
      Inv (step s i).2 ∧ (out s i ++ queue (step s i).2).Sublist (queue s ++ inp s i)) :
    ∀ (inputs : List ι) (s : σ), Inv s → AllSteps step P s inputs →
      (gather step out s inputs ++ queue (run step s inputs)).Sublist
        (queue s ++ gather step inp s inputs) := by
  intro inputs
  induction inputs with
  | nil => intro s _ _; simp [gather]
  | cons i inputs ih =>
      rintro s hs ⟨hi, hrest⟩
      obtain ⟨hnext, hqueue⟩ := hstep s i hs hi
      have hrest := (List.Sublist.refl (out s i)).append (ih _ hnext hrest)
      rw [gather, run_cons, List.append_assoc, gather, ← List.append_assoc (queue s)]
      refine hrest.trans ?_
      rw [← List.append_assoc]
      exact hqueue.append (List.Sublist.refl _)

end Queue

/-! ### The last write under a key -/

section Latest

variable {κ α : Type} [DecidableEq κ] (key : α → κ)

/-- What a sequence of writes leaves under a key. -/
def latest (writes : List α) (k : κ) : Option α :=
  writes.reverse.find? fun a => key a = k

theorem latest_concat (writes : List α) (a : α) (k : κ) :
    latest key (writes ++ [a]) k = if key a = k then some a else latest key writes k := by
  by_cases h : key a = k <;> simp [latest, h]

theorem latest_eq_none {writes : List α} {k : κ} :
    latest key writes k = none ↔ ∀ a ∈ writes, key a ≠ k := by
  simp [latest]

end Latest

end Evoting.Machine
