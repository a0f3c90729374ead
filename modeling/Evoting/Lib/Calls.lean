/-
Programs that make calls, one at a time.

A program returns, throws, or makes a call and goes on from its answer.  An answer may
be an exception, which ends the program.  `run` answers each call at once, from a
state that the calls change.

`At` is a place in such a run: what is left of the program, and the state there.  It is
what a proof about a slower way of answering keeps, since what is left then ends as
the whole program does (`At.run`), in a state of the run (`At.mem_states`).
-/
import Mathlib.Logic.Basic

namespace Evoting

inductive Calls (Q A ε α : Type) where
  | returns (a : α)
  | throws (e : ε)
  | call (query : Q) (next : A → Calls Q A ε α)

namespace Calls

variable {Q A ε α σ : Type}

/-- What a program ends in, and the state it leaves. -/
def run (serve : σ → Q → Except ε A × σ) : Calls Q A ε α → σ → Except ε α × σ
  | returns a, s => (.ok a, s)
  | throws e, s => (.error e, s)
  | call query next, s =>
      match serve s query with
      | (.ok answer, s) => run serve (next answer) s
      | (.error e, s) => (.error e, s)

/-- The states of a run, from the first to the last. -/
def states (serve : σ → Q → Except ε A × σ) : Calls Q A ε α → σ → List σ
  | returns _, s => [s]
  | throws _, s => [s]
  | call query next, s =>
      s :: match serve s query with
        | (.ok answer, s) => states serve (next answer) s
        | (.error _, s) => [s]

/-- A run from `p` and `s` comes to what is left and a state. -/
inductive At (serve : σ → Q → Except ε A × σ) (p : Calls Q A ε α) (s : σ) :
    Calls Q A ε α → σ → Prop
  | start : At serve p s p s
  | answered {query : Q} {next : A → Calls Q A ε α} {answer : A} {t u : σ} :
      At serve p s (call query next) t → serve t query = (.ok answer, u) →
      At serve p s (next answer) u

variable {serve : σ → Q → Except ε A × σ} {p : Calls Q A ε α} {s : σ}

theorem mem_states_self (p : Calls Q A ε α) (s : σ) : s ∈ p.states serve s := by
  cases p <;> simp [states]

/-- A run ends at one of its states. -/
theorem run_mem_states (p : Calls Q A ε α) (s : σ) : (p.run serve s).2 ∈ p.states serve s := by
  induction p generalizing s with
  | returns a => simp [run, states]
  | throws e => simp [run, states]
  | call query next ih =>
      rw [run, states]
      rcases serve s query with ⟨e | answer, t⟩
      · simp
      · exact List.mem_cons_of_mem _ (ih answer t)

/-- **What is left ends as the whole program does.** -/
theorem At.run {q : Calls Q A ε α} {t : σ} (h : At serve p s q t) :
    q.run serve t = p.run serve s := by
  induction h with
  | start => rfl
  | answered _ hserve ih => rw [← ih, Calls.run, hserve]

theorem At.states_subset {q : Calls Q A ε α} {t : σ} (h : At serve p s q t) :
    ∀ u ∈ q.states serve t, u ∈ p.states serve s := by
  induction h with
  | start => exact fun _ hu => hu
  | answered _ hserve ih =>
      intro u hu
      refine ih u ?_
      rw [states, hserve]
      exact List.mem_cons_of_mem _ hu

/-- The state at a place is one of the run. -/
theorem At.mem_states {q : Calls Q A ε α} {t : σ} (h : At serve p s q t) :
    t ∈ p.states serve s :=
  h.states_subset t (mem_states_self q t)

/-- So is the state that the next call leaves. -/
theorem At.served_mem_states {query : Q} {next : A → Calls Q A ε α} {t : σ}
    (h : At serve p s (call query next) t) : (serve t query).2 ∈ p.states serve s := by
  refine h.states_subset _ ?_
  rw [states]
  refine List.mem_cons_of_mem _ ?_
  rcases serve t query with ⟨answer | e, u⟩
  · simp
  · exact mem_states_self _ u

end Calls

end Evoting
