/-
Chains of hashes.

Each step writes the value it has as a text and hashes that.  Where the steps write
different values as different texts and no two of the texts that are hashed collide,
the last value determines the first (`run_eq_iff`).
-/
import Mathlib.Logic.Function.Basic

namespace Evoting.HashChain

variable {V T : Type} (hash : T → V)

/-- The last value of a chain. -/
def run : List (V → T) → V → V
  | [], v => v
  | text :: steps, v => run steps (hash (text v))

/-- The texts a chain hashes. -/
def texts : List (V → T) → V → List T
  | [], _ => []
  | text :: steps, v => text v :: texts steps (hash (text v))

/-- No two of these texts collide. -/
def NoCollision (hashed : List T) : Prop :=
  ∀ s ∈ hashed, ∀ t ∈ hashed, hash s = hash t → s = t

variable {hash}

theorem NoCollision.mono {hashed hashed' : List T} (h : NoCollision hash hashed)
    (hsub : hashed' ⊆ hashed) : NoCollision hash hashed' :=
  fun s hs t ht => h s (hsub hs) t (hsub ht)

/-- **The last value determines the first.** -/
theorem run_eq_iff {steps : List (V → T)} (hsteps : ∀ text ∈ steps, Function.Injective text)
    {v v' : V} (hfree : NoCollision hash (texts hash steps v ++ texts hash steps v')) :
    run hash steps v = run hash steps v' ↔ v = v' := by
  refine ⟨fun h => ?_, fun h => by rw [h]⟩
  induction steps generalizing v v' with
  | nil => exact h
  | cons text steps ih =>
      -- the hashes after this step are equal, so the texts are, and the values before it
      have hhash : hash (text v) = hash (text v') := by
        refine ih (fun t ht => hsteps t (by simp [ht])) (hfree.mono ?_) h
        intro s hs
        rcases List.mem_append.mp hs with hs | hs
        · exact List.mem_append_left _ (List.mem_cons_of_mem _ hs)
        · exact List.mem_append_right _ (List.mem_cons_of_mem _ hs)
      have htext : text v = text v' :=
        hfree _ (by simp [texts]) _ (by simp [texts]) hhash
      exact hsteps text (by simp) htext

end Evoting.HashChain
