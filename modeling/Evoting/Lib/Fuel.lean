/-
Functions that take fuel, and what they come to once there is enough.

A loop without a bound of its own is a function of a `Nat` that gives `none` when that
runs out.  `Ends` says that from some amount on it gives one result; the result is
unique, a pass that uses one of the fuel keeps it, and so does a function after it.
-/

namespace Evoting

variable {α β : Type}

/-- With enough fuel a function gives a result. -/
def Ends (f : Nat → Option α) (result : α) : Prop := ∃ n, ∀ fuel, n < fuel → f fuel = some result

namespace Ends

variable {f : Nat → Option α} {result : α}

theorem unique {result' : α} (h : Ends f result) (h' : Ends f result') : result = result' := by
  obtain ⟨n, hn⟩ := h
  obtain ⟨m, hm⟩ := h'
  have hsome := (hn (max n m + 1) (by omega)).symm.trans (hm (max n m + 1) (by omega))
  exact Option.some.inj hsome

/-- Any fuel is enough. -/
theorem of_pos (h : ∀ fuel, f (fuel + 1) = some result) : Ends f result := by
  refine ⟨0, fun fuel hfuel => ?_⟩
  obtain ⟨fuel, rfl⟩ := Nat.exists_eq_succ_of_ne_zero (Nat.ne_of_gt hfuel)
  exact h fuel

/-- **One pass** uses one of the fuel. -/
theorem succ {f' : Nat → Option β} {g : α → β} (hstep : ∀ fuel, f' (fuel + 1) = (f fuel).map g)
    (h : Ends f result) : Ends f' (g result) := by
  obtain ⟨n, hn⟩ := h
  refine ⟨n + 1, fun fuel hfuel => ?_⟩
  obtain ⟨fuel, rfl⟩ := Nat.exists_eq_succ_of_ne_zero (Nat.ne_of_gt (Nat.zero_lt_of_lt hfuel))
  rw [hstep, hn fuel (by omega)]
  rfl

theorem map (g : α → β) (h : Ends f result) : Ends (fun fuel => (f fuel).map g) (g result) := by
  obtain ⟨n, hn⟩ := h
  exact ⟨n, fun fuel hfuel => congrArg (Option.map g) (hn fuel hfuel)⟩

end Ends

end Evoting
