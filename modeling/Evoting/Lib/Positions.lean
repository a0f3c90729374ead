/-
Where in a list the elements that pass a test are.

`List.findIdxs` lists the indices of those elements, in increasing order.  They number
the elements of the filtered list (`getElem?_filter_eq`), the indices of the others are
what is missing from them (`range_without`), and the two numberings agree on what passes
exactly when it all comes first (`passing_first_iff`).
-/
import Mathlib.Data.List.Sort
import Mathlib.Data.List.Triplewise

namespace Evoting.Positions

variable {α : Type} {p : α → Bool} {l : List α}

/-- Increasing lists with the same members are the same. -/
theorem eq_of_increasing {xs ys : List Nat} (hxs : xs.Pairwise (· < ·)) (hys : ys.Pairwise (· < ·))
    (hmem : ∀ i, i ∈ xs ↔ i ∈ ys) : xs = ys := by
  have hperm := (List.perm_ext_iff_of_nodup (hxs.imp Nat.ne_of_lt) (hys.imp Nat.ne_of_lt)).mpr hmem
  exact hperm.eq_of_pairwise (fun a b _ _ hab hba => absurd hab (Nat.lt_asymm hba)) hxs hys

/-- What is left of the indices without those of the elements that fail. -/
theorem range_without : (List.range l.length).filter (fun i => i ∉ l.findIdxs fun a => !p a)
    = l.findIdxs p := by
  refine eq_of_increasing (List.pairwise_lt_range.filter _) List.pairwise_findIdxs fun i => ?_
  rw [List.mem_filter, List.mem_range, decide_eq_true_eq]
  constructor
  · rintro ⟨hi, hnot⟩
    rw [List.mem_findIdxs_iff_pos_getElem hi] at hnot ⊢
    simpa using hnot
  · intro hmem
    obtain ⟨hi, hpass⟩ := List.mem_findIdxs_iff_exists_getElem_pos.mp hmem
    refine ⟨hi, ?_⟩
    rw [List.mem_findIdxs_iff_pos_getElem hi]
    simp [hpass]

/-- The element that comes `j`-th in the filtered list, and where it is. -/
theorem getElem?_filter_eq {j : Nat} {a : α} (h : (l.filter p)[j]? = some a) :
    ∃ i, (l.findIdxs p)[j]? = some i ∧ l[i]? = some a := by
  obtain ⟨hj, rfl⟩ := List.getElem?_eq_some_iff.mp h
  have hlen : j < (l.findIdxs p).length := by
    rwa [List.length_findIdxs, List.countP_eq_length_filter]
  refine ⟨(l.findIdxs p)[j], List.getElem?_eq_getElem hlen, ?_⟩
  rw [List.getElem_filter_eq_getElem_getElem_findIdxs hj]
  exact List.getElem?_eq_getElem _

/-- An index of an element that passes is the index of one. -/
theorem exists_of_mem_findIdxs {i : Nat} (h : i ∈ l.findIdxs p) :
    ∃ a, l[i]? = some a ∧ p a = true := by
  obtain ⟨hi, hpass⟩ := List.mem_findIdxs_iff_exists_getElem_pos.mp h
  exact ⟨l[i], List.getElem?_eq_getElem hi, hpass⟩

theorem le_of_mem_findIdxs_iff (start : Nat) :
    (∀ i ∈ l.findIdxs (fun a => !p a) start, start + l.countP p ≤ i) ↔
      l.Pairwise fun a b => p b = true → p a = true := by
  induction l generalizing start with
  | nil => simp
  | cons a l ih =>
      rw [List.pairwise_cons, List.findIdxs_cons]
      by_cases ha : p a = true
      · have hshift : start + List.countP p (a :: l) = start + 1 + l.countP p := by
          rw [List.countP_cons_of_pos ha]
          omega
        simp only [ha, Bool.not_true, Bool.false_eq_true, if_false, hshift, ih, implies_true,
          true_and]
      · have hcount : List.countP p (a :: l) = l.countP p := List.countP_cons_of_neg ha
        simp only [ha, Bool.not_false, if_true, hcount, List.forall_mem_cons,
          Bool.false_eq_true, imp_false]
        -- the first element fails, so none may pass
        constructor
        · rintro ⟨hnone, -⟩
          have hfail := List.countP_eq_zero.mp (show l.countP p = 0 by omega)
          exact ⟨hfail, List.pairwise_of_forall_mem_list fun _ _ b hb hpass =>
            absurd hpass (hfail b hb)⟩
        · rintro ⟨hfail, -⟩
          rw [List.countP_eq_zero.mpr hfail]
          exact ⟨Nat.le_refl _, fun i hi => by
            have := List.ge_of_mem_findIdxs i hi
            omega⟩

/-- **All failing positions are past the number of elements that pass** if and only if
no element that passes comes after one that fails. -/
theorem passing_first_iff : (∀ i ∈ l.findIdxs fun a => !p a, l.countP p ≤ i) ↔
    l.Pairwise fun a b => p b = true → p a = true := by
  have h := le_of_mem_findIdxs_iff (l := l) (p := p) 0
  rwa [Nat.zero_add] at h

/-- Elements that pass and come first are at the first positions. -/
theorem findIdxs_eq_range (h : l.Pairwise fun a b => p b = true → p a = true) :
    l.findIdxs p = List.range (l.countP p) := by
  have hfail := passing_first_iff.mpr h
  have hsub : List.range (l.countP p) ⊆ l.findIdxs p := by
    intro i hi
    rw [List.mem_range] at hi
    rw [← range_without, List.mem_filter, List.mem_range, decide_eq_true_eq]
    exact ⟨Nat.lt_of_lt_of_le hi List.countP_le_length, fun hmem => by
      have hle := hfail i hmem
      omega⟩
  have hperm := (List.subperm_of_subset List.nodup_range hsub).perm_of_length_le (by simp)
  exact eq_of_increasing List.pairwise_findIdxs List.pairwise_lt_range fun i => hperm.mem_iff.symm

end Evoting.Positions
