/-
Texts made of separated fields.

A record is written by joining its fields with a separator and read back by
splitting at it.  The split modelled here is the common library one that forgets
the empty fields at the end, so splitting alone does not undo joining; filling
the result up with empty fields does, as long as the number of fields is known.
`pad_split_join` is that round trip, and `prefix_append_cons` is what a search
by prefix can see of a record's first field.

Nothing here is about a particular program: the separator and the symbols are
arbitrary.
-/
import Mathlib.Data.List.DropRight

namespace Evoting.Fields

variable {α : Type}

/-- The fields of a text: cut at every separator, with the empty fields at the
end forgotten.  A text without the separator is its own only field. -/
def split [DecidableEq α] (sep : α) (s : List α) : List (List α) :=
  if sep ∈ s then (s.splitOn sep).rdropWhile List.isEmpty else [s]

/-- The text whose fields these are. -/
def join (sep : α) (fs : List (List α)) : List α :=
  [sep].intercalate fs

/-- Fill up with empty fields until there are `n`. -/
def pad (n : Nat) (fs : List (List α)) : List (List α) :=
  fs ++ List.replicate (n - fs.length) []

@[simp] theorem join_singleton (sep : α) (f : List α) : join sep [f] = f := by
  simp [join]

@[simp] theorem join_cons_cons (sep : α) (f g : List α) (fs : List (List α)) :
    join sep (f :: g :: fs) = f ++ sep :: join sep (g :: fs) := by
  simp [join, List.intercalate]

/-- What is forgotten at the end is empty fields, and filling up puts them back. -/
theorem pad_rdropWhile {n : Nat} {fs : List (List α)} (hlen : fs.length ≤ n) :
    pad n (fs.rdropWhile List.isEmpty) = pad n fs := by
  induction fs using List.reverseRecOn with
  | nil => simp
  | append_singleton rest f ih =>
      rw [List.length_append, List.length_singleton] at hlen
      by_cases hf : f.isEmpty = true
      · rw [List.rdropWhile_concat_pos _ _ _ hf, ih (by omega), pad, pad,
          List.isEmpty_iff.mp hf, List.length_append, List.length_singleton,
          List.append_assoc, List.singleton_append, ← List.replicate_succ]
        congr 2
        omega
      · rw [List.rdropWhile_concat_neg _ _ _ hf]

/-- Joining two or more fields writes the separator. -/
theorem sep_mem_join (sep : α) (f g : List α) (fs : List (List α)) :
    sep ∈ join sep (f :: g :: fs) := by
  simp

theorem join_ne_nil {sep : α} {f : List α} (hf : f ≠ []) (fs : List (List α)) :
    join sep (f :: fs) ≠ [] := by
  cases fs with
  | nil => simpa using hf
  | cons g fs => simp

/-! ### Searching by prefix -/

/-- A text without the separator is a prefix of a record exactly when it is a
prefix of the record's first field. -/
theorem prefix_append_cons {sep : α} {name : List α} (h : sep ∉ name) :
    ∀ {first rest : List α}, name <+: first ++ sep :: rest ↔ name <+: first := by
  induction name with
  | nil => intro first rest; simp
  | cons c name ih =>
      intro first rest
      simp only [List.mem_cons, not_or] at h
      cases first with
      | nil =>
          rw [List.nil_append, List.cons_prefix_cons]
          exact ⟨fun hp => absurd hp.1.symm h.1, fun hp => by simp at hp⟩
      | cons d first =>
          rw [List.cons_append, List.cons_prefix_cons, List.cons_prefix_cons, ih h.2]

/-! ### Splitting -/

variable [DecidableEq α]

theorem split_of_not_mem {sep : α} {s : List α} (h : sep ∉ s) : split sep s = [s] := by
  simp [split, h]

theorem split_nil (sep : α) : split sep ([] : List α) = [[]] :=
  split_of_not_mem (by simp)

theorem splitOn_join {sep : α} {fs : List (List α)} (hfs : ∀ f ∈ fs, sep ∉ f)
    (hne : fs ≠ []) : (join sep fs).splitOn sep = fs :=
  List.splitOn_intercalate sep hfs hne

/-! ### Reading a joined text back -/

/-- **Joining, splitting and filling up returns the fields.** -/
theorem pad_split_join {sep : α} {n : Nat} {fs : List (List α)} (hfs : ∀ f ∈ fs, sep ∉ f)
    (hne : fs ≠ []) (hlen : fs.length ≤ n) : pad n (split sep (join sep fs)) = pad n fs := by
  match fs, hne with
  | [f], _ => rw [join_singleton, split_of_not_mem (hfs f (by simp))]
  | f :: g :: rest, hne =>
      rw [split, if_pos (sep_mem_join sep f g rest), splitOn_join hfs hne,
        pad_rdropWhile hlen]

/-- A text whose last field is not empty is split into exactly the joined fields. -/
theorem split_join {sep : α} {fs : List (List α)} (hfs : ∀ f ∈ fs, sep ∉ f)
    (hne : fs ≠ []) (hlast : fs.getLast hne ≠ []) : split sep (join sep fs) = fs := by
  match fs, hne with
  | [f], _ => rw [join_singleton, split_of_not_mem (hfs f (by simp))]
  | f :: g :: rest, hne =>
      rw [split, if_pos (sep_mem_join sep f g rest), splitOn_join hfs hne]
      exact List.rdropWhile_eq_self_iff.mpr fun _ => by simpa using hlast

/-- No field a text is cut into contains the separator. -/
theorem not_mem_of_mem_splitOn {sep : α} :
    ∀ {s f : List α}, f ∈ s.splitOn sep → sep ∉ f := by
  intro s
  induction s with
  | nil =>
      intro f hf
      simp only [List.splitOn_nil, List.mem_singleton] at hf
      simp [hf]
  | cons x rest ih =>
      intro f hf
      rw [List.splitOn_cons_eq_if_modifyHead] at hf
      split at hf
      · rcases List.mem_cons.mp hf with rfl | hf'
        · simp
        · exact ih hf'
      · rename_i hx
        rcases hcut : rest.splitOn sep with _ | ⟨g, gs⟩
        · exact absurd hcut (List.splitOn_ne_nil _ _)
        · rw [hcut, List.modifyHead_cons] at hf
          rcases List.mem_cons.mp hf with rfl | hf'
          · have hg : sep ∉ g := ih (by rw [hcut]; simp)
            simp only [List.mem_cons, not_or]
            exact ⟨fun h => hx (by simp [h]), hg⟩
          · exact ih (by rw [hcut]; simp [hf'])

theorem not_mem_of_mem_split {sep : α} {s f : List α} (hf : f ∈ split sep s) : sep ∉ f := by
  by_cases hmem : sep ∈ s
  · rw [split, if_pos hmem] at hf
    exact not_mem_of_mem_splitOn ((List.rdropWhile_prefix _ _).subset hf)
  · rw [split_of_not_mem hmem, List.mem_singleton] at hf
    exact hf ▸ hmem

/-! ### How many fields there are -/

theorem length_splitOn (sep : α) (s : List α) : (s.splitOn sep).length = s.count sep + 1 := by
  induction s with
  | nil => rfl
  | cons x s ih =>
      rw [List.splitOn_cons_eq_if_modifyHead]
      by_cases hx : x = sep
      · subst hx
        simp [ih]
      · have hne : sep ≠ x := fun h => hx h.symm
        simp [hx, ih]

/-- A text without the separators at its end. -/
def strip (sep : α) (s : List α) : List α := s.rdropWhile (· = sep)

theorem count_strip_le (sep : α) (s : List α) : (strip sep s).count sep ≤ s.count sep :=
  (List.rdropWhile_prefix _ _).sublist.count_le _

/-- A symbol at the end of a text is in its last field. -/
theorem splitOn_concat {sep x : α} (hx : x ≠ sep) (s : List α) :
    ∃ fs f, (s ++ [x]).splitOn sep = fs ++ [f ++ [x]] := by
  induction s with
  | nil =>
      refine ⟨[], [], ?_⟩
      rw [List.nil_append, List.splitOn_eq_singleton (by simpa using hx.symm)]
      rfl
  | cons y s ih =>
      obtain ⟨fs, f, h⟩ := ih
      rw [List.cons_append, List.splitOn_cons_eq_if_modifyHead, h]
      by_cases hy : y = sep
      · exact ⟨[] :: fs, f, by simp [hy]⟩
      · cases fs with
        | nil => exact ⟨[], y :: f, by simp [hy]⟩
        | cons g gs => exact ⟨(y :: g) :: gs, f, by simp [hy]⟩

/-- Forgetting the empty fields at the end is forgetting the separators at the end. -/
theorem rdropWhile_splitOn (sep : α) (s : List α) :
    (s.splitOn sep).rdropWhile List.isEmpty
      = if strip sep s = [] then [] else (strip sep s).splitOn sep := by
  unfold strip
  induction s using List.reverseRecOn with
  | nil => simp [List.rdropWhile_singleton]
  | append_singleton s x ih =>
      by_cases hx : x = sep
      · subst hx
        rw [List.rdropWhile_concat_pos _ _ _ (by simp), List.splitOn_append_cons_self,
          List.splitOn_nil, List.rdropWhile_concat_pos _ _ _ (by simp), ih]
      · rw [List.rdropWhile_concat_neg _ _ _ (by simpa using hx), if_neg (by simp)]
        obtain ⟨fs, f, h⟩ := splitOn_concat hx s
        rw [h, List.rdropWhile_concat_neg _ _ _ (by simp)]

/-- **The number of fields** is that of the separators before the ones at the end. -/
theorem length_split_le_iff {sep : α} {s : List α} {n : Nat} (hn : 0 < n) :
    (split sep s).length ≤ n ↔ (strip sep s).count sep < n := by
  by_cases hmem : sep ∈ s
  · rw [split, if_pos hmem, rdropWhile_splitOn]
    by_cases hstrip : strip sep s = []
    · simp [hstrip, hn]
    · rw [if_neg hstrip, length_splitOn, Nat.succ_le_iff]
  · have hcount : (strip sep s).count sep = 0 := by
      have hle := count_strip_le sep s
      rw [List.count_eq_zero_of_not_mem hmem] at hle
      omega
    rw [split_of_not_mem hmem, hcount, List.length_singleton]
    omega

/-- Filling up does not see whether the empty fields at the end were forgotten. -/
theorem pad_split {sep : α} {s : List α} {n : Nat} (hn : s.count sep < n) :
    pad n (split sep s) = pad n (s.splitOn sep) := by
  by_cases hmem : sep ∈ s
  · rw [split, if_pos hmem, pad_rdropWhile (by rw [length_splitOn]; omega)]
  · rw [split_of_not_mem hmem, List.splitOn_eq_singleton hmem]

end Evoting.Fields
