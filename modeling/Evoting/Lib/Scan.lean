/-
Lists in which an element needs others before it.

An element has a key and needs keys, and a list is `Supported` when every key an
element needs is that of an element strictly before it.  A scan with the set of the
keys so far goes to the end of a supported list (`scan_of_supported`), and stops in any
other at the first element that needs more, with what that one lacks
(`scan_of_not_supported`).  In a list of lists, what is before an element is in an earlier
list or earlier in its own (`supported_flatten_iff`).
-/
import Mathlib.Data.Finset.Dedup
import Mathlib.Data.Finset.Insert
import Mathlib.Data.Finset.Lattice.Basic

namespace Evoting.Scan

variable {α κ : Type} [DecidableEq κ] (key : α → κ) (needs : α → List κ)

/-- Each element needs only keys that are given, or of elements before it. -/
def Supported (given : Finset κ) (l : List α) : Prop :=
  ∀ before x after, l = before ++ x :: after → ∀ k ∈ needs x, k ∈ given ∨ k ∈ before.map key

/-- What an element needs and is not there, in its order. -/
def lacking (seen : Finset κ) (x : α) : List κ := (needs x).filter (· ∉ seen)

/-- One element: its key is there from now on, unless it lacks something. -/
def see (seen : Finset κ) (x : α) : Except (List κ) (Finset κ) :=
  if lacking needs seen x = [] then .ok (insert (key x) seen) else .error (lacking needs seen x)

/-- All elements, one after the other. -/
def scan (seen : Finset κ) (l : List α) : Except (List κ) (Finset κ) :=
  l.foldlM (see key needs) seen

/-- The keys that are there after a list. -/
def seenAfter (seen : Finset κ) (l : List α) : Finset κ :=
  l.foldl (fun seen x => insert (key x) seen) seen

variable {key needs} {seen : Finset κ} {x : α} {l : List α}

theorem lacking_eq_nil_iff : lacking needs seen x = [] ↔ ∀ k ∈ needs x, k ∈ seen := by
  simp [lacking, List.filter_eq_nil_iff]

theorem mem_seenAfter_iff {k : κ} : k ∈ seenAfter key seen l ↔ k ∈ seen ∨ k ∈ l.map key := by
  induction l generalizing seen with
  | nil => simp [seenAfter]
  | cons x l ih =>
      rw [seenAfter, List.foldl_cons, ← seenAfter, ih, Finset.mem_insert, List.map_cons,
        List.mem_cons]
      tauto

/-! ### The scan -/

omit [DecidableEq κ] in
theorem supported_nil : Supported key needs seen [] := by
  intro before x after h
  simp at h

/-- The first element has only what is given. -/
theorem supported_cons_iff : Supported key needs seen (x :: l) ↔
    (∀ k ∈ needs x, k ∈ seen) ∧ Supported key needs (insert (key x) seen) l := by
  constructor
  · intro h
    constructor
    · intro k hk
      simpa using h [] x l rfl k hk
    · intro before y after hl k hk
      have hbefore := h (x :: before) y after (by rw [hl, List.cons_append]) k hk
      rw [Finset.mem_insert]
      rw [List.map_cons, List.mem_cons] at hbefore
      tauto
  · rintro ⟨hx, hl⟩ before y after hsplit k hk
    cases before with
    | nil =>
        obtain ⟨rfl, rfl⟩ := List.cons.inj hsplit
        exact Or.inl (hx k hk)
    | cons z before =>
        obtain ⟨rfl, rfl⟩ := List.cons.inj hsplit
        have hbefore := hl before y after rfl k hk
        rw [Finset.mem_insert] at hbefore
        rw [List.map_cons, List.mem_cons]
        tauto

theorem scan_cons : scan key needs seen (x :: l) =
    (see key needs seen x).bind fun seen => scan key needs seen l := by
  rw [scan, List.foldlM_cons]
  rfl

theorem see_eq_ok (h : ∀ k ∈ needs x, k ∈ seen) :
    see key needs seen x = .ok (insert (key x) seen) :=
  if_pos (lacking_eq_nil_iff.mpr h)

theorem see_eq_error (h : ¬∀ k ∈ needs x, k ∈ seen) :
    see key needs seen x = .error (lacking needs seen x) :=
  if_neg fun hnil => h (lacking_eq_nil_iff.mp hnil)

/-- **A supported list is scanned to its end.** -/
theorem scan_of_supported (h : Supported key needs seen l) :
    scan key needs seen l = .ok (seenAfter key seen l) := by
  induction l generalizing seen with
  | nil => rfl
  | cons x l ih =>
      obtain ⟨hx, hl⟩ := supported_cons_iff.mp h
      rw [scan_cons, see_eq_ok hx]
      exact ih hl

/-- **Another is left** at the first element that lacks something. -/
theorem scan_of_not_supported (h : ¬Supported key needs seen l) :
    ∃ before x after, l = before ++ x :: after ∧ Supported key needs seen before ∧
      lacking needs (seenAfter key seen before) x ≠ [] ∧
      scan key needs seen l = .error (lacking needs (seenAfter key seen before) x) := by
  induction l generalizing seen with
  | nil => exact absurd supported_nil h
  | cons x l ih =>
      rw [scan_cons]
      by_cases hx : ∀ k ∈ needs x, k ∈ seen
      · have hl : ¬Supported key needs (insert (key x) seen) l := fun hl =>
          h (supported_cons_iff.mpr ⟨hx, hl⟩)
        obtain ⟨before, y, after, rfl, hbefore, hlacks, hscan⟩ := ih hl
        refine ⟨x :: before, y, after, rfl, supported_cons_iff.mpr ⟨hx, hbefore⟩, hlacks, ?_⟩
        rw [see_eq_ok hx]
        exact hscan
      · refine ⟨[], x, l, rfl, supported_nil, fun hnil => hx (lacking_eq_nil_iff.mp hnil), ?_⟩
        rw [see_eq_error hx]
        rfl

/-! ### Lists of lists -/

/-- The element at a position: the `t`-th of the `b`-th list. -/
def At (ll : List (List α)) (b t : Nat) (x : α) : Prop :=
  ∃ l, ll[b]? = some l ∧ l[t]? = some x

section Positions

variable {ll : List (List α)} {b t : Nat} {y : α}

theorem at_iff_split : At ll b t x ↔ ∃ lists before after rest,
    ll = lists ++ (before ++ x :: after) :: rest ∧ lists.length = b ∧ before.length = t := by
  constructor
  · rintro ⟨l, hl, hx⟩
    obtain ⟨hb, rfl⟩ := List.getElem?_eq_some_iff.mp hl
    obtain ⟨ht, rfl⟩ := List.getElem?_eq_some_iff.mp hx
    refine ⟨ll.take b, ll[b].take t, ll[b].drop (t + 1), ll.drop (b + 1), ?_, ?_, ?_⟩
    · rw [List.getElem_cons_drop, List.take_append_drop, List.getElem_cons_drop,
        List.take_append_drop]
    · rw [List.length_take, Nat.min_eq_left (Nat.le_of_lt hb)]
    · rw [List.length_take, Nat.min_eq_left (Nat.le_of_lt ht)]
  · rintro ⟨lists, before, after, rest, rfl, rfl, rfl⟩
    exact ⟨before ++ x :: after, by simp, by simp⟩

/-- An element of the lists in one list is at a position. -/
theorem exists_split_of_flatten {before after : List α} (h : ll.flatten = before ++ x :: after) :
    ∃ lists before' after' rest, ll = lists ++ (before' ++ x :: after') :: rest ∧
      before = lists.flatten ++ before' := by
  rcases List.flatten_eq_append_iff.mp h with
    ⟨lists, others, rfl, rfl, hothers⟩ | ⟨lists, before', c, after', rest, rfl, rfl, hcons⟩
  · obtain ⟨empty, after', rest, rfl, hempty, -⟩ := List.flatten_eq_cons_iff.mp hothers.symm
    refine ⟨lists ++ empty, [], after', rest, by simp, ?_⟩
    rw [List.flatten_append, List.flatten_eq_nil_iff.mpr hempty, List.append_nil, List.append_nil]
  · obtain ⟨rfl, -⟩ := List.cons.inj hcons
    exact ⟨lists, before', after', rest, rfl, rfl⟩

/-- **What is before an element**: what is in an earlier list, or earlier in its own. -/
theorem mem_before_iff {lists rest : List (List α)} {before after : List α} :
    y ∈ lists.flatten ++ before ↔ ∃ b t, At (lists ++ (before ++ x :: after) :: rest) b t y ∧
      (b < lists.length ∨ b = lists.length ∧ t < before.length) := by
  rw [List.mem_append, List.mem_flatten]
  constructor
  · rintro (⟨l, hl, hy⟩ | hy)
    · obtain ⟨b, hb⟩ := List.mem_iff_getElem?.mp hl
      obtain ⟨t, ht⟩ := List.mem_iff_getElem?.mp hy
      have hlt : b < lists.length := (List.getElem?_eq_some_iff.mp hb).1
      exact ⟨b, t, ⟨l, by rw [List.getElem?_append_left hlt, hb], ht⟩, Or.inl hlt⟩
    · obtain ⟨t, ht⟩ := List.mem_iff_getElem?.mp hy
      have hlt : t < before.length := (List.getElem?_eq_some_iff.mp ht).1
      refine ⟨lists.length, t, ⟨before ++ x :: after, by simp, ?_⟩, Or.inr ⟨rfl, hlt⟩⟩
      rw [List.getElem?_append_left hlt, ht]
  · rintro ⟨b, t, ⟨l, hl, ht⟩, hlt | ⟨rfl, hlt⟩⟩
    · rw [List.getElem?_append_left hlt] at hl
      exact Or.inl ⟨l, List.mem_of_getElem? hl, List.mem_of_getElem? ht⟩
    · obtain rfl : before ++ x :: after = l := by simpa using hl
      rw [List.getElem?_append_left hlt] at ht
      exact Or.inr (List.mem_of_getElem? ht)

omit [DecidableEq κ] in
/-- **When lists in one list are supported.** -/
theorem supported_flatten_iff : Supported key needs ∅ ll.flatten ↔
    ∀ b t x, At ll b t x → ∀ k ∈ needs x,
      ∃ b' t' y, At ll b' t' y ∧ (b' < b ∨ b' = b ∧ t' < t) ∧ key y = k := by
  constructor
  · intro h b t x hx k hk
    obtain ⟨lists, before, after, rest, rfl, rfl, rfl⟩ := at_iff_split.mp hx
    have hflatten : (lists ++ (before ++ x :: after) :: rest).flatten
        = (lists.flatten ++ before) ++ x :: (after ++ rest.flatten) := by simp
    have hmem := (h _ x _ hflatten k hk).resolve_left (Finset.notMem_empty k)
    obtain ⟨y, hy, rfl⟩ := List.mem_map.mp hmem
    obtain ⟨b', t', hat, hearlier⟩ := mem_before_iff.mp hy
    exact ⟨b', t', y, hat, hearlier, rfl⟩
  · intro h before x after hflatten k hk
    obtain ⟨lists, before', after', rest, rfl, rfl⟩ := exists_split_of_flatten hflatten
    obtain ⟨b, t, y, hat, hearlier, rfl⟩ :=
      h _ _ x (at_iff_split.mpr ⟨lists, before', after', rest, rfl, rfl, rfl⟩) k hk
    exact Or.inr (List.mem_map.mpr ⟨y, mem_before_iff.mpr ⟨b, t, hat, hearlier⟩, rfl⟩)

end Positions

end Evoting.Scan
