/-
Maps that keep their entries in the order in which the keys came.

A `Dict` is a list of entries without two of one key.  Setting a key that is there
changes its value in place, setting a new one adds it at the end, so iterating sees
the keys in the order of their first setting.  `get?_set`, `get?_erase` and
`get?_mapValues` are the laws of a map; `get?_eq_some_iff` ties them to the list, and
`flatMap_set_perm` says what setting a value adds to a sum over the entries.
-/
import Mathlib.Data.List.Nodup
import Mathlib.Logic.Function.Basic

namespace Evoting

/-- A map with its entries in insertion order. -/
structure Dict (κ α : Type) where
  entries : List (κ × α)
  /-- No key has two entries. -/
  nodup : (entries.map Prod.fst).Nodup
  deriving DecidableEq

namespace Dict

variable {κ α β : Type}

@[ext] theorem ext {d d' : Dict κ α} (h : d.entries = d'.entries) : d = d' := by
  cases d
  cases d'
  congr

/-- The map without entries. -/
def empty : Dict κ α := ⟨[], List.nodup_nil⟩

def keys (d : Dict κ α) : List κ := d.entries.map Prod.fst

def values (d : Dict κ α) : List α := d.entries.map Prod.snd

/-- Another value under every key. -/
def mapValues (f : α → β) (d : Dict κ α) : Dict κ β where
  entries := d.entries.map fun e => (e.1, f e.2)
  nodup := by simpa [Function.comp_def] using d.nodup

theorem keys_filterMap_sublist (f : α → Option β) (entries : List (κ × α)) :
    ((entries.filterMap fun e => (f e.2).map fun v => (e.1, v)).map Prod.fst).Sublist
      (entries.map Prod.fst) := by
  induction entries with
  | nil => exact List.Sublist.refl _
  | cons e entries ih =>
      cases hv : f e.2 with
      | none =>
          rw [List.filterMap_cons, hv, List.map_cons]
          exact ih.cons e.1
      | some v =>
          rw [List.filterMap_cons, hv]
          exact ih.cons_cons e.1

/-- Another value under every key for which there is one. -/
def filterMapValues (f : α → Option β) (d : Dict κ α) : Dict κ β where
  entries := d.entries.filterMap fun e => (f e.2).map fun v => (e.1, v)
  nodup := d.nodup.sublist (keys_filterMap_sublist f d.entries)

variable [DecidableEq κ]

def get? (d : Dict κ α) (k : κ) : Option α :=
  (d.entries.find? fun e => e.1 = k).map Prod.snd

/-- The entries with the value under a key replaced. -/
def replaced (entries : List (κ × α)) (k : κ) (v : α) : List (κ × α) :=
  entries.map fun e => if e.1 = k then (k, v) else e

theorem keys_replaced (entries : List (κ × α)) (k : κ) (v : α) :
    (replaced entries k v).map Prod.fst = entries.map Prod.fst := by
  rw [replaced, List.map_map]
  refine List.map_congr_left fun e _ => ?_
  by_cases h : e.1 = k <;> simp [h]

def set (d : Dict κ α) (k : κ) (v : α) : Dict κ α where
  entries := if k ∈ d.keys then replaced d.entries k v else d.entries ++ [(k, v)]
  nodup := by
    split
    · rw [keys_replaced]
      exact d.nodup
    · rename_i h
      rw [List.map_append]
      exact List.Nodup.append d.nodup (List.nodup_singleton k) (by simpa [keys] using h)

/-- The entries whose keys pass a test. -/
def filterKeys (d : Dict κ α) (p : κ → Bool) : Dict κ α where
  entries := d.entries.filter fun e => p e.1
  nodup := d.nodup.sublist (List.filter_sublist.map _)

def erase (d : Dict κ α) (k : κ) : Dict κ α := d.filterKeys fun k' => k' ≠ k

/-! ### Entries and lookups -/

/-- **An entry is what a lookup finds.** -/
theorem get?_eq_some_iff {d : Dict κ α} {k : κ} {v : α} :
    d.get? k = some v ↔ (k, v) ∈ d.entries := by
  rw [get?, Option.map_eq_some_iff]
  constructor
  · rintro ⟨e, he, rfl⟩
    obtain rfl : e.1 = k := by simpa using List.find?_some he
    exact List.mem_of_find?_eq_some he
  · intro hmem
    cases hfind : d.entries.find? fun e => e.1 = k with
    | none =>
        have hne := List.find?_eq_none.mp hfind _ hmem
        simp at hne
    | some e =>
        have hkey : e.1 = k := by simpa using List.find?_some hfind
        have heq := List.inj_on_of_nodup_map d.nodup (List.mem_of_find?_eq_some hfind) hmem hkey
        exact ⟨e, rfl, by rw [heq]⟩

theorem get?_eq_none_iff {d : Dict κ α} {k : κ} : d.get? k = none ↔ k ∉ d.keys := by
  simp only [get?, Option.map_eq_none_iff, List.find?_eq_none, keys, List.mem_map, not_exists,
    not_and, decide_eq_true_eq]

theorem mem_keys_iff {d : Dict κ α} {k : κ} : k ∈ d.keys ↔ ∃ v, d.get? k = some v := by
  rw [← not_iff_not, ← get?_eq_none_iff, ← Option.isSome_iff_exists, Option.not_isSome_iff_eq_none]

@[simp] theorem get?_empty (k : κ) : (empty : Dict κ α).get? k = none := rfl

theorem eq_empty {d : Dict κ α} (h : ∀ k, d.get? k = none) : d = empty := by
  refine Dict.ext (List.eq_nil_iff_forall_not_mem.mpr fun e he => ?_)
  have hget := get?_eq_some_iff.mpr (show (e.1, e.2) ∈ d.entries from he)
  rw [h] at hget
  simp at hget

@[simp] theorem get?_set (d : Dict κ α) (k k' : κ) (v : α) :
    (d.set k v).get? k' = if k = k' then some v else d.get? k' := by
  by_cases hmem : k ∈ d.keys
  · have hentries : (d.set k v).entries = replaced d.entries k v := if_pos hmem
    by_cases h : k = k'
    · obtain ⟨w, hw⟩ := mem_keys_iff.mp hmem
      rw [if_pos h, ← h, get?_eq_some_iff, hentries]
      exact List.mem_map.mpr ⟨_, get?_eq_some_iff.mp hw, if_pos rfl⟩
    · rw [if_neg h]
      ext w
      rw [get?_eq_some_iff, get?_eq_some_iff, hentries, replaced,
        List.mem_map]
      constructor
      · rintro ⟨e, he, heq⟩
        by_cases hk : e.1 = k
        · rw [if_pos hk] at heq
          exact absurd (congrArg Prod.fst heq) h
        · rw [if_neg hk] at heq
          exact heq ▸ he
      · intro he
        exact ⟨_, he, if_neg (Ne.symm h)⟩
  · have hentries : (d.set k v).entries = d.entries ++ [(k, v)] := if_neg hmem
    rw [get?, hentries, List.find?_append]
    by_cases h : k = k'
    · have hnone := get?_eq_none_iff.mpr hmem
      rw [get?, Option.map_eq_none_iff] at hnone
      rw [← h, hnone]
      simp
    · rw [if_neg h]
      simp [get?, h]

/-- A new key is added at the end. -/
theorem entries_set_of_fresh {d : Dict κ α} {k : κ} (h : d.get? k = none) (v : α) :
    (d.set k v).entries = d.entries ++ [(k, v)] := if_neg (get?_eq_none_iff.mp h)

theorem length_le_length_set (d : Dict κ α) (k : κ) (v : α) :
    d.entries.length ≤ (d.set k v).entries.length := by
  rw [set]
  split <;> simp [replaced]

@[simp] theorem get?_filterKeys (d : Dict κ α) (p : κ → Bool) (k : κ) :
    (d.filterKeys p).get? k = if p k then d.get? k else none := by
  by_cases h : p k = true
  · rw [if_pos h]
    ext v
    rw [get?_eq_some_iff, get?_eq_some_iff, filterKeys, List.mem_filter]
    simp [h]
  · rw [if_neg h, get?_eq_none_iff]
    simp [keys, filterKeys, h]

@[simp] theorem get?_erase (d : Dict κ α) (k k' : κ) :
    (d.erase k).get? k' = if k = k' then none else d.get? k' := by
  by_cases h : k = k' <;> simp [erase, h, eq_comm]

/-! Which keys are there, after a change. -/

theorem isSome_get?_set (d : Dict κ α) (k : κ) (v : α) :
    (fun k' => ((d.set k v).get? k').isSome)
      = Function.update (fun k' => (d.get? k').isSome) k true := by
  funext k'
  rw [get?_set, Function.update_apply]
  by_cases h : k = k'
  · simp [h]
  · rw [if_neg h, if_neg (Ne.symm h)]

theorem isSome_get?_erase (d : Dict κ α) (k : κ) :
    (fun k' => ((d.erase k).get? k').isSome)
      = Function.update (fun k' => (d.get? k').isSome) k false := by
  funext k'
  rw [get?_erase, Function.update_apply]
  by_cases h : k = k'
  · simp [h]
  · rw [if_neg h, if_neg (Ne.symm h)]

@[simp] theorem get?_mapValues (f : α → β) (d : Dict κ α) (k : κ) :
    (d.mapValues f).get? k = (d.get? k).map f := by
  rw [get?, get?, mapValues, List.find?_map]
  simp [Function.comp_def]

@[simp] theorem get?_filterMapValues (f : α → Option β) (d : Dict κ α) (k : κ) :
    (d.filterMapValues f).get? k = (d.get? k).bind f := by
  ext v
  rw [get?_eq_some_iff, Option.bind_eq_some_iff, filterMapValues, List.mem_filterMap]
  constructor
  · rintro ⟨e, he, heq⟩
    obtain ⟨w, hw, hpair⟩ := Option.map_eq_some_iff.mp heq
    obtain ⟨rfl, rfl⟩ := Prod.mk.inj hpair
    exact ⟨e.2, get?_eq_some_iff.mpr he, hw⟩
  · rintro ⟨u, hu, hv⟩
    exact ⟨(k, u), get?_eq_some_iff.mp hu, by rw [hv, Option.map_some]⟩

/-! Which keys have an entry that passes a test. -/

theorem mem_keys_filter {d : Dict κ α} {p : κ × α → Bool} {k : κ} :
    k ∈ (d.entries.filter p).map Prod.fst ↔ ∃ v, d.get? k = some v ∧ p (k, v) = true := by
  simp only [List.mem_map, List.mem_filter, get?_eq_some_iff]
  constructor
  · rintro ⟨e, ⟨he, hp⟩, rfl⟩
    exact ⟨e.2, he, hp⟩
  · rintro ⟨v, hv, hp⟩
    exact ⟨(k, v), ⟨hv, hp⟩, rfl⟩

omit [DecidableEq κ] in
theorem nodup_keys_filter (d : Dict κ α) (p : κ × α → Bool) :
    ((d.entries.filter p).map Prod.fst).Nodup :=
  d.nodup.sublist (List.filter_sublist.map _)

/-- An entry stands alone: no other before or after it has its key. -/
theorem exists_split {d : Dict κ α} {k : κ} {v : α} (h : d.get? k = some v) :
    ∃ before after, d.entries = before ++ (k, v) :: after ∧ (∀ e ∈ before, e.1 ≠ k) ∧
      ∀ e ∈ after, e.1 ≠ k := by
  obtain ⟨before, after, hsplit⟩ := List.append_of_mem (get?_eq_some_iff.mp h)
  have hnodup := d.nodup
  rw [hsplit, List.map_append, List.map_cons, List.nodup_append, List.nodup_cons] at hnodup
  obtain ⟨-, ⟨hafter, -⟩, hbefore⟩ := hnodup
  exact ⟨before, after, hsplit,
    fun e he heq => hbefore e.1 (List.mem_map.mpr ⟨e, he, rfl⟩) k (by simp) heq,
    fun e he heq => hafter (List.mem_map.mpr ⟨e, he, heq⟩)⟩

/-- What a function gives for one key only. -/
theorem flatMap_of_key {γ : Type} {f : κ × α → List γ} {d : Dict κ α} {k : κ} {v : α}
    (h : d.get? k = some v) (hothers : ∀ e, e.1 ≠ k → f e = []) :
    d.entries.flatMap f = f (k, v) := by
  obtain ⟨before, after, hsplit, hbefore, hafter⟩ := exists_split h
  have hnil : ∀ l : List (κ × α), (∀ e ∈ l, e.1 ≠ k) → l.flatMap f = [] := by
    intro l hl
    rw [List.flatMap_eq_nil_iff]
    exact fun e he => hothers e (hl e he)
  rw [hsplit, List.flatMap_append, List.flatMap_cons, hnil before hbefore, hnil after hafter,
    List.nil_append, List.append_nil]

/-- **What is counted** under one key only. -/
theorem count_flatMap {γ : Type} [BEq γ] [LawfulBEq γ] {f : κ × α → List γ} {x : γ} {k : κ}
    (hothers : ∀ e, e.1 ≠ k → x ∉ f e) (d : Dict κ α) :
    (d.entries.flatMap f).count x = (d.get? k).elim 0 fun v => (f (k, v)).count x := by
  have hzero : ∀ l : List (κ × α), (∀ e ∈ l, e.1 ≠ k) → (l.flatMap f).count x = 0 := by
    intro l hl
    rw [List.count_eq_zero, List.mem_flatMap]
    rintro ⟨e, he, hx⟩
    exact hothers e (hl e he) hx
  cases hget : d.get? k with
  | none =>
      refine hzero d.entries fun e he heq => ?_
      exact get?_eq_none_iff.mp hget (List.mem_map.mpr ⟨e, he, heq⟩)
  | some v =>
      obtain ⟨before, after, hsplit, hbefore, hafter⟩ := exists_split hget
      rw [hsplit, List.flatMap_append, List.flatMap_cons, List.count_append, List.count_append,
        hzero before hbefore, hzero after hafter, Option.elim_some]
      omega

/-! ### Maps with the same entries -/

/-- Maps that look the same have the same entries, in some order. -/
theorem perm_of_get? {d d' : Dict κ α} (h : ∀ k, d.get? k = d'.get? k) :
    d.entries.Perm d'.entries := by
  rw [List.perm_ext_iff_of_nodup d.nodup.of_map d'.nodup.of_map]
  intro e
  rw [← get?_eq_some_iff (d := d), ← get?_eq_some_iff (d := d'), h]

/-- Setting the value that is there. -/
theorem set_get? {d : Dict κ α} {k : κ} {v : α} (h : d.get? k = some v) : d.set k v = d := by
  refine Dict.ext ((if_pos (mem_keys_iff.mpr ⟨v, h⟩)).trans ?_)
  rw [replaced]
  refine (List.map_congr_left fun e he => ?_).trans (List.map_id' d.entries)
  by_cases hk : e.1 = k
  · have hget : d.get? e.1 = some e.2 := get?_eq_some_iff.mpr he
    rw [hk, h, Option.some.injEq] at hget
    rw [if_pos hk, ← hk, hget]
  · exact if_neg hk

/-- Setting values that a function does not tell apart. -/
theorem map_entries_set_congr {γ : Type} {f : κ × α → γ} {k : κ} {v w : α} (d : Dict κ α)
    (h : f (k, v) = f (k, w)) : (d.set k v).entries.map f = (d.set k w).entries.map f := by
  unfold set
  by_cases hmem : k ∈ d.keys
  · simp only [if_pos hmem, replaced, List.map_map]
    refine List.map_congr_left fun e _ => ?_
    by_cases hk : e.1 = k <;> simp [hk, h]
  · simp [if_neg hmem, h]

/-- **What setting a value adds** to what the entries amount to. -/
theorem flatMap_set_perm {γ : Type} (f : κ × α → List γ) {extra : List γ} {k : κ} {v : α}
    (d : Dict κ α)
    (h : (f (k, v)).Perm (extra ++ ((d.get? k).elim [] fun w => f (k, w)))) :
    ((d.set k v).entries.flatMap f).Perm (extra ++ d.entries.flatMap f) := by
  by_cases hmem : k ∈ d.keys
  · have hentries : (d.set k v).entries = replaced d.entries k v := if_pos hmem
    obtain ⟨w, hw⟩ := mem_keys_iff.mp hmem
    obtain ⟨before, after, hsplit, hbefore, hafter⟩ := exists_split hw
    have hkeep : ∀ l : List (κ × α), (∀ e ∈ l, e.1 ≠ k) →
        (l.map fun e => if e.1 = k then (k, v) else e) = l := by
      intro l hl
      exact (List.map_congr_left fun e he => if_neg (hl e he)).trans (List.map_id' l)
    have hreplaced : replaced d.entries k v = before ++ (k, v) :: after := by
      rw [hsplit, replaced, List.map_append, List.map_cons, if_pos rfl, hkeep before hbefore,
        hkeep after hafter]
    rw [hw] at h
    rw [hentries, hreplaced, hsplit, List.flatMap_append, List.flatMap_cons, List.flatMap_append,
      List.flatMap_cons]
    have hmid : (before.flatMap f ++ (f (k, v) ++ after.flatMap f)).Perm
        (before.flatMap f ++ (extra ++ f (k, w) ++ after.flatMap f)) :=
      (h.append_right _).append_left _
    rw [List.append_assoc] at hmid
    refine hmid.trans ?_
    rw [← List.append_assoc, ← List.append_assoc extra]
    exact List.perm_append_comm.append_right _
  · have hentries : (d.set k v).entries = d.entries ++ [(k, v)] := if_neg hmem
    rw [get?_eq_none_iff.mpr hmem, Option.elim_none, List.append_nil] at h
    rw [hentries, List.flatMap_append, List.flatMap_singleton]
    exact List.perm_append_comm.trans (h.append_right _)

/-- Setting entries one after the other, with distinct keys. -/
theorem get?_foldl_set {entries : List (κ × α)} (hnodup : (entries.map Prod.fst).Nodup) :
    ∀ (d : Dict κ α) (k : κ) (v : α),
      (entries.foldl (fun d e => d.set e.1 e.2) d).get? k = some v ↔
        (k, v) ∈ entries ∨ k ∉ entries.map Prod.fst ∧ d.get? k = some v := by
  induction entries with
  | nil => intro d k v; simp
  | cons e entries ih =>
      intro d k v
      rw [List.map_cons, List.nodup_cons] at hnodup
      rw [List.foldl_cons, ih hnodup.2, get?_set, List.mem_cons, List.map_cons, List.mem_cons]
      by_cases h : e.1 = k
      · have hnone : (k, v) ∉ entries := fun hmem =>
          hnodup.1 (List.mem_map.mpr ⟨(k, v), hmem, h.symm⟩)
        have hkeys : k ∉ entries.map Prod.fst := h ▸ hnodup.1
        rw [if_pos h]
        simp only [hnone, hkeys, not_false_eq_true, true_and, false_or, or_false, h,
          Option.some.injEq, not_true_eq_false, false_and]
        constructor
        · rintro rfl
          exact Prod.ext h.symm rfl
        · rintro rfl
          rfl
      · have hne : (k, v) ≠ e := fun heq => h (congrArg Prod.fst heq.symm)
        simp only [if_neg h, hne, false_or, Ne.symm h]

/-! ### Lists as maps -/

/-- A list as a map from its indices. -/
def enumerate (l : List α) : Dict Nat α where
  entries := l.zipIdx.map fun e => (e.2, e.1)
  nodup := by
    rw [List.map_map]
    exact (List.zipIdx_map_snd 0 l).symm ▸ List.nodup_range'

theorem keys_enumerate (l : List α) : (enumerate l).keys = List.range l.length := by
  rw [keys, enumerate, List.map_map, List.range_eq_range']
  exact List.zipIdx_map_snd 0 l

@[simp] theorem get?_enumerate (l : List α) (j : Nat) : (enumerate l).get? j = l[j]? := by
  ext v
  rw [get?_eq_some_iff, enumerate, List.mem_map]
  constructor
  · rintro ⟨e, he, heq⟩
    rw [← (Prod.mk.inj heq).1, ← (Prod.mk.inj heq).2]
    exact List.mem_zipIdx_iff_getElem?.mp he
  · exact fun h => ⟨(v, j), List.mem_zipIdx_iff_getElem?.mpr h, rfl⟩

/-- A map whose keys are `0` to `n - 1` in order, read as a list. -/
theorem getElem?_entries {d : Dict Nat α} {n : Nat} (h : d.keys = List.range n) (j : Nat) :
    d.entries[j]? = (d.get? j).map fun v => (j, v) := by
  cases hentry : d.entries[j]? with
  | none =>
      rw [List.getElem?_eq_none_iff] at hentry
      have hlen := congrArg List.length h
      rw [keys, List.length_map, List.length_range] at hlen
      rw [get?_eq_none_iff.mpr (by rw [h, List.mem_range]; omega)]
      rfl
  | some e =>
      have hkey : d.keys[j]? = some e.1 := by rw [keys, List.getElem?_map, hentry]; rfl
      rw [h, List.getElem?_eq_some_iff] at hkey
      obtain ⟨_, hj⟩ := hkey
      rw [List.getElem_range] at hj
      rw [hj, get?_eq_some_iff.mpr (List.mem_of_getElem? hentry)]
      rfl

end Dict

end Evoting
