/-
The passes of `build_fork_graph` over chains that may stop.

A pass at a height takes a block from each chain that has one there (`passHeads`).
Where a generator stops, `head` is still the block of the last chain that delivered:
one before it in this pass, or the last of the pass before (`mem_stopCopies`).  So the
heads of a pass are the blocks at its height and the copies for the chains that stop
(`passHeads_perm`), and unless all chains have stopped, the loop ends when these blocks
are one and no copy is an old one (`compare_passHeads`).
-/
import Evoting.Proofs.Compare

namespace Evoting

open ForkGraph

variable {Peer : Type}

/-! ### Chains that stop -/

/-- **Chains that are read down from a height**, and may stop at any lower one: each is linked from
its head downwards and has a block at the height.  All are of one tree of blocks: an id is that of
one block, and a previous id that of a block with the number below. -/
structure ReadFrom (h : Int) (chains : Dict Peer (List SimpleBlock)) : Prop where
  linked : ∀ chain ∈ chains.values, Linked chain
  reaches : ∀ chain ∈ chains.values, Reaches h chain
  ids : ∀ b ∈ chains.values.flatten, ∀ b' ∈ chains.values.flatten, b.ident = b'.ident → b = b'
  previous_num : ∀ b ∈ chains.values.flatten, ∀ b' ∈ chains.values.flatten,
    b.previous = b'.previous → b.num = b'.num
  previous_ident : ∀ b ∈ chains.values.flatten, ∀ p ∈ chains.values.flatten,
    b.previous = p.ident → b.num = p.num + 1

/-- The chains that have a block at a height have the same one there. -/
def Agree (t : Int) (entries : List (Peer × List SimpleBlock)) : Prop :=
  ∀ d ∈ entries, ∀ e ∈ entries, Reaches t d.2 → Reaches t e.2 → blockAt t d.2 = blockAt t e.2

instance (t : Int) (entries : List (Peer × List SimpleBlock)) : Decidable (Agree t entries) :=
  inferInstanceAs (Decidable (∀ d ∈ entries, ∀ e ∈ entries, _))

/-- The block at a height of the first chain that has one. -/
def firstAt (t : Int) (entries : List (Peer × List SimpleBlock)) : Option SimpleBlock :=
  (entries.find? fun e => Reaches t e.2).map fun e => blockAt t e.2

/-- The block at a height of the last chain that has one. -/
def lastAt (t : Int) (entries : List (Peer × List SimpleBlock)) : Option SimpleBlock :=
  firstAt t entries.reverse

/-- A chain stops at a height at which no chain before it has a block. -/
def StopsFirst (t : Int) (e : Peer × List SimpleBlock)
    (entries : List (Peer × List SimpleBlock)) : Prop :=
  ∃ before after, entries = before ++ e :: after ∧ Reaches (t + 1) e.2 ∧ ¬Reaches t e.2 ∧
    ∀ d ∈ before, ¬Reaches t d.2

/-! ### The first and the last block at a height -/

section Firsts

variable {t : Int} {entries : List (Peer × List SimpleBlock)} {b : SimpleBlock}

theorem firstAt_cons (e : Peer × List SimpleBlock) (entries : List (Peer × List SimpleBlock)) :
    firstAt t (e :: entries)
      = if Reaches t e.2 then some (blockAt t e.2) else firstAt t entries := by
  by_cases hreaches : Reaches t e.2
  · simp [firstAt, hreaches]
  · simp [firstAt, hreaches]

theorem firstAt_append (entries others : List (Peer × List SimpleBlock)) :
    firstAt t (entries ++ others) = (firstAt t entries).or (firstAt t others) := by
  rw [firstAt, List.find?_append, Option.map_or]
  rfl

theorem firstAt_eq_none_iff : firstAt t entries = none ↔ ∀ e ∈ entries, ¬Reaches t e.2 := by
  simp [firstAt]

theorem exists_of_firstAt (h : firstAt t entries = some b) :
    ∃ e ∈ entries, Reaches t e.2 ∧ blockAt t e.2 = b := by
  obtain ⟨e, hfind, heq⟩ := Option.map_eq_some_iff.mp h
  exact ⟨e, List.mem_of_find?_eq_some hfind, by simpa using List.find?_some hfind, heq⟩

theorem lastAt_eq_none_iff : lastAt t entries = none ↔ ∀ e ∈ entries, ¬Reaches t e.2 := by
  simp [lastAt, firstAt_eq_none_iff]

theorem exists_of_lastAt (h : lastAt t entries = some b) :
    ∃ e ∈ entries, Reaches t e.2 ∧ blockAt t e.2 = b := by
  obtain ⟨e, he, hreaches, heq⟩ := exists_of_firstAt h
  exact ⟨e, List.mem_reverse.mp he, hreaches, heq⟩

theorem exists_firstAt {e : Peer × List SimpleBlock} (he : e ∈ entries) (hreaches : Reaches t e.2) :
    ∃ b, firstAt t entries = some b := by
  cases hfirst : firstAt t entries with
  | none => exact absurd hreaches (firstAt_eq_none_iff.mp hfirst e he)
  | some b => exact ⟨b, rfl⟩

end Firsts

/-! ### One pass -/

/-- `head`, after a chain. -/
def headAfter (t : Int) (head : Option SimpleBlock) (e : Peer × List SimpleBlock) :
    Option SimpleBlock := if Reaches t e.2 then some (blockAt t e.2) else head

/-- What a chain appends to the heads where it stops: the block that `head` still is. -/
def stopCopy (t : Int) (head : Option SimpleBlock) (e : Peer × List SimpleBlock) :
    List (Peer × SimpleBlock) :=
  if ¬Reaches t e.2 ∧ Reaches (t + 1) e.2 then head.toList.map fun b => (e.1, b) else []

/-- What a chain appends to the heads. -/
def headOf (t : Int) (head : Option SimpleBlock) (e : Peer × List SimpleBlock) :
    List (Peer × SimpleBlock) :=
  if Reaches t e.2 then [(e.1, blockAt t e.2)] else stopCopy t head e

/-- The heads of a pass that begins with a value of `head`. -/
def passHeads (t : Int) : Option SimpleBlock → List (Peer × List SimpleBlock) →
    List (Peer × SimpleBlock)
  | _, [] => []
  | head, e :: entries => headOf t head e ++ passHeads t (headAfter t head e) entries

/-- Those of the chains that stop. -/
def stopCopies (t : Int) : Option SimpleBlock → List (Peer × List SimpleBlock) →
    List (Peer × SimpleBlock)
  | _, [] => []
  | head, e :: entries => stopCopy t head e ++ stopCopies t (headAfter t head e) entries

/-- The chains that stop at the height. -/
def stopping (t : Int) (entries : List (Peer × List SimpleBlock)) : List Peer :=
  (entries.filter fun e => ¬Reaches t e.2 ∧ Reaches (t + 1) e.2).map Prod.fst

section Pass

variable {t : Int} {head : Option SimpleBlock} {entries : List (Peer × List SimpleBlock)}

theorem lastAt_cons_or (e : Peer × List SimpleBlock) (entries : List (Peer × List SimpleBlock)) :
    (lastAt t (e :: entries)).or head = (lastAt t entries).or (headAfter t head e) := by
  rw [lastAt, List.reverse_cons, firstAt_append, firstAt_cons, lastAt, headAfter, Option.or_assoc]
  by_cases hreaches : Reaches t e.2
  · rw [if_pos hreaches, if_pos hreaches, Option.some_or]
  · rw [if_neg hreaches, if_neg hreaches]
    rfl

/-- **The heads of a pass** are the blocks at its height and the copies. -/
theorem passHeads_perm : ∀ (entries : List (Peer × List SimpleBlock)) (head : Option SimpleBlock),
    (passHeads t head entries).Perm (delivered t entries ++ stopCopies t head entries) := by
  intro entries
  induction entries with
  | nil => intro head; exact List.Perm.refl []
  | cons e entries ih =>
      intro head
      rw [passHeads, stopCopies, delivered]
      by_cases hreaches : Reaches t e.2
      · have hcopy : stopCopy t head e = [] := if_neg fun h => h.1 hreaches
        rw [List.filter_cons_of_pos (by simpa using hreaches), hcopy, headOf, if_pos hreaches]
        exact (ih _).cons _
      · rw [List.filter_cons_of_neg (by simpa using hreaches), headOf, if_neg hreaches]
        have hnext := (ih (headAfter t head e)).append_left (stopCopy t head e)
        refine hnext.trans ?_
        rw [← List.append_assoc, ← List.append_assoc]
        exact List.perm_append_comm.append_right _

/-- **Which block is copied** where a chain stops: that of the last chain before it that delivered,
or else the one `head` was before the pass. -/
theorem mem_stopCopies {a : Peer × SimpleBlock} :
    ∀ (entries : List (Peer × List SimpleBlock)) (head : Option SimpleBlock),
      a ∈ stopCopies t head entries ↔ ∃ before e after, entries = before ++ e :: after ∧
        e.1 = a.1 ∧ Reaches (t + 1) e.2 ∧ ¬Reaches t e.2 ∧
        (lastAt t before).or head = some a.2 := by
  intro entries
  induction entries with
  | nil => intro head; simp [stopCopies]
  | cons d entries ih =>
      intro head
      rw [stopCopies, List.mem_append, ih]
      constructor
      · rintro (hcopy | ⟨before, e, after, rfl, hpeer, habove, hstops, hlast⟩)
        · unfold stopCopy at hcopy
          split at hcopy
          · rename_i hd
            obtain ⟨b, hb, rfl⟩ := List.mem_map.mp hcopy
            exact ⟨[], d, entries, rfl, rfl, hd.2, hd.1, by simpa [lastAt, firstAt] using hb⟩
          · simp at hcopy
        · refine ⟨d :: before, e, after, rfl, hpeer, habove, hstops, ?_⟩
          rw [lastAt_cons_or, hlast]
      · rintro ⟨before, e, after, hsplit, hpeer, habove, hstops, hlast⟩
        cases before with
        | nil =>
            obtain ⟨rfl, rfl⟩ := List.cons.inj hsplit
            refine Or.inl ?_
            rw [stopCopy, if_pos ⟨hstops, habove⟩, List.mem_map]
            exact ⟨a.2, by simpa [lastAt, firstAt] using hlast, Prod.ext hpeer rfl⟩
        | cons d' before =>
            obtain ⟨rfl, rfl⟩ := List.cons.inj hsplit
            rw [lastAt_cons_or] at hlast
            exact Or.inr ⟨before, e, after, rfl, hpeer, habove, hstops, hlast⟩

theorem stopCopies_sublist : ∀ (entries : List (Peer × List SimpleBlock))
    (head : Option SimpleBlock),
      ((stopCopies t head entries).map Prod.fst).Sublist (entries.map Prod.fst) := by
  intro entries
  induction entries with
  | nil => intro head; exact List.Sublist.refl _
  | cons e entries ih =>
      intro head
      rw [stopCopies, List.map_append, List.map_cons]
      have hcopy : ((stopCopy t head e).map Prod.fst).Sublist [e.1] := by
        unfold stopCopy
        split
        · cases head with
          | none => exact List.nil_sublist _
          | some b => exact List.Sublist.refl _
        · exact List.nil_sublist _
      exact hcopy.append (ih _)

/-- What holds of the blocks at the height and of `head` holds of the heads. -/
theorem forall_passHeads {S : SimpleBlock → Prop} (hhead : ∀ b, head = some b → S b)
    (hentries : ∀ e ∈ entries, Reaches t e.2 → S (blockAt t e.2)) :
    ∀ a ∈ passHeads t head entries, S a.2 := by
  intro a ha
  rcases List.mem_append.mp ((passHeads_perm entries head).subset ha) with ha | ha
  · obtain ⟨e, he, rfl⟩ := List.mem_map.mp ha
    rw [List.mem_filter, decide_eq_true_eq] at he
    exact hentries e he.1 he.2
  · obtain ⟨before, e, after, rfl, -, -, -, hlast⟩ := (mem_stopCopies entries head).mp ha
    cases hbefore : lastAt t before with
    | none =>
        rw [hbefore, Option.none_or] at hlast
        exact hhead _ hlast
    | some b =>
        rw [hbefore, Option.some_or, Option.some.injEq] at hlast
        obtain ⟨d, hd, hreaches, heq⟩ := exists_of_lastAt hbefore
        rw [← hlast, ← heq]
        exact hentries d (List.mem_append_left _ hd) hreaches

end Pass

/-! ### Comparing the heads -/

theorem compareAcross_eq_true_iff {α β : Type} [DecidableEq β] {key : α → β} {l : List α} :
    compareAcross key l = true ↔ ∀ x ∈ l, ∀ y ∈ l, key x = key y := by
  cases l with
  | nil => simp [compareAcross]
  | cons first rest =>
      rw [compareAcross, List.all_eq_true]
      simp only [decide_eq_true_eq]
      constructor
      · intro hall x hx y hy
        have hfirst : ∀ z ∈ first :: rest, key first = key z := by
          intro z hz
          rcases List.mem_cons.mp hz with rfl | hz
          · rfl
          · exact hall z hz
        rw [← hfirst x hx, ← hfirst y hy]
      · intro hall x hx
        exact hall first (by simp) x (by simp [hx])

/-- **Where the loop ends**: no chain is left, or those that are agree and no copy is an old one. -/
def Ended (t : Int) (entries : List (Peer × List SimpleBlock)) : Prop :=
  (∀ e ∈ entries, ¬Reaches t e.2) ∨
    (Agree t entries ∧ ∀ e, ¬StopsFirst t e entries)

section Compare

variable {chains : Dict Peer (List SimpleBlock)} {h t : Int} {head : Option SimpleBlock}

theorem mem_flatten_of_mem {e : Peer × List SimpleBlock} (he : e ∈ chains.entries)
    {b : SimpleBlock} (hb : b ∈ e.2) : b ∈ chains.values.flatten :=
  List.mem_flatten.mpr ⟨e.2, mem_values he, hb⟩

theorem blockAt_mem_flatten {e : Peer × List SimpleBlock} (he : e ∈ chains.entries)
    (hreaches : Reaches t e.2) : blockAt t e.2 ∈ chains.values.flatten :=
  mem_flatten_of_mem he (blockAt_spec hreaches).1

/-- A chain that has a block at a height has one at every height up to the first. -/
theorem ReadFrom.reaches_mono (hchains : ReadFrom h chains) {e : Peer × List SimpleBlock}
    (he : e ∈ chains.entries) {l : Int} (hreaches : Reaches l e.2) (hle : l ≤ t) (hh : t ≤ h) :
    Reaches t e.2 :=
  (hchains.linked e.2 (mem_values he)).reaches_mono (hchains.reaches e.2 (mem_values he)) hreaches
    hle hh

/-- A pass may begin with a value of `head` when that is a listed block from one above its height,
or when there is none and no chain asks for it. -/
structure HeadFits (chains : Dict Peer (List SimpleBlock)) (t : Int) (head : Option SimpleBlock) :
    Prop where
  listed : ∀ b, head = some b → b ∈ chains.values.flatten ∧ b.num = t + 1
  unset : head = none → ∀ e, ¬StopsFirst t e chains.entries

/-- Where no chain is left, the heads are copies of `head`. -/
theorem head_eq_of_mem_passHeads {entries : List (Peer × List SimpleBlock)}
    (hnobody : ∀ e ∈ entries, ¬Reaches t e.2) {a : Peer × SimpleBlock}
    (ha : a ∈ passHeads t head entries) : head = some a.2 := by
  rcases List.mem_append.mp ((passHeads_perm entries head).subset ha) with ha | ha
  · obtain ⟨e, he, rfl⟩ := List.mem_map.mp ha
    rw [List.mem_filter, decide_eq_true_eq] at he
    exact absurd he.2 (hnobody e he.1)
  · obtain ⟨before, e, after, rfl, -, -, -, hlast⟩ := (mem_stopCopies entries head).mp ha
    have hbefore : lastAt t before = none :=
      lastAt_eq_none_iff.mpr fun d hd => hnobody d (List.mem_append_left _ hd)
    rwa [hbefore, Option.none_or] at hlast

/-- Where no copy is an old one, the heads are blocks at the height. -/
theorem exists_of_mem_passHeads {entries : List (Peer × List SimpleBlock)}
    (hfresh : ∀ e, ¬StopsFirst t e entries) {a : Peer × SimpleBlock}
    (ha : a ∈ passHeads t head entries) : ∃ e ∈ entries, Reaches t e.2 ∧ blockAt t e.2 = a.2 := by
  rcases List.mem_append.mp ((passHeads_perm entries head).subset ha) with ha | ha
  · obtain ⟨e, he, rfl⟩ := List.mem_map.mp ha
    rw [List.mem_filter, decide_eq_true_eq] at he
    exact ⟨e, he.1, he.2, rfl⟩
  · obtain ⟨before, e, after, rfl, -, habove, hnot, hlast⟩ := (mem_stopCopies entries head).mp ha
    cases hbefore : lastAt t before with
    | none =>
        exact absurd ⟨before, after, rfl, habove, hnot, lastAt_eq_none_iff.mp hbefore⟩ (hfresh e)
    | some b =>
        rw [hbefore, Option.some_or, Option.some.injEq] at hlast
        obtain ⟨d, hd, hreaches, heq⟩ := exists_of_lastAt hbefore
        exact ⟨d, List.mem_append_left _ hd, hreaches, heq.trans hlast⟩

/-- A chain that delivers is among the heads with its block. -/
theorem mem_passHeads_of_reaches {entries : List (Peer × List SimpleBlock)}
    {e : Peer × List SimpleBlock} (he : e ∈ entries) (hreaches : Reaches t e.2) :
    (e.1, blockAt t e.2) ∈ passHeads t head entries := by
  refine (passHeads_perm entries head).symm.subset (List.mem_append_left _ ?_)
  exact List.mem_map.mpr ⟨e, List.mem_filter.mpr ⟨he, by simpa using hreaches⟩, rfl⟩

/-- A chain that stops before any has delivered is among them with the old block. -/
theorem mem_passHeads_of_stopsFirst {entries : List (Peer × List SimpleBlock)}
    {e : Peer × List SimpleBlock} {old : SimpleBlock} (hstops : StopsFirst t e entries) :
    (e.1, old) ∈ passHeads t (some old) entries := by
  obtain ⟨before, after, hsplit, habove, hnot, hbefore⟩ := hstops
  refine (passHeads_perm entries _).symm.subset (List.mem_append_right _ ?_)
  rw [mem_stopCopies]
  refine ⟨before, e, after, hsplit, rfl, habove, hnot, ?_⟩
  rw [lastAt_eq_none_iff.mpr hbefore, Option.none_or]

/-- **When the heads of a pass are one block.** -/
theorem compare_passHeads (hchains : ReadFrom h chains) (hhead : HeadFits chains t head) :
    compareAcross (fun a => a.2.ident) (passHeads t head chains.entries) = true ↔
      Ended t chains.entries := by
  have hlisted : ∀ a ∈ passHeads t head chains.entries, a.2 ∈ chains.values.flatten :=
    forall_passHeads (S := (· ∈ chains.values.flatten)) (fun b hb => (hhead.listed b hb).1)
      fun e he hreaches => blockAt_mem_flatten he hreaches
  rw [compareAcross_eq_true_iff]
  constructor
  · intro hall
    have hsame : ∀ x ∈ passHeads t head chains.entries, ∀ y ∈ passHeads t head chains.entries,
        x.2 = y.2 := fun x hx y hy =>
      hchains.ids _ (hlisted x hx) _ (hlisted y hy) (hall x hx y hy)
    by_cases hnobody : ∀ e ∈ chains.entries, ¬Reaches t e.2
    · exact Or.inl hnobody
    · push Not at hnobody
      obtain ⟨d, hd, hreaches⟩ := hnobody
      refine Or.inr ⟨fun e he e' he' hr hr' => ?_, fun e hstops => ?_⟩
      · exact hsame _ (mem_passHeads_of_reaches he hr) _ (mem_passHeads_of_reaches he' hr')
      · -- the old block is one above that of the chain that delivers
        cases hh : head with
        | none => exact hhead.unset hh e hstops
        | some old =>
            subst hh
            have heq : old = blockAt t d.2 := hsame _ (mem_passHeads_of_stopsFirst hstops) _
              (mem_passHeads_of_reaches hd hreaches)
            have hnum := (hhead.listed old rfl).2
            rw [heq, (blockAt_spec hreaches).2] at hnum
            omega
  · rintro (hnobody | ⟨hagree, hfresh⟩) x hx y hy
    · have hx := head_eq_of_mem_passHeads hnobody hx
      have hy := head_eq_of_mem_passHeads hnobody hy
      rw [Option.some.inj (hx.symm.trans hy)]
    · obtain ⟨e, he, hreaches, heq⟩ := exists_of_mem_passHeads hfresh hx
      obtain ⟨e', he', hreaches', heq'⟩ := exists_of_mem_passHeads hfresh hy
      rw [← heq, ← heq', hagree e he e' he' hreaches hreaches']

end Compare

/-! ### The generators -/

section Generators

variable [DecidableEq Peer] {chains : Dict Peer (List SimpleBlock)} {h t : Int}
  {head : Option SimpleBlock}

omit [DecidableEq Peer] in
theorem stopping_cons (e : Peer × List SimpleBlock) (entries : List (Peer × List SimpleBlock)) :
    stopping t (e :: entries) = stopping t [e] ++ stopping t entries := by
  rw [stopping, stopping, stopping, ← List.map_append, ← List.filter_append]
  rfl

/-- **The next head of one chain**, unless it stops and there is no head. -/
theorem nextHead_ok {e : Peer × List SimpleBlock} (hlinked : Linked e.2) (hh : Reaches h e.2)
    (ht : t < h) {bad : List Peer} (hbad : e.1 ∈ bad ↔ ¬Reaches (t + 1) e.2)
    (hset : head = none → ¬(¬Reaches t e.2 ∧ Reaches (t + 1) e.2))
    (passed : List (Peer × List SimpleBlock)) (heads : List (Peer × SimpleBlock)) :
    nextHead ⟨passed, bad, head, heads⟩ (e.1, below (t + 1) e.2)
      = .ok ⟨passed ++ [(e.1, below t e.2)], bad ++ stopping t [e], headAfter t head e,
          heads ++ headOf t head e⟩ := by
  by_cases hreaches : Reaches t e.2
  · have habove : Reaches (t + 1) e.2 := hlinked.reaches_mono hh hreaches (by omega) (by omega)
    have hgood : e.1 ∉ bad := fun hmem => hbad.mp hmem habove
    rw [hlinked.below_succ hreaches]
    simp [nextHead, hgood, headAfter, headOf, hreaches, stopping]
  · obtain ⟨hbelow, hbelow'⟩ :=
      below_eq_nil (hlinked.lt_of_not_reaches hh (Int.le_of_lt ht) hreaches)
    rw [hbelow, hbelow']
    by_cases habove : Reaches (t + 1) e.2
    · have hgood : e.1 ∉ bad := fun hmem => hbad.mp hmem habove
      cases hhead : head with
      | none => exact absurd ⟨hreaches, habove⟩ (hset hhead)
      | some old =>
          simp [nextHead, hgood, headAfter, headOf, stopCopy, hreaches, habove, stopping]
    · have hmem : e.1 ∈ bad := hbad.mpr habove
      simp [nextHead, hmem, headAfter, headOf, stopCopy, hreaches, habove, stopping]

/-- **A pass over the chains.** -/
theorem nextHeads_eq (hchains : ReadFrom h chains) (ht : t < h) :
    ∀ (entries : List (Peer × List SimpleBlock)), entries ⊆ chains.entries →
      (entries.map Prod.fst).Nodup →
      ∀ (passed : List (Peer × List SimpleBlock)) (bad : List Peer) (head : Option SimpleBlock)
        (heads : List (Peer × SimpleBlock)),
        (∀ e ∈ entries, e.1 ∈ bad ↔ ¬Reaches (t + 1) e.2) →
        (head = none → ∀ e, ¬StopsFirst t e entries) →
        (entries.map fun e => (e.1, below (t + 1) e.2)).foldlM nextHead ⟨passed, bad, head, heads⟩
          = .ok ⟨passed ++ entries.map fun e => (e.1, below t e.2), bad ++ stopping t entries,
              (lastAt t entries).or head, heads ++ passHeads t head entries⟩ := by
  intro entries
  induction entries with
  | nil =>
      intro _ _ passed bad head heads _ _
      simp [pure, Except.pure, stopping, lastAt, firstAt, passHeads]
  | cons e entries ih =>
      intro hsub hnodup passed bad head heads hbad hset
      rw [List.map_cons, List.nodup_cons] at hnodup
      have he := hsub List.mem_cons_self
      have hstep := nextHead_ok (hchains.linked e.2 (mem_values he))
        (hchains.reaches e.2 (mem_values he)) ht (hbad e List.mem_cons_self)
        (fun hnone hstops => hset hnone e ⟨[], entries, rfl, hstops.2, hstops.1, by simp⟩)
        passed heads
      have hrest : ∀ d ∈ entries, d.1 ∈ bad ++ stopping t [e] ↔ ¬Reaches (t + 1) d.2 := by
        intro d hd
        have hne : d.1 ∉ stopping t [e] := by
          intro hmem
          obtain ⟨e', he', heq⟩ := List.mem_map.mp hmem
          obtain rfl := List.mem_singleton.mp (List.mem_filter.mp he').1
          exact hnodup.1 (heq ▸ List.mem_map.mpr ⟨d, hd, rfl⟩)
        rw [List.mem_append, ← hbad d (List.mem_cons_of_mem _ hd)]
        simp [hne]
      have hfresh : headAfter t head e = none → ∀ d, ¬StopsFirst t d entries := by
        rintro hnone d ⟨before, after, rfl, habove, hstops, hbefore⟩
        unfold headAfter at hnone
        split at hnone
        · exact absurd hnone (by simp)
        · rename_i hreaches
          refine hset hnone d ⟨e :: before, after, rfl, habove, hstops, fun d' hd' => ?_⟩
          rcases List.mem_cons.mp hd' with rfl | hd'
          · exact hreaches
          · exact hbefore d' hd'
      rw [List.map_cons, List.foldlM_cons, hstep, ok_bind,
        ih (fun d hd => hsub (List.mem_cons_of_mem _ hd)) hnodup.2 _ _ _ _ hrest hfresh,
        ← lastAt_cons_or, stopping_cons e entries, passHeads]
      simp only [List.append_assoc, List.singleton_append, List.map_cons]

/-- **A first pass that begins with a chain that stops** reads `head` before it is set. -/
theorem nextHeads_error (hchains : ReadFrom h chains) {e : Peer × List SimpleBlock}
    (hstops : StopsFirst (h - 1) e chains.entries) :
    (chains.entries.map fun e => (e.1, below h e.2)).foldlM nextHead ⟨[], [], none, []⟩
      = .error .unboundLocalError := by
  obtain ⟨before, after, hsplit, -, hnot, hbefore⟩ := hstops
  obtain ⟨d, rest, hentries, hd⟩ : ∃ d rest, chains.entries = d :: rest ∧
      ¬Reaches (h - 1) d.2 := by
    cases before with
    | nil => exact ⟨e, after, hsplit, hnot⟩
    | cons d before => exact ⟨d, before ++ e :: after, hsplit, hbefore d (by simp)⟩
  have hmem := mem_values (show d ∈ chains.entries by rw [hentries]; simp)
  have hlt := (hchains.linked d.2 hmem).lt_of_not_reaches (hchains.reaches d.2 hmem)
    (by omega : h - 1 ≤ h) hd
  have hbelow := (below_eq_nil hlt).1
  rw [Int.sub_add_cancel] at hbelow
  rw [hentries, List.map_cons, List.foldlM_cons, hbelow]
  rfl

end Generators

end Evoting
