/-
The loop of `build_fork_graph` over chains that may stop.

After the pass at a height the graph holds what the chains have down to there, and the
copies of all passes; the errors are the chains that have stopped; and the root is the
first of the lowest blocks (`ReadDown`).  A pass keeps this (`ReadDown.walk_pass`), and
since no chain is left at some height, the loop ends (`ReadDown.walk_ends`).
-/
import Evoting.Proofs.Passes

namespace Evoting

open ForkGraph

variable {Peer : Type}

/-! ### The root -/

section Root

variable {t : Int} {r : SimpleBlock}

theorem foldl_lower_of_le : ∀ blocks : List SimpleBlock, (∀ b ∈ blocks, r.num ≤ b.num) →
    blocks.foldl lower (some r) = some r := by
  intro blocks
  induction blocks with
  | nil => intro _; rfl
  | cons b blocks ih =>
      intro hle
      have hb := hle b List.mem_cons_self
      have hkeep : lower (some r) b = some r := if_neg (by omega)
      rw [List.foldl_cons, hkeep, ih fun b hb => hle b (List.mem_cons_of_mem _ hb)]

theorem foldl_lower_gt : ∀ (blocks : List SimpleBlock) {root : Option SimpleBlock},
    (∀ b, root = some b → t < b.num) → (∀ b ∈ blocks, t < b.num) →
      ∀ b, blocks.foldl lower root = some b → t < b.num := by
  intro blocks
  induction blocks with
  | nil => intro root hroot _; exact hroot
  | cons b blocks ih =>
      intro root hroot hblocks
      refine ih (fun found hfound => ?_) fun d hd => hblocks d (List.mem_cons_of_mem _ hd)
      have hb := hblocks b List.mem_cons_self
      cases root with
      | none => exact Option.some.inj hfound ▸ hb
      | some root =>
          unfold lower at hfound
          dsimp only at hfound
          split at hfound
          · exact Option.some.inj hfound ▸ hb
          · exact hroot found hfound

theorem lower_of_gt {root : Option SimpleBlock} {b : SimpleBlock}
    (h : ∀ r, root = some r → b.num < r.num) : lower root b = some b := by
  cases root with
  | none => rfl
  | some root => exact if_pos (h root rfl)

/-- **The root after the tails** is the first chain's block at their height. -/
theorem root_tails {chains : Dict Peer (List SimpleBlock)} {h : Int}
    (hlinked : ∀ chain ∈ chains.values, Linked chain)
    (hreach : ∀ chain ∈ chains.values, Reaches h chain) :
    ((readPairs chains h).map Prod.snd).foldl lower none = firstAt h chains.entries := by
  have hle : ∀ b ∈ (readPairs chains h).map Prod.snd, h ≤ b.num := by
    intro b hb
    obtain ⟨a, ha, rfl⟩ := List.mem_map.mp hb
    exact (readTo_of_mem ha).2
  cases hentries : chains.entries with
  | nil =>
      rw [readPairs, hentries]
      rfl
  | cons e entries =>
      have he := mem_values (show e ∈ chains.entries by rw [hentries]; simp)
      have hreaches := hreach e.2 he
      have hnum := (blockAt_spec hreaches).2
      rw [readPairs, hentries, List.flatMap_cons, (hlinked e.2 he).above_eq hreaches] at hle ⊢
      simp only [List.map_append, List.map_map, Function.comp_def, List.map_id', List.map_cons,
        List.map_nil, List.foldl_append, List.append_assoc, List.foldl_cons, List.foldl_nil,
        List.mem_append] at hle ⊢
      rw [firstAt_cons, if_pos hreaches, lower_of_gt, foldl_lower_of_le]
      · intro b hb
        rw [hnum]
        exact hle b (Or.inr (Or.inr hb))
      · have habove : ∀ b ∈ above (h + 1) e.2, h < b.num := by
          intro b hb
          have hle := (List.mem_filter.mp hb).2
          rw [decide_eq_true_eq] at hle
          omega
        rw [hnum]
        exact foldl_lower_gt _ (by simp) habove

/-- **The root after a pass** is the block of the first chain that delivers. -/
theorem root_passHeads (hr : r.num = t + 1) : ∀ (entries : List (Peer × List SimpleBlock))
    (head : Option SimpleBlock), (∀ b, head = some b → b.num = t + 1) →
      ((passHeads t head entries).map Prod.snd).foldl lower (some r)
        = (firstAt t entries).or (some r) := by
  intro entries
  induction entries with
  | nil => intro head _; rfl
  | cons e entries ih =>
      intro head hhead
      rw [passHeads, List.map_append, List.foldl_append, firstAt_cons, headAfter, headOf]
      by_cases hreaches : Reaches t e.2
      · have hnum := (blockAt_spec hreaches).2
        rw [if_pos hreaches, if_pos hreaches, if_pos hreaches, Option.some_or]
        have hlower : lower (some r) (blockAt t e.2) = some (blockAt t e.2) :=
          if_pos (by omega)
        show List.foldl lower (lower (some r) (blockAt t e.2)) _ = _
        rw [hlower, foldl_lower_of_le]
        intro b hb
        obtain ⟨a, ha, rfl⟩ := List.mem_map.mp hb
        refine forall_passHeads (S := fun b => (blockAt t e.2).num ≤ b.num) (fun b hb => ?_)
          (fun d _ hd => ?_) a ha
        · exact Int.le_of_eq (congrArg SimpleBlock.num (Option.some.inj hb))
        · exact Int.le_of_eq (hnum.trans (blockAt_spec hd).2.symm)
      · rw [if_neg hreaches, if_neg hreaches, if_neg hreaches, stopCopy]
        have hcopy : (List.map Prod.snd (stopCopy t head e)).foldl lower (some r) = some r := by
          refine foldl_lower_of_le _ fun b hb => ?_
          obtain ⟨a, ha, rfl⟩ := List.mem_map.mp hb
          unfold stopCopy at ha
          split at ha
          · obtain ⟨old, hold, rfl⟩ := List.mem_map.mp ha
            have hnum := hhead old (by simpa using hold)
            show r.num ≤ old.num
            omega
          · simp at ha
        rw [← stopCopy, hcopy]
        exact ih head hhead

end Root

/-! ### What has been read -/

/-- The copy that is made for a chain where it stops. -/
def CopyAt (chains : Dict Peer (List SimpleBlock)) (t : Int) (a : Peer × SimpleBlock) : Prop :=
  ∃ before e after, chains.entries = before ++ e :: after ∧ e.1 = a.1 ∧
    Reaches (t + 1) e.2 ∧ ¬Reaches t e.2 ∧
    (lastAt t before).or (lastAt (t + 1) chains.entries) = some a.2

/-- `head`, before the pass at a height. -/
def headBefore (chains : Dict Peer (List SimpleBlock)) (h t : Int) : Option SimpleBlock :=
  if t + 1 = h then none else lastAt (t + 1) chains.entries

/-- **Where `build_fork_graph` is** after the pass at a height: what is in the graph, and which
chains have stopped. -/
structure ReadDown [DecidableEq Peer] (chains : Dict Peer (List SimpleBlock)) (h t : Int)
    (g : ForkGraph Peer) (bad : List Peer) (copies : List (Peer × SimpleBlock)) : Prop where
  holds : g.Holds (readPairs chains t ++ copies)
  root : g.root = (firstAt t chains.entries).or (firstAt (t + 1) chains.entries)
  bad_nodup : bad.Nodup
  mem_bad : ∀ peer, peer ∈ bad ↔ ∃ chain, chains.get? peer = some chain ∧ ¬Reaches t chain
  copies_nodup : (copies.map Prod.fst).Nodup
  mem_copies : ∀ a, a ∈ copies ↔ ∃ t', t ≤ t' ∧ t' < h ∧ CopyAt chains t' a

section Reading

variable {chains : Dict Peer (List SimpleBlock)} {h t : Int}

/-- `head` fits the pass, when the first pass begins with a chain that delivers. -/
theorem headBefore_fits (hfirst : t + 1 = h → ∀ e, ¬StopsFirst t e chains.entries) :
    HeadFits chains t (headBefore chains h t) where
  listed b hb := by
    unfold headBefore at hb
    split at hb
    · simp at hb
    · obtain ⟨e, he, hreaches, rfl⟩ := exists_of_lastAt hb
      exact ⟨blockAt_mem_flatten he hreaches, (blockAt_spec hreaches).2⟩
  unset hnone := by
    unfold headBefore at hnone
    split at hnone
    · rename_i heq
      exact hfirst heq
    · rintro e ⟨before, after, hsplit, habove, -⟩
      exact lastAt_eq_none_iff.mp hnone e (by rw [hsplit]; simp) habove

/-- The copies of a pass. -/
theorem mem_passCopies (hfirst : t + 1 = h → ∀ e, ¬StopsFirst t e chains.entries)
    {a : Peer × SimpleBlock} :
    a ∈ stopCopies t (headBefore chains h t) chains.entries ↔ CopyAt chains t a := by
  rw [mem_stopCopies, CopyAt]
  by_cases heq : t + 1 = h
  · rw [headBefore, if_pos heq]
    constructor
    · rintro ⟨before, e, after, hsplit, hpeer, habove, hnot, hlast⟩
      rw [Option.or_none] at hlast
      exact ⟨before, e, after, hsplit, hpeer, habove, hnot, by rw [hlast, Option.some_or]⟩
    · rintro ⟨before, e, after, hsplit, hpeer, habove, hnot, hlast⟩
      refine ⟨before, e, after, hsplit, hpeer, habove, hnot, ?_⟩
      cases hbefore : lastAt t before with
      | none =>
          have hstops : StopsFirst t e chains.entries :=
            ⟨before, after, hsplit, habove, hnot, lastAt_eq_none_iff.mp hbefore⟩
          exact absurd hstops (hfirst heq e)
      | some b =>
          rw [hbefore, Option.some_or] at hlast
          rw [hlast, Option.some_or]
  · rw [headBefore, if_neg heq]

variable [DecidableEq Peer]

theorem get?_of_mem {e : Peer × List SimpleBlock} (he : e ∈ chains.entries) :
    chains.get? e.1 = some e.2 := Dict.get?_eq_some_iff.mpr he

/-- A copy is for a chain that has stopped. -/
theorem CopyAt.stopped (hchains : ReadFrom h chains) {t' : Int} {a : Peer × SimpleBlock}
    (hcopy : CopyAt chains t' a) (hle : t ≤ t') (hlt : t' < h) :
    ∃ chain, chains.get? a.1 = some chain ∧ ¬Reaches t chain := by
  obtain ⟨before, e, after, hsplit, hpeer, habove, hnot, -⟩ := hcopy
  have he : e ∈ chains.entries := by rw [hsplit]; simp
  refine ⟨e.2, hpeer ▸ get?_of_mem he, fun hreaches => hnot ?_⟩
  exact hchains.reaches_mono he hreaches hle (by omega)

/-- **The tails.** -/
theorem readDown_tails (hchains : ReadFrom h chains) :
    ∃ g, (chains.mapValues (tailAt h)).entries.foldlM addTail ForkGraph.new = .ok g ∧
      ReadDown chains h h g [] [] := by
  rw [addTails_eq hchains.linked hchains.reaches]
  obtain ⟨g, hadd, hg⟩ := holds_new.addBlocks_of_num (S := (· ∈ chains.values.flatten))
    (fun b b' hb hb' => hchains.previous_num b hb b' hb') (readPairs chains h) (by simp)
    fun a ha => (readTo_of_mem ha).1
  have hroot := holds_new.root_addBlocks (readPairs chains h) hadd
  have htails := root_tails hchains.linked hchains.reaches
  refine ⟨g, hadd, by simpa using hg, ?_, List.nodup_nil, ?_, List.nodup_nil, ?_⟩
  · rw [hroot, show (ForkGraph.new : ForkGraph Peer).root = none from rfl, htails]
    cases hfirst : firstAt h chains.entries with
    | some b => rfl
    | none =>
        have hnone := firstAt_eq_none_iff.mp hfirst
        rw [Option.none_or, eq_comm, firstAt_eq_none_iff]
        intro e he
        exact absurd (hchains.reaches e.2 (mem_values he)) (hnone e he)
  · intro peer
    constructor
    · simp
    · rintro ⟨chain, hget, hnot⟩
      have hmem := mem_values (Dict.get?_eq_some_iff.mp hget)
      exact absurd (hchains.reaches chain hmem) hnot
  · intro a
    constructor
    · simp
    · rintro ⟨t', hle, hlt, -⟩
      omega

/-! ### One pass -/

omit [DecidableEq Peer] in
theorem CopyAt.listed {a : Peer × SimpleBlock} (hcopy : CopyAt chains t a) :
    a.2 ∈ chains.values.flatten := by
  obtain ⟨before, e, after, hsplit, -, -, -, hlast⟩ := hcopy
  rcases Option.or_eq_some_iff.mp hlast with hlast | ⟨-, hlast⟩
  · obtain ⟨d, hd, hreaches, heq⟩ := exists_of_lastAt hlast
    exact heq ▸ blockAt_mem_flatten (by rw [hsplit]; exact List.mem_append_left _ hd) hreaches
  · obtain ⟨d, hd, hreaches, heq⟩ := exists_of_lastAt hlast
    exact heq ▸ blockAt_mem_flatten hd hreaches

omit [DecidableEq Peer] in
/-- The heads of a pass, among all that has been added. -/
theorem readPairs_passHeads (hlinked : ∀ chain ∈ chains.values, Linked chain)
    (copies : List (Peer × SimpleBlock)) (head : Option SimpleBlock) :
    (readPairs chains (t + 1) ++ copies ++ passHeads t head chains.entries).Perm
      (readPairs chains t ++ (copies ++ stopCopies t head chains.entries)) := by
  have hheads := passHeads_perm (t := t) chains.entries head
  have hread := readPairs_delivered (h := t) hlinked
  refine (hheads.append_left _).trans (List.Perm.trans ?_ (hread.append_right _))
  rw [List.append_assoc, List.append_assoc, ← List.append_assoc copies,
    ← List.append_assoc (delivered t chains.entries)]
  exact (List.perm_append_comm.append_right _).append_left _

variable {g : ForkGraph Peer} {bad : List Peer} {copies : List (Peer × SimpleBlock)}

/-- What has been added is listed. -/
theorem ReadDown.listed (hread : ReadDown chains h t g bad copies) :
    ∀ a ∈ readPairs chains t ++ copies, a.2 ∈ chains.values.flatten := by
  intro a ha
  rcases List.mem_append.mp ha with ha | ha
  · exact (readTo_of_mem ha).1
  · obtain ⟨t', -, -, hcopy⟩ := (hread.mem_copies a).mp ha
    exact hcopy.listed

theorem mem_stopping {peer : Peer} : peer ∈ stopping t chains.entries ↔
    ∃ chain, chains.get? peer = some chain ∧ ¬Reaches t chain ∧ Reaches (t + 1) chain := by
  rw [stopping, Dict.mem_keys_filter]
  simp only [decide_eq_true_eq]

/-- The errors after a pass. -/
theorem ReadDown.bad_pass (hchains : ReadFrom h chains) (ht : t < h)
    (hread : ReadDown chains h (t + 1) g bad copies) :
    (bad ++ stopping t chains.entries).Nodup ∧ ∀ peer, peer ∈ bad ++ stopping t chains.entries ↔
      ∃ chain, chains.get? peer = some chain ∧ ¬Reaches t chain := by
  constructor
  · rw [List.nodup_append]
    refine ⟨hread.bad_nodup, Dict.nodup_keys_filter chains _, ?_⟩
    rintro peer hbad _ hstops rfl
    obtain ⟨chain, hget, hnot⟩ := (hread.mem_bad peer).mp hbad
    obtain ⟨chain', hget', -, habove⟩ := mem_stopping.mp hstops
    obtain rfl := Option.some.inj (hget.symm.trans hget')
    exact hnot habove
  · intro peer
    rw [List.mem_append, hread.mem_bad, mem_stopping]
    constructor
    · rintro (⟨chain, hget, hnot⟩ | ⟨chain, hget, hnot, -⟩)
      · refine ⟨chain, hget, fun hreaches => hnot ?_⟩
        exact hchains.reaches_mono (Dict.get?_eq_some_iff.mp hget) hreaches (by omega) (by omega)
      · exact ⟨chain, hget, hnot⟩
    · rintro ⟨chain, hget, hnot⟩
      by_cases habove : Reaches (t + 1) chain
      · exact Or.inr ⟨chain, hget, hnot, habove⟩
      · exact Or.inl ⟨chain, hget, habove⟩

/-- The copies after a pass. -/
theorem ReadDown.copies_pass (hchains : ReadFrom h chains) (ht : t < h)
    (hfirst : t + 1 = h → ∀ e, ¬StopsFirst t e chains.entries)
    (hread : ReadDown chains h (t + 1) g bad copies) :
    ((copies ++ stopCopies t (headBefore chains h t) chains.entries).map Prod.fst).Nodup ∧
      ∀ a, a ∈ copies ++ stopCopies t (headBefore chains h t) chains.entries ↔
        ∃ t', t ≤ t' ∧ t' < h ∧ CopyAt chains t' a := by
  constructor
  · rw [List.map_append, List.nodup_append]
    refine ⟨hread.copies_nodup, chains.nodup.sublist (stopCopies_sublist _ _), ?_⟩
    rintro peer hold _ hnew rfl
    obtain ⟨a, ha, hpeer⟩ := List.mem_map.mp hold
    obtain ⟨a', ha', hpeer'⟩ := List.mem_map.mp hnew
    obtain ⟨t', hle, hlt, hcopy⟩ := (hread.mem_copies a).mp ha
    obtain ⟨chain, hget, hnot⟩ := hcopy.stopped hchains hle hlt
    obtain ⟨before, e, after, hsplit, heq, habove, -⟩ := (mem_passCopies hfirst).mp ha'
    have hget' := get?_of_mem (show e ∈ chains.entries by rw [hsplit]; simp)
    rw [heq, hpeer', ← hpeer, hget, Option.some.injEq] at hget'
    exact hnot (hget' ▸ habove)
  · intro a
    rw [List.mem_append, hread.mem_copies, mem_passCopies hfirst]
    constructor
    · rintro (⟨t', hle, hlt, hcopy⟩ | hcopy)
      · exact ⟨t', by omega, hlt, hcopy⟩
      · exact ⟨t, Int.le_refl t, ht, hcopy⟩
    · rintro ⟨t', hle, hlt, hcopy⟩
      by_cases heq : t' = t
      · exact Or.inr (heq ▸ hcopy)
      · exact Or.inl ⟨t', by omega, hlt, hcopy⟩

/-- **The heads of a pass are added**, and the chains have been read one block further. -/
theorem ReadDown.pass (hchains : ReadFrom h chains) (ht : t < h)
    (hfirst : t + 1 = h → ∀ e, ¬StopsFirst t e chains.entries)
    (hsome : ∃ e ∈ chains.entries, Reaches (t + 1) e.2)
    (hread : ReadDown chains h (t + 1) g bad copies) :
    ∃ g', (passHeads t (headBefore chains h t) chains.entries).foldlM
        (fun g a => g.addBlock a.1 a.2) g = .ok g' ∧
      ReadDown chains h t g' (bad ++ stopping t chains.entries)
        (copies ++ stopCopies t (headBefore chains h t) chains.entries) := by
  have hfits := headBefore_fits hfirst
  have hheads : ∀ a ∈ passHeads t (headBefore chains h t) chains.entries,
      a.2 ∈ chains.values.flatten :=
    forall_passHeads (S := (· ∈ chains.values.flatten)) (fun b hb => (hfits.listed b hb).1)
      fun e he hreaches => blockAt_mem_flatten he hreaches
  obtain ⟨hbadNodup, hmemBad⟩ := hread.bad_pass hchains ht
  obtain ⟨hcopiesNodup, hmemCopies⟩ := hread.copies_pass hchains ht hfirst
  obtain ⟨g', hadd, hg'⟩ := hread.holds.addBlocks_of_num (S := (· ∈ chains.values.flatten))
    (fun b b' hb hb' => hchains.previous_num b hb b' hb') _ hread.listed hheads
  refine ⟨g', hadd, hg'.perm (readPairs_passHeads hchains.linked copies _), ?_, hbadNodup, hmemBad,
    hcopiesNodup, hmemCopies⟩
  obtain ⟨e, he, hreaches⟩ := hsome
  obtain ⟨r, hr⟩ := exists_firstAt he hreaches
  obtain ⟨d, -, hd, hrd⟩ := exists_of_firstAt hr
  have hroot := hread.root
  rw [hr, Option.some_or] at hroot
  rw [hread.holds.root_addBlocks _ hadd, hroot, hr,
    root_passHeads (by rw [← hrd, (blockAt_spec hd).2]) _ _ fun b hb => (hfits.listed b hb).2]

/-! ### The loop -/

/-- **One pass of the loop**: it ends, or it goes on with the chains read one block further. -/
theorem ReadDown.walk_pass (hchains : ReadFrom h chains) (ht : t < h)
    (hfirst : t + 1 = h → ∀ e, ¬StopsFirst t e chains.entries)
    (hsome : ∃ e ∈ chains.entries, Reaches (t + 1) e.2)
    (hread : ReadDown chains h (t + 1) g bad copies) :
    ∃ g' bad' copies', ReadDown chains h t g' bad' copies' ∧
      (Ended t chains.entries → ∀ fuel, walkToAncestor (fuel + 1) g
          (chains.entries.map fun e => (e.1, below (t + 1) e.2)) bad (headBefore chains h t)
        = some (.ok (g', bad'))) ∧
      (¬Ended t chains.entries → ∀ fuel, walkToAncestor (fuel + 1) g
          (chains.entries.map fun e => (e.1, below (t + 1) e.2)) bad (headBefore chains h t)
        = walkToAncestor fuel g' (chains.entries.map fun e => (e.1, below t e.2)) bad'
            (headBefore chains h (t - 1))) := by
  have hfits := headBefore_fits hfirst
  obtain ⟨g', hadd, hread'⟩ := hread.pass hchains ht hfirst hsome
  have hbad : ∀ e ∈ chains.entries, e.1 ∈ bad ↔ ¬Reaches (t + 1) e.2 := by
    intro e he
    rw [hread.mem_bad]
    simp [get?_of_mem he]
  have hpass := nextHeads_eq hchains ht chains.entries (List.Subset.refl _) chains.nodup [] bad
    (headBefore chains h t) [] hbad hfits.unset
  have hcompare := compare_passHeads hchains hfits
  refine ⟨g', _, _, hread', fun hended fuel => ?_, fun hgoes fuel => ?_⟩
  · rw [walkToAncestor, hpass]
    simp only [List.nil_append]
    rw [hadd]
    dsimp only
    rw [if_pos (hcompare.mpr hended)]
  · have hhead : (lastAt t chains.entries).or (headBefore chains h t)
        = headBefore chains h (t - 1) := by
      rw [headBefore.eq_def chains h (t - 1), Int.sub_add_cancel, if_neg (Int.ne_of_lt ht)]
      cases hlast : lastAt t chains.entries with
      | some b => rfl
      | none => exact absurd (Or.inl (lastAt_eq_none_iff.mp hlast)) hgoes
    rw [walkToAncestor, hpass]
    simp only [List.nil_append]
    rw [hadd]
    dsimp only
    rw [if_neg (fun hsame => hgoes (hcompare.mp hsame)), hhead]

omit [DecidableEq Peer] in
/-- Where the loop has not ended, a chain is left. -/
theorem exists_reaches_of_not_ended (hgoes : ¬Ended t chains.entries) :
    ∃ e ∈ chains.entries, Reaches t e.2 := by
  by_contra hnobody
  push Not at hnobody
  exact hgoes (Or.inl hnobody)

/-- **The loop ends**, at the first height where it can.  The induction is on how far below it
no chain is left. -/
theorem ReadDown.walk_ends (hchains : ReadFrom h chains) : ∀ (n : Nat) {t : Int}
    {g : ForkGraph Peer} {bad : List Peer} {copies : List (Peer × SimpleBlock)}, t < h →
      (t + 1 = h → ∀ e, ¬StopsFirst t e chains.entries) →
      (∃ e ∈ chains.entries, Reaches (t + 1) e.2) → ReadDown chains h (t + 1) g bad copies →
      (∀ e ∈ chains.entries, ¬Reaches (t - n) e.2) →
      ∃ l g' bad' copies', l ≤ t ∧ Ended l chains.entries ∧
        (∀ t', l < t' → t' ≤ t → ¬Ended t' chains.entries) ∧
        ReadDown chains h l g' bad' copies' ∧ ∀ fuel, n < fuel →
          walkToAncestor fuel g (chains.entries.map fun e => (e.1, below (t + 1) e.2)) bad
            (headBefore chains h t) = some (.ok (g', bad')) := by
  intro n
  induction n with
  | zero =>
      intro t g bad copies ht hfirst hsome hread hnobody
      obtain ⟨g', bad', copies', hread', hends, -⟩ := hread.walk_pass hchains ht hfirst hsome
      have hended : Ended t chains.entries := Or.inl (by simpa using hnobody)
      refine ⟨t, g', bad', copies', Int.le_refl t, hended, fun t' _ _ => by omega, hread',
        fun fuel hfuel => ?_⟩
      obtain ⟨fuel, rfl⟩ := Nat.exists_eq_succ_of_ne_zero (Nat.ne_of_gt hfuel)
      exact hends hended fuel
  | succ n ih =>
      intro t g bad copies ht hfirst hsome hread hnobody
      obtain ⟨g', bad', copies', hread', hends, hgoes⟩ := hread.walk_pass hchains ht hfirst hsome
      by_cases hended : Ended t chains.entries
      · refine ⟨t, g', bad', copies', Int.le_refl t, hended, fun t' _ _ => by omega, hread',
          fun fuel hfuel => ?_⟩
        obtain ⟨fuel, rfl⟩ := Nat.exists_eq_succ_of_ne_zero (Nat.ne_of_gt (Nat.zero_lt_of_lt hfuel))
        exact hends hended fuel
      · have hlow : t - ((n + 1 : Nat) : Int) = t - 1 - n := by omega
        rw [hlow] at hnobody
        have hnext := @ih (t - 1) g' bad' copies'
        rw [Int.sub_add_cancel] at hnext
        obtain ⟨l, g'', bad'', copies'', hl, hendedl, hbetween, hread'', hwalk⟩ :=
          hnext (by omega) (fun heq => by omega) (exists_reaches_of_not_ended hended) hread' hnobody
        refine ⟨l, g'', bad'', copies'', by omega, hendedl, fun t' hlt hle => ?_, hread'',
          fun fuel hfuel => ?_⟩
        · by_cases heq : t' = t
          · exact heq ▸ hended
          · exact hbetween t' hlt (by omega)
        · obtain ⟨fuel, rfl⟩ :=
            Nat.exists_eq_succ_of_ne_zero (Nat.ne_of_gt (Nat.zero_lt_of_lt hfuel))
          rw [hgoes hended]
          exact hwalk fuel (by omega)

/-! ### `build_fork_graph` -/

omit [DecidableEq Peer] in
/-- At some height no chain is left. -/
theorem exists_unreached (chains : Dict Peer (List SimpleBlock)) (h : Int) :
    ∃ n : Nat, ∀ e ∈ chains.entries, ¬Reaches (h - n) e.2 := by
  have hbound : ∀ blocks : List SimpleBlock, ∃ m : Int, m ≤ h ∧ ∀ b ∈ blocks, m < b.num := by
    intro blocks
    induction blocks with
    | nil => exact ⟨h, Int.le_refl h, by simp⟩
    | cons b blocks ih =>
        obtain ⟨m, hm, hall⟩ := ih
        refine ⟨min m (b.num - 1), by omega, fun d hd => ?_⟩
        rcases List.mem_cons.mp hd with rfl | hd
        · omega
        · have hlt := hall d hd
          omega
  obtain ⟨m, hm, hall⟩ := hbound chains.values.flatten
  refine ⟨(h - m).toNat, fun e he => ?_⟩
  rintro ⟨b, hb, hnum⟩
  have hlt := hall b (mem_flatten_of_mem he hb)
  omega

omit [DecidableEq Peer] in
/-- Tails that differ are not none. -/
theorem exists_reaches_of_differ (hdiffer : ¬Agree h chains.entries) :
    ∃ e ∈ chains.entries, Reaches h e.2 := by
  by_contra hnobody
  push Not at hnobody
  exact hdiffer fun d hd _ _ hreaches _ => absurd hreaches (hnobody d hd)

omit [DecidableEq Peer] in
/-- The tails' oldest blocks are compared. -/
theorem compare_tails (hchains : ReadFrom h chains) :
    compareAcross (fun tail => tail.oldest.ident) (chains.mapValues (tailAt h)).values = true ↔
      Agree h chains.entries := by
  have hvalues : (chains.mapValues (tailAt h)).values
      = chains.entries.map fun e => tailAt h e.2 := by
    rw [Dict.values, Dict.mapValues, List.map_map]
    rfl
  rw [hvalues, compareAcross_map, compareAcross_eq_true_iff]
  constructor
  · intro hall d hd e he hreaches hreaches'
    exact hchains.ids _ (blockAt_mem_flatten hd hreaches) _ (blockAt_mem_flatten he hreaches')
      (hall d hd e he)
  · intro hagree d hd e he
    exact congrArg SimpleBlock.ident (hagree d hd e he (hchains.reaches d.2 (mem_values hd))
      (hchains.reaches e.2 (mem_values he)))

/-- **Tails that agree** are all there is to read. -/
theorem buildForkGraph_agree (hchains : ReadFrom h chains) (hagree : Agree h chains.entries) :
    ∃ g, ReadDown chains h h g [] [] ∧ ∀ fuel,
      buildForkGraph fuel (chains.mapValues (below h)) (chains.mapValues (tailAt h))
        = some (.ok (g, [])) := by
  obtain ⟨g, htails, hread⟩ := readDown_tails hchains
  refine ⟨g, hread, fun fuel => ?_⟩
  rw [buildForkGraph, htails]
  dsimp only
  rw [if_pos ((compare_tails hchains).mpr hagree)]

/-- **A first pass that begins with a chain that stops** is the end of it. -/
theorem buildForkGraph_error (hchains : ReadFrom h chains) (hdiffer : ¬Agree h chains.entries)
    {e : Peer × List SimpleBlock} (hstops : StopsFirst (h - 1) e chains.entries) (fuel : Nat) :
    buildForkGraph (fuel + 1) (chains.mapValues (below h)) (chains.mapValues (tailAt h))
      = some (.error .unboundLocalError) := by
  obtain ⟨g, htails, -⟩ := readDown_tails hchains
  have hentries : (chains.mapValues (below h)).entries
      = chains.entries.map fun e => (e.1, below h e.2) := rfl
  rw [buildForkGraph, htails]
  dsimp only
  rw [if_neg fun hsame => hdiffer ((compare_tails hchains).mp hsame), walkToAncestor, hentries,
    nextHeads_error hchains hstops]

/-- **The loop of `build_fork_graph`**, when its first pass begins with a chain that delivers: it
ends, at the first height where it can, and the chains that have stopped are pruned. -/
theorem buildForkGraph_differ (hchains : ReadFrom h chains) (hdiffer : ¬Agree h chains.entries)
    (hfirst : ∀ e, ¬StopsFirst (h - 1) e chains.entries) :
    ∃ l g bad copies, l < h ∧ Ended l chains.entries ∧
      (∀ t, l < t → t < h → ¬Ended t chains.entries) ∧ ReadDown chains h l g bad copies ∧
      ∃ n, ∀ fuel, n < fuel →
        buildForkGraph fuel (chains.mapValues (below h)) (chains.mapValues (tailAt h))
          = (pruneUnreportingPeers fuel g bad).map fun pruned =>
              pruned.map fun graph => (graph, bad) := by
  obtain ⟨g, htails, hread⟩ := readDown_tails hchains
  obtain ⟨n, hnobody⟩ := exists_unreached chains (h - 1)
  have hsome : ∃ e ∈ chains.entries, Reaches (h - 1 + 1) e.2 := by
    rw [Int.sub_add_cancel]
    exact exists_reaches_of_differ hdiffer
  have hwalk := @ReadDown.walk_ends _ _ _ _ hchains n (h - 1) g [] [] (by omega)
    (fun _ => hfirst) hsome
  rw [Int.sub_add_cancel] at hwalk
  obtain ⟨l, g', bad, copies, hl, hended, hbetween, hread', hwalk'⟩ := hwalk hread hnobody
  refine ⟨l, g', bad, copies, by omega, hended, fun t hlt ht => hbetween t hlt (by omega), hread',
    n, fun fuel hfuel => ?_⟩
  have hentries : (chains.mapValues (below h)).entries
      = chains.entries.map fun e => (e.1, below h e.2) := rfl
  have hhead : headBefore chains h (h - 1) = none := if_pos (Int.sub_add_cancel h 1)
  have hloop := hwalk' fuel hfuel
  rw [hhead] at hloop
  rw [buildForkGraph, htails]
  dsimp only
  rw [if_neg fun hsame => hdiffer ((compare_tails hchains).mp hsame), hentries, hloop]

end Reading

end Evoting
