/-
`build_fork_graph` on chains that stop.

Where a generator stops, the pass still appends `head` for its chain: the block of the
last chain that delivered, in this pass or, when none has yet, in the pass before.  A
block of this pass does no harm, the peer is listed with it once and pruned.  An old one
keeps the pass from being the last, and if it is the chain's own last block the peer
is listed with it twice and pruned once; in the first pass there is none.
-/
import Evoting.Lib.Fuel
import Evoting.Proofs.Descent
import Evoting.Proofs.Prune
import Mathlib.Data.Int.LeastGreatest

namespace Evoting

open ForkGraph

variable {Peer : Type}

/-! ### What is claimed -/

/-- **The height of the common ancestor**: the highest at which the chains that have not stopped
above it agree. -/
structure IsAncestor (chains : Dict Peer (List SimpleBlock)) (h a : Int) : Prop where
  le : a ≤ h
  agree : Agree a chains.entries
  highest : ∀ t, a < t → t ≤ h → ¬Agree t chains.entries

/-- The nodes that a walk yields; a graph without blocks has none. -/
def Yields (g : ForkGraph Peer) (nodes : List (ForkGraphNode Peer)) : Prop :=
  (g.rootNode = none ∧ nodes = []) ∨ Ends g.walk (.ok nodes)

section

variable [DecidableEq Peer]

/-- **What `build_fork_graph` is to make of chains that stop**: it returns, the errors are the
chains that stop above the ancestor, and a walk lists none of these, and every other peer once
under each of its blocks that were read, down to the ancestor or further. -/
def HandlesStops (chains : Dict Peer (List SimpleBlock)) (h a : Int) : Prop :=
  ∃ graph errors nodes l,
    Ends (buildForkGraph · (chains.mapValues (below h)) (chains.mapValues (tailAt h)))
      (.ok (graph, errors)) ∧
    errors.Nodup ∧
    (∀ peer, peer ∈ errors ↔ ∃ chain, chains.get? peer = some chain ∧ ¬Reaches a chain) ∧
    Yields graph nodes ∧ (∀ peer ∈ errors, listedBy peer nodes = []) ∧ l ≤ a ∧
    ∀ e ∈ chains.entries, e.1 ∉ errors → Reaches l e.2 ∧ (listedBy e.1 nodes).Perm (above l e.2)

end

/-- **Where an old head does no harm.** -/
structure OldHeadsHarmless (chains : Dict Peer (List SimpleBlock)) (h a : Int) : Prop where
  /-- The first pass begins with a chain that delivers. -/
  first : ∀ e, ¬StopsFirst (h - 1) e chains.entries
  /-- If the pass at the ancestor does not, all chains that have the ancestor deliver in the pass
  after it. -/
  last : ∀ e, StopsFirst a e chains.entries →
    ∀ d ∈ chains.entries, Reaches a d.2 → Reaches (a - 1) d.2
  /-- A chain that stops in a later pass before any has delivered does not end in the block that
  `head` still is, or from the root no path leads to that block. -/
  between : ∀ t e, a ≤ t → t + 1 < h → StopsFirst t e chains.entries →
    lastAt (t + 1) chains.entries = some (blockAt (t + 1) e.2) →
    ∀ root, (firstAt a chains.entries).or (firstAt (a + 1) chains.entries) = some root →
      ¬LeadsTo (readPairs chains a) root.previous (blockAt (t + 1) e.2).previous

/-! ### Paths of blocks -/

section Paths

variable {chains : Dict Peer (List SimpleBlock)} {h l : Int}
  {adds adds' : List (Peer × SimpleBlock)} {root : SimpleBlock}

theorem LeadsTo.mono (hsub : ∀ a ∈ adds, ∃ peer, (peer, a.2) ∈ adds') {start key : PyString}
    (hleads : LeadsTo adds start key) : LeadsTo adds' start key := by
  induction hleads with
  | refl => exact .refl
  | block hadded _ ih =>
      obtain ⟨peer, hpeer⟩ := hsub _ hadded
      exact .block hpeer ih

/-- Numbers go up from the root. -/
theorem num_le_of_leadsTo (hchains : ReadFrom h chains)
    (hadds : ∀ a ∈ adds, a.2 ∈ chains.values.flatten) (hroot : root ∈ chains.values.flatten)
    {key : PyString} (hleads : LeadsTo adds root.previous key) :
    ∀ b ∈ chains.values.flatten, b.previous = key → root.num ≤ b.num := by
  induction hleads with
  | refl =>
      intro b hb hprevious
      exact Int.le_of_eq (hchains.previous_num root hroot b hb hprevious.symm)
  | @block peer p hadded _ ih =>
      intro b hb hprevious
      have hp := hadds _ hadded
      have hle := ih p hp rfl
      have hnum := hchains.previous_ident b hb p hp hprevious
      omega

/-- **The blocks that a root leads to are a tree.** -/
theorem ReadFrom.treelike (hchains : ReadFrom h chains)
    (hadds : ∀ a ∈ adds, a.2 ∈ chains.values.flatten) (hroot : root ∈ chains.values.flatten) :
    Treelike adds root.previous where
  no_return a ha hleads hident := by
    have hle := num_le_of_leadsTo hchains hadds hroot hleads a.2 (hadds a ha) rfl
    have hnum := hchains.previous_ident root hroot a.2 (hadds a ha) hident.symm
    omega
  one_previous a ha b hb _ _ hident _ := by
    rw [hchains.ids a.2 (hadds a ha) b.2 (hadds b hb) hident]

/-- **A chain's own blocks** are led to from its block at the lowest height. -/
theorem leadsTo_above (hlinked : ∀ chain ∈ chains.values, Linked chain)
    {e : Peer × List SimpleBlock} (he : e ∈ chains.entries) (hreaches : Reaches l e.2)
    (hsub : readPairs chains l ⊆ adds) :
    ∀ (n : Nat) {b : SimpleBlock}, b ∈ e.2 → l ≤ b.num → (b.num - l).toNat ≤ n →
      LeadsTo adds (blockAt l e.2).previous b.previous := by
  have hchain := hlinked e.2 (mem_values he)
  obtain ⟨hmem, hnum⟩ := blockAt_spec hreaches
  intro n
  induction n with
  | zero =>
      intro b hb hle hn
      rw [hchain.eq_of_num_eq hmem hb (by omega)]
      exact .refl
  | succ n ih =>
      intro b hb hle hn
      by_cases hlow : b.num = l
      · rw [hchain.eq_of_num_eq hmem hb (by omega)]
        exact .refl
      · obtain ⟨p, hp, hnump, hprevious⟩ := hchain.exists_previous hb hmem (by omega)
        rw [hprevious]
        exact .block (hsub (mem_readPairs_iff.mpr ⟨e, he, rfl, hp, by show l ≤ p.num; omega⟩))
          (ih hp (by omega) (by omega))

end Paths

/-! ### Counting -/

section Counting

variable [DecidableEq Peer] {chains : Dict Peer (List SimpleBlock)} {h l : Int}

theorem count_filterMap_peer (peer : Peer) (b : SimpleBlock) : ∀ l : List (Peer × SimpleBlock),
    (l.filterMap fun a => if a.1 = peer then some a.2 else none).count b = l.count (peer, b) := by
  intro l
  induction l with
  | nil => rfl
  | cons a l ih =>
      rw [List.filterMap_cons, List.count_cons, ← ih]
      obtain ⟨other, block⟩ := a
      by_cases hpeer : other = peer
      · simp [hpeer, List.count_cons]
      · simp [hpeer]

theorem count_listedBy (peer : Peer) (b : SimpleBlock) (nodes : List (ForkGraphNode Peer)) :
    (listedBy peer nodes).count b = (listedIn nodes).count (peer, b) :=
  count_filterMap_peer peer b (listedIn nodes)

theorem count_readPairs {e : Peer × List SimpleBlock} (he : e ∈ chains.entries)
    (b : SimpleBlock) : (readPairs chains l).count (e.1, b) = (above l e.2).count b := by
  rw [← count_filterMap_peer, readPairs_peer he]

omit [DecidableEq Peer] in
theorem count_above_le {chain : List SimpleBlock} (hlinked : Linked chain) (b : SimpleBlock) :
    (above l chain).count b ≤ 1 := by
  have hnodup : chain.Nodup := hlinked.pairwise.imp fun hlt heq => by
    rw [heq] at hlt
    exact Int.lt_irrefl _ hlt
  exact List.nodup_iff_count_le_one.mp (hnodup.filter _) b

variable {g : ForkGraph Peer} {bad : List Peer} {copies : List (Peer × SimpleBlock)}

/-- A copied block is one that a chain has. -/
theorem ReadDown.copied (hread : ReadDown chains h l g bad copies) :
    ∀ a ∈ readPairs chains l ++ copies, ∃ peer, (peer, a.2) ∈ readPairs chains l := by
  intro a ha
  rcases List.mem_append.mp ha with hmem | hmem
  · exact ⟨a.1, hmem⟩
  · obtain ⟨t, hle, -, before, e, after, hsplit, -, -, -, hlast⟩ := (hread.mem_copies a).mp hmem
    refine exists_peer ⟨hread.listed a ha, ?_⟩
    rcases Option.or_eq_some_iff.mp hlast with hlast | ⟨-, hlast⟩
    · obtain ⟨d, -, hreaches, heq⟩ := exists_of_lastAt hlast
      rw [← heq, (blockAt_spec hreaches).2]
      exact hle
    · obtain ⟨d, -, hreaches, heq⟩ := exists_of_lastAt hlast
      rw [← heq, (blockAt_spec hreaches).2]
      omega

/-- The copies do not lead further. -/
theorem ReadDown.leadsTo_iff (hread : ReadDown chains h l g bad copies) {start key : PyString} :
    LeadsTo (readPairs chains l ++ copies) start key ↔ LeadsTo (readPairs chains l) start key :=
  ⟨LeadsTo.mono hread.copied, LeadsTo.mono fun a ha => ⟨a.1, List.mem_append_left _ ha⟩⟩

/-- A chain that has not stopped is not among the errors, and has no copy. -/
theorem ReadDown.good (hchains : ReadFrom h chains) (hread : ReadDown chains h l g bad copies)
    {e : Peer × List SimpleBlock} (he : e ∈ chains.entries) (hreaches : Reaches l e.2) :
    bad.count e.1 = 0 ∧ ∀ b, copies.count (e.1, b) = 0 := by
  have hnot : ¬∃ chain, chains.get? e.1 = some chain ∧ ¬Reaches l chain := by
    rintro ⟨chain, hget, hstops⟩
    rw [get?_of_mem he, Option.some.injEq] at hget
    exact hstops (hget ▸ hreaches)
  constructor
  · rw [List.count_eq_zero, hread.mem_bad]
    exact hnot
  · intro b
    rw [List.count_eq_zero, hread.mem_copies]
    rintro ⟨t, hle, hlt, hcopy⟩
    exact hnot (hcopy.stopped hchains hle hlt)

/-- **A chain that has not stopped** is listed under its own blocks. -/
theorem ReadDown.listedBy_good (hchains : ReadFrom h chains)
    (hread : ReadDown chains h l g bad copies) {nodes : List (ForkGraphNode Peer)}
    {e : Peer × List SimpleBlock} (he : e ∈ chains.entries) (hreaches : Reaches l e.2)
    (hnodes : ListLedTo nodes (readPairs chains l ++ copies) (blockAt l e.2).previous bad) :
    (listedBy e.1 nodes).Perm (above l e.2) := by
  obtain ⟨hbad, hcopies⟩ := hread.good hchains he hreaches
  rw [List.perm_iff_count]
  intro b
  obtain ⟨hled, hnot⟩ := hnodes (e.1, b)
  rw [count_listedBy]
  by_cases hleads : LeadsTo (readPairs chains l ++ copies) (blockAt l e.2).previous b.previous
  · rw [hled hleads, List.count_append, hcopies b, hbad, count_readPairs he]
    rfl
  · have hother : b ∉ above l e.2 := by
      intro hmem
      obtain ⟨hb, hle⟩ := List.mem_filter.mp hmem
      rw [decide_eq_true_eq] at hle
      exact hleads (leadsTo_above hchains.linked he hreaches (List.subset_append_left _ _) _ hb hle
        (Nat.le_refl _))
    rw [hnot hleads, List.count_eq_zero.mpr hother]

/-- **A chain that has stopped** is listed only where it was added with its own block twice. -/
theorem ReadDown.listedBy_bad (hchains : ReadFrom h chains)
    (hread : ReadDown chains h l g bad copies) {nodes : List (ForkGraphNode Peer)}
    {start : PyString} {e : Peer × List SimpleBlock} (he : e ∈ chains.entries)
    (hstops : ¬Reaches l e.2)
    (hnodes : ListLedTo nodes (readPairs chains l ++ copies) start bad) :
    listedBy e.1 nodes = [] ↔ ∀ b ∈ above l e.2, (e.1, b) ∈ copies →
      ¬LeadsTo (readPairs chains l) start b.previous := by
  have hbad : bad.count e.1 = 1 :=
    List.count_eq_one_of_mem hread.bad_nodup ((hread.mem_bad _).mpr ⟨e.2, get?_of_mem he, hstops⟩)
  have hcopies : ∀ b, copies.count (e.1, b) ≤ 1 :=
    fun b => List.nodup_iff_count_le_one.mp hread.copies_nodup.of_map (e.1, b)
  have hown : ∀ b, (above l e.2).count b ≤ 1 :=
    count_above_le (hchains.linked e.2 (mem_values he))
  rw [List.eq_nil_iff_forall_not_mem]
  refine forall_congr' fun b => ?_
  obtain ⟨hled, hnot⟩ := hnodes (e.1, b)
  rw [← List.count_eq_zero, count_listedBy, ← hread.leadsTo_iff]
  by_cases hleads : LeadsTo (readPairs chains l ++ copies) start b.previous
  · rw [hled hleads, List.count_append, count_readPairs he, hbad, ← List.count_pos_iff,
      ← List.count_pos_iff]
    have hle := hcopies b
    have hle' := hown b
    simp only [hleads, not_true_eq_false, imp_false]
    omega
  · simp [hnot hleads, hleads]

end Counting

/-! ### The outcome -/

section Outcome

variable {chains : Dict Peer (List SimpleBlock)} {h a l : Int}

/-- There is a common ancestor, or a height at which no chain is left. -/
theorem exists_isAncestor (chains : Dict Peer (List SimpleBlock)) (h : Int) :
    ∃ a, IsAncestor chains h a := by
  obtain ⟨n, hnobody⟩ := exists_unreached chains h
  have hagree : Agree (h - n) chains.entries := fun d hd _ _ hreaches _ =>
    absurd hreaches (hnobody d hd)
  obtain ⟨a, ⟨hle, ha⟩, hgreatest⟩ := Int.exists_greatest_of_bdd
    (P := fun z => z ≤ h ∧ Agree z chains.entries) ⟨h, fun z hz => hz.1⟩
    ⟨h - n, by omega, hagree⟩
  refine ⟨a, hle, ha, fun t hlt hth hagrees => ?_⟩
  have hle := hgreatest t ⟨hth, hagrees⟩
  omega

theorem Ended.agree (hended : Ended l chains.entries) : Agree l chains.entries := by
  rcases hended with hnobody | ⟨hagree, -⟩
  · exact fun d hd _ _ hreaches _ => absurd hreaches (hnobody d hd)
  · exact hagree

/-- The loop does not end above the ancestor. -/
theorem IsAncestor.le_of_ended (ha : IsAncestor chains h a) (hended : Ended l chains.entries)
    (hl : l ≤ h) : l ≤ a := by
  by_contra hlt
  exact ha.highest l (by omega) hl hended.agree

/-- Where the loop does not end at the ancestor, a pass begins with an old head there. -/
theorem IsAncestor.exists_stopsFirst (ha : IsAncestor chains h a)
    (hgoes : ¬Ended a chains.entries) : ∃ e, StopsFirst a e chains.entries := by
  by_contra hnone
  exact hgoes (Or.inr ⟨ha.agree, not_exists.mp hnone⟩)

/-- A chain's block and the one below it. -/
theorem previous_blockAt {chain : List SimpleBlock} (hchain : Linked chain)
    (hreaches : Reaches l chain) (hbelow : Reaches (l - 1) chain) :
    (blockAt l chain).previous = (blockAt (l - 1) chain).ident := by
  obtain ⟨hmem, hnum⟩ := blockAt_spec hreaches
  obtain ⟨hmem', hnum'⟩ := blockAt_spec hbelow
  obtain ⟨p, hp, hnump, hprevious⟩ := hchain.exists_previous hmem hmem' (by omega)
  rw [hprevious, hchain.eq_of_num_eq hp hmem' (by omega)]

/-- Chains that agree at a height agree below it. -/
theorem agree_pred (hchains : ReadFrom h chains) (hle : l ≤ h) (hagree : Agree l chains.entries) :
    Agree (l - 1) chains.entries := by
  intro d hd e he hreaches hreaches'
  have hreach : ∀ c ∈ chains.entries, Reaches (l - 1) c.2 → Reaches l c.2 := fun c hc hbelow =>
    hchains.reaches_mono hc hbelow (by omega) hle
  have hsame := hagree d hd e he (hreach d hd hreaches) (hreach e he hreaches')
  refine hchains.ids _ (blockAt_mem_flatten hd hreaches) _ (blockAt_mem_flatten he hreaches') ?_
  rw [← previous_blockAt (hchains.linked d.2 (mem_values hd)) (hreach d hd hreaches) hreaches,
    ← previous_blockAt (hchains.linked e.2 (mem_values he)) (hreach e he hreaches') hreaches',
    hsame]

/-- **Where the loop ends**: at the ancestor, or one below it when all chains that have the
ancestor go on there. -/
theorem IsAncestor.eq_or_eq (hchains : ReadFrom h chains) (ha : IsAncestor chains h a)
    (hah : a < h) (hlast : ∀ e, StopsFirst a e chains.entries →
      ∀ d ∈ chains.entries, Reaches a d.2 → Reaches (a - 1) d.2)
    (hl : l < h) (hended : Ended l chains.entries)
    (hbetween : ∀ t, l < t → t < h → ¬Ended t chains.entries) :
    l = a ∨ (l = a - 1 ∧ (∃ d ∈ chains.entries, Reaches a d.2) ∧
      ∀ d ∈ chains.entries, Reaches a d.2 → Reaches (a - 1) d.2) := by
  have hle := ha.le_of_ended hended (Int.le_of_lt hl)
  by_cases heq : l = a
  · exact Or.inl heq
  · have hgoes := hbetween a (by omega) hah
    obtain ⟨e, hstops⟩ := ha.exists_stopsFirst hgoes
    have hall := hlast e hstops
    refine Or.inr ⟨?_, exists_reaches_of_not_ended hgoes, hall⟩
    have hended' : Ended (a - 1) chains.entries := by
      refine Or.inr ⟨agree_pred hchains ha.le ha.agree, ?_⟩
      rintro d ⟨before, after, hsplit, habove, hnot, -⟩
      rw [Int.sub_add_cancel] at habove
      exact hnot (hall d (by rw [hsplit]; simp) habove)
    by_contra hne
    exact hbetween (a - 1) (by omega) (by omega) hended'

section Lower

variable {d : Peer × List SimpleBlock} (hchains : ReadFrom h chains) (hd : d ∈ chains.entries)
  (hreaches : Reaches l d.2) (hbelow : Reaches (l - 1) d.2)

include hchains hd hreaches hbelow

/-- From one block lower, the root still leads to what it led to. -/
theorem leadsTo_lower {key : PyString}
    (hleads : LeadsTo (readPairs chains l) (blockAt l d.2).previous key) :
    LeadsTo (readPairs chains (l - 1)) (blockAt (l - 1) d.2).previous key := by
  obtain ⟨hmem, hnum⟩ := blockAt_spec hbelow
  induction hleads with
  | refl =>
      rw [previous_blockAt (hchains.linked d.2 (mem_values hd)) hreaches hbelow]
      exact .block (mem_readPairs_iff.mpr ⟨d, hd, rfl, hmem, Int.le_of_eq hnum.symm⟩) .refl
  | block hadded _ ih =>
      obtain ⟨e, he, hpeer, hmem, hge⟩ := mem_readPairs_iff.mp hadded
      exact .block (mem_readPairs_iff.mpr ⟨e, he, hpeer, hmem, by omega⟩) ih

/-- What the lower root leads to, beyond its own previous id. -/
theorem leadsTo_upper (hagree : Agree (l - 1) chains.entries) {key : PyString}
    (hleads : LeadsTo (readPairs chains (l - 1)) (blockAt (l - 1) d.2).previous key) :
    key = (blockAt (l - 1) d.2).previous ∨
      LeadsTo (readPairs chains l) (blockAt l d.2).previous key := by
  have hroot := blockAt_mem_flatten hd hreaches
  obtain ⟨-, hnum⟩ := blockAt_spec hreaches
  obtain ⟨-, hnum'⟩ := blockAt_spec hbelow
  induction hleads with
  | refl => exact Or.inl rfl
  | @block peer c hadded _ ih =>
      obtain ⟨e, he, hpeer, hc, -⟩ := mem_readPairs_iff.mp hadded
      have hlisted := mem_flatten_of_mem he hc
      rcases ih with hlow | hleads
      · -- the only block with that previous id is the lower root
        have hcnum : c.num = l - 1 := by
          rw [hchains.previous_num c hlisted _ (blockAt_mem_flatten hd hbelow) hlow, hnum']
        have hsame : c = blockAt (l - 1) d.2 := by
          rw [← hagree e he d hd ⟨c, hc, hcnum⟩ hbelow]
          exact (blockAt_eq (hchains.linked e.2 (mem_values he)) hc hcnum).symm
        rw [hsame, ← previous_blockAt (hchains.linked d.2 (mem_values hd)) hreaches hbelow]
        exact Or.inr .refl
      · have hge := num_le_of_leadsTo hchains (fun a ha => (readTo_of_mem ha).1) hroot hleads c
          hlisted rfl
        exact Or.inr (.block (mem_readPairs_iff.mpr ⟨e, he, hpeer, hc, hnum ▸ hge⟩) hleads)

/-- **What the root leads to** is the same with one block more below it. -/
theorem leadsTo_lower_iff (hagree : Agree (l - 1) chains.entries) {b : SimpleBlock}
    (hb : b ∈ chains.values.flatten) (hle : l ≤ b.num) :
    LeadsTo (readPairs chains (l - 1)) (blockAt (l - 1) d.2).previous b.previous ↔
      LeadsTo (readPairs chains l) (blockAt l d.2).previous b.previous := by
  refine ⟨fun hleads => ?_, leadsTo_lower hchains hd hreaches hbelow⟩
  rcases leadsTo_upper hchains hd hreaches hbelow hagree hleads with hlow | hled
  · have hnum := hchains.previous_num b hb _ (blockAt_mem_flatten hd hbelow) hlow
    rw [(blockAt_spec hbelow).2] at hnum
    omega
  · exact hled

end Lower

variable [DecidableEq Peer]

/-- **Tails that agree**: nothing is read. -/
theorem handlesStops_of_agree (hchains : ReadFrom h chains) (hagree : Agree h chains.entries) :
    HandlesStops chains h h := by
  obtain ⟨g, hread, hbuild⟩ := buildForkGraph_agree hchains hagree
  have hreaches : ∀ e ∈ chains.entries, Reaches h e.2 := fun e he =>
    hchains.reaches e.2 (mem_values he)
  have hbuilds : Ends (buildForkGraph · (chains.mapValues (below h)) (chains.mapValues (tailAt h)))
      (.ok (g, [])) := Ends.of_pos fun fuel => hbuild (fuel + 1)
  cases hentries : chains.entries with
  | nil =>
      have hnil : ∀ e, e ∉ chains.entries := by simp [hentries]
      have hroot : g.rootNode = none := by
        have hnone : g.root = none := by
          rw [hread.root, hentries]
          rfl
        rw [ForkGraph.rootNode, hread.holds.rootKey, hnone]
        rfl
      exact ⟨g, [], [], h, hbuilds, List.nodup_nil, hread.mem_bad, Or.inl ⟨hroot, rfl⟩, by simp,
        Int.le_refl h, fun e he => absurd he (hnil e)⟩
  | cons first rest =>
      have hmem : first ∈ chains.entries := by rw [hentries]; simp
      have hroot : g.root = some (blockAt h first.2) := by
        rw [hread.root, hentries, firstAt_cons, if_pos (hreaches first hmem), Option.some_or]
      obtain ⟨nodes, hwalk, hnodes⟩ := walk_ok hread.holds hroot
        (hchains.treelike hread.listed (blockAt_mem_flatten hmem (hreaches first hmem)))
      refine ⟨g, [], nodes, h, hbuilds, List.nodup_nil, hread.mem_bad, Or.inr hwalk, by simp,
        Int.le_refl h, fun e he _ => ⟨hreaches e he, ?_⟩⟩
      rw [hagree first hmem e he (hreaches first hmem) (hreaches e he)] at hnodes
      exact hread.listedBy_good hchains he (hreaches e he) hnodes

omit [DecidableEq Peer] in
/-- Where chains have been read, there is a first of the lowest blocks. -/
theorem exists_root (hdiffer : ¬Agree h chains.entries)
    (hsome : l + 1 ≠ h → ∃ e ∈ chains.entries, Reaches (l + 1) e.2) :
    ∃ root, (firstAt l chains.entries).or (firstAt (l + 1) chains.entries) = some root ∧
      root ∈ chains.values.flatten := by
  obtain ⟨e, he, hreaches⟩ : ∃ e ∈ chains.entries, Reaches (l + 1) e.2 := by
    by_cases hh : l + 1 = h
    · rw [hh]
      exact exists_reaches_of_differ hdiffer
    · exact hsome hh
  obtain ⟨b, hb⟩ := exists_firstAt he hreaches
  cases hfirst : firstAt l chains.entries with
  | some r =>
      obtain ⟨d, hd, hr, rfl⟩ := exists_of_firstAt hfirst
      exact ⟨_, rfl, blockAt_mem_flatten hd hr⟩
  | none =>
      obtain ⟨d, hd, hr, rfl⟩ := exists_of_firstAt hb
      exact ⟨_, hb, blockAt_mem_flatten hd hr⟩

/-- **What the loop leaves**, when its first pass begins with a chain that delivers. -/
theorem buildForkGraph_lists (hchains : ReadFrom h chains) (hdiffer : ¬Agree h chains.entries)
    (hfirst : ∀ e, ¬StopsFirst (h - 1) e chains.entries) :
    ∃ l g bad copies root graph nodes, l < h ∧ Ended l chains.entries ∧
      (∀ t, l < t → t < h → ¬Ended t chains.entries) ∧ ReadDown chains h l g bad copies ∧
      (firstAt l chains.entries).or (firstAt (l + 1) chains.entries) = some root ∧
      Ends (buildForkGraph · (chains.mapValues (below h)) (chains.mapValues (tailAt h)))
        (.ok (graph, bad)) ∧
      Ends graph.walk (.ok nodes) ∧
      ListLedTo nodes (readPairs chains l ++ copies) root.previous bad := by
  obtain ⟨l, g, bad, copies, hl, hended, hbetween, hread, n, hbuild⟩ :=
    buildForkGraph_differ hchains hdiffer hfirst
  obtain ⟨root, hroot, hlisted⟩ := exists_root (l := l) hdiffer fun hne =>
    exists_reaches_of_not_ended (hbetween (l + 1) (by omega) (by omega))
  obtain ⟨graph, nodes, ⟨m, hprune⟩, hwalk, hnodes⟩ :=
    prune_ok hread.holds (hread.root.trans hroot) (hchains.treelike hread.listed hlisted) bad
  refine ⟨l, g, bad, copies, root, graph, nodes, hl, hended, hbetween, hread, hroot,
    ⟨max n m, fun fuel hfuel => ?_⟩, hwalk, hnodes⟩
  show buildForkGraph fuel _ _ = _
  rw [hbuild fuel (by omega), hprune fuel (by omega)]
  rfl

/-- **Where a peer is added with its own block twice**: an old head is copied for it. -/
theorem ReadDown.mem_copies_own (hchains : ReadFrom h chains)
    (hfirst : ∀ e, ¬StopsFirst (h - 1) e chains.entries) {g : ForkGraph Peer} {bad : List Peer}
    {copies : List (Peer × SimpleBlock)} (hread : ReadDown chains h l g bad copies)
    {e : Peer × List SimpleBlock} (he : e ∈ chains.entries) {b : SimpleBlock} :
    b ∈ above l e.2 ∧ (e.1, b) ∈ copies ↔ ∃ t, l ≤ t ∧ t + 1 < h ∧
      StopsFirst t e chains.entries ∧
      lastAt (t + 1) chains.entries = some (blockAt (t + 1) e.2) ∧ b = blockAt (t + 1) e.2 := by
  have hlinked := hchains.linked e.2 (mem_values he)
  rw [hread.mem_copies]
  constructor
  · rintro ⟨habove, t, hle, hlt, before, e', after, hsplit, hpeer, hreaches, hnot, hlast⟩
    obtain rfl : e' = e := by
      have hget := get?_of_mem (show e' ∈ chains.entries by rw [hsplit]; simp)
      rw [hpeer, get?_of_mem he, Option.some.injEq] at hget
      exact Prod.ext hpeer hget.symm
    have hb := (List.mem_filter.mp habove).1
    cases hbefore : lastAt t before with
    | some old =>
        rw [hbefore, Option.some_or, Option.some.injEq] at hlast
        obtain ⟨d, -, hd, hold⟩ := exists_of_lastAt hbefore
        refine absurd ⟨b, hb, ?_⟩ hnot
        rw [← show old = b from hlast, ← hold, (blockAt_spec hd).2]
    | none =>
        rw [hbefore, Option.none_or] at hlast
        have hstops : StopsFirst t e' chains.entries :=
          ⟨before, after, hsplit, hreaches, hnot, lastAt_eq_none_iff.mp hbefore⟩
        obtain ⟨d, -, hd, hold⟩ := exists_of_lastAt hlast
        have hown : blockAt (t + 1) e'.2 = b :=
          blockAt_eq hlinked hb (by rw [← show blockAt (t + 1) d.2 = b from hold,
            (blockAt_spec hd).2])
        refine ⟨t, hle, ?_, hstops, hown ▸ hlast, hown.symm⟩
        by_contra hge
        exact hfirst e' (by rwa [show h - 1 = t by omega])
  · rintro ⟨t, hle, hlt, ⟨before, after, hsplit, hreaches, hnot, hbefore⟩, hlast, rfl⟩
    obtain ⟨hmem, hnum⟩ := blockAt_spec hreaches
    refine ⟨List.mem_filter.mpr ⟨hmem, ?_⟩, t, hle, by omega, before, e, after, hsplit, rfl,
      hreaches, hnot, ?_⟩
    · rw [decide_eq_true_eq]
      omega
    · rw [lastAt_eq_none_iff.mpr hbefore, Option.none_or]
      exact hlast

omit [DecidableEq Peer] in
/-- The root, where a chain is left and the loop has ended. -/
theorem Ended.root_eq (hended : Ended l chains.entries) {root : SimpleBlock}
    (hroot : (firstAt l chains.entries).or (firstAt (l + 1) chains.entries) = some root)
    {e : Peer × List SimpleBlock} (he : e ∈ chains.entries) (hreaches : Reaches l e.2) :
    root = blockAt l e.2 := by
  obtain ⟨b, hb⟩ := exists_firstAt he hreaches
  obtain ⟨d, hd, hr, heq⟩ := exists_of_firstAt hb
  rw [hb, Option.some_or, Option.some.injEq] at hroot
  rw [← hroot, ← heq]
  exact hended.agree d hd e he hr hreaches

omit [DecidableEq Peer] in
/-- What a walk yields is one list. -/
theorem Yields.eq {g : ForkGraph Peer} {nodes nodes' : List (ForkGraphNode Peer)}
    (hyields : Yields g nodes') (hwalk : Ends g.walk (.ok nodes)) : nodes' = nodes := by
  rcases hyields with ⟨hnone, -⟩ | hyields
  · have herror : Ends g.walk (.error .attributeError) :=
      Ends.of_pos fun fuel => by rw [walk, hnone]
    exact absurd (herror.unique hwalk) (by simp)
  · exact Except.ok.inj (hyields.unique hwalk)

omit [DecidableEq Peer] in
/-- **What the roots lead to**, at the ancestor and where the loop ends. -/
theorem leadsTo_root_iff (hchains : ReadFrom h chains) (ha : IsAncestor chains h a)
    (hended : Ended l chains.entries)
    (hl : l = a ∨ (l = a - 1 ∧ (∃ d ∈ chains.entries, Reaches a d.2) ∧
      ∀ d ∈ chains.entries, Reaches a d.2 → Reaches (a - 1) d.2))
    {root root' : SimpleBlock}
    (hroot : (firstAt l chains.entries).or (firstAt (l + 1) chains.entries) = some root)
    (hroot' : (firstAt a chains.entries).or (firstAt (a + 1) chains.entries) = some root')
    {b : SimpleBlock} (hb : b ∈ chains.values.flatten) (hle : a ≤ b.num) :
    LeadsTo (readPairs chains l) root.previous b.previous ↔
      LeadsTo (readPairs chains a) root'.previous b.previous := by
  rcases hl with rfl | ⟨rfl, ⟨d, hd, hreaches⟩, hall⟩
  · rw [Option.some.inj (hroot.symm.trans hroot')]
  · have hbelow := hall d hd hreaches
    obtain ⟨r, hr⟩ := exists_firstAt hd hreaches
    obtain ⟨e, he, hreaches', heq⟩ := exists_of_firstAt hr
    rw [hr, Option.some_or, Option.some.injEq] at hroot'
    rw [hended.root_eq hroot hd hbelow, ← hroot', ← heq,
      ha.agree e he d hd hreaches' hreaches]
    exact leadsTo_lower_iff hchains hd hreaches hbelow hended.agree hb hle

/-- **If the outcome is right**, no old head has done harm. -/
theorem HandlesStops.oldHeadsHarmless (hchains : ReadFrom h chains) (ha : IsAncestor chains h a)
    (hdiffer : ¬Agree h chains.entries) (hhandles : HandlesStops chains h a) :
    OldHeadsHarmless chains h a := by
  have hah : a < h := lt_of_le_of_ne ha.le fun heq => hdiffer (heq ▸ ha.agree)
  obtain ⟨graph', errors, nodes', l', hbuild', -, herrors, hyields, hnone, -, -⟩ := hhandles
  have hfirst : ∀ e, ¬StopsFirst (h - 1) e chains.entries := by
    intro e hstops
    have herror : Ends (buildForkGraph · (chains.mapValues (below h))
        (chains.mapValues (tailAt h))) (.error .unboundLocalError) :=
      Ends.of_pos fun fuel => buildForkGraph_error hchains hdiffer hstops fuel
    exact absurd (herror.unique hbuild') (by simp)
  obtain ⟨l, g, bad, copies, root, graph, nodes, hl, hended, hbetween, hread, hroot, hbuild, hwalk,
    hnodes⟩ := buildForkGraph_lists hchains hdiffer hfirst
  obtain ⟨rfl, rfl⟩ := Prod.mk.inj (Except.ok.inj (hbuild.unique hbuild'))
  obtain rfl := hyields.eq hwalk
  have hle := ha.le_of_ended hended (Int.le_of_lt hl)
  -- a chain that has the ancestor is no error, so it has been read to the end of the loop
  have hlower : ∀ e ∈ chains.entries, Reaches a e.2 → Reaches l e.2 := by
    intro e he hreaches
    by_contra hnot
    obtain ⟨chain, hget, hstops⟩ := (herrors e.1).mp
      ((hread.mem_bad e.1).mpr ⟨e.2, get?_of_mem he, hnot⟩)
    rw [get?_of_mem he, Option.some.injEq] at hget
    exact hstops (hget ▸ hreaches)
  have hlast : ∀ e, StopsFirst a e chains.entries →
      ∀ d ∈ chains.entries, Reaches a d.2 → Reaches (a - 1) d.2 := by
    intro e hstops d hd hreaches
    have hne : l ≠ a := by
      rintro rfl
      rcases hended with hnobody | ⟨-, hfresh⟩
      · exact hnobody d hd hreaches
      · exact hfresh e hstops
    exact hchains.reaches_mono hd (hlower d hd hreaches) (by omega) (by omega)
  have hcases := ha.eq_or_eq hchains hah hlast hl hended hbetween
  refine ⟨hfirst, hlast, fun t e hat hth hstops hlastAt root' hroot' => ?_⟩
  obtain ⟨before, after, hsplit, habove, hnot, -⟩ := id hstops
  have he : e ∈ chains.entries := by rw [hsplit]; simp
  obtain ⟨hown, hcopy⟩ := (hread.mem_copies_own hchains hfirst he).mpr
    ⟨t, by omega, hth, hstops, hlastAt, rfl⟩
  have hgone : ¬Reaches l e.2 := fun hreaches =>
    hnot (hchains.reaches_mono he hreaches (by omega) (by omega))
  have hnil := hnone e.1 ((hread.mem_bad e.1).mpr ⟨e.2, get?_of_mem he, hgone⟩)
  rw [← leadsTo_root_iff hchains ha hended hcases hroot hroot' (blockAt_mem_flatten he habove)
    (by rw [(blockAt_spec habove).2]; omega)]
  exact (hread.listedBy_bad hchains he hgone hnodes).mp hnil _ hown hcopy

omit [DecidableEq Peer] in
/-- Where the loop ends, the same chains are left as at the ancestor. -/
theorem IsAncestor.reaches_iff (hchains : ReadFrom h chains) (ha : IsAncestor chains h a)
    (hl : l = a ∨ (l = a - 1 ∧ (∃ d ∈ chains.entries, Reaches a d.2) ∧
      ∀ d ∈ chains.entries, Reaches a d.2 → Reaches (a - 1) d.2))
    {e : Peer × List SimpleBlock} (he : e ∈ chains.entries) : Reaches l e.2 ↔ Reaches a e.2 := by
  rcases hl with rfl | ⟨rfl, -, hall⟩
  · exact Iff.rfl
  · exact ⟨fun hreaches => hchains.reaches_mono he hreaches (by omega) ha.le, hall e he⟩

/-- **If no old head does harm**, the outcome is right. -/
theorem OldHeadsHarmless.handlesStops (hchains : ReadFrom h chains) (ha : IsAncestor chains h a)
    (hdiffer : ¬Agree h chains.entries) (hharmless : OldHeadsHarmless chains h a) :
    HandlesStops chains h a := by
  have hah : a < h := lt_of_le_of_ne ha.le fun heq => hdiffer (heq ▸ ha.agree)
  obtain ⟨l, g, bad, copies, root, graph, nodes, hl, hended, hbetween, hread, hroot, hbuild, hwalk,
    hnodes⟩ := buildForkGraph_lists hchains hdiffer hharmless.first
  have hcases := ha.eq_or_eq hchains hah hharmless.last hl hended hbetween
  have herrors : ∀ peer, peer ∈ bad ↔
      ∃ chain, chains.get? peer = some chain ∧ ¬Reaches a chain := by
    intro peer
    rw [hread.mem_bad]
    refine exists_congr fun chain => and_congr_right fun hget => not_congr ?_
    exact ha.reaches_iff hchains hcases (Dict.get?_eq_some_iff.mp hget)
  obtain ⟨root', hroot', -⟩ := exists_root (l := a) hdiffer fun hne => by
    by_contra hnobody
    push Not at hnobody
    exact ha.highest (a + 1) (by omega) (by omega) fun d hd _ _ hreaches _ =>
      absurd hreaches (hnobody d hd)
  refine ⟨graph, bad, nodes, l, hbuild, hread.bad_nodup, herrors, Or.inr hwalk,
    fun peer hpeer => ?_, ha.le_of_ended hended (Int.le_of_lt hl), fun e he hgood => ?_⟩
  · obtain ⟨chain, hget, hnot⟩ := (hread.mem_bad peer).mp hpeer
    have he : (peer, chain) ∈ chains.entries := Dict.get?_eq_some_iff.mp hget
    refine (hread.listedBy_bad hchains he hnot hnodes).mpr fun b hown hcopy => ?_
    obtain ⟨t, hlt, hth, hstops, hlastAt, rfl⟩ :=
      (hread.mem_copies_own hchains hharmless.first he).mp ⟨hown, hcopy⟩
    obtain ⟨before, after, -, habove, hstopped, -⟩ := id hstops
    have hat : a ≤ t := by
      by_contra hlow
      obtain ⟨rfl, -, hall⟩ : l = a - 1 ∧ _ := hcases.resolve_left (by omega)
      obtain rfl : t = a - 1 := by omega
      rw [Int.sub_add_cancel] at habove
      exact hstopped (hall _ he habove)
    rw [leadsTo_root_iff hchains ha hended hcases hroot hroot' (blockAt_mem_flatten he habove)
      (by rw [(blockAt_spec habove).2]; omega)]
    exact hharmless.between t (peer, chain) hat hth hstops hlastAt root' hroot'
  · have hreaches : Reaches l e.2 := by
      by_contra hnot
      exact hgood ((hread.mem_bad e.1).mpr ⟨e.2, get?_of_mem he, hnot⟩)
    rw [hended.root_eq hroot he hreaches] at hnodes
    exact ⟨hreaches, hread.listedBy_good hchains he hreaches hnodes⟩

/-- **When `build_fork_graph` handles chains that stop**: where no old head does harm. -/
theorem handlesStops_iff (hchains : ReadFrom h chains) :
    ∃ a, IsAncestor chains h a ∧
      (HandlesStops chains h a ↔ a = h ∨ OldHeadsHarmless chains h a) := by
  obtain ⟨a, ha⟩ := exists_isAncestor chains h
  refine ⟨a, ha, ?_⟩
  by_cases hagree : Agree h chains.entries
  · have hsame : a = h := by
      by_contra hne
      have hle := ha.le
      exact ha.highest h (by omega) (Int.le_refl h) hagree
    subst hsame
    exact ⟨fun _ => Or.inl rfl, fun _ => handlesStops_of_agree hchains hagree⟩
  · have hne : a ≠ h := fun heq => hagree (heq ▸ ha.agree)
    refine ⟨fun hhandles => Or.inr (hhandles.oldHeadsHarmless hchains ha hagree), ?_⟩
    rintro (heq | hharmless)
    · exact absurd heq hne
    · exact hharmless.handlesStops hchains ha hagree

end Outcome

/-! ### Examples -/

/-- Two chains on a fork; the second one stops above the common block. -/
def cutSecond : Dict Nat (List SimpleBlock) :=
  (Dict.empty.set 0 [⟨6, ['b'], ['a']⟩, ⟨5, ['a'], ['0']⟩]).set 1 [⟨6, ['c'], ['a']⟩]

theorem handlesStops_cutSecond : ∃ a, IsAncestor cutSecond 6 a ∧
    (HandlesStops cutSecond 6 a ↔ a = 6 ∨ OldHeadsHarmless cutSecond 6 a) :=
  handlesStops_iff ⟨by decide, by decide, by decide, by decide, by decide⟩

/-- The same chains the other way round. -/
def cutFirst : Dict Nat (List SimpleBlock) :=
  (Dict.empty.set 0 [⟨6, ['c'], ['a']⟩]).set 1 [⟨6, ['b'], ['a']⟩, ⟨5, ['a'], ['0']⟩]

/-- The first of three chains stops in the second pass, after block `x` as the last chain had it. -/
def cutLater : Dict Nat (List SimpleBlock) :=
  ((Dict.empty.set 0 [⟨6, ['b'], ['x']⟩, ⟨5, ['x'], ['w']⟩]).set 1
    [⟨6, ['c'], ['y']⟩, ⟨5, ['y'], ['z']⟩, ⟨4, ['z'], ['q']⟩, ⟨3, ['q'], ['0']⟩]).set 2
    [⟨6, ['b'], ['x']⟩, ⟨5, ['x'], ['w']⟩, ⟨4, ['w'], ['q']⟩, ⟨3, ['q'], ['0']⟩]

/-- The graph of these chains: peer 0 is still listed with `x`. -/
def laterGraph : ForkGraph Nat :=
  ⟨(((((Dict.empty.set ['x'] ⟨Dict.empty.set ['b'] [2], 6, ['x']⟩).set
    ['y'] ⟨Dict.empty.set ['c'] [1], 6, ['y']⟩).set
    ['w'] ⟨Dict.empty.set ['x'] [2, 0], 5, ['w']⟩).set
    ['z'] ⟨Dict.empty.set ['y'] [1], 5, ['z']⟩).set
    ['q'] ⟨(Dict.empty.set ['z'] [1]).set ['w'] [2], 4, ['q']⟩).set
    ['0'] ⟨Dict.empty.set ['q'] [1, 2], 3, ['0']⟩, some ['0'], some ⟨3, ['q'], ['0']⟩⟩

/-- The nodes of a walk of it. -/
def laterNodes : List (ForkGraphNode Nat) :=
  [⟨Dict.empty.set ['q'] [1, 2], 3, ['0']⟩, ⟨(Dict.empty.set ['z'] [1]).set ['w'] [2], 4, ['q']⟩,
    ⟨Dict.empty.set ['y'] [1], 5, ['z']⟩, ⟨Dict.empty.set ['x'] [2, 0], 5, ['w']⟩,
    ⟨Dict.empty.set ['c'] [1], 6, ['y']⟩, ⟨Dict.empty.set ['b'] [2], 6, ['x']⟩]

/-- When the first chain stops in the first pass, `head` is not set; when it stops in a later one,
it can stay in the graph. -/
theorem not_handlesStops :
    (ReadFrom 6 cutFirst ∧ IsAncestor cutFirst 6 5 ∧
      (∀ fuel, buildForkGraph (fuel + 1) (cutFirst.mapValues (below 6))
        (cutFirst.mapValues (tailAt 6)) = some (.error .unboundLocalError)) ∧
      ¬HandlesStops cutFirst 6 5) ∧
    ReadFrom 6 cutLater ∧ IsAncestor cutLater 6 3 ∧
      (∀ fuel, buildForkGraph (fuel + 9) (cutLater.mapValues (below 6))
        (cutLater.mapValues (tailAt 6)) = some (.ok (laterGraph, [0]))) ∧
      (∀ fuel, laterGraph.walk (fuel + 9) = some (.ok laterNodes)) ∧
      ¬HandlesStops cutLater 6 3 := by
  have hfirst : IsAncestor cutFirst 6 5 := by
    refine ⟨by decide, by decide, fun t hlt hle => ?_⟩
    obtain rfl : t = 6 := by omega
    decide
  have hlater : IsAncestor cutLater 6 3 := by
    refine ⟨by decide, by decide, fun t hlt hle => ?_⟩
    obtain rfl | rfl | rfl : t = 4 ∨ t = 5 ∨ t = 6 := by omega
    · decide
    · decide
    · decide
  have herror : ∀ fuel, buildForkGraph (fuel + 1) (cutFirst.mapValues (below 6))
      (cutFirst.mapValues (tailAt 6)) = some (.error .unboundLocalError) := fun _ => rfl
  have hgraph : ∀ fuel, buildForkGraph (fuel + 9) (cutLater.mapValues (below 6))
      (cutLater.mapValues (tailAt 6)) = some (.ok (laterGraph, [0])) := fun _ => rfl
  have hwalk : ∀ fuel, laterGraph.walk (fuel + 9) = some (.ok laterNodes) := fun _ => rfl
  refine ⟨⟨⟨by decide, by decide, by decide, by decide, by decide⟩, hfirst, herror, ?_⟩,
    ⟨by decide, by decide, by decide, by decide, by decide⟩, hlater, hgraph, hwalk, ?_⟩
  · rintro ⟨graph, errors, nodes, l, hbuild, -⟩
    exact absurd ((Ends.of_pos herror).unique hbuild) (by simp)
  · rintro ⟨graph, errors, nodes, l, ⟨n, hbuild⟩, -, -, hyields, hbad, -⟩
    obtain ⟨rfl, rfl⟩ := Prod.mk.inj (Except.ok.inj (Option.some.inj
      ((hgraph n).symm.trans (hbuild (n + 9) (by omega)))))
    have hends : Ends laterGraph.walk (.ok laterNodes) := by
      refine ⟨8, fun fuel hfuel => ?_⟩
      obtain ⟨k, rfl⟩ : ∃ k, fuel = k + 9 := ⟨fuel - 9, by omega⟩
      exact hwalk k
    obtain rfl := hyields.eq hends
    exact absurd (hbad 0 (by simp)) (by decide)

end Evoting
