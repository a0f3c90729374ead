/-
The fork graph of a family of chains.

`get_tails` reads every chain down to the lowest head, `build_fork_graph` on to the
highest block that all chains have.  At every height on the way each chain has been
cut there: what was read is in the graph, what is below is left of the generator
(`getTails_eq`, `walkToAncestor_ok`).  The blocks that were read are a tree with that
block as its root, and `Proofs.ForkGraph` says what a walk of the graph then lists.
-/
import Evoting.Proofs.Chain
import Evoting.Proofs.ForkGraph

namespace Evoting

open ForkGraph

variable {Peer : Type}

/-! ### Families of chains -/

/-- A block that all chains have. -/
def Common (chains : Dict Peer (List SimpleBlock)) (b : SimpleBlock) : Prop :=
  ∀ chain ∈ chains.values, b ∈ chain

/-- **Chains of blocks**: some chains, each linked from its head downwards, in which an id is that
of one block, and with a block that all have. -/
structure AreChains (chains : Dict Peer (List SimpleBlock)) : Prop where
  nonempty : chains.entries ≠ []
  linked : ∀ chain ∈ chains.values, Linked chain
  ids : ∀ b ∈ chains.values.flatten, ∀ b' ∈ chains.values.flatten, b.ident = b'.ident → b = b'
  common : ∃ b, Common chains b

/-- The previous block of a listed block, if it is listed, is numbered lower. -/
def PreviousBelow (chains : Dict Peer (List SimpleBlock)) : Prop :=
  ∀ b ∈ chains.values.flatten, ∀ p ∈ chains.values.flatten, b.previous = p.ident → p.num < b.num

/-- The blocks that chains have from a height on. -/
def ReadTo (chains : Dict Peer (List SimpleBlock)) (h : Int) (b : SimpleBlock) : Prop :=
  b ∈ chains.values.flatten ∧ h ≤ b.num

/-- What chains add to a graph when they are read down to a height. -/
def readPairs (chains : Dict Peer (List SimpleBlock)) (h : Int) : List (Peer × SimpleBlock) :=
  chains.entries.flatMap fun e => (above h e.2).map fun b => (e.1, b)

/-- The chains that have a block at a height, with it. -/
def delivered (t : Int) (entries : List (Peer × List SimpleBlock)) : List (Peer × SimpleBlock) :=
  (entries.filter fun e => Reaches t e.2).map fun e => (e.1, blockAt t e.2)

section Family

variable {chains : Dict Peer (List SimpleBlock)} {c : SimpleBlock} {h : Int}

theorem mem_values {e : Peer × List SimpleBlock} (he : e ∈ chains.entries) : e.2 ∈ chains.values :=
  List.mem_map.mpr ⟨e, he, rfl⟩

theorem Common.mem_flatten (hchains : AreChains chains) (hc : Common chains c) :
    c ∈ chains.values.flatten := by
  obtain ⟨e, he⟩ := List.exists_mem_of_ne_nil _ hchains.nonempty
  exact List.mem_flatten.mpr ⟨e.2, mem_values he, hc e.2 (mem_values he)⟩

/-- **The blocks down to a common block are a tree.** -/
theorem AreChains.rooted (hchains : AreChains chains) (hbelow : PreviousBelow chains)
    (hc : Common chains c) : Rooted (ReadTo chains c.num) c where
  mem := ⟨hc.mem_flatten hchains, Int.le_refl _⟩
  ids b b' hb hb' := hchains.ids b hb.1 b' hb'.1
  previous b p hb hp hprevious := by
    -- A block above `c` is followed in its chain by its previous block.
    have hlt := hbelow b hb.1 p hp.1 hprevious
    have hle := hp.2
    obtain ⟨chain, hchain, hmem⟩ := List.mem_flatten.mp hb.1
    obtain ⟨p', hp', hnum, hprevious'⟩ := (hchains.linked chain hchain).exists_previous hmem
      (hc chain hchain) (by omega)
    rw [hchains.ids p hp.1 p' (List.mem_flatten.mpr ⟨chain, hchain, hp'⟩)
      (hprevious.symm.trans hprevious'), hnum]
  least b hb := hb.2
  connected b hb := by
    obtain ⟨chain, hchain, hmem⟩ := List.mem_flatten.mp hb.1
    have hlinked := hchains.linked chain hchain
    by_cases hnum : b.num = c.num
    · exact Or.inl (hlinked.eq_of_num_eq hmem (hc chain hchain) hnum)
    · have hle := hb.2
      obtain ⟨p, hp, hfollows⟩ :=
        hlinked.exists_previous hmem (hc chain hchain) (by omega)
      have hp' := hfollows.1
      exact Or.inr ⟨p, ⟨List.mem_flatten.mpr ⟨chain, hchain, hp⟩, by omega⟩, hfollows.2⟩

theorem mem_readPairs_iff {a : Peer × SimpleBlock} : a ∈ readPairs chains h ↔
    ∃ e ∈ chains.entries, e.1 = a.1 ∧ a.2 ∈ e.2 ∧ h ≤ a.2.num := by
  simp only [readPairs, List.mem_flatMap, List.mem_map, above, List.mem_filter, decide_eq_true_eq]
  constructor
  · rintro ⟨e, he, b, ⟨hb, hle⟩, rfl⟩
    exact ⟨e, he, rfl, hb, hle⟩
  · rintro ⟨e, he, hpeer, hb, hle⟩
    exact ⟨e, he, a.2, ⟨hb, hle⟩, by rw [hpeer]⟩

theorem readTo_of_mem {a : Peer × SimpleBlock} (ha : a ∈ readPairs chains h) :
    ReadTo chains h a.2 := by
  obtain ⟨e, he, -, hb, hle⟩ := mem_readPairs_iff.mp ha
  exact ⟨List.mem_flatten.mpr ⟨e.2, mem_values he, hb⟩, hle⟩

theorem exists_peer {b : SimpleBlock} (hb : ReadTo chains h b) :
    ∃ peer, (peer, b) ∈ readPairs chains h := by
  obtain ⟨chain, hchain, hmem⟩ := List.mem_flatten.mp hb.1
  obtain ⟨e, he, rfl⟩ := List.mem_map.mp hchain
  exact ⟨e.1, mem_readPairs_iff.mpr ⟨e, he, rfl, hmem, hb.2⟩⟩

/-- **One block more** of each chain that has one. -/
theorem readPairs_delivered (hlinked : ∀ chain ∈ chains.values, Linked chain) :
    (readPairs chains (h + 1) ++ delivered h chains.entries).Perm (readPairs chains h) := by
  have hsplit : readPairs chains h = chains.entries.flatMap fun e =>
      ((above (h + 1) e.2).map fun b => (e.1, b)) ++ delivered h [e] := by
    refine List.flatMap_congr fun e he => ?_
    by_cases hreaches : Reaches h e.2
    · rw [(hlinked e.2 (mem_values he)).above_eq hreaches]
      simp [delivered, hreaches]
    · rw [above_of_not_reaches hreaches]
      simp [delivered, hreaches]
  have hdelivered : ∀ entries : List (Peer × List SimpleBlock),
      delivered h entries = entries.flatMap fun e => delivered h [e] := by
    intro entries
    induction entries with
    | nil => rfl
    | cons e entries ih =>
        rw [List.flatMap_cons, ← ih, delivered, delivered, delivered, ← List.map_append,
          ← List.filter_append]
        rfl
  rw [hsplit, hdelivered]
  exact List.flatMap_append_perm _ _ _

/-- One block more of each chain. -/
theorem readPairs_perm (hchains : AreChains chains)
    (hreach : ∀ chain ∈ chains.values, Reaches h chain) :
    (readPairs chains (h + 1) ++ chains.entries.map fun e => (e.1, blockAt h e.2)).Perm
      (readPairs chains h) := by
  have hall : delivered h chains.entries = chains.entries.map fun e => (e.1, blockAt h e.2) := by
    rw [delivered, List.filter_eq_self.mpr fun e he => by simpa using hreach e.2 (mem_values he)]
  rw [← hall]
  exact readPairs_delivered hchains.linked

end Family

/-! ### Comparing -/

theorem compareAcross_map {α β γ : Type} [DecidableEq γ] (f : α → β) (key : β → γ) (l : List α) :
    compareAcross key (l.map f) = compareAcross (fun a => key (f a)) l := by
  cases l with
  | nil => rfl
  | cons a l => rw [List.map_cons, compareAcross, compareAcross, List.all_map]; rfl

/-- The blocks at a height are one if and only if it is common. -/
theorem compareAcross_iff {chains : Dict Peer (List SimpleBlock)} {h : Int}
    (hchains : AreChains chains) (hreach : ∀ chain ∈ chains.values, Reaches h chain) :
    compareAcross (fun e => (blockAt h e.2).ident) chains.entries = true ↔
      ∃ c, Common chains c ∧ c.num = h := by
  have hat : ∀ e ∈ chains.entries, blockAt h e.2 ∈ e.2 ∧ (blockAt h e.2).num = h := fun e he =>
    blockAt_spec (hreach e.2 (mem_values he))
  have hlisted : ∀ e ∈ chains.entries, blockAt h e.2 ∈ chains.values.flatten := fun e he =>
    List.mem_flatten.mpr ⟨e.2, mem_values he, (hat e he).1⟩
  cases hentries : chains.entries with
  | nil => exact absurd hentries hchains.nonempty
  | cons first rest =>
      have hfirst : first ∈ chains.entries := by rw [hentries]; simp
      simp only [compareAcross, List.all_eq_true, decide_eq_true_eq]
      constructor
      · intro hall
        refine ⟨blockAt h first.2, fun chain hchain => ?_, (hat first hfirst).2⟩
        obtain ⟨e, he, rfl⟩ := List.mem_map.mp hchain
        have hsame : blockAt h first.2 = blockAt h e.2 := by
          refine hchains.ids _ (hlisted first hfirst) _ (hlisted e he) ?_
          rw [hentries] at he
          rcases List.mem_cons.mp he with rfl | hrest
          · rfl
          · exact hall e hrest
        rw [hsame]
        exact (hat e he).1
      · rintro ⟨c, hc, hnum⟩ e he
        have hmem : e ∈ chains.entries := by rw [hentries]; simp [he]
        have heq : ∀ e ∈ chains.entries, blockAt h e.2 = c := fun e he =>
          blockAt_eq (hchains.linked e.2 (mem_values he)) (hc e.2 (mem_values he)) hnum
        rw [heq first hfirst, heq e hmem]

/-- Where the blocks at a height differ, common blocks are below it. -/
theorem common_lower {chains : Dict Peer (List SimpleBlock)} {h : Int} (hchains : AreChains chains)
    (hreach : ∀ chain ∈ chains.values, Reaches h chain)
    (hhighest : ∀ d, Common chains d → d.num ≤ h)
    (hdiffer : ¬compareAcross (fun e => (blockAt h e.2).ident) chains.entries = true) :
    ∀ d, Common chains d → d.num ≤ h - 1 := by
  intro d hd
  have hle := hhighest d hd
  have hne : d.num ≠ h := fun heq =>
    hdiffer ((compareAcross_iff hchains hreach).mpr ⟨d, hd, heq⟩)
  omega

/-! ### The tails -/

/-- The tail of a chain from a height on. -/
def tailAt (h : Int) (chain : List SimpleBlock) : Tail :=
  ⟨blockAt h chain, (above (h + 1) chain).reverse⟩

theorem walkBack_stop {minBlockNum : Int} {tail : Tail} (hstop : ¬tail.numOfOldest > minBlockNum)
    (rest : List SimpleBlock) : walkBack minBlockNum tail rest = (tail, rest, false) := by
  cases rest with
  | nil => rw [walkBack, decide_eq_false hstop]
  | cons block rest => rw [walkBack, if_neg hstop]

/-- Walking back over newer blocks to one at the height. -/
theorem walkBack_append {minBlockNum : Int} {x : SimpleBlock} (hx : x.num = minBlockNum)
    (older : List SimpleBlock) : ∀ (newer : List SimpleBlock), (∀ b ∈ newer, minBlockNum < b.num) →
      ∀ {tail : Tail}, tail.numOfOldest > minBlockNum →
        walkBack minBlockNum tail (newer ++ x :: older)
          = (⟨x, newer.reverse ++ tail.blocks⟩, older, false) := by
  intro newer
  induction newer with
  | nil =>
      intro _ tail htail
      have hstop : ¬(⟨x, tail.blocks⟩ : Tail).numOfOldest > minBlockNum := by
        show ¬x.num > minBlockNum
        omega
      rw [List.nil_append, walkBack, if_pos htail, walkBack_stop hstop]
      rfl
  | cons b newer ih =>
      intro hnewer tail htail
      have hb : (⟨b, tail.blocks⟩ : Tail).numOfOldest > minBlockNum := hnewer b (by simp)
      rw [List.cons_append, walkBack, if_pos htail, ih (fun d hd => hnewer d (by simp [hd])) hb]
      simp [Tail.blocks]

/-- **A chain is read down to a height** that it has. -/
theorem Linked.read {chain : List SimpleBlock} {h : Int} (hchain : Linked chain)
    (hreaches : Reaches h chain) :
    ∃ start rest, firstBlock chain = (some start, rest) ∧
      walkBack h start rest = (tailAt h chain, below h chain, false) := by
  obtain ⟨-, hnum⟩ := blockAt_spec hreaches
  have hcut := (hchain.cut hreaches).1
  have hnewer : ∀ b ∈ above (h + 1) chain, h < b.num := by
    intro b hb
    have hle := (List.mem_filter.mp hb).2
    rw [decide_eq_true_eq] at hle
    omega
  unfold tailAt
  generalize blockAt h chain = x, above (h + 1) chain = newer, below h chain = older
    at hnum hcut hnewer ⊢
  rw [hcut]
  cases newer with
  | nil =>
      have hstop : ¬(⟨x, []⟩ : Tail).numOfOldest > h := by
        show ¬x.num > h
        omega
      exact ⟨⟨x, []⟩, older, rfl, walkBack_stop hstop older⟩
  | cons b newer =>
      refine ⟨⟨b, []⟩, newer ++ x :: older, rfl, ?_⟩
      have hb : (⟨b, []⟩ : Tail).numOfOldest > h := hnewer b (by simp)
      rw [walkBack_append hnum older newer (fun d hd => hnewer d (by simp [hd])) hb]
      simp [Tail.blocks]

/-- The numbers of the heads. -/
theorem mem_oldestNums_iff {chains : Dict Peer (List SimpleBlock)} {x : Int} :
    x ∈ oldestNums (chains.mapValues firstBlock) ↔
      ∃ chain ∈ chains.values, ∃ b rest, chain = b :: rest ∧ b.num = x := by
  simp only [oldestNums, Dict.values, Dict.mapValues, List.map_map, List.mem_filterMap,
    List.mem_map, Function.comp_def]
  constructor
  · rintro ⟨_, ⟨e, he, rfl⟩, hx⟩
    cases hchain : e.2 with
    | nil => simp [hchain, firstBlock] at hx
    | cons b rest =>
        rw [hchain] at hx
        exact ⟨_, ⟨e, he, rfl⟩, b, rest, hchain, Option.some.inj hx⟩
  · rintro ⟨_, ⟨e, he, rfl⟩, b, rest, hchain, hx⟩
    exact ⟨_, ⟨e, he, rfl⟩, by rw [hchain]; exact congrArg some hx⟩

section GetTails

variable {chains : Dict Peer (List SimpleBlock)} {h : Int}

/-- **The lowest head**: all chains have a block at its height, and common blocks are no higher. -/
theorem AreChains.exists_lowest (hchains : AreChains chains) :
    ∃ h, (oldestNums (chains.mapValues firstBlock)).min? = some h ∧
      (∀ chain ∈ chains.values, Reaches h chain) ∧ ∀ c, Common chains c → c.num ≤ h := by
  obtain ⟨c, hc⟩ := hchains.common
  cases hmin : (oldestNums (chains.mapValues firstBlock)).min? with
  | none =>
      rw [List.min?_eq_none_iff] at hmin
      obtain ⟨e, he⟩ := List.exists_mem_of_ne_nil _ hchains.nonempty
      cases hchain : e.2 with
      | nil =>
          have hmem := hc e.2 (mem_values he)
          simp [hchain] at hmem
      | cons b rest =>
          have hmem := mem_oldestNums_iff.mpr ⟨e.2, mem_values he, b, rest, hchain, rfl⟩
          simp [hmin] at hmem
  | some h =>
      obtain ⟨hh, hleast⟩ := List.min?_eq_some_iff.mp hmin
      have hcommon : ∀ c, Common chains c → c.num ≤ h := by
        intro c hc
        obtain ⟨chain, hchain, b, rest, rfl, rfl⟩ := mem_oldestNums_iff.mp hh
        rcases List.mem_cons.mp (hc _ hchain) with rfl | hmem
        · exact Int.le_refl _
        · have hlt := (List.pairwise_cons.mp (hchains.linked _ hchain).pairwise).1 c hmem
          omega
      refine ⟨h, rfl, fun chain hchain => ?_, hcommon⟩
      have hmem := hc chain hchain
      have hlinked := hchains.linked chain hchain
      cases hblocks : chain with
      | nil => simp [hblocks] at hmem
      | cons b rest =>
          have hle := hleast b.num (mem_oldestNums_iff.mpr ⟨chain, hchain, b, rest, hblocks, rfl⟩)
          have hb : b ∈ chain := by simp [hblocks]
          rw [← hblocks]
          exact hlinked.exists_num hmem (hcommon c hc) hb hle

/-- **`get_tails`** reads all chains down to the lowest head, and none of them stops. -/
theorem getTails_eq (hchains : AreChains chains)
    (hmin : (oldestNums (chains.mapValues firstBlock)).min? = some h)
    (hreach : ∀ chain ∈ chains.values, Reaches h chain) :
    getTails chains = .ok ⟨chains.mapValues (tailAt h), [], chains.mapValues (below h)⟩ := by
  have hread : ∀ e ∈ chains.entries, ∃ start rest, firstBlock e.2 = (some start, rest) ∧
      walkBack h start rest = (tailAt h e.2, below h e.2, false) := fun e he =>
    (hchains.linked e.2 (mem_values he)).read (hreach e.2 (mem_values he))
  have hstopped : ((chains.mapValues firstBlock).entries.filter fun e => e.2.1 = none) = [] := by
    rw [List.filter_eq_nil_iff]
    intro e he
    obtain ⟨e', he', rfl⟩ := List.mem_map.mp he
    obtain ⟨start, rest, hfirst, -⟩ := hread e' he'
    simp [hfirst]
  have hwalked : ((chains.mapValues firstBlock).filterMapValues fun e =>
      e.1.map fun tail => walkBack h tail e.2)
        = chains.mapValues fun chain => (tailAt h chain, below h chain, false) := by
    refine Dict.ext ?_
    simp only [Dict.filterMapValues, Dict.mapValues, List.filterMap_map]
    refine (List.filterMap_congr fun e he => ?_).trans (congrFun List.filterMap_eq_map _)
    obtain ⟨start, rest, hfirst, hwalk⟩ := hread e he
    simp [hfirst, hwalk]
  have hleft : (chains.mapValues firstBlock).mapValues (leftAfter h)
      = chains.mapValues (below h) := by
    refine Dict.ext ?_
    simp only [Dict.mapValues, List.map_map]
    refine List.map_congr_left fun e he => ?_
    obtain ⟨start, rest, hfirst, hwalk⟩ := hread e he
    simp [leftAfter, hfirst, hwalk]
  unfold getTails
  dsimp only
  rw [hmin]
  dsimp only
  rw [hstopped, hwalked, hleft]
  simp [Dict.mapValues, Function.comp_def, List.filter_map]

end GetTails

/-! ### Building the graph -/

section Build

variable {chains : Dict Peer (List SimpleBlock)} {c : SimpleBlock} {h : Int}

/-- Adding a tail adds the blocks from its height on. -/
theorem addTail_eq {e : Peer × List SimpleBlock} (hlinked : Linked e.2)
    (hreaches : Reaches h e.2) (g : ForkGraph Peer) :
    addTail g (e.1, tailAt h e.2)
      = ((above h e.2).map fun b => (e.1, b)).foldlM (fun g a => g.addBlock a.1 a.2) g := by
  have hblocks : (tailAt h e.2).blocks.reverse = above h e.2 := by
    rw [hlinked.above_eq hreaches]
    simp [tailAt, Tail.blocks]
  rw [addTail, hblocks, List.foldlM_map]

/-- Adding the tails adds what the chains are read down to. -/
theorem addTails_eq (hlinked : ∀ chain ∈ chains.values, Linked chain)
    (hreach : ∀ chain ∈ chains.values, Reaches h chain) (g : ForkGraph Peer) :
    (chains.mapValues (tailAt h)).entries.foldlM addTail g
      = (readPairs chains h).foldlM (fun g a => g.addBlock a.1 a.2) g := by
  have hadd : ∀ entries : List (Peer × List SimpleBlock), entries ⊆ chains.entries →
      ∀ g : ForkGraph Peer, (entries.map fun e => (e.1, tailAt h e.2)).foldlM addTail g
        = (entries.flatMap fun e => (above h e.2).map fun b => (e.1, b)).foldlM
            (fun g a => g.addBlock a.1 a.2) g := by
    intro entries
    induction entries with
    | nil => intro _ g; rfl
    | cons e entries ih =>
        intro hsub g
        have he := mem_values (hsub (List.mem_cons_self))
        rw [List.map_cons, List.foldlM_cons, List.flatMap_cons, List.foldlM_append,
          addTail_eq (hlinked e.2 he) (hreach e.2 he)]
        exact bind_congr fun g' => ih (fun d hd => hsub (List.mem_cons_of_mem _ hd)) g'
  exact hadd chains.entries (List.Subset.refl _) g

/-- **The tails are added** without an assertion failing. -/
theorem addTails_ok (hchains : AreChains chains) (hbelow : PreviousBelow chains)
    (hc : Common chains c) (hreach : ∀ chain ∈ chains.values, Reaches h chain) (hch : c.num ≤ h) :
    ∃ g, (chains.mapValues (tailAt h)).entries.foldlM addTail ForkGraph.new = .ok g ∧
      g.Holds (readPairs chains h) := by
  rw [addTails_eq hchains.linked hreach]
  obtain ⟨g, hg, hholds⟩ := holds_new.addBlocks (hchains.rooted hbelow hc) (readPairs chains h)
    (by simp) fun a ha => ⟨(readTo_of_mem ha).1, Int.le_trans hch (readTo_of_mem ha).2⟩
  exact ⟨g, hg, hholds⟩

/-- What a walk of the graph of the blocks down to a common block lists. -/
theorem exists_walk (hchains : AreChains chains) (hbelow : PreviousBelow chains)
    (hc : Common chains c) {g : ForkGraph Peer} (hg : g.Holds (readPairs chains c.num)) :
    g.root = some c ∧ ∃ nodes, (listedIn nodes).Perm (readPairs chains c.num) ∧
      ∀ fuel, g.graph.values.length < fuel → g.walk fuel = some (.ok nodes) := by
  have hrooted := hchains.rooted hbelow hc
  have hsub : ∀ a ∈ readPairs chains c.num, ReadTo chains c.num a.2 := fun a ha => readTo_of_mem ha
  have hall : ∀ b, ReadTo chains c.num b → ∃ peer, (peer, b) ∈ readPairs chains c.num :=
    fun b hb => exists_peer hb
  exact ⟨hg.root_eq hrooted hsub hall, hg.exists_walk hrooted hsub hall⟩

variable [DecidableEq Peer]

/-- **One pass over the chains** takes the block at the height from each, and no generator
stops. -/
theorem nextHeads_ok (hchains : AreChains chains)
    (hreach : ∀ chain ∈ chains.values, Reaches h chain) :
    ∀ entries : List (Peer × List SimpleBlock), entries ⊆ chains.entries →
      ∀ (passed : List (Peer × List SimpleBlock)) (head : Option SimpleBlock)
        (heads : List (Peer × SimpleBlock)),
        ∃ head', (entries.map fun e => (e.1, below (h + 1) e.2)).foldlM nextHead
            ⟨passed, [], head, heads⟩
          = .ok ⟨passed ++ entries.map fun e => (e.1, below h e.2), [], head',
              heads ++ entries.map fun e => (e.1, blockAt h e.2)⟩ := by
  intro entries
  induction entries with
  | nil => intro _ passed head heads; exact ⟨head, by simp [pure, Except.pure]⟩
  | cons e entries ih =>
      intro hsub passed head heads
      have he := hsub List.mem_cons_self
      have hnext : nextHead ⟨passed, [], head, heads⟩ (e.1, below (h + 1) e.2)
          = .ok ⟨passed ++ [(e.1, below h e.2)], [], some (blockAt h e.2),
              heads ++ [(e.1, blockAt h e.2)]⟩ := by
        rw [(hchains.linked e.2 (mem_values he)).below_succ (hreach e.2 (mem_values he))]
        simp [nextHead]
      obtain ⟨head', hrest⟩ := ih (fun d hd => hsub (List.mem_cons_of_mem _ hd))
        (passed ++ [(e.1, below h e.2)]) (some (blockAt h e.2)) (heads ++ [(e.1, blockAt h e.2)])
      refine ⟨head', ?_⟩
      rw [List.map_cons, List.foldlM_cons, hnext, ok_bind, hrest]
      simp

/-- **One pass of the loop**: the block at the height of every chain is in the graph, and the loop
ends if they are one. -/
theorem walkToAncestor_pass (hchains : AreChains chains) (hbelow : PreviousBelow chains)
    (hc : Common chains c) (hch : c.num ≤ h) (hreach : ∀ chain ∈ chains.values, Reaches h chain)
    {g : ForkGraph Peer} (hg : g.Holds (readPairs chains (h + 1))) (head : Option SimpleBlock) :
    ∃ g' head', g'.Holds (readPairs chains h) ∧ ∀ fuel,
      walkToAncestor (fuel + 1) g (chains.entries.map fun e => (e.1, below (h + 1) e.2)) [] head
        = if compareAcross (fun e => (blockAt h e.2).ident) chains.entries then
            some (.ok (g', []))
          else
            walkToAncestor fuel g' (chains.entries.map fun e => (e.1, below h e.2)) [] head' := by
  obtain ⟨head', hpass⟩ :=
    nextHeads_ok hchains hreach chains.entries (List.Subset.refl _) [] head []
  have hheads : ∀ a ∈ chains.entries.map fun e => (e.1, blockAt h e.2),
      ReadTo chains c.num a.2 := by
    intro a ha
    obtain ⟨e, he, rfl⟩ := List.mem_map.mp ha
    obtain ⟨hmem, hnum⟩ := blockAt_spec (hreach e.2 (mem_values he))
    exact ⟨List.mem_flatten.mpr ⟨e.2, mem_values he, hmem⟩, by rw [hnum]; exact hch⟩
  have hread : ∀ a ∈ readPairs chains (h + 1), ReadTo chains c.num a.2 := by
    intro a ha
    obtain ⟨hlisted, hle⟩ := readTo_of_mem ha
    exact ⟨hlisted, by omega⟩
  obtain ⟨g', hadd, hg'⟩ := hg.addBlocks (hchains.rooted hbelow hc) _ hread hheads
  refine ⟨g', head', hg'.perm (readPairs_perm hchains hreach), fun fuel => ?_⟩
  rw [walkToAncestor, hpass]
  simp only [List.nil_append]
  rw [hadd]
  dsimp only
  rw [compareAcross_map]

/-- **Walking back to the common ancestor.**  With the chains read down to above a height that
no common block is above, the loop ends at the highest common block, and the blocks from there on
are in the graph.  The induction is on how far a common block is below. -/
theorem walkToAncestor_ok (hchains : AreChains chains) (hbelow : PreviousBelow chains)
    (hc : Common chains c) : ∀ (n : Nat) {h : Int} {g : ForkGraph Peer},
      (∀ d, Common chains d → d.num ≤ h) → (∀ chain ∈ chains.values, Reaches (h + 1) chain) →
      g.Holds (readPairs chains (h + 1)) → (h - c.num).toNat ≤ n → ∀ head : Option SimpleBlock,
      ∃ root g', Common chains root ∧ (∀ d, Common chains d → d.num ≤ root.num) ∧
        g'.Holds (readPairs chains root.num) ∧ ∀ fuel, n < fuel →
          walkToAncestor fuel g (chains.entries.map fun e => (e.1, below (h + 1) e.2)) [] head
            = some (.ok (g', [])) := by
  intro n
  induction n with
  | zero =>
      intro h g hhighest habove hg hn head
      have hch : c.num = h := by
        have hle := hhighest c hc
        omega
      have hreach : ∀ chain ∈ chains.values, Reaches h chain := fun chain hchain =>
        ⟨c, hc chain hchain, hch⟩
      obtain ⟨g', head', hholds, hpass⟩ :=
        walkToAncestor_pass hchains hbelow hc (Int.le_of_eq hch) hreach hg head
      refine ⟨c, g', hc, fun d hd => hch ▸ hhighest d hd, hch ▸ hholds, fun fuel hfuel => ?_⟩
      obtain ⟨fuel, rfl⟩ := Nat.exists_eq_succ_of_ne_zero (Nat.ne_of_gt hfuel)
      rw [hpass, if_pos ((compareAcross_iff hchains hreach).mpr ⟨c, hc, hch⟩)]
  | succ n ih =>
      intro h g hhighest habove hg hn head
      have hch := hhighest c hc
      have hreach : ∀ chain ∈ chains.values, Reaches h chain := by
        intro chain hchain
        obtain ⟨top, htop, hnum⟩ := habove chain hchain
        exact (hchains.linked chain hchain).exists_num (hc chain hchain) hch htop (by omega)
      obtain ⟨g', head', hholds, hpass⟩ :=
        walkToAncestor_pass hchains hbelow hc hch hreach hg head
      by_cases hsame : compareAcross (fun e => (blockAt h e.2).ident) chains.entries = true
      · obtain ⟨root, hroot, hnum⟩ := (compareAcross_iff hchains hreach).mp hsame
        refine ⟨root, g', hroot, fun d hd => hnum ▸ hhighest d hd, hnum ▸ hholds,
          fun fuel hfuel => ?_⟩
        obtain ⟨fuel, rfl⟩ := Nat.exists_eq_succ_of_ne_zero (Nat.ne_of_gt (Nat.zero_lt_of_lt hfuel))
        rw [hpass, if_pos hsame]
      · have hlower := common_lower hchains hreach hhighest hsame
        have hnext := @ih (h - 1) g' hlower
        rw [Int.sub_add_cancel] at hnext
        obtain ⟨root, g'', hroot, hhighestRoot, hholds', hwalk⟩ :=
          hnext hreach hholds (by omega) head'
        refine ⟨root, g'', hroot, hhighestRoot, hholds', fun fuel hfuel => ?_⟩
        obtain ⟨fuel, rfl⟩ := Nat.exists_eq_succ_of_ne_zero (Nat.ne_of_gt (Nat.zero_lt_of_lt hfuel))
        rw [hpass, if_neg hsame]
        exact hwalk fuel (by omega)

/-- Without peers to remove nothing changes. -/
theorem pruneNode_nil (g : ForkGraph Peer) (node : ForkGraphNode Peer) :
    pruneNode [] g node = g := by
  unfold pruneNode
  cases hget : g.graph.get? node.previous with
  | none => rfl
  | some current =>
      have hsame : current.siblings.mapValues (withoutPeers []) = current.siblings := by
        refine Dict.ext ((List.map_congr_left fun e _ => ?_).trans (List.map_id' _))
        rfl
      dsimp only
      rw [hsame, Dict.set_get? hget]

theorem pruneUnreportingPeers_nil {fuel : Nat} {g : ForkGraph Peer}
    {nodes : List (ForkGraphNode Peer)} (hwalk : g.walk fuel = some (.ok nodes)) :
    pruneUnreportingPeers fuel g [] = some (.ok g) := by
  have hfold : ∀ nodes : List (ForkGraphNode Peer), nodes.foldl (pruneNode []) g = g := by
    intro nodes
    induction nodes with
    | nil => rfl
    | cons node nodes ih => rw [List.foldl_cons, pruneNode_nil, ih]
  rw [pruneUnreportingPeers, hwalk]
  show some (Except.ok (nodes.foldl (pruneNode []) g)) = _
  rw [hfold]

/-- **`build_fork_graph`** on the tails: it ends without errors, at the highest common block. -/
theorem buildForkGraph_ok (hchains : AreChains chains) (hbelow : PreviousBelow chains)
    (hhighest : ∀ d, Common chains d → d.num ≤ h)
    (hreach : ∀ chain ∈ chains.values, Reaches h chain) :
    ∃ root g, Common chains root ∧ (∀ d, Common chains d → d.num ≤ root.num) ∧
      g.Holds (readPairs chains root.num) ∧ ∃ n, ∀ fuel, n < fuel →
        buildForkGraph fuel (chains.mapValues (below h)) (chains.mapValues (tailAt h))
          = some (.ok (g, [])) := by
  obtain ⟨c, hc⟩ := hchains.common
  obtain ⟨g, htails, hg⟩ := addTails_ok hchains hbelow hc hreach (hhighest c hc)
  have hvalues : compareAcross (fun tail => tail.oldest.ident) (chains.mapValues (tailAt h)).values
      = compareAcross (fun e => (blockAt h e.2).ident) chains.entries := by
    rw [Dict.values, Dict.mapValues, List.map_map, compareAcross_map]
    rfl
  by_cases hsame : compareAcross (fun e => (blockAt h e.2).ident) chains.entries = true
  · obtain ⟨root, hroot, hnum⟩ := (compareAcross_iff hchains hreach).mp hsame
    refine ⟨root, g, hroot, fun d hd => hnum ▸ hhighest d hd, hnum ▸ hg, 0, fun fuel _ => ?_⟩
    rw [buildForkGraph, htails]
    dsimp only
    rw [hvalues, if_pos hsame]
  · have hlower := common_lower hchains hreach hhighest hsame
    have hnext :=
      @walkToAncestor_ok _ _ _ _ hchains hbelow hc (h - 1 - c.num).toNat (h - 1) g hlower
    rw [Int.sub_add_cancel] at hnext
    obtain ⟨root, g', hroot, hhighestRoot, hg', hwalk⟩ := hnext hreach hg (Nat.le_refl _) none
    obtain ⟨-, nodes, -, hnodes⟩ := exists_walk hchains hbelow hroot hg'
    refine ⟨root, g', hroot, hhighestRoot, hg',
      max (h - 1 - c.num).toNat g'.graph.values.length, fun fuel hfuel => ?_⟩
    have hprune := pruneUnreportingPeers_nil (hnodes fuel (by omega))
    rw [buildForkGraph, htails]
    dsimp only
    have hentries : (chains.mapValues (below h)).entries
        = chains.entries.map fun e => (e.1, below h e.2) := rfl
    rw [hvalues, if_neg hsame, hentries, hwalk fuel (by omega)]
    dsimp only
    rw [hprune]
    rfl

/-! ### The fork graph of the chains -/

/-- The blocks that nodes list a peer under. -/
def listedBy (peer : Peer) (nodes : List (ForkGraphNode Peer)) : List SimpleBlock :=
  (listedIn nodes).filterMap fun a => if a.1 = peer then some a.2 else none

/-- What one peer adds is its own chain. -/
theorem readPairs_peer {e : Peer × List SimpleBlock} (he : e ∈ chains.entries) :
    ((readPairs chains h).filterMap fun a => if a.1 = e.1 then some a.2 else none)
      = above h e.2 := by
  have hone : ∀ d : Peer × List SimpleBlock,
      (((above h d.2).map fun b => (d.1, b)).filterMap fun a =>
        if a.1 = e.1 then some a.2 else none) = if d.1 = e.1 then above h d.2 else [] := by
    intro d
    by_cases hpeer : d.1 = e.1
    · simp [List.filterMap_map, hpeer]
    · simp [List.filterMap_map, hpeer]
  have hget : chains.get? e.1 = some e.2 := Dict.get?_eq_some_iff.mpr he
  rw [readPairs, List.filterMap_flatMap]
  simp only [hone]
  rw [Dict.flatMap_of_key hget fun d hd => if_neg hd, if_pos rfl]

/-- **What `build_fork_graph` is to make of chains**: without errors, a graph with the highest
common block as its root, a walk of which lists every peer once under each block of its chain from
the root to the head, and under no other. -/
def DrawsForks (chains : Dict Peer (List SimpleBlock)) : Prop :=
  ∃ tails graph root nodes, getTails chains = .ok tails ∧ tails.badChains = [] ∧
    (∃ n, ∀ fuel, n < fuel →
      buildForkGraph fuel tails.chains tails.tails = some (.ok (graph, []))) ∧
    graph.root = some root ∧ Common chains root ∧ (∀ b, Common chains b → b.num ≤ root.num) ∧
    (∃ n, ∀ fuel, n < fuel → graph.walk fuel = some (.ok nodes)) ∧
    ∀ e ∈ chains.entries, (listedBy e.1 nodes).Perm (e.2.filter fun b => root.num ≤ b.num)

/-- **The fork graph of chains** with a common block. -/
theorem forkGraph_of_chains (hchains : AreChains chains) (hbelow : PreviousBelow chains) :
    DrawsForks chains := by
  obtain ⟨h, hmin, hreach, hhighest⟩ := hchains.exists_lowest
  obtain ⟨root, g, hroot, hhighestRoot, hg, hbuild⟩ :=
    buildForkGraph_ok hchains hbelow hhighest hreach
  obtain ⟨hgroot, nodes, hnodes, hwalk⟩ := exists_walk hchains hbelow hroot hg
  refine ⟨_, g, root, nodes, getTails_eq hchains hmin hreach, rfl, hbuild, hgroot, hroot,
    hhighestRoot, ⟨_, hwalk⟩, fun e he => ?_⟩
  rw [listedBy]
  exact (hnodes.filterMap _).trans (List.Perm.of_eq (readPairs_peer he))

/-- Two chains that fork above block `a`. -/
def forked : Dict Nat (List SimpleBlock) :=
  (Dict.empty.set 0 [⟨7, ['c'], ['b']⟩, ⟨6, ['b'], ['a']⟩, ⟨5, ['a'], ['0']⟩]).set 1
    [⟨6, ['d'], ['a']⟩, ⟨5, ['a'], ['0']⟩]

theorem forkGraph_of_forked : DrawsForks forked :=
  forkGraph_of_chains
    ⟨by decide, by decide, by decide, ⟨5, ['a'], ['0']⟩, by unfold Common; decide⟩
    (by unfold PreviousBelow; decide)

/-- One chain, of a block that names itself as its previous block. -/
def looped : Dict Nat (List SimpleBlock) := Dict.empty.set 0 [⟨5, ['a'], ['a']⟩]

/-- The graph of that chain: one node, which is its own child. -/
def loopedGraph : ForkGraph Nat :=
  ⟨Dict.empty.set ['a'] ⟨Dict.empty.set ['a'] [0], 5, ['a']⟩, some ['a'], some ⟨5, ['a'], ['a']⟩⟩

/-- A walk of the graph of such a chain does not end. -/
theorem not_drawsForks_looped :
    ¬∀ chains : Dict Nat (List SimpleBlock), AreChains chains → DrawsForks chains := by
  intro hall
  obtain ⟨tails, graph, root, nodes, htails, -, ⟨n, hbuild⟩, -, -, -, ⟨m, hwalk⟩, -⟩ := hall looped
    ⟨by decide, by decide, by decide, ⟨5, ['a'], ['a']⟩, by unfold Common; decide⟩
  obtain rfl := Except.ok.inj htails
  have hgraph : loopedGraph = graph :=
    congrArg Prod.fst (Except.ok.inj (Option.some.inj (hbuild (n + 1) (by omega))))
  have hends := hwalk (m + 1) (by omega)
  have hnever : Walk.walk loopedGraph.children (m + 1)
      [⟨Dict.empty.set ['a'] [0], 5, ['a']⟩] = none := Walk.walk_eq_none rfl (m + 1)
  rw [← hgraph] at hends
  obtain ⟨visited, hvisited, -⟩ := Option.map_eq_some_iff.mp hends
  rw [hnever] at hvisited
  contradiction

end Build

end Evoting
