/-
What a fork graph holds, and what a walk of it yields.

`Holds` says that a graph lists the blocks that were added, each under its previous
block's id, once for each time it was added.  Blocks of a tree (`Rooted`) can be added
in any order without an assertion failing (`Holds.addBlocks`), and when all of them are
in, the nodes are a tree too (`Holds.isTree`), so that a walk yields each once.
-/
import Evoting.Model.ForkGraph

namespace Evoting

variable {Peer : Type}

/-! ### Listed blocks -/

/-- The peers and the blocks that a node lists. -/
def ForkGraphNode.listed (node : ForkGraphNode Peer) : List (Peer × SimpleBlock) :=
  node.siblings.entries.flatMap fun e => e.2.map fun peer => (peer, ⟨node.num, e.1, node.previous⟩)

/-- The peers and the blocks that nodes list. -/
def listedIn (nodes : List (ForkGraphNode Peer)) : List (Peer × SimpleBlock) :=
  nodes.flatMap ForkGraphNode.listed

/-- Nodes as the graph makes them: every block has a peer, and there is a block. -/
structure ForkGraphNode.Filled (node : ForkGraphNode Peer) : Prop where
  blocks : node.siblings.keys ≠ []
  peers : ∀ ident peers, node.siblings.get? ident = some peers → peers ≠ []

namespace ForkGraphNode

variable {node : ForkGraphNode Peer}

theorem mem_listed_iff {peer : Peer} {block : SimpleBlock} : (peer, block) ∈ node.listed ↔
    (∃ peers, node.siblings.get? block.ident = some peers ∧ peer ∈ peers) ∧
      block.num = node.num ∧ block.previous = node.previous := by
  simp only [listed, List.mem_flatMap, List.mem_map, Prod.mk.injEq]
  constructor
  · rintro ⟨e, he, p, hp, rfl, rfl⟩
    exact ⟨⟨e.2, Dict.get?_eq_some_iff.mpr he, hp⟩, rfl, rfl⟩
  · rintro ⟨⟨peers, hpeers, hp⟩, hnum, hprevious⟩
    refine ⟨(block.ident, peers), Dict.get?_eq_some_iff.mp hpeers, peer, hp, rfl, ?_⟩
    rw [← hnum, ← hprevious]

/-- An id under a filled node is that of a block it lists. -/
theorem Filled.exists_listed (h : node.Filled) {ident : PyString}
    (hident : ident ∈ node.siblings.keys) :
    ∃ peer, (peer, ⟨node.num, ident, node.previous⟩) ∈ node.listed := by
  obtain ⟨peers, hpeers⟩ := Dict.mem_keys_iff.mp hident
  obtain ⟨peer, hpeer⟩ := List.exists_mem_of_ne_nil peers (h.peers ident peers hpeers)
  exact ⟨peer, mem_listed_iff.mpr ⟨⟨peers, hpeers, hpeer⟩, rfl, rfl⟩⟩

/-- **A sibling is listed once more.** -/
theorem addSibling_ok (peer : Peer) {block : SimpleBlock} (hnum : block.num = node.num)
    (hprevious : block.previous = node.previous) :
    ∃ node', node.addSibling peer block = .ok node' ∧ node'.num = node.num ∧
      node'.previous = node.previous ∧ node'.listed.Perm ((peer, block) :: node.listed) ∧
      block.ident ∈ node'.siblings.keys ∧
      ((∀ ident peers, node.siblings.get? ident = some peers → peers ≠ []) →
        ∀ ident peers, node'.siblings.get? ident = some peers → peers ≠ []) := by
  have hblock : (⟨node.num, block.ident, node.previous⟩ : SimpleBlock) = block := by
    rw [← hnum, ← hprevious]
  refine ⟨⟨node.siblings.set block.ident ((node.siblings.get? block.ident).getD [] ++ [peer]),
      node.num, node.previous⟩,
    by rw [addSibling, if_neg (not_not.mpr hnum), if_neg (not_not.mpr hprevious)],
    rfl, rfl, ?_, ?_, ?_⟩
  · show ((node.siblings.set block.ident _).entries.flatMap _).Perm
      ([(peer, block)] ++ node.siblings.entries.flatMap _)
    refine Dict.flatMap_set_perm _ node.siblings ?_
    cases node.siblings.get? block.ident with
    | none => simp [hblock]
    | some peers =>
        simp only [Option.getD_some, Option.elim_some, List.map_append, List.map_singleton, hblock]
        exact List.perm_append_comm
  · rw [Dict.mem_keys_iff]
    exact ⟨_, by rw [Dict.get?_set, if_pos rfl]⟩
  · intro hpeers ident peers hget
    rw [Dict.get?_set] at hget
    by_cases hident : block.ident = ident
    · rw [if_pos hident, Option.some.injEq] at hget
      rw [← hget]
      simp
    · rw [if_neg hident] at hget
      exact hpeers ident peers hget

end ForkGraphNode

namespace ForkGraph

/-! ### Adding blocks -/

/-- **What the dictionary of a graph lists**, each block under its previous block's id. -/
structure Lists (d : Dict PyString (ForkGraphNode Peer)) (adds : List (Peer × SimpleBlock)) :
    Prop where
  listed : (listedIn d.values).Perm adds
  previous : ∀ key node, d.get? key = some node → node.previous = key
  filled : ∀ key node, d.get? key = some node → node.Filled

theorem mem_values_iff {d : Dict PyString (ForkGraphNode Peer)} {node : ForkGraphNode Peer} :
    node ∈ d.values ↔ ∃ key, d.get? key = some node := by
  simp only [Dict.values, List.mem_map, Dict.get?_eq_some_iff]
  constructor
  · rintro ⟨e, he, rfl⟩
    exact ⟨e.1, he⟩
  · rintro ⟨key, he⟩
    exact ⟨_, he, rfl⟩

namespace Lists

variable {d : Dict PyString (ForkGraphNode Peer)} {adds : List (Peer × SimpleBlock)}

/-- **A block that was added is under its previous block's id.** -/
theorem exists_node (h : Lists d adds) {peer : Peer} {block : SimpleBlock}
    (hadded : (peer, block) ∈ adds) :
    ∃ node, d.get? block.previous = some node ∧ node.num = block.num ∧
      block.ident ∈ node.siblings.keys := by
  obtain ⟨node, hnode, hlisted⟩ := List.mem_flatMap.mp (h.listed.symm.subset hadded)
  obtain ⟨key, hkey⟩ := mem_values_iff.mp hnode
  obtain ⟨⟨peers, hpeers, -⟩, hnum, hprevious⟩ := ForkGraphNode.mem_listed_iff.mp hlisted
  refine ⟨node, ?_, hnum.symm, Dict.mem_keys_iff.mpr ⟨peers, hpeers⟩⟩
  rw [hprevious, h.previous key node hkey]
  exact hkey

/-- **What is under a node was added.** -/
theorem exists_added (h : Lists d adds) {key ident : PyString} {node : ForkGraphNode Peer}
    (hnode : d.get? key = some node) (hident : ident ∈ node.siblings.keys) :
    ∃ peer, (peer, ⟨node.num, ident, key⟩) ∈ adds := by
  obtain ⟨peer, hlisted⟩ := (h.filled key node hnode).exists_listed hident
  rw [h.previous key node hnode] at hlisted
  exact ⟨peer, h.listed.subset (List.mem_flatMap.mpr
    ⟨node, mem_values_iff.mpr ⟨key, hnode⟩, hlisted⟩)⟩

/-- The node that a block is added to, an old or a new one. -/
theorem node_for (h : Lists d adds) {block : SimpleBlock}
    (hnum : ∀ a ∈ adds, a.2.previous = block.previous → a.2.num = block.num) :
    ∃ node, (d.get? block.previous).getD (.new block.num block.previous) = node ∧
      block.num = node.num ∧ block.previous = node.previous ∧
      (∀ ident peers, node.siblings.get? ident = some peers → peers ≠ []) ∧
      node.listed = (d.get? block.previous).elim [] ForkGraphNode.listed := by
  cases hget : d.get? block.previous with
  | none => exact ⟨_, rfl, rfl, rfl, by simp [ForkGraphNode.new], rfl⟩
  | some node =>
      have hfilled := h.filled _ node hget
      obtain ⟨ident, hident⟩ := List.exists_mem_of_ne_nil _ hfilled.blocks
      obtain ⟨other, hadded⟩ := h.exists_added hget hident
      exact ⟨node, rfl, (hnum _ hadded rfl).symm, (h.previous _ node hget).symm, hfilled.peers, rfl⟩

/-- **One block more in the dictionary.**  No assertion fails if blocks with the same previous
block have one number. -/
theorem addSibling (h : Lists d adds) (peer : Peer) {block : SimpleBlock}
    (hnum : ∀ a ∈ adds, a.2.previous = block.previous → a.2.num = block.num) :
    ∃ node, ((d.get? block.previous).getD (.new block.num block.previous)).addSibling peer block
        = .ok node ∧ node.num = block.num ∧
      Lists (d.set block.previous node) (adds ++ [(peer, block)]) := by
  obtain ⟨old, hold, holdNum, holdPrevious, hpeers, hlistedOld⟩ := h.node_for hnum
  obtain ⟨node, hadd, hnodeNum, hprevious, hlisted, hident, hnodePeers⟩ :=
    ForkGraphNode.addSibling_ok peer holdNum holdPrevious
  have hget : ∀ key found, (d.set block.previous node).get? key = some found →
      (block.previous = key ∧ found = node) ∨ d.get? key = some found := by
    intro key found hfound
    rw [Dict.get?_set] at hfound
    by_cases hkey : block.previous = key
    · rw [if_pos hkey, Option.some.injEq] at hfound
      exact Or.inl ⟨hkey, hfound.symm⟩
    · rw [if_neg hkey] at hfound
      exact Or.inr hfound
  refine ⟨node, by rw [hold, hadd], by rw [hnodeNum, holdNum], ?_, ?_, ?_⟩
  · have hset : ((d.set block.previous node).entries.flatMap fun e => e.2.listed).Perm
        ([(peer, block)] ++ d.entries.flatMap fun e => e.2.listed) := by
      rw [hlistedOld] at hlisted
      exact Dict.flatMap_set_perm _ d hlisted
    have hbefore := h.listed
    rw [listedIn, Dict.values, List.flatMap_map] at hbefore ⊢
    exact hset.trans (List.perm_append_comm.trans (hbefore.append_right _))
  · intro key found hfound
    rcases hget key found hfound with ⟨hkey, rfl⟩ | hfound
    · rw [hprevious, ← holdPrevious, hkey]
    · exact h.previous key found hfound
  · intro key found hfound
    rcases hget key found hfound with ⟨-, rfl⟩ | hfound
    · exact ⟨List.ne_nil_of_mem hident, hnodePeers hpeers⟩
    · exact h.filled key found hfound

end Lists

/-- **What a graph holds** after blocks were added to it: these, and the earliest as its root. -/
structure Holds (g : ForkGraph Peer) (adds : List (Peer × SimpleBlock)) : Prop where
  lists : Lists g.graph adds
  rootKey : g.rootKey = g.root.map SimpleBlock.previous
  root : ∀ block, g.root = some block →
    (∃ peer, (peer, block) ∈ adds) ∧ ∀ a ∈ adds, block.num ≤ a.2.num
  rootless : g.root = none → adds = []

theorem holds_new : Holds (new : ForkGraph Peer) [] where
  lists := ⟨List.Perm.refl _, fun _ _ h => by simp [new] at h, fun _ _ h => by simp [new] at h⟩
  rootKey := rfl
  root _ h := by simp [new] at h
  rootless _ := rfl

variable {g : ForkGraph Peer} {adds : List (Peer × SimpleBlock)}

/-- The root of a graph is under its node. -/
theorem Holds.rootNode (h : g.Holds adds) {root : SimpleBlock} (hroot : g.root = some root) :
    ∃ node, g.rootNode = some node ∧ g.graph.get? root.previous = some node ∧
      node.num = root.num := by
  obtain ⟨⟨peer, hadded⟩, -⟩ := h.root root hroot
  obtain ⟨node, hnode, hnum, -⟩ := h.lists.exists_node hadded
  refine ⟨node, ?_, hnode, hnum⟩
  rw [ForkGraph.rootNode, h.rootKey, hroot]
  exact hnode

/-- The number that `add_block` compares with is that of the root. -/
theorem Holds.rootNode_set (h : g.Holds adds) {block : SimpleBlock} {node : ForkGraphNode Peer}
    (hnum : ∀ a ∈ adds, a.2.previous = block.previous → a.2.num = block.num)
    (hnode : node.num = block.num) :
    (ForkGraph.rootNode { g with graph := g.graph.set block.previous node }).map (·.num)
      = g.root.map SimpleBlock.num := by
  cases hroot : g.root with
  | none =>
      rw [ForkGraph.rootNode, h.rootKey, hroot]
      rfl
  | some root =>
      obtain ⟨old, -, hold, holdNum⟩ := h.rootNode hroot
      obtain ⟨⟨peer, hadded⟩, -⟩ := h.root root hroot
      rw [ForkGraph.rootNode, h.rootKey, hroot]
      show ((g.graph.set block.previous node).get? root.previous).map (·.num) = some root.num
      rw [Dict.get?_set]
      by_cases hkey : block.previous = root.previous
      · rw [if_pos hkey, Option.map_some, hnode, ← hnum _ hadded hkey.symm]
      · rw [if_neg hkey, hold, Option.map_some, holdNum]

/-- **One block.** -/
theorem Holds.addBlock (h : g.Holds adds) (peer : Peer) {block : SimpleBlock}
    (hnum : ∀ a ∈ adds, a.2.previous = block.previous → a.2.num = block.num) :
    ∃ g', g.addBlock peer block = .ok g' ∧ g'.Holds (adds ++ [(peer, block)]) := by
  obtain ⟨node, hadd, hnodeNum, hlists⟩ := h.lists.addSibling peer hnum
  have hroot := h.rootNode_set hnum hnodeNum
  have hnewRoot : (∀ a ∈ adds, block.num ≤ a.2.num) →
      Holds ⟨g.graph.set block.previous node, some block.previous, some block⟩
        (adds ++ [(peer, block)]) := by
    intro hleast
    refine ⟨hlists, rfl, fun root heq => ?_, by simp⟩
    obtain rfl := Option.some.inj heq
    refine ⟨⟨peer, by simp⟩, fun a ha => ?_⟩
    rcases List.mem_append.mp ha with ha | ha
    · exact hleast a ha
    · obtain rfl := List.mem_singleton.mp ha
      exact Int.le_refl _
  unfold ForkGraph.addBlock
  dsimp only
  rw [hadd]
  dsimp only
  cases hgraph : ForkGraph.rootNode { g with graph := g.graph.set block.previous node } with
  | none =>
      rw [hgraph, Option.map_none, eq_comm, Option.map_eq_none_iff] at hroot
      exact ⟨_, rfl, hnewRoot (by simp [h.rootless hroot])⟩
  | some rootNode =>
      rw [hgraph, Option.map_some, eq_comm, Option.map_eq_some_iff] at hroot
      obtain ⟨root, hroot, hrootNum⟩ := hroot
      obtain ⟨⟨rootPeer, hadded⟩, hleast⟩ := h.root root hroot
      dsimp only
      by_cases hlower : rootNode.num > block.num
      · rw [if_pos hlower]
        refine ⟨_, rfl, hnewRoot fun a ha => ?_⟩
        have hle := hleast a ha
        omega
      · rw [if_neg hlower]
        refine ⟨_, rfl, hlists, h.rootKey, fun found hfound => ?_, fun hnone => ?_⟩
        · obtain rfl : root = found := Option.some.inj (hroot.symm.trans hfound)
          refine ⟨⟨rootPeer, List.mem_append_left _ hadded⟩, fun a ha => ?_⟩
          rcases List.mem_append.mp ha with ha | ha
          · exact hleast a ha
          · obtain rfl := List.mem_singleton.mp ha
            show root.num ≤ block.num
            omega
        · exact absurd (hroot.symm.trans hnone) (by simp)

/-- Where no assertion fails, blocks with the same previous block have one number. -/
theorem Holds.num_eq_of_addBlock (h : g.Holds adds) {peer : Peer} {block : SimpleBlock}
    {g' : ForkGraph Peer} (hadd : g.addBlock peer block = .ok g') :
    ∀ a ∈ adds, a.2.previous = block.previous → a.2.num = block.num := by
  intro a ha hprevious
  obtain ⟨node, hnode, hnum, -⟩ := h.lists.exists_node ha
  rw [hprevious] at hnode
  rw [← hnum]
  by_contra hne
  have hsibling : node.addSibling peer block = .error .assertionError :=
    if_pos (Ne.symm hne)
  unfold ForkGraph.addBlock at hadd
  simp only [hnode, Option.getD_some, hsibling] at hadd
  exact absurd hadd (by simp)

/-- **Any blocks**, as long as no assertion fails. -/
theorem Holds.of_addBlocks : ∀ (news : List (Peer × SimpleBlock)) {g g' : ForkGraph Peer}
    {adds : List (Peer × SimpleBlock)}, g.Holds adds →
      news.foldlM (fun g e => g.addBlock e.1 e.2) g = .ok g' → g'.Holds (adds ++ news) := by
  intro news
  induction news with
  | nil =>
      intro g g' adds h hadd
      rw [List.append_nil, ← Except.ok.inj hadd]
      exact h
  | cons e news ih =>
      intro g g' adds h hadd
      rw [List.foldlM_cons] at hadd
      obtain ⟨g₁, hfirst, hrest⟩ := bind_eq_ok_iff.mp hadd
      obtain ⟨g₂, hsecond, h₁⟩ := h.addBlock e.1 (h.num_eq_of_addBlock hfirst)
      obtain rfl := Except.ok.inj (hfirst.symm.trans hsecond)
      have hnext := ih h₁ hrest
      rwa [List.append_assoc, List.singleton_append] at hnext

/-- **Blocks among which those with one previous block have one number**, one after the other. -/
theorem Holds.addBlocks_of_num {S : SimpleBlock → Prop}
    (hS : ∀ b b', S b → S b' → b.previous = b'.previous → b.num = b'.num) :
    ∀ (news : List (Peer × SimpleBlock)) {g : ForkGraph Peer} {adds : List (Peer × SimpleBlock)},
      g.Holds adds → (∀ a ∈ adds, S a.2) → (∀ a ∈ news, S a.2) →
      ∃ g', news.foldlM (fun g e => g.addBlock e.1 e.2) g = .ok g' ∧ g'.Holds (adds ++ news) := by
  intro news
  induction news with
  | nil =>
      intro g adds h _ _
      exact ⟨g, rfl, by rwa [List.append_nil]⟩
  | cons e news ih =>
      intro g adds h hadds hnews
      have he := hnews e (by simp)
      obtain ⟨g₁, hadd, h₁⟩ := h.addBlock e.1 fun a ha heq => hS _ _ (hadds a ha) he heq
      obtain ⟨g₂, hrest, h₂⟩ := ih h₁
        (fun a ha => (List.mem_append.mp ha).elim (hadds a) fun ha => by
          rw [List.mem_singleton.mp ha]
          exact he)
        fun a ha => hnews a (by simp [ha])
      refine ⟨g₂, ?_, ?_⟩
      · rw [List.foldlM_cons, hadd, ok_bind]
        exact hrest
      · rwa [List.append_assoc] at h₂

/-- The root after one block more. -/
def lower (root : Option SimpleBlock) (block : SimpleBlock) : Option SimpleBlock :=
  match root with
  | none => some block
  | some root => if root.num > block.num then some block else some root

theorem Holds.root_addBlock (h : g.Holds adds) {peer : Peer} {block : SimpleBlock}
    {g' : ForkGraph Peer} (hadd : g.addBlock peer block = .ok g') :
    g'.root = lower g.root block := by
  have hnum := h.num_eq_of_addBlock hadd
  obtain ⟨node, hsibling, hnodeNum, -⟩ := h.lists.addSibling peer hnum
  have hroot := h.rootNode_set hnum hnodeNum
  unfold ForkGraph.addBlock at hadd
  simp only [hsibling] at hadd
  cases hgraph : ForkGraph.rootNode { g with graph := g.graph.set block.previous node } with
  | none =>
      rw [hgraph, Option.map_none, eq_comm, Option.map_eq_none_iff] at hroot
      simp only [hgraph] at hadd
      rw [← Except.ok.inj hadd, hroot]
      rfl
  | some rootNode =>
      rw [hgraph, Option.map_some, eq_comm, Option.map_eq_some_iff] at hroot
      obtain ⟨root, hroot, hrootNum⟩ := hroot
      simp only [hgraph, ← hrootNum] at hadd
      rw [hroot, lower]
      by_cases hlower : root.num > block.num
      · rw [if_pos hlower] at hadd ⊢
        rw [← Except.ok.inj hadd]
      · rw [if_neg hlower] at hadd ⊢
        rw [← Except.ok.inj hadd, hroot]

/-- **The root after blocks** is the first with the lowest number. -/
theorem Holds.root_addBlocks : ∀ (news : List (Peer × SimpleBlock)) {g g' : ForkGraph Peer}
    {adds : List (Peer × SimpleBlock)}, g.Holds adds →
      news.foldlM (fun g e => g.addBlock e.1 e.2) g = .ok g' →
      g'.root = (news.map Prod.snd).foldl lower g.root := by
  intro news
  induction news with
  | nil =>
      intro g g' adds _ hadd
      rw [← Except.ok.inj hadd]
      rfl
  | cons e news ih =>
      intro g g' adds h hadd
      rw [List.foldlM_cons] at hadd
      obtain ⟨g₁, hfirst, hrest⟩ := bind_eq_ok_iff.mp hadd
      have h₁ := h.of_addBlocks [e] (by rw [List.foldlM_cons, hfirst, ok_bind]; rfl)
      rw [List.map_cons, List.foldl_cons, ih h₁ hrest, h.root_addBlock hfirst]

/-- In what order the blocks came does not matter. -/
theorem Holds.perm (h : g.Holds adds) {adds' : List (Peer × SimpleBlock)}
    (hperm : adds.Perm adds') : g.Holds adds' where
  lists := ⟨h.lists.listed.trans hperm, h.lists.previous, h.lists.filled⟩
  rootKey := h.rootKey
  root block hblock := by
    obtain ⟨⟨peer, hadded⟩, hleast⟩ := h.root block hblock
    exact ⟨⟨peer, hperm.subset hadded⟩, fun a ha => hleast a (hperm.symm.subset ha)⟩
  rootless hnone := by
    rw [h.rootless hnone] at hperm
    exact List.nil_perm.mp hperm

/-! ### Trees of blocks -/

/-- Blocks that hang together at a root: an id is that of one block, a previous block has the
number below, and every block but the root has its previous block among them. -/
structure Rooted (S : SimpleBlock → Prop) (root : SimpleBlock) : Prop where
  mem : S root
  ids : ∀ b b', S b → S b' → b.ident = b'.ident → b = b'
  previous : ∀ b p, S b → S p → b.previous = p.ident → b.num = p.num + 1
  connected : ∀ b, S b → b = root ∨ ∃ p, S p ∧ b.previous = p.ident
  least : ∀ b, S b → root.num ≤ b.num

variable {S : SimpleBlock → Prop} {root : SimpleBlock}

/-- Blocks with one previous block have one number. -/
theorem Rooted.num_eq (h : Rooted S root) {b b' : SimpleBlock} (hb : S b) (hb' : S b')
    (hprevious : b.previous = b'.previous) : b.num = b'.num := by
  rcases h.connected b hb with rfl | ⟨p, hp, hbp⟩
  · rcases h.connected b' hb' with rfl | ⟨p, hp, hbp⟩
    · rfl
    · rw [h.previous b' p hb' hp hbp, h.previous b p hb hp (hprevious.trans hbp)]
  · rw [h.previous b p hb hp hbp, h.previous b' p hb' hp (hprevious.symm.trans hbp)]

/-- **Adding blocks of a tree**, one after the other. -/
theorem Holds.addBlocks (hS : Rooted S root) (news : List (Peer × SimpleBlock))
    {g : ForkGraph Peer} {adds : List (Peer × SimpleBlock)} (h : g.Holds adds)
    (hadds : ∀ a ∈ adds, S a.2) (hnews : ∀ a ∈ news, S a.2) :
    ∃ g', news.foldlM (fun g e => g.addBlock e.1 e.2) g = .ok g' ∧ g'.Holds (adds ++ news) :=
  h.addBlocks_of_num (fun _ _ hb hb' => hS.num_eq hb hb') news hadds hnews

/-! ### Walking -/

theorem mem_children_iff {node child : ForkGraphNode Peer} :
    child ∈ g.children node ↔ ∃ ident ∈ node.siblings.keys, g.graph.get? ident = some child := by
  rw [children, List.mem_filterMap]

section Walking

variable (h : g.Holds adds) (hS : Rooted S root) (hsub : ∀ a ∈ adds, S a.2)
  (hall : ∀ b, S b → ∃ peer, (peer, b) ∈ adds)

include h hsub

/-- A node comes from a block of the tree. -/
theorem Holds.exists_block {key : PyString} {node : ForkGraphNode Peer}
    (hnode : g.graph.get? key = some node) :
    ∃ b, S b ∧ b.previous = key ∧ b.num = node.num := by
  obtain ⟨ident, hident⟩ := List.exists_mem_of_ne_nil _ (h.lists.filled key node hnode).blocks
  obtain ⟨peer, hadded⟩ := h.lists.exists_added hnode hident
  exact ⟨_, hsub _ hadded, rfl, rfl⟩

include hS hall

/-- **The root of the graph** is that of the tree. -/
theorem Holds.root_eq : g.root = some root := by
  obtain ⟨peer, hadded⟩ := hall root hS.mem
  cases hroot : g.root with
  | none =>
      rw [h.rootless hroot] at hadded
      simp at hadded
  | some found =>
      obtain ⟨⟨foundPeer, hfound⟩, hleast⟩ := h.root found hroot
      have hle : found.num ≤ root.num := hleast _ hadded
      rcases hS.connected found (hsub _ hfound) with heq | ⟨p, hp, hbp⟩
      · rw [heq]
      · have hnum : found.num = p.num + 1 := hS.previous _ p (hsub _ hfound) hp hbp
        have hp' := hS.least p hp
        omega

/-- A node that is not the root's is the child of the node of a block one below. -/
theorem Holds.exists_parent {key : PyString} {node : ForkGraphNode Peer}
    (hnode : g.graph.get? key = some node) (hkey : key ≠ root.previous) :
    ∃ p parent, S p ∧ g.graph.get? p.previous = some parent ∧ node ∈ g.children parent ∧
      node.num = p.num + 1 := by
  obtain ⟨b, hb, hprevious, hnum⟩ := h.exists_block hsub hnode
  rcases hS.connected b hb with rfl | ⟨p, hp, hbp⟩
  · exact absurd hprevious.symm hkey
  · obtain ⟨peer, hadded⟩ := hall p hp
    obtain ⟨parent, hparent, -, hident⟩ := h.lists.exists_node hadded
    refine ⟨p, parent, hp, hparent, mem_children_iff.mpr ⟨p.ident, hident, ?_⟩, ?_⟩
    · rw [← hbp, hprevious, hnode]
    · rw [← hnum, hS.previous b p hb hp hbp]

/-- Every node is reached from the root's; the induction is on its number. -/
theorem Holds.reached {rootNode : ForkGraphNode Peer}
    (hrootNode : g.graph.get? root.previous = some rootNode) :
    ∀ (n : Nat) {key : PyString} {node : ForkGraphNode Peer}, g.graph.get? key = some node →
      (node.num - root.num).toNat ≤ n →
      Relation.ReflTransGen (fun a b => b ∈ g.children a) rootNode node := by
  intro n
  induction n with
  | zero =>
      intro key node hnode hn
      by_cases hkey : key = root.previous
      · rw [hkey, hrootNode, Option.some.injEq] at hnode
        rw [hnode]
      · obtain ⟨p, parent, hp, -, -, hnum⟩ := h.exists_parent hS hsub hall hnode hkey
        have hle := hS.least p hp
        omega
  | succ n ih =>
      intro key node hnode hn
      by_cases hkey : key = root.previous
      · rw [hkey, hrootNode, Option.some.injEq] at hnode
        rw [hnode]
      · obtain ⟨p, parent, hp, hparent, hchild, hnum⟩ := h.exists_parent hS hsub hall hnode hkey
        obtain ⟨peer, hadded⟩ := hall p hp
        obtain ⟨found, hfound, hfoundNum, -⟩ := h.lists.exists_node hadded
        obtain rfl : parent = found := Option.some.inj (hparent.symm.trans hfound)
        exact (ih hparent (by omega)).tail hchild

omit hall in
/-- An id is under one node only. -/
theorem Holds.node_unique {key key' ident : PyString} {node node' : ForkGraphNode Peer}
    (hnode : g.graph.get? key = some node) (hnode' : g.graph.get? key' = some node')
    (hident : ident ∈ node.siblings.keys) (hident' : ident ∈ node'.siblings.keys) :
    node = node' := by
  obtain ⟨peer, hadded⟩ := h.lists.exists_added hnode hident
  obtain ⟨peer', hadded'⟩ := h.lists.exists_added hnode' hident'
  have hsame := hS.ids _ _ (hsub _ hadded) (hsub _ hadded') rfl
  have hkey : key = key' := congrArg SimpleBlock.previous hsame
  rw [hkey, hnode', Option.some.injEq] at hnode
  exact hnode.symm

omit hsub hS hall in
/-- The nodes have different previous ids, their keys. -/
theorem Holds.nodup_previous : (g.graph.values.map (·.previous)).Nodup := by
  have hkeys : g.graph.values.map (·.previous) = g.graph.keys := by
    rw [Dict.values, Dict.keys, List.map_map]
    exact List.map_congr_left fun e he => h.lists.previous e.1 e.2 (Dict.get?_eq_some_iff.mpr he)
  rw [hkeys]
  exact g.graph.nodup

omit hsub hS hall in
/-- A child is a node, and its key is the id of a sibling. -/
theorem Holds.child_key {node child : ForkGraphNode Peer} (hchild : child ∈ g.children node) :
    child ∈ g.graph.values ∧ child.previous ∈ node.siblings.keys := by
  obtain ⟨ident, hident, hget⟩ := mem_children_iff.mp hchild
  refine ⟨mem_values_iff.mpr ⟨ident, hget⟩, ?_⟩
  rwa [h.lists.previous ident child hget]

omit hall in
/-- The node of the root is nobody's child. -/
theorem Holds.root_not_child {rootNode : ForkGraphNode Peer}
    (hrootNode : g.graph.get? root.previous = some rootNode) :
    rootNode ∉ g.graph.values.flatMap g.children := by
  intro hmem
  obtain ⟨node, hnode, hroot⟩ := List.mem_flatMap.mp hmem
  have hident := (h.child_key hroot).2
  obtain ⟨key, hkey⟩ := mem_values_iff.mp hnode
  rw [h.lists.previous _ _ hrootNode] at hident
  obtain ⟨peer, hadded⟩ := h.lists.exists_added hkey hident
  have hnum := hS.previous root _ hS.mem (hsub _ hadded) rfl
  have hle := hS.least _ (hsub _ hadded)
  omega

omit hsub hS hall in
/-- No node is a child of one node twice. -/
theorem Holds.nodup_children_of (node : ForkGraphNode Peer) : (g.children node).Nodup := by
  rw [children]
  refine node.siblings.nodup.filterMap fun ident ident' child hget hget' => ?_
  rw [← h.lists.previous ident child hget, h.lists.previous ident' child hget']

omit hall in
/-- No node is a child twice, of one node or of two. -/
theorem Holds.nodup_children : (g.graph.values.flatMap g.children).Nodup := by
  rw [List.nodup_flatMap]
  constructor
  · exact fun node _ => h.nodup_children_of node
  · refine h.nodup_previous.of_map.pairwise_of_forall_ne fun node hnode node' hnode' hne => ?_
    intro child hchild hchild'
    obtain ⟨key, hkey⟩ := mem_values_iff.mp hnode
    obtain ⟨key', hkey'⟩ := mem_values_iff.mp hnode'
    exact hne (h.node_unique hS hsub hkey hkey' (h.child_key hchild).2 (h.child_key hchild').2)

/-- **The nodes of the graph are those of a tree.** -/
theorem Holds.isTree {rootNode : ForkGraphNode Peer}
    (hrootNode : g.graph.get? root.previous = some rootNode) :
    Walk.IsTree g.children rootNode g.graph.values where
  nodup := h.nodup_previous.of_map
  children_perm := by
    rw [List.perm_ext_iff_of_nodup (List.nodup_cons.mpr
      ⟨h.root_not_child hS hsub hrootNode, h.nodup_children hS hsub⟩) h.nodup_previous.of_map]
    intro node
    rw [List.mem_cons, List.mem_flatMap]
    constructor
    · rintro (rfl | ⟨parent, -, hnode⟩)
      · exact mem_values_iff.mpr ⟨_, hrootNode⟩
      · exact (h.child_key hnode).1
    · intro hnode
      obtain ⟨key, hkey⟩ := mem_values_iff.mp hnode
      by_cases hroot : key = root.previous
      · rw [hroot, hrootNode, Option.some.injEq] at hkey
        exact Or.inl hkey.symm
      · obtain ⟨p, parent, -, hparent, hnode, -⟩ := h.exists_parent hS hsub hall hkey hroot
        exact Or.inr ⟨parent, mem_values_iff.mpr ⟨_, hparent⟩, hnode⟩
  reached node hnode := by
    obtain ⟨key, hkey⟩ := mem_values_iff.mp hnode
    exact h.reached hS hsub hall hrootNode _ hkey (Nat.le_refl _)

/-- **A walk lists what was added**, each block once for each time it was added. -/
theorem Holds.exists_walk : ∃ nodes, (listedIn nodes).Perm adds ∧
    ∀ fuel, g.graph.values.length < fuel → g.walk fuel = some (.ok nodes) := by
  obtain ⟨rootNode, hrootNode, hget, -⟩ := h.rootNode (h.root_eq hS hsub hall)
  obtain ⟨nodes, hnodes, hwalk⟩ := (h.isTree hS hsub hall hget).exists_walk
  refine ⟨nodes, (hnodes.flatMap_right _).trans h.lists.listed, fun fuel hfuel => ?_⟩
  rw [walk, hrootNode]
  show (Walk.walk g.children fuel [rootNode]).map Except.ok = _
  rw [hwalk fuel hfuel]
  rfl

end Walking

end ForkGraph

end Evoting
