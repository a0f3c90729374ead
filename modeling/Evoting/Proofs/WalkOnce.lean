/-
When a walk of a fork graph yields every node once.

`add_block` asks of a block only that its siblings have its number; nothing keeps a
block from naming one of its own descendants as its previous block, or two peers from
reporting one id under two previous blocks.  The nodes that a walk reaches are those
whose ids the blocks lead to from the root's previous id, and it yields each of them
once just when these blocks are a tree (`walksOnce_iff`).
-/
import Evoting.Proofs.ForkGraph
import Mathlib.Data.List.Pairwise

namespace Evoting

open ForkGraph

variable {Peer : Type}

/-- Calls of `add_block` on a new graph. -/
def addAll (adds : List (Peer × SimpleBlock)) : Except PyException (ForkGraph Peer) :=
  adds.foldlM (fun g e => g.addBlock e.1 e.2) ForkGraph.new

/-- The ids that blocks lead to from an id, block after block. -/
inductive LeadsTo (adds : List (Peer × SimpleBlock)) (start : PyString) : PyString → Prop
  | refl : LeadsTo adds start start
  | block {peer : Peer} {b : SimpleBlock} (hadded : (peer, b) ∈ adds)
      (hprevious : LeadsTo adds start b.previous) : LeadsTo adds start b.ident

/-- **The blocks that an id leads to are a tree**: none of them has that id again, and no two with
one id, of those that another block names, have two previous blocks. -/
structure Treelike (adds : List (Peer × SimpleBlock)) (start : PyString) : Prop where
  no_return : ∀ a ∈ adds, LeadsTo adds start a.2.previous → a.2.ident ≠ start
  one_previous : ∀ a ∈ adds, ∀ b ∈ adds, LeadsTo adds start a.2.previous →
    LeadsTo adds start b.2.previous → a.2.ident = b.2.ident →
    (∃ c ∈ adds, c.2.previous = a.2.ident) → a.2.previous = b.2.previous

/-- `walk()` ends, and yields every node that is reached from the root's once. -/
def WalksOnce (g : ForkGraph Peer) : Prop :=
  ∃ rootNode nodes, g.rootNode = some rootNode ∧
    (∃ n, ∀ fuel, n < fuel → g.walk fuel = some (.ok nodes)) ∧ nodes.Nodup ∧
    ∀ node, node ∈ nodes ↔ Relation.ReflTransGen (fun a b => b ∈ g.children a) rootNode node

section

variable {g : ForkGraph Peer} {adds : List (Peer × SimpleBlock)} {root : SimpleBlock}
  {rootNode : ForkGraphNode Peer}

theorem walksOnce_iff_yieldsOnce (hrootNode : g.rootNode = some rootNode) :
    WalksOnce g ↔ Walk.YieldsOnce g.children rootNode := by
  have hwalk : ∀ fuel nodes, g.walk fuel = some (.ok nodes) ↔
      Walk.walk g.children fuel [rootNode] = some nodes := by
    intro fuel nodes
    rw [ForkGraph.walk, hrootNode]
    simp
  constructor
  · rintro ⟨found, nodes, hfound, ⟨n, hends⟩, hnodup, hmem⟩
    obtain rfl := Option.some.inj (hrootNode.symm.trans hfound)
    exact ⟨nodes, ⟨n, fun fuel hfuel => (hwalk fuel nodes).mp (hends fuel hfuel)⟩, hnodup, hmem⟩
  · rintro ⟨nodes, ⟨n, hends⟩, hnodup, hmem⟩
    exact ⟨rootNode, nodes, hrootNode,
      ⟨n, fun fuel hfuel => (hwalk fuel nodes).mpr (hends fuel hfuel)⟩, hnodup, hmem⟩

section Reaching

variable (h : g.Holds adds) (hrootNode : g.graph.get? root.previous = some rootNode)

include h hrootNode

/-- A node that is reached is in the graph, and the blocks lead to its key. -/
theorem leadsTo_of_reached {node : ForkGraphNode Peer}
    (hreached : Relation.ReflTransGen (fun a b => b ∈ g.children a) rootNode node) :
    g.graph.get? node.previous = some node ∧ LeadsTo adds root.previous node.previous := by
  induction hreached with
  | refl =>
      rw [h.lists.previous _ _ hrootNode]
      exact ⟨hrootNode, .refl⟩
  | @tail parent child _ hchild ih =>
      obtain ⟨hparent, hleads⟩ := ih
      obtain ⟨ident, hident, hget⟩ := mem_children_iff.mp hchild
      obtain ⟨peer, hadded⟩ := h.lists.exists_added hparent hident
      rw [h.lists.previous _ _ hget]
      exact ⟨hget, .block hadded hleads⟩

/-- A node whose key the blocks lead to is reached. -/
theorem reached_of_leadsTo {key : PyString} (hleads : LeadsTo adds root.previous key) :
    ∀ {node : ForkGraphNode Peer}, g.graph.get? key = some node →
      Relation.ReflTransGen (fun a b => b ∈ g.children a) rootNode node := by
  induction hleads with
  | refl =>
      intro node hnode
      rw [hrootNode, Option.some.injEq] at hnode
      rw [hnode]
  | block hadded _ ih =>
      intro node hnode
      obtain ⟨parent, hparent, -, hident⟩ := h.lists.exists_node hadded
      exact (ih hparent).tail (mem_children_iff.mpr ⟨_, hident, hnode⟩)

/-- The node of a block that is led to, with the block's id under it. -/
theorem exists_reached_parent {a : Peer × SimpleBlock} (ha : a ∈ adds)
    (hleads : LeadsTo adds root.previous a.2.previous) :
    ∃ parent, g.graph.get? a.2.previous = some parent ∧
      Relation.ReflTransGen (fun a b => b ∈ g.children a) rootNode parent ∧
      ∀ child, g.graph.get? a.2.ident = some child → child ∈ g.children parent := by
  obtain ⟨parent, hparent, -, hident⟩ := h.lists.exists_node ha
  exact ⟨parent, hparent, reached_of_leadsTo h hrootNode hleads hparent, fun child hchild =>
    mem_children_iff.mpr ⟨_, hident, hchild⟩⟩

variable {nodes : List (ForkGraphNode Peer)} (hnodup : nodes.Nodup)
  (hnodes : ∀ node, node ∈ nodes ↔
    Relation.ReflTransGen (fun a b => b ∈ g.children a) rootNode node)

include hnodes

/-- Nodes without a common child come from a tree of blocks. -/
theorem treelike_of_nodup (hchildren : (rootNode :: nodes.flatMap g.children).Nodup) :
    Treelike adds root.previous := by
  rw [List.nodup_cons, List.nodup_flatMap] at hchildren
  obtain ⟨hroot, -, hdisjoint⟩ := hchildren
  constructor
  · intro a ha hleads hident
    obtain ⟨parent, -, hreached, hchild⟩ := exists_reached_parent h hrootNode ha hleads
    rw [hident] at hchild
    exact hroot (List.mem_flatMap.mpr ⟨parent, (hnodes parent).mpr hreached, hchild _ hrootNode⟩)
  · intro a ha b hb hleads hleads' hident hnamed
    obtain ⟨parent, hparent, hreached, hchild⟩ := exists_reached_parent h hrootNode ha hleads
    obtain ⟨parent', hparent', hreached', hchild'⟩ := exists_reached_parent h hrootNode hb hleads'
    obtain ⟨c, hc, hcprevious⟩ := hnamed
    obtain ⟨child, hget, -⟩ := h.lists.exists_node hc
    rw [hcprevious] at hget
    -- the block that names the id is under a child of both
    have hsame : parent = parent' := by
      by_contra hne
      have hsymm : Std.Symm (Function.onFun List.Disjoint g.children) :=
        ⟨fun _ _ hdisjoint _ hfirst hsecond => hdisjoint hsecond hfirst⟩
      exact hdisjoint.forall ((hnodes parent).mpr hreached) ((hnodes parent').mpr hreached') hne
        (hchild child hget) (hchild' child (hident ▸ hget))
    rw [← h.lists.previous _ _ hparent, hsame, h.lists.previous _ _ hparent']

include hnodup

/-- A tree of blocks makes nodes without a common child. -/
theorem nodup_of_treelike (htree : Treelike adds root.previous) :
    (rootNode :: nodes.flatMap g.children).Nodup := by
  have hled : ∀ node ∈ nodes, g.graph.get? node.previous = some node ∧
      LeadsTo adds root.previous node.previous := fun node hnode =>
    leadsTo_of_reached h hrootNode ((hnodes node).mp hnode)
  rw [List.nodup_cons, List.nodup_flatMap]
  refine ⟨?_, fun node _ => h.nodup_children_of node, ?_⟩
  · intro hroot
    obtain ⟨parent, hparent, hchild⟩ := List.mem_flatMap.mp hroot
    obtain ⟨hget, hleads⟩ := hled parent hparent
    obtain ⟨peer, hadded⟩ := h.lists.exists_added hget (h.child_key hchild).2
    exact htree.no_return _ hadded hleads (h.lists.previous _ _ hrootNode)
  · refine hnodup.pairwise_of_forall_ne fun parent hparent parent' hparent' hne => ?_
    intro child hchild hchild'
    obtain ⟨hget, hleads⟩ := hled parent hparent
    obtain ⟨hget', hleads'⟩ := hled parent' hparent'
    obtain ⟨peer, hadded⟩ := h.lists.exists_added hget (h.child_key hchild).2
    obtain ⟨peer', hadded'⟩ := h.lists.exists_added hget' (h.child_key hchild').2
    -- the child is a node because a block names it
    obtain ⟨key, hkey⟩ := mem_values_iff.mp (h.child_key hchild).1
    obtain ⟨ident, hident⟩ := List.exists_mem_of_ne_nil _ (h.lists.filled key child hkey).blocks
    obtain ⟨namer, hnamer⟩ := h.lists.exists_added hkey hident
    have hprevious := htree.one_previous _ hadded _ hadded' hleads hleads' rfl
      ⟨_, hnamer, (h.lists.previous key child hkey).symm⟩
    refine hne ?_
    rw [show parent.previous = parent'.previous from hprevious, hget', Option.some.injEq] at hget
    exact hget.symm

end Reaching

open Classical in
/-- A walk from the root yields every node once just when the blocks it leads to are a tree. -/
theorem walksOnce_iff_treelike (h : g.Holds adds) (hroot : g.root = some root) :
    WalksOnce g ↔ Treelike adds root.previous := by
  obtain ⟨rootNode, hrootNode, hget, -⟩ := h.rootNode hroot
  have hnodes : ∀ node, node ∈ (g.graph.values.filter fun node =>
      Relation.ReflTransGen (fun a b => b ∈ g.children a) rootNode node) ↔
      Relation.ReflTransGen (fun a b => b ∈ g.children a) rootNode node := by
    intro node
    rw [List.mem_filter, decide_eq_true_eq, and_iff_right_iff_imp]
    intro hreached
    exact mem_values_iff.mpr ⟨_, (leadsTo_of_reached h hget hreached).1⟩
  have hnodup := h.nodup_previous.of_map.filter fun node =>
    decide (Relation.ReflTransGen (fun a b => b ∈ g.children a) rootNode node)
  rw [walksOnce_iff_yieldsOnce hrootNode, Walk.yieldsOnce_iff hnodup hnodes]
  exact ⟨treelike_of_nodup h hget hnodes, nodup_of_treelike h hget hnodup hnodes⟩

/-- **When a walk yields every node once.**  After any calls of `add_block` in which no assertion
fails, a walk from the root ends and yields every node it can reach once, if and only if the blocks
that the root's previous id leads to are a tree. -/
theorem walksOnce_iff (hne : adds ≠ []) (hadd : addAll adds = .ok g) :
    ∃ root, g.root = some root ∧ (WalksOnce g ↔ Treelike adds root.previous) := by
  have h : g.Holds adds := Holds.of_addBlocks adds holds_new hadd
  cases hroot : g.root with
  | none => exact absurd (h.rootless hroot) hne
  | some root => exact ⟨root, rfl, walksOnce_iff_treelike h hroot⟩

end

/-- Two peers on a fork, one block up from its root. -/
def forkAdds : List (Nat × SimpleBlock) :=
  [(0, ⟨6, ['b'], ['a']⟩), (1, ⟨6, ['c'], ['a']⟩), (0, ⟨5, ['a'], ['0']⟩), (1, ⟨5, ['a'], ['0']⟩)]

/-- A graph that is built from the blocks. -/
def graphOf (adds : List (Nat × SimpleBlock)) : ForkGraph Nat :=
  match addAll adds with
  | .ok g => g
  | .error _ => ForkGraph.new

theorem walksOnce_forkAdds : ∃ root, (graphOf forkAdds).root = some root ∧
    (WalksOnce (graphOf forkAdds) ↔ Treelike forkAdds root.previous) :=
  walksOnce_iff (by decide) rfl

/-- A block that names itself as its previous block. -/
def loopAdds : List (Nat × SimpleBlock) := [(0, ⟨5, ['a'], ['a']⟩)]

/-- Block `d` on top of both `b` and `c`, and a block on top of it. -/
def rejoinAdds : List (Nat × SimpleBlock) :=
  [(0, ⟨5, ['a'], ['0']⟩), (0, ⟨6, ['b'], ['a']⟩), (1, ⟨6, ['c'], ['a']⟩),
    (0, ⟨7, ['d'], ['b']⟩), (1, ⟨7, ['d'], ['c']⟩), (0, ⟨8, ['e'], ['d']⟩)]

/-- The nodes of a walk of that graph; the node under `d` is there twice. -/
def rejoinNodes : List (ForkGraphNode Nat) :=
  [⟨Dict.empty.set ['a'] [0], 5, ['0']⟩, ⟨(Dict.empty.set ['b'] [0]).set ['c'] [1], 6, ['a']⟩,
    ⟨Dict.empty.set ['d'] [0], 7, ['b']⟩, ⟨Dict.empty.set ['d'] [1], 7, ['c']⟩,
    ⟨Dict.empty.set ['e'] [0], 8, ['d']⟩, ⟨Dict.empty.set ['e'] [0], 8, ['d']⟩]

/-- A walk of the first graph never ends, and one of the second yields a node twice. -/
theorem not_walksOnce :
    (addAll loopAdds = .ok (graphOf loopAdds) ∧ (∀ fuel, (graphOf loopAdds).walk fuel = none) ∧
      ¬WalksOnce (graphOf loopAdds)) ∧
    addAll rejoinAdds = .ok (graphOf rejoinAdds) ∧
      (∀ fuel, (graphOf rejoinAdds).walk (fuel + 7) = some (.ok rejoinNodes)) ∧
      ¬WalksOnce (graphOf rejoinAdds) := by
  have hnever : ∀ fuel, (graphOf loopAdds).walk fuel = none := by
    intro fuel
    show (Walk.walk (graphOf loopAdds).children fuel
      [⟨Dict.empty.set ['a'] [0], 5, ['a']⟩]).map Except.ok = none
    rw [Walk.walk_eq_none rfl fuel, Option.map_none]
  have htwice : ∀ fuel, (graphOf rejoinAdds).walk (fuel + 7) = some (.ok rejoinNodes) :=
    fun fuel => rfl
  refine ⟨⟨rfl, hnever, ?_⟩, rfl, htwice, ?_⟩
  · rintro ⟨rootNode, nodes, -, ⟨n, hends⟩, -⟩
    have hwalk := hends (n + 1) (Nat.lt_succ_self n)
    rw [hnever] at hwalk
    exact absurd hwalk (by simp)
  · rintro ⟨rootNode, nodes, -, ⟨n, hends⟩, hnodup, -⟩
    have hwalk := hends (n + 7) (by omega)
    rw [htwice, Option.some.injEq, Except.ok.injEq] at hwalk
    rw [← hwalk] at hnodup
    exact absurd hnodup (by decide)

end Evoting
