/-
Removing peers from a fork graph.

`prune_unreporting_peers` goes through the nodes that a walk yields and takes each of
the peers off the list of each sibling, once.  It changes no ids, so a walk afterwards
yields the same nodes, pruned (`walk_pruneNodes`).  A peer that was added twice with one
block is still listed under it, and under what the walk does not reach nothing changes
(`pruneNodes_get?`).
-/
import Evoting.Proofs.Compare
import Evoting.Proofs.WalkOnce
import Mathlib.Data.List.Count

namespace Evoting

open ForkGraph

variable {Peer : Type} [DecidableEq Peer]

/-! ### One node -/

theorem withoutPeers_eq_diff (unreporting : List Peer) :
    ∀ peers : List Peer, withoutPeers unreporting peers = peers.diff unreporting := by
  induction unreporting with
  | nil => intro peers; rfl
  | cons badPeer unreporting ih =>
      intro peers
      rw [List.diff_cons, ← ih]
      show withoutPeers unreporting (if badPeer ∈ peers then peers.erase badPeer else peers) = _
      by_cases hmem : badPeer ∈ peers
      · rw [if_pos hmem]
      · rw [if_neg hmem, List.erase_of_not_mem hmem]

/-- A node without the peers. -/
def ForkGraphNode.pruned (unreporting : List Peer) (node : ForkGraphNode Peer) :
    ForkGraphNode Peer :=
  { node with siblings := node.siblings.mapValues (withoutPeers unreporting) }

namespace ForkGraphNode

variable {node : ForkGraphNode Peer} {unreporting : List Peer}

@[simp] theorem keys_pruned : (node.pruned unreporting).siblings.keys = node.siblings.keys := by
  simp [pruned, Dict.keys, Dict.mapValues, Function.comp_def]

/-- How often a peer is listed with a block: as often as it is under the block's id. -/
theorem count_listed (node : ForkGraphNode Peer) (peer : Peer) (ident : PyString) :
    node.listed.count (peer, ⟨node.num, ident, node.previous⟩)
      = (node.siblings.get? ident).elim 0 (List.count peer) := by
  have hinj : Function.Injective fun p : Peer =>
      (p, (⟨node.num, ident, node.previous⟩ : SimpleBlock)) := fun p q hpq =>
    congrArg Prod.fst hpq
  rw [listed, Dict.count_flatMap (k := ident)]
  · refine congrArg (Option.elim _ 0) (funext fun peers => ?_)
    exact List.count_map_of_injective peers _ hinj peer
  · intro e hident hmem
    obtain ⟨p, -, hp⟩ := List.mem_map.mp hmem
    exact hident (congrArg (fun a : Peer × SimpleBlock => a.2.ident) hp)

omit [DecidableEq Peer] in
theorem eq_of_mem_listed {a : Peer × SimpleBlock} (ha : a ∈ node.listed) :
    a.2 = ⟨node.num, a.2.ident, node.previous⟩ := by
  obtain ⟨-, hnum, hprevious⟩ := mem_listed_iff.mp ha
  rw [← hnum, ← hprevious]

/-- **What is left of a node's list**: each of the peers is off once. -/
theorem count_pruned (a : Peer × SimpleBlock) :
    (node.pruned unreporting).listed.count a = node.listed.count a - unreporting.count a.1 := by
  by_cases hblock : a.2 = ⟨node.num, a.2.ident, node.previous⟩
  · obtain ⟨peer, block⟩ := a
    rw [show block = ⟨node.num, block.ident, node.previous⟩ from hblock, count_listed]
    have hpruned := count_listed (node.pruned unreporting) peer block.ident
    refine hpruned.trans ?_
    rw [show (node.pruned unreporting).siblings.get? block.ident
      = (node.siblings.get? block.ident).map (withoutPeers unreporting) from Dict.get?_mapValues ..]
    cases node.siblings.get? block.ident with
    | none => simp
    | some peers => simp [withoutPeers_eq_diff, List.count_diff]
  · have hnone : node.listed.count a = 0 :=
      List.count_eq_zero.mpr fun ha => hblock (eq_of_mem_listed ha)
    have hnone' : (node.pruned unreporting).listed.count a = 0 := by
      rw [List.count_eq_zero]
      intro ha
      have hpruned := eq_of_mem_listed ha
      exact hblock hpruned
    rw [hnone, hnone', Nat.zero_sub]

end ForkGraphNode

/-! ### Some nodes -/

omit [DecidableEq Peer] in
/-- A block is listed by one node only. -/
theorem ForkGraphNode.eq_of_listed {nodes : List (ForkGraphNode Peer)}
    (hnodup : (nodes.map (·.previous)).Nodup) {node other : ForkGraphNode Peer}
    (hnode : node ∈ nodes) (hother : other ∈ nodes) {a : Peer × SimpleBlock}
    (ha : a ∈ node.listed) (ha' : a ∈ other.listed) : node = other := by
  have hprevious := (ForkGraphNode.mem_listed_iff.mp ha).2.2
  have hprevious' := (ForkGraphNode.mem_listed_iff.mp ha').2.2
  exact List.inj_on_of_nodup_map hnodup hnode hother (hprevious.symm.trans hprevious')

/-- What is counted in nodes is counted in the one that lists it. -/
theorem count_listedIn {nodes : List (ForkGraphNode Peer)}
    (hnodup : (nodes.map (·.previous)).Nodup) {node : ForkGraphNode Peer} (hnode : node ∈ nodes)
    {a : Peer × SimpleBlock} (ha : a ∈ node.listed)
    {f : ForkGraphNode Peer → ForkGraphNode Peer}
    (hf : ∀ other, (f other).listed ⊆ other.listed) :
    (listedIn (nodes.map f)).count a = (f node).listed.count a := by
  have hnodes : nodes.Nodup := hnodup.of_map
  obtain ⟨before, after, rfl⟩ := List.append_of_mem hnode
  have hothers : ∀ l : List (ForkGraphNode Peer), node ∉ l → l ⊆ before ++ node :: after →
      (listedIn (l.map f)).count a = 0 := by
    intro l hl hsub
    rw [List.count_eq_zero, listedIn, List.flatMap_map, List.mem_flatMap]
    rintro ⟨other, hother, hmem⟩
    have hsame := ForkGraphNode.eq_of_listed hnodup hnode (hsub hother) ha (hf other hmem)
    exact hl (hsame ▸ hother)
  rw [List.nodup_append, List.nodup_cons] at hnodes
  obtain ⟨-, ⟨hafter, -⟩, hbefore⟩ := hnodes
  have hzero := hothers before (fun hmem => hbefore node hmem node (by simp) rfl) (by simp)
  have hzero' := hothers after hafter (fun other hother => by simp [hother])
  rw [listedIn] at hzero hzero' ⊢
  rw [List.map_append, List.map_cons, List.flatMap_append, List.flatMap_cons, List.count_append,
    List.count_append, hzero, hzero']
  omega

/-- What nodes list, by the node that does. -/
theorem count_listedIn_node {nodes : List (ForkGraphNode Peer)}
    (hnodup : (nodes.map (·.previous)).Nodup) {node : ForkGraphNode Peer} (hnode : node ∈ nodes)
    {a : Peer × SimpleBlock} (ha : a ∈ node.listed) :
    (listedIn nodes).count a = node.listed.count a := by
  have hsame := count_listedIn hnodup hnode ha (f := id) fun _ => List.Subset.refl _
  rwa [List.map_id] at hsame

/-- **What is left of the nodes' lists.** -/
theorem count_listedIn_pruned {nodes : List (ForkGraphNode Peer)}
    (hnodup : (nodes.map (·.previous)).Nodup) (unreporting : List Peer) (a : Peer × SimpleBlock) :
    (listedIn (nodes.map (·.pruned unreporting))).count a
      = (listedIn nodes).count a - unreporting.count a.1 := by
  have hsub : ∀ node : ForkGraphNode Peer, (node.pruned unreporting).listed ⊆ node.listed := by
    intro node a ha
    have hcount := List.count_pos_iff.mpr ha
    rw [ForkGraphNode.count_pruned] at hcount
    exact List.count_pos_iff.mp (by omega)
  by_cases hlisted : a ∈ listedIn nodes
  · obtain ⟨node, hnode, ha⟩ := List.mem_flatMap.mp hlisted
    rw [count_listedIn hnodup hnode ha hsub, count_listedIn_node hnodup hnode ha,
      ForkGraphNode.count_pruned]
  · have hnot : a ∉ listedIn (nodes.map (·.pruned unreporting)) := by
      rw [listedIn, List.flatMap_map, List.mem_flatMap]
      rintro ⟨node, hnode, ha⟩
      exact hlisted (List.mem_flatMap.mpr ⟨node, hnode, hsub node ha⟩)
    rw [List.count_eq_zero.mpr hnot, List.count_eq_zero.mpr hlisted, Nat.zero_sub]

/-! ### The graph -/

section Graph

variable {unreporting : List Peer}

theorem pruneNode_get? (g : ForkGraph Peer) (node : ForkGraphNode Peer) (key : PyString) :
    (pruneNode unreporting g node).graph.get? key
      = if node.previous = key then (g.graph.get? key).map (·.pruned unreporting)
        else g.graph.get? key := by
  unfold pruneNode
  cases hget : g.graph.get? node.previous with
  | none =>
      by_cases hkey : node.previous = key
      · rw [if_pos hkey, ← hkey, hget]
        rfl
      · rw [if_neg hkey]
  | some current =>
      show (g.graph.set node.previous _).get? key = _
      rw [Dict.get?_set]
      by_cases hkey : node.previous = key
      · rw [if_pos hkey, if_pos hkey, ← hkey, hget]
        rfl
      · rw [if_neg hkey, if_neg hkey]

theorem pruneNode_roots (unreporting : List Peer) (g : ForkGraph Peer) (node : ForkGraphNode Peer) :
    (pruneNode unreporting g node).rootKey = g.rootKey ∧
      (pruneNode unreporting g node).root = g.root := by
  unfold pruneNode
  cases g.graph.get? node.previous with
  | none => exact ⟨rfl, rfl⟩
  | some current => exact ⟨rfl, rfl⟩

/-- The graph after the loop over some nodes. -/
def pruneNodes (unreporting : List Peer) (g : ForkGraph Peer) (nodes : List (ForkGraphNode Peer)) :
    ForkGraph Peer := nodes.foldl (pruneNode unreporting) g

/-- **The nodes of the loop are pruned**, and no others. -/
theorem pruneNodes_get? (nodes : List (ForkGraphNode Peer)) :
    ∀ g : ForkGraph Peer, (nodes.map (·.previous)).Nodup → ∀ key,
      (pruneNodes unreporting g nodes).graph.get? key
        = if key ∈ nodes.map (·.previous) then (g.graph.get? key).map (·.pruned unreporting)
          else g.graph.get? key := by
  induction nodes with
  | nil => intro g _ key; rfl
  | cons node nodes ih =>
      intro g hnodup key
      rw [List.map_cons, List.nodup_cons] at hnodup
      refine (ih (pruneNode unreporting g node) hnodup.2 key).trans ?_
      rw [pruneNode_get?, List.map_cons]
      by_cases hkey : node.previous = key
      · have hrest : key ∉ nodes.map (·.previous) := hkey ▸ hnodup.1
        rw [if_neg hrest, if_pos hkey, if_pos (by simp [hkey])]
      · rw [if_neg hkey]
        simp only [List.mem_cons, Ne.symm hkey, false_or]

theorem pruneNodes_roots (nodes : List (ForkGraphNode Peer)) : ∀ g : ForkGraph Peer,
    (pruneNodes unreporting g nodes).rootKey = g.rootKey ∧
      (pruneNodes unreporting g nodes).root = g.root := by
  induction nodes with
  | nil => intro g; exact ⟨rfl, rfl⟩
  | cons node nodes ih =>
      intro g
      obtain ⟨hkey, hroot⟩ := ih (pruneNode unreporting g node)
      obtain ⟨hkey', hroot'⟩ := pruneNode_roots unreporting g node
      exact ⟨hkey.trans hkey', hroot.trans hroot'⟩

end Graph

/-! ### A walk of the pruned graph -/

section Walking

variable {g : ForkGraph Peer} {adds : List (Peer × SimpleBlock)} {root : SimpleBlock}
  {rootNode : ForkGraphNode Peer} {nodes : List (ForkGraphNode Peer)}

omit [DecidableEq Peer] in
/-- The nodes that are reached have different previous ids. -/
theorem nodup_previous_of_reached (h : g.Holds adds)
    (hrootNode : g.graph.get? root.previous = some rootNode) (hnodup : nodes.Nodup)
    (hnodes : ∀ node, node ∈ nodes ↔
      Relation.ReflTransGen (fun a b => b ∈ g.children a) rootNode node) :
    (nodes.map (·.previous)).Nodup := by
  refine hnodup.map_on fun node hnode other hother heq => ?_
  have hget := (leadsTo_of_reached h hrootNode ((hnodes node).mp hnode)).1
  have hget' := (leadsTo_of_reached h hrootNode ((hnodes other).mp hother)).1
  rw [heq, hget'] at hget
  exact (Option.some.inj hget).symm

/-- **What the nodes that are reached list**: what was added of the blocks that are led to. -/
theorem count_reached (h : g.Holds adds)
    (hrootNode : g.graph.get? root.previous = some rootNode) (hnodup : nodes.Nodup)
    (hnodes : ∀ node, node ∈ nodes ↔
      Relation.ReflTransGen (fun a b => b ∈ g.children a) rootNode node)
    (a : Peer × SimpleBlock) :
    (LeadsTo adds root.previous a.2.previous → (listedIn nodes).count a = adds.count a) ∧
    (¬LeadsTo adds root.previous a.2.previous → (listedIn nodes).count a = 0) := by
  constructor
  · intro hleads
    rw [← h.lists.listed.count_eq a]
    by_cases hlisted : a ∈ listedIn g.graph.values
    · obtain ⟨node, hnode, ha⟩ := List.mem_flatMap.mp hlisted
      obtain ⟨key, hget⟩ := mem_values_iff.mp hnode
      have hkey : a.2.previous = key :=
        (ForkGraphNode.mem_listed_iff.mp ha).2.2.trans (h.lists.previous key node hget)
      have hreached := reached_of_leadsTo h hrootNode hleads (hkey ▸ hget)
      have hprevious := nodup_previous_of_reached h hrootNode hnodup hnodes
      rw [count_listedIn_node h.nodup_previous hnode ha,
        count_listedIn_node hprevious ((hnodes node).mpr hreached) ha]
    · have hnot : a ∉ listedIn nodes := by
        intro hmem
        obtain ⟨node, hnode, ha⟩ := List.mem_flatMap.mp hmem
        have hget := (leadsTo_of_reached h hrootNode ((hnodes node).mp hnode)).1
        exact hlisted (List.mem_flatMap.mpr ⟨node, mem_values_iff.mpr ⟨_, hget⟩, ha⟩)
      rw [List.count_eq_zero.mpr hnot, List.count_eq_zero.mpr hlisted]
  · intro hnot
    rw [List.count_eq_zero, listedIn, List.mem_flatMap]
    rintro ⟨node, hnode, ha⟩
    have hleads := (leadsTo_of_reached h hrootNode ((hnodes node).mp hnode)).2
    rw [← (ForkGraphNode.mem_listed_iff.mp ha).2.2] at hleads
    exact hnot hleads

/-- **A walk of the pruned graph** yields the nodes of the walk before, pruned. -/
theorem walk_pruneNodes (h : g.Holds adds) (hroot : g.root = some root)
    (hrootNode : g.graph.get? root.previous = some rootNode) (hnodup : nodes.Nodup)
    (hnodes : ∀ node, node ∈ nodes ↔
      Relation.ReflTransGen (fun a b => b ∈ g.children a) rootNode node)
    (unreporting : List Peer) {fuel : Nat} (hwalk : g.walk fuel = some (.ok nodes)) :
    (pruneNodes unreporting g nodes).walk fuel
      = some (.ok (nodes.map (·.pruned unreporting))) := by
  have hprevious := nodup_previous_of_reached h hrootNode hnodup hnodes
  -- What becomes of any node of the graph.
  obtain ⟨f, hf⟩ : ∃ f : ForkGraphNode Peer → ForkGraphNode Peer, ∀ node,
      f node = if node.previous ∈ nodes.map (·.previous) then node.pruned unreporting else node :=
    ⟨_, fun _ => rfl⟩
  have hget : ∀ key, (pruneNodes unreporting g nodes).graph.get? key
      = (g.graph.get? key).map f := by
    intro key
    rw [pruneNodes_get? nodes g hprevious key]
    cases hnode : g.graph.get? key with
    | none => simp
    | some node =>
        rw [Option.map_some, Option.map_some, hf, h.lists.previous key node hnode]
        by_cases hkey : key ∈ nodes.map (·.previous)
        · rw [if_pos hkey, if_pos hkey]
        · rw [if_neg hkey, if_neg hkey]
  have hkeys : ∀ node, (f node).siblings.keys = node.siblings.keys := by
    intro node
    rw [hf]
    split
    · exact ForkGraphNode.keys_pruned
    · rfl
  have hchildren : ∀ node, (pruneNodes unreporting g nodes).children (f node)
      = (g.children node).map f := by
    intro node
    rw [children, children, hkeys, List.map_filterMap]
    exact List.filterMap_congr fun key _ => hget key
  obtain ⟨found, hfound, hget', -⟩ := h.rootNode hroot
  obtain rfl : rootNode = found := Option.some.inj (hrootNode.symm.trans hget')
  have hpruned : (pruneNodes unreporting g nodes).rootNode = some (f rootNode) := by
    rw [ForkGraph.rootNode, (pruneNodes_roots nodes g).1, h.rootKey, hroot]
    show (pruneNodes unreporting g nodes).graph.get? root.previous = _
    rw [hget, hrootNode]
    rfl
  have hbefore : Walk.walk g.children fuel [rootNode] = some nodes := by
    rw [walk, hfound] at hwalk
    obtain ⟨walked, hwalked, heq⟩ := Option.map_eq_some_iff.mp hwalk
    rw [hwalked, Except.ok.inj heq]
  rw [walk, hpruned]
  show (Walk.walk _ fuel ([rootNode].map f)).map Except.ok = _
  rw [Walk.walk_map hchildren, hbefore, Option.map_some, Option.map_some]
  refine congrArg (fun l => some (Except.ok l)) (List.map_congr_left fun node hnode => ?_)
  rw [hf, if_pos (List.mem_map.mpr ⟨node, hnode, rfl⟩)]

/-- Nodes list what was added of the blocks that an id leads to, without one entry for each of some
peers and each block. -/
def ListLedTo (nodes : List (ForkGraphNode Peer)) (adds : List (Peer × SimpleBlock))
    (start : PyString) (unreporting : List Peer) : Prop :=
  ∀ a, (LeadsTo adds start a.2.previous →
      (listedIn nodes).count a = adds.count a - unreporting.count a.1) ∧
    (¬LeadsTo adds start a.2.previous → (listedIn nodes).count a = 0)

/-- **A walk of a graph** whose root leads to a tree of blocks lists what was added of these. -/
theorem walk_ok (h : g.Holds adds) (hroot : g.root = some root)
    (htree : Treelike adds root.previous) :
    ∃ nodes, (∃ n, ∀ fuel, n < fuel → g.walk fuel = some (.ok nodes)) ∧
      ListLedTo nodes adds root.previous [] := by
  obtain ⟨rootNode, nodes, hrootNode, hwalk, hnodup, hnodes⟩ :=
    (walksOnce_iff_treelike h hroot).mpr htree
  obtain ⟨found, hfound, hget, -⟩ := h.rootNode hroot
  obtain rfl : rootNode = found := Option.some.inj (hrootNode.symm.trans hfound)
  exact ⟨nodes, hwalk, count_reached h hget hnodup hnodes⟩

/-- **`prune_unreporting_peers`** on such a graph: a walk then lists that without one entry for
each of the peers and each block. -/
theorem prune_ok (h : g.Holds adds) (hroot : g.root = some root)
    (htree : Treelike adds root.previous) (unreporting : List Peer) :
    ∃ g' nodes, (∃ n, ∀ fuel, n < fuel →
        pruneUnreportingPeers fuel g unreporting = some (.ok g')) ∧
      (∃ n, ∀ fuel, n < fuel → g'.walk fuel = some (.ok nodes)) ∧
      ListLedTo nodes adds root.previous unreporting := by
  obtain ⟨rootNode, nodes, hrootNode, ⟨n, hwalk⟩, hnodup, hnodes⟩ :=
    (walksOnce_iff_treelike h hroot).mpr htree
  obtain ⟨found, hfound, hget, -⟩ := h.rootNode hroot
  obtain rfl : rootNode = found := Option.some.inj (hrootNode.symm.trans hfound)
  refine ⟨pruneNodes unreporting g nodes, nodes.map (·.pruned unreporting),
    ⟨n, fun fuel hfuel => ?_⟩,
    ⟨n, fun fuel hfuel =>
      walk_pruneNodes h hroot hget hnodup hnodes unreporting (hwalk fuel hfuel)⟩, fun a => ?_⟩
  · rw [pruneUnreportingPeers, hwalk fuel hfuel]
    rfl
  · have hprevious := nodup_previous_of_reached h hget hnodup hnodes
    obtain ⟨hled, hnot⟩ := count_reached h hget hnodup hnodes a
    rw [count_listedIn_pruned hprevious]
    refine ⟨fun hleads => by rw [hled hleads], fun hnotled => by rw [hnot hnotled, Nat.zero_sub]⟩

end Walking

end Evoting
