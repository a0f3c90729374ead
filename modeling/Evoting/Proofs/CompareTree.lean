/-
What `compare-chains --tree` draws.

The walk yields the nodes height by height, so a pass of the loop of `print_tree` reads the
cliques of one level (`levelDict_readCliques`) and orders them after their parents, which
gives the next level of the graph (`printPass_eq`).  From the last level down this makes a
drawing of the levels (`printTreeFrom_draws`), and the levels list the blocks of the chains
with the positions of the clients that have them (`Prints.treeOf`).
-/
import Evoting.Proofs.ForkLevels

namespace Evoting

open ForkGraph

/-- The cliques of a level. -/
def cliquesOf (level : List Row) : List Clique := level.map fun row => (row.1.ident, row.2)

/-- A level with the positions of the peers. -/
def shown (position : Nat → Nat) (level : List Row) : List Row :=
  level.map fun row => (row.1, row.2.map position)

/-- The cliques that a pass reads are those of the nodes with a number. -/
def LevelDict (g : ForkGraph Nat) (num : Int) (cliques : Cliques) : Prop :=
  ∀ key siblings, cliques.get? key = some siblings ↔
    ∃ node, g.graph.get? key = some node ∧ node.num = num ∧ node.siblings = siblings

/-- The cliques of nodes that the loop reads one after the other. -/
def readCliques (cliques : Cliques) (nodes : List (ForkGraphNode Nat)) : Cliques :=
  nodes.foldl (fun cliques node => cliques.set node.previous node.siblings) cliques

section Reading

variable {nodeIdMap : Dict Nat Nat} {prev : List Clique} {cliques : Cliques} {num : Int}

/-- Nodes with the number of the pass are read. -/
theorem printTreeFrom_group (rest : List (ForkGraphNode Nat)) :
    ∀ (group : List (ForkGraphNode Nat)) (cliques : Cliques), (∀ node ∈ group, node.num = num) →
      printTreeFrom nodeIdMap (group ++ rest) prev num cliques
        = printTreeFrom nodeIdMap rest prev num (readCliques cliques group) := by
  intro group
  induction group with
  | nil => intro cliques _; rfl
  | cons node group ih =>
      intro cliques hgroup
      rw [List.cons_append, printTreeFrom, if_pos (hgroup node (by simp)).symm,
        ih _ fun other hother => hgroup other (by simp [hother])]
      rfl

/-- A node with another number ends the pass. -/
theorem printTreeFrom_next {lines : List PyString} {next : List Clique}
    (hpass : printPass nodeIdMap prev num cliques = .ok (lines, next)) {node : ForkGraphNode Nat}
    (hnode : num ≠ node.num) (nodes : List (ForkGraphNode Nat)) :
    printTreeFrom nodeIdMap (node :: nodes) prev num cliques
      = (printTreeFrom nodeIdMap nodes next node.num
          (readCliques Dict.empty [node])).map (lines ++ ·) := by
  rw [printTreeFrom, if_neg hnode, hpass, ok_bind]
  show _ = (printTreeFrom nodeIdMap nodes next node.num
    (Dict.empty.set node.previous node.siblings)).map (lines ++ ·)
  dsimp only
  cases printTreeFrom nodeIdMap nodes next node.num (Dict.empty.set node.previous node.siblings) <;>
    rfl

theorem readCliques_singleton_append (node : ForkGraphNode Nat) (nodes : List (ForkGraphNode Nat)) :
    readCliques (readCliques Dict.empty [node]) nodes = readCliques Dict.empty (node :: nodes) :=
  rfl

end Reading

section Shown

variable {position : Nat → Nat} {level next : List Row} {nodeIdMap : Dict Nat Nat}

theorem followers_shown (next : List Row) (row : Row) :
    followers (shown position next) (row.1, row.2.map position)
      = shown position (followers next row) := by
  simp [followers, shown, List.filter_map, Function.comp_def]

theorem shows_shown (hposition : ∀ row ∈ level, ∀ peer ∈ row.2,
      nodeIdMap.get? peer = some (position peer)) :
    List.Forall₂ (Shows nodeIdMap) (cliquesOf level) (shown position level) := by
  rw [cliquesOf, shown, List.forall₂_map_left_iff, List.forall₂_map_right_iff, List.forall₂_same]
  exact fun row hrow => ⟨rfl, mapM_eq_ok fun peer hpeer => by
    rw [nodeId, hposition row hrow peer hpeer]⟩

theorem shown_ne_nil (h : level ≠ []) : shown position level ≠ [] :=
  fun hnil => h (List.map_eq_nil_iff.mp hnil)

end Shown

section Graph

variable {g : ForkGraph Nat} {level next : List Row} {cliques : Cliques}

/-- The next cliques are in the order of their parents. -/
theorem buildOrderedCliques_eq (hlevel : level ≠ []) (hcliques : ∀ row ∈ level,
      cliques.get? row.1.ident = (g.graph.get? row.1.ident).map (·.siblings)) :
    buildOrderedCliques (cliquesOf level) cliques
      = .ok (cliquesOf (level.flatMap (rowsAfter g))) := by
  have hne : cliquesOf level ≠ [] := fun hnil => hlevel (List.map_eq_nil_iff.mp hnil)
  rw [buildOrderedCliques, if_neg hne, cliquesOf, cliquesOf, List.map_flatMap, List.flatMap_map]
  refine congrArg Except.ok (List.flatMap_congr fun row hrow => ?_)
  dsimp only
  rw [hcliques row hrow, rowsAfter]
  cases g.graph.get? row.1.ident with
  | none => rfl
  | some node => simp [nodeRows, List.map_map, Function.comp_def]

/-- The next cliques continue a level with what follows on it. -/
theorem continues_of_get? (hfilled : ∀ key node, g.graph.get? key = some node → node.Filled)
    (hcliques : ∀ row ∈ level,
      cliques.get? row.1.ident = (g.graph.get? row.1.ident).map (·.siblings))
    (hfollowers : ∀ row ∈ level, (followers next row).length = (rowsAfter g row).length) :
    Continues cliques level next := by
  have hlength : ∀ node : ForkGraphNode Nat,
      (nodeRows node).length = node.siblings.entries.length := by
    intro node
    rw [nodeRows, List.length_map, sortCliques, List.length_mergeSort]
  constructor
  · intro row hrow
    rw [Dict.mem_keys_iff, hcliques row hrow, ← List.length_pos_iff, hfollowers row hrow, rowsAfter]
    cases hnode : g.graph.get? row.1.ident with
    | none => simp
    | some node =>
        have hpos : 0 < node.siblings.entries.length := List.length_pos_iff.mpr fun hnil =>
          (hfilled _ node hnode).blocks (List.map_eq_nil_iff.mpr hnil)
        simp [hlength, hpos]
  · intro row hrow siblings hsiblings
    rw [hcliques row hrow, Option.map_eq_some_iff] at hsiblings
    obtain ⟨node, hnode, rfl⟩ := hsiblings
    rw [hfollowers row hrow, rowsAfter, hnode, Option.elim_some, hlength]

/-- The first pass reads the cliques of the root's node. -/
theorem printPass_root (g : ForkGraph Nat) (rootNode : ForkGraphNode Nat)
    (nodeIdMap : Dict Nat Nat) (num : Int) :
    printPass nodeIdMap [] num (readCliques Dict.empty [rootNode])
      = .ok (["|  ".toList ++ intText num], cliquesOf (levelAt g rootNode 0)) := by
  have hbuild : buildOrderedCliques [] (readCliques Dict.empty [rootNode])
      = .ok (sortCliques rootNode.siblings) := by
    rw [buildOrderedCliques, if_pos rfl]
    rfl
  have hlevel : cliquesOf (levelAt g rootNode 0) = sortCliques rootNode.siblings := by
    simp [cliquesOf, levelAt, nodeRows, List.map_map, Function.comp_def]
  rw [printPass, hbuild, hlevel]
  rfl

end Graph

/-! ### The loop -/

section Loop

variable {g : ForkGraph Nat} {adds : List (Nat × SimpleBlock)} {S : SimpleBlock → Prop}
  {root : SimpleBlock} {rootNode : ForkGraphNode Nat} {nodes : List (ForkGraphNode Nat)}
  {nodeIdMap : Dict Nat Nat} {position : Nat → Nat} {top : Nat}
  (h : g.Holds adds) (hS : Rooted S root) (hsub : ∀ a ∈ adds, S a.2)
  (hroot : g.graph.get? root.previous = some rootNode) (hnum : rootNode.num = root.num)
  (hposition : ∀ a ∈ adds, nodeIdMap.get? a.1 = some (position a.1))

include h

/-- What the nodes of one number are read to. -/
theorem levelDict_readCliques {num : Int} {group : List (ForkGraphNode Nat)}
    (hgroup : ∀ node, node ∈ group ↔ node ∈ g.graph.values ∧ node.num = num)
    (hnodup : (group.map (·.previous)).Nodup) :
    LevelDict g num (readCliques Dict.empty group) := by
  have hfold : readCliques Dict.empty group
      = (group.map fun node => (node.previous, node.siblings)).foldl
          (fun d e => d.set e.1 e.2) Dict.empty := by
    rw [List.foldl_map]
    rfl
  intro key siblings
  rw [hfold, Dict.get?_foldl_set (by rw [List.map_map]; exact hnodup)]
  simp only [List.mem_map, Prod.mk.injEq, Dict.get?_empty, reduceCtorEq, and_false, or_false]
  constructor
  · rintro ⟨node, hnode, rfl, rfl⟩
    obtain ⟨hmem, hnodeNum⟩ := (hgroup node).mp hnode
    obtain ⟨key, hkey⟩ := mem_values_iff.mp hmem
    exact ⟨node, by rw [h.lists.previous key node hkey]; exact hkey, hnodeNum, rfl⟩
  · rintro ⟨node, hnode, hnodeNum, rfl⟩
    exact ⟨node, (hgroup node).mpr ⟨mem_values_iff.mpr ⟨key, hnode⟩, hnodeNum⟩,
      h.lists.previous key node hnode, rfl⟩

include hS hsub hroot hnum

/-- In the cliques of the next level every row of a level finds the node of its block. -/
theorem get?_levelDict {k : Nat} {num : Int} (hk : num = root.num + k) {cliques : Cliques}
    (hcliques : LevelDict g (num + 1) cliques) {row : Row} (hrow : row ∈ levelAt g rootNode k) :
    cliques.get? row.1.ident = (g.graph.get? row.1.ident).map (·.siblings) := by
  obtain ⟨hrowNum, parent, hparent, hmem⟩ := h.row_spec hS hsub hroot hnum k hrow
  obtain ⟨hsiblings, hparentNum, -⟩ := mem_nodeRows_iff.mp hmem
  ext siblings
  rw [hcliques, Option.map_eq_some_iff]
  constructor
  · rintro ⟨node, hnode, -, rfl⟩
    exact ⟨node, hnode, rfl⟩
  · rintro ⟨node, hnode, rfl⟩
    have hchild : node ∈ g.children parent :=
      mem_children_iff.mpr ⟨_, Dict.mem_keys_iff.mpr ⟨_, hsiblings⟩, hnode⟩
    obtain ⟨-, hnodeNum⟩ := h.child_num hS hsub (mem_values_iff.mpr ⟨_, hparent⟩) hchild
    exact ⟨node, hnode, by omega, rfl⟩

include hposition

theorem shows_levelAt (k : Nat) : List.Forall₂ (Shows nodeIdMap)
    (cliquesOf (levelAt g rootNode k)) (shown position (levelAt g rootNode k)) :=
  shows_shown fun _ hrow _ hpeer =>
    hposition _ ((h.mem_row_iff hS hsub hroot hnum hrow).mp hpeer)

/-- **One pass** prints the rows of a level, and what leads to the next one. -/
theorem printPass_eq {k : Nat} {num : Int} (hk : num = root.num + k) {cliques : Cliques}
    (hcliques : LevelDict g (num + 1) cliques) (hlevel : levelAt g rootNode k ≠ []) :
    ∃ connectors, Connects (shown position (levelAt g rootNode k))
        (shown position (levelAt g rootNode (k + 1))) connectors ∧
      printPass nodeIdMap (cliquesOf (levelAt g rootNode k)) (num + 1) cliques
        = .ok (starLines (shown position (levelAt g rootNode (k + 1))) []
              (shown position (levelAt g rootNode k)) ++
            numberLines (shown position (levelAt g rootNode k))
              (shown position (levelAt g rootNode (k + 1))) (num + 1) ++
            connectors, cliquesOf (levelAt g rootNode (k + 1))) := by
  have hget : ∀ row ∈ levelAt g rootNode k, cliques.get? row.1.ident
      = (g.graph.get? row.1.ident).map (·.siblings) := fun row hrow =>
    get?_levelDict h hS hsub hroot hnum hk hcliques hrow
  have hshows := shows_levelAt h hS hsub hroot hnum hposition k
  have hcontinues : Continues cliques (shown position (levelAt g rootNode k))
      (shown position (levelAt g rootNode (k + 1))) := by
    refine continues_of_get? (g := g) h.lists.filled (fun row hrow => ?_) fun row hrow => ?_
    · obtain ⟨row', hrow', rfl⟩ := List.mem_map.mp hrow
      exact hget row' hrow'
    · obtain ⟨row', hrow', rfl⟩ := List.mem_map.mp hrow
      rw [followers_shown, h.followers_eq hS hsub hrow', shown, List.length_map]
      rfl
  refine ⟨_, printConnectors hshows hcontinues, ?_⟩
  rw [printPass, printCliques_eq hshows hcontinues.keys, ok_bind,
    buildOrderedCliques_eq hlevel hget, ok_bind,
    printBlockNumRow_eq hshows hcontinues.keys (shown_ne_nil hlevel), List.append_assoc]
  rfl

/-- **The rest of the loop**, after a pass that leaves the cliques of a level: the lines of the
levels from there on.  The induction is on how many levels follow. -/
theorem printTreeFrom_draws (hmem : ∀ node, node ∈ nodes ↔ node ∈ g.graph.values)
    (hnodup : (nodes.map (·.previous)).Nodup)
    (hheights : nodes.Pairwise fun a b => a.num ≤ b.num)
    (hlevels : ∀ k ≤ top, levelAt g rootNode k ≠ [])
    (htop : ∀ node ∈ nodes, node.num ≤ root.num + top) : ∀ (m k : Nat) (num : Int),
      k + m = top → num = root.num + k →
      ∀ (prev : List Clique) (cliques : Cliques) (passed : List PyString),
        printPass nodeIdMap prev num cliques
          = .ok (passed, cliquesOf (levelAt g rootNode k)) →
        ∃ lines, printTreeFrom nodeIdMap (nodes.filter fun node => num + 1 ≤ node.num) prev num
            cliques = .ok (passed ++ lines) ∧
          Draws num ((List.range' k (m + 1)).map fun i => shown position (levelAt g rootNode i))
            lines := by
  intro m
  induction m with
  | zero =>
      intro k num hm hk prev cliques passed hpass
      have hnone : (nodes.filter fun node => num + 1 ≤ node.num) = [] :=
        List.filter_eq_nil_iff.mpr fun node hnode => by
          have hle := htop node hnode
          simp only [decide_eq_true_eq]
          omega
      have hlast : printCliques (cliquesOf (levelAt g rootNode k)) [] nodeIdMap
          = .ok (starLines [] [] (shown position (levelAt g rootNode k))) :=
        printCliques_eq (shows_levelAt h hS hsub hroot hnum hposition k) fun row _ => by
          simp [followers]
      refine ⟨_, ?_, Draws.last _ _⟩
      rw [hnone, printTreeFrom, hpass, ok_bind]
      dsimp only
      rw [hlast]
      rfl
  | succ m ih =>
      intro k num hm hk prev cliques passed hpass
      -- the nodes of the next level, of which there is one
      have hsplit := Walk.filter_le_rank ForkGraphNode.num (num + 1) hheights
      have hgroupMem : ∀ node, node ∈ nodes.filter (fun node => node.num = num + 1) ↔
          node ∈ g.graph.values ∧ node.num = num + 1 := by
        intro node
        rw [List.mem_filter, hmem, decide_eq_true_eq]
      obtain ⟨row, hrow⟩ := List.exists_mem_of_ne_nil _ (hlevels (k + 1) (by omega))
      obtain ⟨hrowNum, node, hnode, hmemRow⟩ := h.row_spec hS hsub hroot hnum (k + 1) hrow
      have hnodeNum := (mem_nodeRows_iff.mp hmemRow).2.1
      have hfirst := (hgroupMem node).mpr ⟨mem_values_iff.mpr ⟨_, hnode⟩, by omega⟩
      have hgroupNodup : ((nodes.filter fun node => node.num = num + 1).map (·.previous)).Nodup :=
        hnodup.sublist (List.filter_sublist.map _)
      generalize nodes.filter (fun node => decide (node.num = num + 1)) = group
        at hsplit hgroupMem hfirst hgroupNodup
      cases group with
      | nil => simp at hfirst
      | cons first group =>
          have hfirstNum := ((hgroupMem first).mp (by simp)).2
          have hnext : LevelDict g (num + 1) (readCliques Dict.empty (first :: group)) :=
            levelDict_readCliques h hgroupMem hgroupNodup
          obtain ⟨connectors, hconnects, hnextPass⟩ :=
            printPass_eq h hS hsub hroot hnum hposition hk hnext (hlevels k (by omega))
          obtain ⟨lines, hlines, hdraws⟩ :=
            ih (k + 1) (num + 1) (by omega) (by omega) _ _ _ hnextPass
          refine ⟨_, ?_, Draws.level hconnects hdraws⟩
          rw [hsplit, List.cons_append, printTreeFrom_next hpass (by omega),
            printTreeFrom_group _ group _ fun node hnode =>
              ((hgroupMem node).mp (by simp [hnode])).2.trans hfirstNum.symm,
            readCliques_singleton_append, hfirstNum, hlines]
          simp only [Except.map, List.append_assoc]

/-- **`print_tree`** draws the levels of the graph. -/
theorem printTree_draws (hmem : ∀ node, node ∈ rootNode :: nodes ↔ node ∈ g.graph.values)
    (hnodup : ((rootNode :: nodes).map (·.previous)).Nodup)
    (hheights : (rootNode :: nodes).Pairwise fun a b => a.num ≤ b.num)
    (hlevels : ∀ k ≤ top, levelAt g rootNode k ≠ [])
    (htop : ∀ node ∈ rootNode :: nodes, node.num ≤ root.num + top)
    (habove : ∀ node ∈ nodes, root.num < node.num) :
    ∃ lines, Draws root.num
        ((List.range' 0 (top + 1)).map fun k => shown position (levelAt g rootNode k)) lines ∧
      ∀ fuel, g.walk fuel = some (.ok (rootNode :: nodes)) →
        printTree fuel g nodeIdMap
          = some (.ok (("|  ".toList ++ intText root.num) :: lines)) := by
  obtain ⟨lines, hlines, hdraws⟩ := printTreeFrom_draws h hS hsub hroot hnum hposition hmem hnodup
    hheights hlevels htop top 0 root.num (by omega) (by simp) [] _ _
    (printPass_root g rootNode nodeIdMap root.num)
  have hrest : (rootNode :: nodes).filter (fun node => root.num + 1 ≤ node.num) = nodes := by
    have hskip : ¬root.num + 1 ≤ rootNode.num := by omega
    rw [List.filter_cons_of_neg (by simpa using hskip), List.filter_eq_self]
    exact fun node hnode => decide_eq_true (habove node hnode)
  rw [hrest] at hlines
  refine ⟨lines, hdraws, fun fuel hwalk => ?_⟩
  rw [printTree, hwalk]
  show some (printTreeFrom nodeIdMap nodes [] rootNode.num (readCliques Dict.empty [rootNode])) = _
  rw [hnum, hlines]
  rfl

end Loop

/-! ### The command -/

/-- **What a tree of clients is to show**: level by level from a block that all clients have every
block that one has from there on, once, with the positions of the clients that have it.  The
blocks that follow on one block are next to each other, in the order of the level below, the one
that most clients have first. -/
structure TreeOf (limit : Int) (clients : List RestClient) (root : SimpleBlock)
    (levels : List (List Row)) : Prop where
  blocks : ∀ b, (∃ nodes, (b, nodes) ∈ levels.flatten) ↔
    root.num ≤ b.num ∧ ∃ p, HasBlock limit clients p b
  once : (levels.flatten.map Prod.fst).Nodup
  nodes : ∀ row ∈ levels.flatten, row.2.Nodup ∧
    ∀ p, p ∈ row.2 ↔ HasBlock limit clients p row.1
  heights : ∀ (k : Nat) (level : List Row), levels[k]? = some level →
    level ≠ [] ∧ ∀ row ∈ level, row.1.num = root.num + k
  follows : ∀ (k : Nat) (level next : List Row), levels[k]? = some level →
    levels[k + 1]? = some next → next = level.flatMap (followers next)
  larger : ∀ level ∈ levels, level.Pairwise fun a b =>
    a.1.previous = b.1.previous → b.2.length ≤ a.2.length

section Command

variable {limit : Int} {clients : List RestClient} {root : SimpleBlock} {lowest : Int}
  {graph : ForkGraph Nat} {rootNode : ForkGraphNode Nat} {nodes : List (ForkGraphNode Nat)}

/-- The levels that are drawn, up to the last. -/
def drawnLevels (clients : List RestClient) (graph : ForkGraph Nat)
    (rootNode : ForkGraphNode Nat) (top : Nat) : List (List Row) :=
  (List.range' 0 (top + 1)).map fun k => shown (positionOf clients) (levelAt graph rootNode k)

theorem getElem?_drawnLevels {top k : Nat} {level : List Row} :
    (drawnLevels clients graph rootNode top)[k]? = some level ↔
      k ≤ top ∧ shown (positionOf clients) (levelAt graph rootNode k) = level := by
  rw [drawnLevels, ← List.range_eq_range', List.getElem?_map]
  by_cases hk : k ≤ top
  · rw [List.getElem?_range (Nat.lt_succ_of_le hk)]
    simp [hk]
  · rw [List.getElem?_eq_none (by simp; omega)]
    simp [hk]

theorem mem_drawnLevels {top : Nat} {row : Row} :
    row ∈ (drawnLevels clients graph rootNode top).flatten ↔
      ∃ k ≤ top, ∃ inner ∈ levelAt graph rootNode k,
        (inner.1, inner.2.map (positionOf clients)) = row := by
  have hlevel : ∀ k, k ∈ List.range' 0 (top + 1) ↔ k ≤ top := by
    intro k
    rw [List.mem_range'_1]
    omega
  simp only [drawnLevels, List.mem_flatten, List.mem_map, shown, hlevel]
  constructor
  · rintro ⟨_, ⟨k, hk, rfl⟩, hrow⟩
    exact ⟨k, hk, List.mem_map.mp hrow⟩
  · rintro ⟨k, hk, hrow⟩
    exact ⟨_, ⟨k, hk, rfl⟩, List.mem_map.mpr hrow⟩

section Rows

variable (hprints : Prints limit clients root lowest graph rootNode nodes)
  (h : Comparable limit clients)

include hprints h

/-- The peers of a row, and those that its block was read of. -/
theorem Prints.mem_row_iff {k : Nat} {row : Row} (hrow : row ∈ levelAt graph rootNode k)
    {j : Nat} : j ∈ row.2 ↔
      ∃ p, (responsive clients)[j]? = some p ∧ HasBlock limit clients p row.1 := by
  have hrooted := hprints.rooted h
  rw [hprints.holds.mem_row_iff hrooted (fun a ha => readTo_of_mem ha) hprints.isRootNode
    hprints.rootNum hrow, mem_readPairs_goodChains]
  obtain ⟨hnum, -⟩ := hprints.holds.row_spec hrooted (fun a ha => readTo_of_mem ha)
    hprints.isRootNode hprints.rootNum k hrow
  exact and_iff_right (by omega)

/-- A row is at the height of its level, and has the positions of the clients with its block. -/
theorem Prints.row_spec {k : Nat} {row : Row} (hrow : row ∈ levelAt graph rootNode k) :
    row.1.num = root.num + k ∧ row.2 ≠ [] ∧ (row.2.map (positionOf clients)).Nodup ∧
      ∀ p, p ∈ row.2.map (positionOf clients) ↔ HasBlock limit clients p row.1 := by
  have hrooted := hprints.rooted h
  obtain ⟨hnum, node, hnode, hmem⟩ := hprints.holds.row_spec hrooted
    (fun a ha => readTo_of_mem ha) hprints.isRootNode hprints.rootNum k hrow
  have hsiblings := (mem_nodeRows_iff.mp hmem).1
  have hposition : ∀ j ∈ row.2, (responsive clients)[j]? = some (positionOf clients j) := by
    intro j hj
    obtain ⟨p, hp, -⟩ := (hprints.mem_row_iff h hrow).mp hj
    rw [← getNodeIdMap_responsive]
    exact get?_printedIds hp
  -- every peer is listed once, as it has the block once
  have hnodup : row.2.Nodup := by
    have hlisted : node.listed.Nodup := by
      have hall := hprints.holds.lists.listed.nodup_iff.mpr
        (nodup_readPairs h.chains.linked root.num)
      exact (List.nodup_flatMap.mp hall).1 node (mem_values_iff.mpr ⟨_, hnode⟩)
    exact ((List.nodup_flatMap.mp hlisted).1 _ (Dict.get?_eq_some_iff.mp hsiblings)).of_map
  refine ⟨hnum, (hprints.holds.lists.filled _ node hnode).peers _ _ hsiblings,
    hnodup.map_on fun i hi j hj heq => ?_, fun p => ?_⟩
  · have hi' := hposition i hi
    rw [heq, ← hposition j hj] at hi'
    have hlt : i < (responsive clients).length := by
      obtain ⟨hlt, -⟩ := List.getElem?_eq_some_iff.mp (hposition i hi)
      exact hlt
    exact (List.getElem?_inj hlt (List.pairwise_findIdxs.imp Nat.ne_of_lt)).mp hi'
  · rw [List.mem_map]
    constructor
    · rintro ⟨j, hj, rfl⟩
      obtain ⟨p, hp, hblock⟩ := (hprints.mem_row_iff h hrow).mp hj
      rw [hposition j hj, Option.some.injEq] at hp
      rwa [hp]
    · rintro ⟨client, hclient, hresponds, hblock⟩
      obtain ⟨j, hj⟩ := getElem?_responsive_iff.mpr ⟨client, hclient, hresponds⟩
      have hmem := (hprints.mem_row_iff h hrow).mpr ⟨p, hj, client, hclient, hresponds, hblock⟩
      have hsame := hposition j hmem
      rw [hj, Option.some.injEq] at hsame
      exact ⟨j, hmem, hsame.symm⟩

/-- The blocks of the rows of all levels. -/
theorem Prints.exists_row_iff {top : Nat}
    (htop : ∀ a ∈ readPairs (goodChains clients limit) root.num, a.2.num ≤ root.num + top)
    {b : SimpleBlock} : (∃ k ≤ top, ∃ peers, (b, peers) ∈ levelAt graph rootNode k) ↔
      root.num ≤ b.num ∧ ∃ p, HasBlock limit clients p b := by
  have hrooted := hprints.rooted h
  constructor
  · rintro ⟨k, -, peers, hrow⟩
    obtain ⟨hnum, hne, -, hmem⟩ := hprints.row_spec h hrow
    obtain ⟨j, hj⟩ := List.exists_mem_of_ne_nil _ hne
    dsimp only at hnum
    exact ⟨by omega, _, (hmem _).mp (List.mem_map_of_mem hj)⟩
  · rintro ⟨hle, p, client, hclient, hresponds, hblock⟩
    obtain ⟨j, hj⟩ := getElem?_responsive_iff.mpr ⟨client, hclient, hresponds⟩
    have hread := mem_readPairs_goodChains.mpr
      ⟨hle, p, hj, client, hclient, hresponds, hblock⟩
    have hbound := htop _ hread
    dsimp only at hbound
    exact ⟨(b.num - root.num).toNat, by omega,
      hprints.holds.exists_row hrooted (fun a ha => readTo_of_mem ha) (fun b hb => exists_peer hb)
        hprints.isRootNode hprints.rootNum _ hread (by omega)⟩

/-- No block is in two rows. -/
theorem Prints.nodup_drawnLevels (top : Nat) :
    ((drawnLevels clients graph rootNode top).flatten.map Prod.fst).Nodup := by
  have hrooted := hprints.rooted h
  have hblocks : ∀ k, (shown (positionOf clients) (levelAt graph rootNode k)).map Prod.fst
      = (levelAt graph rootNode k).map Prod.fst := fun k => by
    rw [shown, List.map_map]
    rfl
  rw [List.map_flatten, drawnLevels, List.map_map, List.nodup_flatten]
  constructor
  · intro level hlevel
    obtain ⟨k, -, rfl⟩ := List.mem_map.mp hlevel
    rw [Function.comp_apply, hblocks]
    have hidents : ((levelAt graph rootNode k).map fun row => row.1.ident).Nodup :=
      hprints.holds.nodup_levelAt hrooted (fun a ha => readTo_of_mem ha) k
    rw [show (fun row : Row => row.1.ident) = SimpleBlock.ident ∘ Prod.fst from rfl,
      ← List.map_map] at hidents
    exact hidents.of_map
  · rw [List.pairwise_map]
    refine (List.pairwise_lt_range' 1).imp ?_
    intro i j hlt b hb hb'
    rw [Function.comp_apply, hblocks] at hb hb'
    obtain ⟨row, hrow, rfl⟩ := List.mem_map.mp hb
    obtain ⟨row', hrow', hsame⟩ := List.mem_map.mp hb'
    have hnum := (hprints.row_spec h hrow).1
    have hnum' := (hprints.row_spec h hrow').1
    rw [hsame] at hnum'
    omega

/-- What follows on a level is in the order of the level. -/
theorem Prints.shown_succ (k : Nat) :
    shown (positionOf clients) (levelAt graph rootNode (k + 1))
      = (shown (positionOf clients) (levelAt graph rootNode k)).flatMap
          (followers (shown (positionOf clients) (levelAt graph rootNode (k + 1)))) := by
  have hrooted := hprints.rooted h
  calc
    _ = (levelAt graph rootNode k).flatMap fun row =>
        shown (positionOf clients) (rowsAfter graph row) := List.map_flatMap
    _ = (levelAt graph rootNode k).flatMap fun row =>
        followers (shown (positionOf clients) (levelAt graph rootNode (k + 1)))
          (row.1, row.2.map (positionOf clients)) :=
      List.flatMap_congr fun row hrow => by
        rw [followers_shown,
          hprints.holds.followers_eq hrooted (fun a ha => readTo_of_mem ha) hrow]
    _ = _ := (List.flatMap_map _ _ _).symm

/-- Of the blocks after one block, those that more clients have come first. -/
theorem Prints.levelAt_pairwise : ∀ k, (levelAt graph rootNode k).Pairwise fun a b =>
    a.1.previous = b.1.previous → b.2.length ≤ a.2.length := by
  have hrooted := hprints.rooted h
  have hnode : ∀ node, (nodeRows node).Pairwise fun a b =>
      a.1.previous = b.1.previous → b.2.length ≤ a.2.length := by
    intro node
    refine (nodeRows_pairwise node).imp ?_
    exact fun hle _ => hle
  intro k
  cases k with
  | zero => exact hnode rootNode
  | succ k =>
      rw [levelAt, List.pairwise_flatMap]
      constructor
      · intro row _
        unfold rowsAfter
        cases graph.graph.get? row.1.ident with
        | none => exact List.Pairwise.nil
        | some node => exact hnode node
      · have hidents : ((levelAt graph rootNode k).map fun row => row.1.ident).Nodup :=
          hprints.holds.nodup_levelAt hrooted (fun a ha => readTo_of_mem ha) k
        refine (List.pairwise_map.mp hidents).imp fun hne a ha b hb hprevious => ?_
        -- they follow on different blocks
        obtain ⟨node, hnode, ha⟩ := mem_rowsAfter_iff.mp ha
        obtain ⟨node', hnode', hb⟩ := mem_rowsAfter_iff.mp hb
        rw [(mem_nodeRows_iff.mp ha).2.2, (mem_nodeRows_iff.mp hb).2.2,
          hprints.holds.lists.previous _ _ hnode, hprints.holds.lists.previous _ _ hnode']
          at hprevious
        exact absurd hprevious hne

/-- **The levels of the graph** are those of the clients. -/
theorem Prints.treeOf {top : Nat} (hlevels : ∀ k ≤ top, levelAt graph rootNode k ≠ [])
    (htop : ∀ a ∈ readPairs (goodChains clients limit) root.num, a.2.num ≤ root.num + top) :
    TreeOf limit clients root (drawnLevels clients graph rootNode top) where
  blocks b := by
    rw [← hprints.exists_row_iff h htop]
    simp only [mem_drawnLevels, Prod.mk.injEq]
    constructor
    · rintro ⟨_, k, hk, inner, hinner, rfl, rfl⟩
      exact ⟨k, hk, inner.2, hinner⟩
    · rintro ⟨k, hk, peers, hrow⟩
      exact ⟨_, k, hk, _, hrow, rfl, rfl⟩
  once := hprints.nodup_drawnLevels h top
  nodes row hrow := by
    obtain ⟨k, -, inner, hinner, rfl⟩ := mem_drawnLevels.mp hrow
    exact (hprints.row_spec h hinner).2.2
  heights k level hlevel := by
    obtain ⟨hk, rfl⟩ := getElem?_drawnLevels.mp hlevel
    refine ⟨shown_ne_nil (hlevels k hk), fun row hrow => ?_⟩
    obtain ⟨inner, hinner, rfl⟩ := List.mem_map.mp hrow
    exact (hprints.row_spec h hinner).1
  follows k level next hlevel hnext := by
    obtain ⟨-, rfl⟩ := getElem?_drawnLevels.mp hlevel
    obtain ⟨-, rfl⟩ := getElem?_drawnLevels.mp hnext
    exact hprints.shown_succ h k
  larger level hlevel := by
    obtain ⟨k, hk⟩ := List.mem_iff_getElem?.mp hlevel
    obtain ⟨-, rfl⟩ := getElem?_drawnLevels.mp hk
    rw [shown, List.pairwise_map]
    exact (hprints.levelAt_pairwise h k).imp fun hle hsame => by simpa using hle hsame

end Rows

/-- **`compare-chains --tree`** draws the tree of the clients that answer, from the highest block
that all of them have. -/
theorem compareChains_tree (h : Comparable limit clients) : ∃ root levels lines,
    (∀ c ∈ clients, c.responds = true → root ∈ c.listBlocks limit) ∧
      (∀ b, (∀ c ∈ clients, c.responds = true → b ∈ c.listBlocks limit) → b.num ≤ root.num) ∧
      TreeOf limit clients root levels ∧ Draws root.num levels lines ∧
      ∃ n, ∀ fuel, n < fuel → ∀ display,
        compareChains display fuel limit .tree clients = some (.ok (connectionErrors clients,
          ("|  ".toList ++ intText root.num) :: lines)) := by
  obtain ⟨root, lowest, graph, rootNode, nodes, hprints, n, hcommand⟩ := h.exists_prints
  obtain ⟨top, hlevels, htop, -⟩ := hprints.exists_top h
  have hrooted := hprints.rooted h
  have hsub : ∀ a ∈ readPairs (goodChains clients limit) root.num,
      ReadTo (goodChains clients limit) root.num a.2 := fun a ha => readTo_of_mem ha
  have hposition : ∀ a ∈ readPairs (goodChains clients limit) root.num,
      (printedIds clients).get? a.1 = some (positionOf clients a.1) := by
    intro a ha
    obtain ⟨-, p, hp, -⟩ := mem_readPairs_goodChains.mp ha
    exact get?_printedIds hp
  have hnodup : ((rootNode :: nodes).map (·.previous)).Nodup :=
    (hprints.perm.map _).nodup_iff.mpr hprints.holds.nodup_previous
  have htopNodes : ∀ node ∈ rootNode :: nodes, node.num ≤ root.num + top := by
    intro node hnode
    obtain ⟨key, hkey⟩ := mem_values_iff.mp (hprints.perm.mem_iff.mp hnode)
    obtain ⟨ident, hident⟩ :=
      List.exists_mem_of_ne_nil _ (hprints.holds.lists.filled key node hkey).blocks
    obtain ⟨peer, hadded⟩ := hprints.holds.lists.exists_added hkey hident
    exact htop _ hadded
  obtain ⟨lines, hdraws, hlines⟩ := printTree_draws hprints.holds hrooted hsub
    hprints.isRootNode hprints.rootNum hposition (fun node => hprints.perm.mem_iff) hnodup
    hprints.heights hlevels htopNodes fun node hnode => hprints.lt_num h hnode
  refine ⟨root, _, lines, common_goodChains_iff.mp hprints.common,
    fun b hb => hprints.highest b (common_goodChains_iff.mpr hb), hprints.treeOf h hlevels htop,
    hdraws, n, fun fuel hfuel display => ?_⟩
  obtain ⟨hwalk, hprinted⟩ := hcommand fuel hfuel
  rw [hprinted display .tree, printView, hlines fuel hwalk]
  rfl

end Command

/-- The forked chains behind a client that does not answer. -/
theorem compareChains_tree_forked : ∃ levels lines,
    TreeOf 25 [silent, longer, diverging] ⟨5, ['a'], ['0']⟩ levels ∧ Draws 5 levels lines ∧
      ∃ n, ∀ fuel, n < fuel → ∀ display,
        compareChains display fuel 25 .tree [silent, longer, diverging]
          = some (.ok ([⟨"Error connecting to node", 0, ['w']⟩], "|  5".toList :: lines)) := by
  obtain ⟨root, levels, lines, hcommon, -, htree, hdraws, hprinted⟩ :=
    compareChains_tree comparable_silentFirst
  obtain rfl := eq_of_forked (hcommon longer (by simp) rfl) (hcommon diverging (by simp) rfl)
  exact ⟨levels, lines, htree, hdraws, hprinted⟩

end Evoting
