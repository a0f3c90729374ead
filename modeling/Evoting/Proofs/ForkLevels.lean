/-
The levels of a fork graph.

A level lists the blocks of one height, each with the peers that have it: those that
follow on the first block of the level below, those that follow on the second, and so on.
Of a graph that holds the blocks of a tree the levels list what was added, each block once
(`Holds.exists_row`, `Holds.mem_row_iff`, `Holds.nodup_levelAt`).
-/
import Evoting.Proofs.ForkHeights
import Evoting.Proofs.TreeLines

namespace Evoting

/-- What follows on one element is found by its key. -/
theorem filter_flatMap_key {α β κ : Type} [DecidableEq κ] {f : α → List β} {keyOf : β → κ}
    (idOf : α → κ) : ∀ {l : List α}, (∀ a ∈ l, ∀ b ∈ f a, keyOf b = idOf a) →
      (l.map idOf).Nodup → ∀ a ∈ l, (l.flatMap f).filter (fun b => keyOf b = idOf a) = f a := by
  intro l hf hnodup a ha
  have hself : (f a).filter (fun b => keyOf b = idOf a) = f a :=
    List.filter_eq_self.mpr fun b hb => by simpa using hf a ha b hb
  have hother : ∀ l' ⊆ l, (∀ x ∈ l', idOf x ≠ idOf a) →
      (l'.flatMap f).filter (fun b => keyOf b = idOf a) = [] := by
    intro l' hsub hne
    rw [List.filter_eq_nil_iff]
    intro b hb
    obtain ⟨x, hx, hb⟩ := List.mem_flatMap.mp hb
    simpa [hf x (hsub hx) b hb] using hne x hx
  obtain ⟨before, after, rfl⟩ := List.append_of_mem ha
  rw [List.map_append, List.map_cons, List.nodup_append, List.nodup_cons] at hnodup
  obtain ⟨-, ⟨hafter, -⟩, hbefore⟩ := hnodup
  rw [List.flatMap_append, List.flatMap_cons, List.filter_append, List.filter_append, hself,
    hother before (by simp) fun x hx heq =>
      hbefore _ (List.mem_map_of_mem hx) _ List.mem_cons_self heq,
    hother after (fun x hx => by simp [hx]) fun x hx heq =>
      hafter (heq ▸ List.mem_map_of_mem hx),
    List.nil_append, List.append_nil]

/-- The rows of a node, those with the most peers first. -/
def nodeRows (node : ForkGraphNode Nat) : List Row :=
  (sortCliques node.siblings).map fun clique =>
    (⟨node.num, clique.1, node.previous⟩, clique.2)

/-- What follows on a row. -/
def rowsAfter (g : ForkGraph Nat) (row : Row) : List Row :=
  (g.graph.get? row.1.ident).elim [] nodeRows

/-- The rows that many levels above a node. -/
def levelAt (g : ForkGraph Nat) (rootNode : ForkGraphNode Nat) : Nat → List Row
  | 0 => nodeRows rootNode
  | k + 1 => (levelAt g rootNode k).flatMap (rowsAfter g)

theorem mem_nodeRows_iff {node : ForkGraphNode Nat} {row : Row} : row ∈ nodeRows node ↔
    node.siblings.get? row.1.ident = some row.2 ∧ row.1.num = node.num ∧
      row.1.previous = node.previous := by
  simp only [nodeRows, sortCliques, List.mem_map, List.mem_mergeSort, Dict.get?_eq_some_iff]
  constructor
  · rintro ⟨clique, hclique, rfl⟩
    exact ⟨hclique, rfl, rfl⟩
  · rintro ⟨hmem, hnum, hprevious⟩
    exact ⟨_, hmem, by rw [← hnum, ← hprevious]⟩

theorem nodup_nodeRows (node : ForkGraphNode Nat) :
    ((nodeRows node).map fun row => row.1.ident).Nodup := by
  rw [nodeRows, List.map_map]
  exact ((List.mergeSort_perm _ _).map Prod.fst).nodup_iff.mpr node.siblings.nodup

/-- Of the blocks after one block, those that more peers have come first. -/
theorem nodeRows_pairwise (node : ForkGraphNode Nat) :
    (nodeRows node).Pairwise fun a b => b.2.length ≤ a.2.length := by
  rw [nodeRows, List.pairwise_map]
  have hsorted : (sortCliques node.siblings).Pairwise fun a b =>
      decide (b.2.length ≤ a.2.length) = true :=
    List.pairwise_mergeSort
      (fun a b c hab hbc => by simp only [decide_eq_true_eq] at hab hbc ⊢; omega)
      (fun a b => by simp only [Bool.or_eq_true, decide_eq_true_eq]; omega) _
  exact hsorted.imp fun h => by simpa using h

theorem mem_rowsAfter_iff {g : ForkGraph Nat} {row next : Row} : next ∈ rowsAfter g row ↔
    ∃ node, g.graph.get? row.1.ident = some node ∧ next ∈ nodeRows node := by
  unfold rowsAfter
  cases g.graph.get? row.1.ident <;> simp

namespace ForkGraph

section Levels

variable {g : ForkGraph Nat} {adds : List (Nat × SimpleBlock)} {S : SimpleBlock → Prop}
  {root : SimpleBlock} {rootNode : ForkGraphNode Nat} (h : g.Holds adds) (hS : Rooted S root)
  (hsub : ∀ a ∈ adds, S a.2) (hall : ∀ b, S b → ∃ peer, (peer, b) ∈ adds)
  (hroot : g.graph.get? root.previous = some rootNode) (hnum : rootNode.num = root.num)

include h

/-- A block that was added is in a row of its node, and so are the peers it was added for. -/
theorem Holds.mem_added_iff {peer : Nat} {b : SimpleBlock} : (peer, b) ∈ adds ↔
    ∃ node peers, g.graph.get? b.previous = some node ∧ (b, peers) ∈ nodeRows node ∧
      peer ∈ peers := by
  rw [← h.lists.listed.mem_iff, listedIn, List.mem_flatMap]
  constructor
  · rintro ⟨node, hnode, hlisted⟩
    obtain ⟨key, hkey⟩ := mem_values_iff.mp hnode
    obtain ⟨⟨peers, hpeers, hpeer⟩, hbnum, hprevious⟩ := ForkGraphNode.mem_listed_iff.mp hlisted
    refine ⟨node, peers, ?_, mem_nodeRows_iff.mpr ⟨hpeers, hbnum, hprevious⟩, hpeer⟩
    rw [hprevious, h.lists.previous key node hkey]
    exact hkey
  · rintro ⟨node, peers, hnode, hrow, hpeer⟩
    obtain ⟨hpeers, hbnum, hprevious⟩ := mem_nodeRows_iff.mp hrow
    exact ⟨node, mem_values_iff.mpr ⟨_, hnode⟩,
      ForkGraphNode.mem_listed_iff.mpr ⟨⟨peers, hpeers, hpeer⟩, hbnum, hprevious⟩⟩

include hS hsub

/-- **No block is in a level twice.** -/
theorem Holds.nodup_levelAt : ∀ k, ((levelAt g rootNode k).map fun row => row.1.ident).Nodup := by
  intro k
  induction k with
  | zero => exact nodup_nodeRows rootNode
  | succ k ih =>
      rw [levelAt, List.map_flatMap, List.nodup_flatMap]
      constructor
      · intro row _
        unfold rowsAfter
        cases g.graph.get? row.1.ident with
        | none => exact List.nodup_nil
        | some node => exact nodup_nodeRows node
      · refine (List.pairwise_map.mp ih).imp fun hne => ?_
        rintro ident hident hident'
        obtain ⟨a, ha, rfl⟩ := List.mem_map.mp hident
        obtain ⟨b, hb, hsame⟩ := List.mem_map.mp hident'
        obtain ⟨node, hnode, ha⟩ := mem_rowsAfter_iff.mp ha
        obtain ⟨node', hnode', hb⟩ := mem_rowsAfter_iff.mp hb
        have haKey := Dict.mem_keys_iff.mpr ⟨_, (mem_nodeRows_iff.mp ha).1⟩
        have hbKey := Dict.mem_keys_iff.mpr ⟨_, (mem_nodeRows_iff.mp hb).1⟩
        rw [hsame] at hbKey
        obtain rfl := h.node_unique hS hsub hnode hnode' haKey hbKey
        exact hne ((h.lists.previous _ _ hnode).symm.trans (h.lists.previous _ _ hnode'))

/-- **What follows on a row** in the next level. -/
theorem Holds.followers_eq {k : Nat} {row : Row} (hrow : row ∈ levelAt g rootNode k) :
    followers (levelAt g rootNode (k + 1)) row = rowsAfter g row := by
  refine filter_flatMap_key (fun row : Row => row.1.ident) (fun a _ b hb => ?_)
    (h.nodup_levelAt hS hsub k) row hrow
  obtain ⟨node, hnode, hb⟩ := mem_rowsAfter_iff.mp hb
  rw [(mem_nodeRows_iff.mp hb).2.2, h.lists.previous _ _ hnode]

include hroot hnum

/-- The rows of a level are those of nodes, and have one height. -/
theorem Holds.row_spec : ∀ (k : Nat) {row : Row}, row ∈ levelAt g rootNode k →
    row.1.num = root.num + k ∧
      ∃ node, g.graph.get? row.1.previous = some node ∧ row ∈ nodeRows node := by
  intro k
  induction k with
  | zero =>
      intro row hrow
      obtain ⟨-, hrowNum, hprevious⟩ := mem_nodeRows_iff.mp hrow
      rw [h.lists.previous _ _ hroot] at hprevious
      exact ⟨by omega, rootNode, by rw [hprevious, hroot], hrow⟩
  | succ k ih =>
      intro row hrow
      obtain ⟨parent, hparent, hrow⟩ := List.mem_flatMap.mp hrow
      obtain ⟨node, hnode, hrow⟩ := mem_rowsAfter_iff.mp hrow
      obtain ⟨hparentNum, parentNode, hparentNode, hparentRow⟩ := ih hparent
      obtain ⟨hsiblings, hparentNodeNum, -⟩ := mem_nodeRows_iff.mp hparentRow
      obtain ⟨-, hrowNum, hprevious⟩ := mem_nodeRows_iff.mp hrow
      -- the node follows on the parent's
      have hchild : node ∈ g.children parentNode :=
        mem_children_iff.mpr ⟨_, Dict.mem_keys_iff.mpr ⟨_, hsiblings⟩, hnode⟩
      obtain ⟨-, hnodeNum⟩ := h.child_num hS hsub (mem_values_iff.mpr ⟨_, hparentNode⟩) hchild
      rw [h.lists.previous _ _ hnode] at hprevious
      exact ⟨by omega, node, by rw [hprevious, hnode], hrow⟩

/-- The peers of a row are those that its block was added for. -/
theorem Holds.mem_row_iff {k : Nat} {row : Row} (hrow : row ∈ levelAt g rootNode k) {peer : Nat} :
    peer ∈ row.2 ↔ (peer, row.1) ∈ adds := by
  obtain ⟨-, node, hnode, hmem⟩ := h.row_spec hS hsub hroot hnum k hrow
  rw [h.mem_added_iff]
  constructor
  · exact fun hpeer => ⟨node, row.2, hnode, hmem, hpeer⟩
  · rintro ⟨node', peers, hnode', hmem', hpeer⟩
    obtain rfl := Option.some.inj (hnode.symm.trans hnode')
    have hsame := (mem_nodeRows_iff.mp hmem).1.symm.trans (mem_nodeRows_iff.mp hmem').1
    rwa [Option.some.inj hsame]

include hall

/-- **Every block that was added is in the level of its height.** -/
theorem Holds.exists_row : ∀ (k : Nat) {peer : Nat} {b : SimpleBlock}, (peer, b) ∈ adds →
    b.num = root.num + k → ∃ peers, (b, peers) ∈ levelAt g rootNode k := by
  intro k
  induction k with
  | zero =>
      intro peer b hadded hb
      obtain ⟨node, peers, hnode, hrow, -⟩ := h.mem_added_iff.mp hadded
      have hnodeNum : b.num = node.num := (mem_nodeRows_iff.mp hrow).2.1
      have hkey := h.key_eq_root hS hsub hall hnode (by omega)
      rw [hkey, hroot, Option.some.injEq] at hnode
      exact ⟨peers, hnode ▸ hrow⟩
  | succ k ih =>
      intro peer b hadded hb
      obtain ⟨node, peers, hnode, hrow, -⟩ := h.mem_added_iff.mp hadded
      rcases hS.connected b (hsub _ hadded) with rfl | ⟨p, hp, hbp⟩
      · omega
      · have hpNum := hS.previous b p (hsub _ hadded) hp hbp
        obtain ⟨other, hother⟩ := hall p hp
        obtain ⟨others, hparent⟩ := ih hother (by omega)
        refine ⟨peers, List.mem_flatMap.mpr ⟨_, hparent, mem_rowsAfter_iff.mpr ⟨node, ?_, hrow⟩⟩⟩
        rw [← hbp]
        exact hnode

end Levels

end ForkGraph

open ForkGraph

/-- **The last level**: there is a block at every height up to it, and none above. -/
theorem Prints.exists_top {limit : Int} {clients : List RestClient} {root : SimpleBlock}
    {lowest : Int} {graph : ForkGraph Nat} {rootNode : ForkGraphNode Nat}
    {nodes : List (ForkGraphNode Nat)}
    (hprints : Prints limit clients root lowest graph rootNode nodes)
    (h : Comparable limit clients) : ∃ top : Nat,
      (∀ k ≤ top, levelAt graph rootNode k ≠ []) ∧
        (∀ a ∈ readPairs (goodChains clients limit) root.num, a.2.num ≤ root.num + top) ∧
        ∃ a ∈ readPairs (goodChains clients limit) root.num, a.2.num = root.num + top := by
  have hrooted := hprints.rooted h
  have hall : ∀ b, ReadTo (goodChains clients limit) root.num b →
      ∃ peer, (peer, b) ∈ readPairs (goodChains clients limit) root.num :=
    fun b hb => exists_peer hb
  obtain ⟨peer, hpeer⟩ := hall root hrooted.mem
  cases hmax : ((readPairs (goodChains clients limit) root.num).map (·.2.num)).max? with
  | none =>
      rw [List.max?_eq_none_iff, List.map_eq_nil_iff] at hmax
      rw [hmax] at hpeer
      simp at hpeer
  | some highest =>
      obtain ⟨hmem, hleast⟩ := List.max?_eq_some_iff.mp hmax
      obtain ⟨a, ha, rfl⟩ := List.mem_map.mp hmem
      have hle := (readTo_of_mem ha).2
      refine ⟨(a.2.num - root.num).toNat, fun k hk => ?_, fun b hb => ?_, a, ha, by omega⟩
      · obtain ⟨p, hp, hpNum⟩ := hrooted.exists_num (a.2.num - root.num - k).toNat
          (readTo_of_mem ha) (root.num + k) (by omega) (by omega)
        obtain ⟨other, hother⟩ := hall p hp
        obtain ⟨peers, hrow⟩ := hprints.holds.exists_row hrooted (fun b hb => readTo_of_mem hb) hall
          hprints.isRootNode hprints.rootNum k hother hpNum
        exact List.ne_nil_of_mem hrow
      · have hbound := hleast _ (List.mem_map_of_mem hb)
        omega

end Evoting
