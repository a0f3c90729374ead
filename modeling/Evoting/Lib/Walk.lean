/-
Breadth-first walks that do not remember where they have been.

A walk takes the first node off a queue, yields it and puts its children at the end
of the queue.  On a graph with two ways to a node it yields the node twice, on one
with a cycle it never ends.  On a tree neither happens: `exists_walk` says that a walk
from the root yields every node once, and how much fuel that takes.

What has been yielded and what is still queued are together the root and the
children of what has been yielded; the induction carries that.  So a walk that ends has
yielded the root and all children, and on other graphs it does not end or yields some
node twice (`yieldsOnce_iff`).
-/
import Mathlib.Data.List.Nodup
import Mathlib.Data.List.Perm.Subperm
import Mathlib.Logic.Relation

namespace Evoting.Walk

variable {α : Type} (children : α → List α)

/-- The nodes in the order in which they leave the queue, unless the fuel runs out. -/
def walk : Nat → List α → Option (List α)
  | 0, _ => none
  | _ + 1, [] => some []
  | fuel + 1, node :: queue => (walk fuel (queue ++ children node)).map (node :: ·)

/-- The nodes are those of a tree: each is the root or the child of one other, and is reached
from the root. -/
structure IsTree (root : α) (nodes : List α) : Prop where
  nodup : nodes.Nodup
  children_perm : (root :: nodes.flatMap children).Perm nodes
  reached : ∀ node ∈ nodes, Relation.ReflTransGen (fun a b => b ∈ children a) root node

variable {children} {root : α} {nodes : List α}

/-- Nodes that contain the root and their children are all nodes. -/
theorem IsTree.perm_of_closed (h : IsTree children root nodes) {visited : List α}
    (hnodup : visited.Nodup) (hsub : visited ⊆ nodes) (hroot : root ∈ visited)
    (hclosed : ∀ a ∈ visited, ∀ b ∈ children a, b ∈ visited) : visited.Perm nodes := by
  have hall : ∀ node, Relation.ReflTransGen (fun a b => b ∈ children a) root node →
      node ∈ visited := by
    intro node hnode
    induction hnode with
    | refl => exact hroot
    | tail _ hstep ih => exact hclosed _ ih _ hstep
  exact (List.perm_ext_iff_of_nodup hnodup h.nodup).mpr fun node =>
    ⟨fun hnode => hsub hnode, fun hnode => hall node (h.reached node hnode)⟩

/-- What was visited and what is queued are different nodes of the tree. -/
theorem IsTree.queued (h : IsTree children root nodes) {visited queue : List α}
    (hnodup : visited.Nodup) (hsub : visited ⊆ nodes)
    (hqueue : (visited ++ queue).Perm (root :: visited.flatMap children)) :
    ∃ rest, nodes.Perm (visited ++ queue ++ rest) := by
  obtain ⟨visited', hvisited, hsublist⟩ := List.subperm_of_subset hnodup hsub
  obtain ⟨others, hothers'⟩ := hsublist.exists_perm_append
  have hothers : nodes.Perm (visited ++ others) := hothers'.trans (hvisited.append_right others)
  refine ⟨others.flatMap children, ?_⟩
  have hsplit : (root :: nodes.flatMap children).Perm
      ((root :: visited.flatMap children) ++ others.flatMap children) := by
    rw [List.cons_append, ← List.flatMap_append]
    exact (hothers.flatMap_right _).cons root
  exact h.children_perm.symm.trans (hsplit.trans (hqueue.symm.append_right _))

/-- When the queue is empty all nodes were visited. -/
theorem IsTree.visited_all (h : IsTree children root nodes) {visited : List α}
    (hnodup : visited.Nodup) (hsub : visited ⊆ nodes)
    (hqueue : (visited ++ []).Perm (root :: visited.flatMap children)) :
    (visited ++ []).Perm nodes := by
  rw [List.append_nil] at hqueue ⊢
  refine h.perm_of_closed hnodup hsub (hqueue.symm.subset (by simp)) fun a ha b hb => ?_
  exact hqueue.symm.subset (List.mem_cons_of_mem _ (List.mem_flatMap.mpr ⟨a, ha, hb⟩))

theorem walk_nil {fuel : Nat} (h : 0 < fuel) : walk children fuel [] = some [] := by
  cases fuel with
  | zero => omega
  | succ fuel => rw [walk]

/-- A node that is its own only child is walked without end. -/
theorem walk_eq_none {node : α} (h : children node = [node]) :
    ∀ fuel, walk children fuel [node] = none := by
  intro fuel
  induction fuel with
  | zero => rfl
  | succ fuel ih => rw [walk, h, List.nil_append, ih, Option.map_none]

theorem IsTree.walk_queue (h : IsTree children root nodes) : ∀ (k : Nat) (visited queue : List α),
    visited.Nodup → visited ⊆ nodes →
      (visited ++ queue).Perm (root :: visited.flatMap children) →
      nodes.length ≤ visited.length + k →
      ∃ rest, (visited ++ rest).Perm nodes ∧
        ∀ fuel, k < fuel → walk children fuel queue = some rest := by
  intro k
  induction k with
  | zero =>
      intro visited queue hnodup hsub hqueue hlength
      obtain ⟨rest, hnodes⟩ := h.queued hnodup hsub hqueue
      have hcount := hnodes.length_eq
      simp only [List.length_append] at hcount
      have hempty : queue = [] := List.length_eq_zero_iff.mp (by omega)
      rw [hempty] at hqueue ⊢
      exact ⟨[], h.visited_all hnodup hsub hqueue, fun fuel hfuel => walk_nil hfuel⟩
  | succ k ih =>
      intro visited queue hnodup hsub hqueue hlength
      cases queue with
      | nil =>
          exact ⟨[], h.visited_all hnodup hsub hqueue, fun fuel hfuel => walk_nil (by omega)⟩
      | cons node queue =>
          obtain ⟨others, hnodes⟩ := h.queued hnodup hsub hqueue
          have hsplit : nodes.Perm ((visited ++ [node]) ++ (queue ++ others)) := by
            simpa using hnodes
          have hnext : ((visited ++ [node]) ++ (queue ++ children node)).Perm
              (root :: (visited ++ [node]).flatMap children) := by
            rw [List.flatMap_append, List.flatMap_singleton, ← List.cons_append]
            simpa using hqueue.append_right (children node)
          obtain ⟨rest, hrest, hwalk⟩ := ih (visited ++ [node]) (queue ++ children node)
            (List.Nodup.of_append_left (hsplit.nodup_iff.mp h.nodup))
            (fun a ha => hsplit.symm.subset (List.mem_append_left _ ha)) hnext
            (by rw [List.length_append, List.length_singleton]; omega)
          refine ⟨node :: rest, by simpa using hrest, fun fuel hfuel => ?_⟩
          cases fuel with
          | zero => omega
          | succ fuel =>
              rw [walk, hwalk fuel (by omega)]
              rfl

/-- **A walk of a tree** yields every node once. -/
theorem IsTree.exists_walk (h : IsTree children root nodes) :
    ∃ visited : List α, visited.Perm nodes ∧
      ∀ fuel, nodes.length < fuel → walk children fuel [root] = some visited := by
  obtain ⟨visited, hvisited, hwalk⟩ := h.walk_queue nodes.length [] [root] List.nodup_nil
    (List.nil_subset _) (by simp) (by simp)
  exact ⟨visited, hvisited, hwalk⟩

/-- **A walk that ends** has yielded what was queued, and the children of what it yielded. -/
theorem walk_perm : ∀ (fuel : Nat) {queue visited : List α},
    walk children fuel queue = some visited →
      visited.Perm (queue ++ visited.flatMap children) := by
  intro fuel
  induction fuel with
  | zero => intro queue visited h; exact absurd h (by simp [walk])
  | succ fuel ih =>
      intro queue visited h
      cases queue with
      | nil =>
          rw [walk, Option.some.injEq] at h
          rw [← h]
          exact List.Perm.refl []
      | cons node queue =>
          rw [walk] at h
          obtain ⟨rest, hrest, rfl⟩ := Option.map_eq_some_iff.mp h
          rw [List.flatMap_cons, List.cons_append, ← List.append_assoc]
          exact (ih hrest).cons node

/-- **A walk goes down level by level**: where a child ranks one above its parent, and what is
queued no more than one above its first node, the nodes are yielded in the order of ranks. -/
theorem walk_pairwise {rank : α → Int} {P : α → Prop}
    (hchildren : ∀ a, P a → ∀ b ∈ children a, P b ∧ rank b = rank a + 1) :
    ∀ (fuel : Nat) {queue visited : List α} {r : Int}, walk children fuel queue = some visited →
      queue.Pairwise (fun a b => rank a ≤ rank b) →
      (∀ a ∈ queue, P a ∧ r ≤ rank a ∧ rank a ≤ r + 1) →
      visited.Pairwise (fun a b => rank a ≤ rank b) ∧ ∀ a ∈ visited, r ≤ rank a := by
  intro fuel
  induction fuel with
  | zero => intro queue visited r h; exact absurd h (by simp [walk])
  | succ fuel ih =>
      intro queue visited r h hsorted hbounds
      cases queue with
      | nil =>
          rw [walk, Option.some.injEq] at h
          rw [← h]
          simp
      | cons node queue =>
          rw [walk] at h
          obtain ⟨rest, hrest, rfl⟩ := Option.map_eq_some_iff.mp h
          obtain ⟨hfirst, hqueue⟩ := List.pairwise_cons.mp hsorted
          obtain ⟨hP, hlower, -⟩ := hbounds node (by simp)
          have hupper : ∀ a ∈ queue, rank a ≤ rank node + 1 := fun a ha => by
            have := hbounds a (by simp [ha])
            omega
          -- the children rank above all that is queued
          have hnext : (queue ++ children node).Pairwise fun a b => rank a ≤ rank b := by
            rw [List.pairwise_append]
            refine ⟨hqueue, List.pairwise_of_forall_mem_list fun a ha b hb => ?_,
              fun a ha b hb => ?_⟩
            · exact Int.le_of_eq ((hchildren node hP a ha).2.trans (hchildren node hP b hb).2.symm)
            · rw [(hchildren node hP b hb).2]
              exact hupper a ha
          obtain ⟨hvisited, hleast⟩ := @ih _ _ (rank node) hrest hnext fun a ha => by
            rcases List.mem_append.mp ha with ha | ha
            · exact ⟨(hbounds a (by simp [ha])).1, hfirst a ha, hupper a ha⟩
            · obtain ⟨hchild, hrank⟩ := hchildren node hP a ha
              exact ⟨hchild, by omega, by omega⟩
          refine ⟨List.pairwise_cons.mpr ⟨hleast, hvisited⟩, fun a ha => ?_⟩
          rcases List.mem_cons.mp ha with rfl | ha
          · exact hlower
          · exact Int.le_trans hlower (hleast a ha)

/-- Nodes in the order of ranks, cut above a rank. -/
theorem filter_le_rank (rank : α → Int) (n : Int) {l : List α}
    (hsorted : l.Pairwise fun a b => rank a ≤ rank b) :
    l.filter (fun a => n ≤ rank a)
      = l.filter (fun a => rank a = n) ++ l.filter fun a => n + 1 ≤ rank a := by
  induction l with
  | nil => rfl
  | cons a l ih =>
      obtain ⟨hfirst, hrest⟩ := List.pairwise_cons.mp hsorted
      rcases Int.lt_trichotomy (rank a) n with hlt | heq | hgt
      · rw [List.filter_cons_of_neg (by simpa using hlt),
          List.filter_cons_of_neg (by simpa using Int.ne_of_lt hlt),
          List.filter_cons_of_neg (by simp; omega), ih hrest]
      · rw [List.filter_cons_of_pos (by simp [heq]), List.filter_cons_of_pos (by simpa using heq),
          List.filter_cons_of_neg (by simp; omega), ih hrest, List.cons_append]
      · have hnone : l.filter (fun a => rank a = n) = [] := List.filter_eq_nil_iff.mpr
          fun b hb => by have := hfirst b hb; simp; omega
        rw [List.filter_cons_of_pos (by simpa using Int.le_of_lt hgt),
          List.filter_cons_of_neg (by simpa using Int.ne_of_gt hgt),
          List.filter_cons_of_pos (by simp; omega), ih hrest, hnone, List.nil_append,
          List.nil_append]

/-- **Nodes that are replaced alike** are walked alike. -/
theorem walk_map {children' : α → List α} {f : α → α}
    (h : ∀ node, children' (f node) = (children node).map f) (fuel : Nat) : ∀ queue : List α,
      walk children' fuel (queue.map f) = (walk children fuel queue).map (List.map f) := by
  induction fuel with
  | zero => intro queue; rfl
  | succ fuel ih =>
      intro queue
      cases queue with
      | nil => rfl
      | cons node queue =>
          rw [List.map_cons, walk, walk, h, ← List.map_append, ih]
          cases walk children fuel (queue ++ children node) <;> rfl

/-- A walk from a node that ends and yields each node that is reached once. -/
def YieldsOnce (children : α → List α) (root : α) : Prop :=
  ∃ visited, (∃ n, ∀ fuel, n < fuel → walk children fuel [root] = some visited) ∧
    visited.Nodup ∧
    ∀ node, node ∈ visited ↔ Relation.ReflTransGen (fun a b => b ∈ children a) root node

/-- **When a walk yields every node once**: among the nodes that are reached none is the child of
two others, or of one twice, and the root is no child. -/
theorem yieldsOnce_iff (hnodup : nodes.Nodup)
    (hreached : ∀ node,
      node ∈ nodes ↔ Relation.ReflTransGen (fun a b => b ∈ children a) root node) :
    YieldsOnce children root ↔ (root :: nodes.flatMap children).Nodup := by
  constructor
  · rintro ⟨visited, ⟨n, hwalk⟩, hvisited, hmem⟩
    have hperm := walk_perm (n + 1) (hwalk (n + 1) (Nat.lt_succ_self n))
    have hsame : visited.Perm nodes := (List.perm_ext_iff_of_nodup hvisited hnodup).mpr fun node =>
      (hmem node).trans (hreached node).symm
    exact (((hsame.flatMap_right children).cons root).nodup_iff).mp (hperm.nodup_iff.mp hvisited)
  · intro hchildren
    have htree : IsTree children root nodes := by
      refine ⟨hnodup, ?_, fun node hnode => (hreached node).mp hnode⟩
      rw [List.perm_ext_iff_of_nodup hchildren hnodup]
      intro node
      rw [List.mem_cons, List.mem_flatMap, hreached]
      constructor
      · rintro (rfl | ⟨parent, hparent, hnode⟩)
        · exact Relation.ReflTransGen.refl
        · exact ((hreached parent).mp hparent).tail hnode
      · intro hnode
        rcases Relation.ReflTransGen.cases_tail hnode with rfl | ⟨parent, hparent, hstep⟩
        · exact .inl rfl
        · exact .inr ⟨parent, (hreached parent).mpr hparent, hstep⟩
    obtain ⟨visited, hvisited, hwalk⟩ := htree.exists_walk
    exact ⟨visited, ⟨_, hwalk⟩, hvisited.nodup_iff.mpr hnodup, fun node =>
      hvisited.mem_iff.trans (hreached node)⟩

end Evoting.Walk
