/-
The table that `compare-chains --table` prints.

A node of the walk puts the blocks it lists into the cells of their peers, and a line is
printed where the number changes.  A walk goes up height by height and every peer has one
block at a height, so the cells of a line are those of the chains (`Prints.placeAll_eq`).
That is so where there is a cell for every peer.  But there are only as many cells as tails
are printed, and the filter of the tails leaves some out as soon as a client that answers
comes after one that does not; then the root's node, the first of the walk, has a peer
without a cell (`Prints.printTable_error`).
-/
import Evoting.Proofs.ForkLevels

namespace Evoting

open ForkGraph

/-! ### What a table is -/

/-- The text of a cell: the block of a chain at a height, where there is one. -/
def cellText (num : Int) (chain : List SimpleBlock) : PyString :=
  ((chain.find? fun b => b.num = num).map fun b => b.ident.take 8).getD []

/-- The line of the blocks at a height. -/
def heightLine (display : Display) (limit : Int) (clients : List RestClient) (top num : Int) :
    PyString :=
  tableLine (max (display.floorLog10 top + 1) 3)
    (max (display.floorLog10 (answeredChains limit clients).length + 1) 8)
    (intText num) ((answeredChains limit clients).map (cellText num))

/-- **What a table of clients is to show**: a column for each client, and a line for each height
from a block up to another. -/
def tableOf (display : Display) (limit : Int) (clients : List RestClient) (root top : Int) :
    List PyString :=
  let header :=
    tableLine (max (display.floorLog10 top + 1) 3)
      (max (display.floorLog10 (answeredChains limit clients).length + 1) 8)
      "NUM".toList
      ((List.range (answeredChains limit clients).length).map fun (node : Nat) =>
        "NODE ".toList ++ intText node)
  [header, dashes header] ++
    (List.range (top - root + 1).toNat).map fun (k : Nat) =>
      heightLine display limit clients top (root + k)

/-! ### Cells -/

/-- One block of a node, put into the cell of a peer. -/
def placeCell (cells : List PyString) (a : Nat × SimpleBlock) :
    Except PyException (List PyString) :=
  if a.1 < cells.length then .ok (cells.set a.1 (a.2.ident.take 8)) else .error .indexError

/-- Blocks that all have a cell. -/
def placeAll (cells : List PyString) (listed : List (Nat × SimpleBlock)) : List PyString :=
  listed.foldl (fun cells a => cells.set a.1 (a.2.ident.take 8)) cells

@[simp] theorem length_placeAll (cells : List PyString) (listed : List (Nat × SimpleBlock)) :
    (placeAll cells listed).length = cells.length := by
  induction listed using List.reverseRecOn with
  | nil => rfl
  | append_singleton listed a ih =>
      rw [placeAll, List.foldl_append, List.foldl_cons, List.foldl_nil, List.length_set]
      exact ih

theorem placeAll_append (cells : List PyString) (listed listed' : List (Nat × SimpleBlock)) :
    placeAll cells (listed ++ listed') = placeAll (placeAll cells listed) listed' :=
  List.foldl_append

/-- The loop of `print_table` over the siblings of a node places what the node lists. -/
theorem fillNodes_eq (node : ForkGraphNode Nat) (cells : List PyString) :
    node.siblings.entries.foldlM fillNodes cells = node.listed.foldlM placeCell cells := by
  have hentries : ∀ (entries : List (PyString × List Nat)) (cells : List PyString),
      entries.foldlM fillNodes cells = (entries.flatMap fun e => e.2.map fun peer =>
        (peer, (⟨node.num, e.1, node.previous⟩ : SimpleBlock))).foldlM placeCell cells := by
    intro entries
    induction entries with
    | nil => intro cells; rfl
    | cons e entries ih =>
        intro cells
        have hfill : fillNodes cells e = e.2.foldlM (fun cells peer =>
            placeCell cells (peer, ⟨node.num, e.1, node.previous⟩)) cells := rfl
        rw [List.foldlM_cons, List.flatMap_cons, List.foldlM_append, List.foldlM_map, hfill]
        exact congrArg _ (funext fun cells => ih cells)
  exact hentries _ cells

/-- Where every peer has a cell. -/
theorem placeCells_ok : ∀ (listed : List (Nat × SimpleBlock)) (cells : List PyString),
    (∀ a ∈ listed, a.1 < cells.length) →
      listed.foldlM placeCell cells = .ok (placeAll cells listed) := by
  intro listed
  induction listed with
  | nil => intro cells _; rfl
  | cons a listed ih =>
      intro cells hcells
      rw [List.foldlM_cons, placeCell, if_pos (hcells a (by simp)), ok_bind,
        ih _ fun b hb => by rw [List.length_set]; exact hcells b (by simp [hb])]
      rfl

/-- Where a peer has none. -/
theorem placeCells_error : ∀ (listed : List (Nat × SimpleBlock)) (cells : List PyString)
    {a : Nat × SimpleBlock}, a ∈ listed → cells.length ≤ a.1 →
      listed.foldlM placeCell cells = .error .indexError := by
  intro listed
  induction listed with
  | nil => intro cells a ha; simp at ha
  | cons b listed ih =>
      intro cells a ha hlength
      rw [List.foldlM_cons]
      by_cases hb : b.1 < cells.length
      · have hmem : a ∈ listed := by
          rcases List.mem_cons.mp ha with rfl | hmem
          · omega
          · exact hmem
        rw [placeCell, if_pos hb, ok_bind]
        exact ih _ hmem (by rw [List.length_set]; exact hlength)
      · rw [placeCell, if_neg hb]
        rfl

/-- **What a cell holds** in the end, where every peer has one block. -/
theorem getElem?_placeAll (cells : List PyString) {i : Nat} (hi : i < cells.length) :
    ∀ {listed : List (Nat × SimpleBlock)},
      (∀ a ∈ listed, ∀ b ∈ listed, a.1 = b.1 → a.2 = b.2) →
      (∀ b, (i, b) ∈ listed → (placeAll cells listed)[i]? = some (b.ident.take 8)) ∧
        ((∀ b, (i, b) ∉ listed) → (placeAll cells listed)[i]? = cells[i]?) := by
  intro listed
  induction listed using List.reverseRecOn with
  | nil => intro _; exact ⟨fun b hb => by simp at hb, fun _ => rfl⟩
  | append_singleton listed a ih =>
      intro hsame
      obtain ⟨hfilled, hempty⟩ := ih fun b hb c hc => hsame b (by simp [hb]) c (by simp [hc])
      have hplace : placeAll cells (listed ++ [a])
          = (placeAll cells listed).set a.1 (a.2.ident.take 8) := placeAll_append _ _ _
      rw [hplace]
      by_cases hai : a.1 = i
      · constructor
        · intro b hb
          have hblock : a.2 = b := hsame a (by simp) (i, b) hb hai
          rw [← hblock, ← hai, List.getElem?_set_self (by rw [length_placeAll, hai]; exact hi)]
        · intro hnone
          refine absurd (List.mem_append_right _ (List.mem_singleton.mpr ?_)) (hnone a.2)
          rw [← hai]
      · rw [List.getElem?_set_ne hai]
        constructor
        · intro b hb
          rcases List.mem_append.mp hb with hb | hb
          · exact hfilled b hb
          · exact absurd (congrArg Prod.fst (List.mem_singleton.mp hb)).symm hai
        · exact fun hnone => hempty fun b hb => hnone b (List.mem_append_left _ hb)

/-! ### The loop -/

section Loop

variable {line : PyString → List PyString → PyString} {count : Nat}

/-- A node with the number of the line. -/
theorem tableNode_same {s : TableState} {node : ForkGraphNode Nat}
    (hnum : node.num = s.prevBlockNum) (hcells : ∀ a ∈ node.listed, a.1 < s.nodeList.length) :
    tableNode line count s node = .ok { s with nodeList := placeAll s.nodeList node.listed } := by
  unfold tableNode
  rw [if_neg (not_not.mpr hnum)]
  dsimp only
  rw [fillNodes_eq, placeCells_ok _ _ hcells]
  rfl

/-- A node with another number starts a line. -/
theorem tableNode_next {s : TableState} {node : ForkGraphNode Nat}
    (hnum : node.num ≠ s.prevBlockNum) (hcells : ∀ a ∈ node.listed, a.1 < count) :
    tableNode line count s node = .ok
      ⟨node.num, placeAll (List.replicate count []) node.listed,
        if s.prevBlockNum ≠ -1 then s.lines ++ [line (intText s.prevBlockNum) s.nodeList]
        else s.lines⟩ := by
  unfold tableNode
  rw [if_pos hnum]
  dsimp only
  rw [fillNodes_eq, placeCells_ok _ _ (by simpa using hcells)]
  rfl

/-- A node with a peer that has no cell. -/
theorem tableNode_error {s : TableState} {node : ForkGraphNode Nat}
    (hnum : node.num ≠ s.prevBlockNum) {a : Nat × SimpleBlock} (ha : a ∈ node.listed)
    (hcount : count ≤ a.1) :
    tableNode line count s node = .error .indexError := by
  unfold tableNode
  rw [if_pos hnum]
  dsimp only
  rw [fillNodes_eq, placeCells_error _ _ ha (by simpa using hcount)]
  rfl

/-- The nodes of one number. -/
theorem tableNodes_group : ∀ (group : List (ForkGraphNode Nat)) (s : TableState),
    (∀ node ∈ group, node.num = s.prevBlockNum) →
      (∀ a ∈ listedIn group, a.1 < s.nodeList.length) →
      group.foldlM (tableNode line count) s
        = .ok { s with nodeList := placeAll s.nodeList (listedIn group) } := by
  intro group
  induction group with
  | nil => intro s _ _; rfl
  | cons node group ih =>
      intro s hnums hcells
      have hsplit : listedIn (node :: group) = node.listed ++ listedIn group := rfl
      rw [hsplit] at hcells ⊢
      rw [List.foldlM_cons, tableNode_same (hnums node (by simp))
        fun a ha => hcells a (List.mem_append_left _ ha), ok_bind,
        ih { s with nodeList := placeAll s.nodeList node.listed }
          (fun other hother => hnums other (by simp [hother]))
          (fun a ha => by
            rw [length_placeAll]
            exact hcells a (List.mem_append_right _ ha)),
        placeAll_append]

variable {nodes : List (ForkGraphNode Nat)} {cells : Int → List PyString} {top : Nat} {root : Int}

/-- **The rest of the loop**, after the nodes of one number: the lines from there on.  The
induction is on how many heights follow. -/
theorem tableNodes_rest (hroot : 0 ≤ root) (hheights : nodes.Pairwise fun a b => a.num ≤ b.num)
    (hcells : ∀ a ∈ listedIn nodes, a.1 < count)
    (hexists : ∀ k ≤ top, ∃ node ∈ nodes, node.num = root + k)
    (htop : ∀ node ∈ nodes, node.num ≤ root + top)
    (hplace : ∀ num, root ≤ num → placeAll (List.replicate count [])
      (listedIn (nodes.filter fun node => node.num = num)) = cells num) :
    ∀ (m k : Nat) (num : Int), k + m = top → num = root + k → ∀ lines : List PyString,
      ∃ s, (nodes.filter fun node => num + 1 ≤ node.num).foldlM (tableNode line count)
          ⟨num, cells num, lines⟩ = .ok s ∧
        s.lines ++ [line (intText s.prevBlockNum) s.nodeList] = lines ++
          (List.range' k (m + 1)).map fun (i : Nat) =>
            line (intText (root + i)) (cells (root + i)) := by
  intro m
  induction m with
  | zero =>
      intro k num hm hk lines
      have hnone : (nodes.filter fun node => num + 1 ≤ node.num) = [] :=
        List.filter_eq_nil_iff.mpr fun node hnode => by
          have hle := htop node hnode
          simp only [decide_eq_true_eq]
          omega
      exact ⟨_, by rw [hnone]; rfl, by simp [hk]⟩
  | succ m ih =>
      intro k num hm hk lines
      have hsplit := Walk.filter_le_rank ForkGraphNode.num (num + 1) hheights
      have hgroupMem : ∀ node ∈ nodes.filter (fun node => node.num = num + 1),
          node ∈ nodes ∧ node.num = num + 1 := fun node hnode => by
        simpa using List.mem_filter.mp hnode
      obtain ⟨node, hnode, hnodeNum⟩ := hexists (k + 1) (by omega)
      have hfirst : node ∈ nodes.filter (fun node => node.num = num + 1) := by
        rw [List.mem_filter, decide_eq_true_eq]
        exact ⟨hnode, by omega⟩
      have hcellsNext := hplace (num + 1) (by omega)
      generalize nodes.filter (fun node => decide (node.num = num + 1)) = group
        at hsplit hgroupMem hfirst hcellsNext
      cases group with
      | nil => simp at hfirst
      | cons first group =>
          have hlisted : ∀ node ∈ first :: group, ∀ a ∈ node.listed, a.1 < count :=
            fun node hnode a ha =>
              hcells a (List.mem_flatMap.mpr ⟨node, (hgroupMem node hnode).1, ha⟩)
          have hfirstNum := (hgroupMem first (by simp)).2
          obtain ⟨s, hs, hlines⟩ := ih (k + 1) (num + 1) (by omega) (by omega)
            (lines ++ [line (intText num) (cells num)])
          refine ⟨s, ?_, ?_⟩
          · have hgroup : listedIn (first :: group) = first.listed ++ listedIn group := rfl
            rw [hgroup, placeAll_append] at hcellsNext
            rw [hsplit, List.cons_append, List.foldlM_cons,
              tableNode_next (by rw [hfirstNum]; show num + 1 ≠ num; omega)
                (hlisted first (by simp)),
              ok_bind, List.foldlM_append, tableNodes_group group _
                (fun node hnode => ((hgroupMem node (by simp [hnode])).2.trans hfirstNum.symm))
                (fun a ha => by
                  obtain ⟨node, hnode, ha⟩ := List.mem_flatMap.mp ha
                  simpa using hlisted node (by simp [hnode]) a ha),
              ok_bind]
            dsimp only
            rw [hcellsNext, hfirstNum, if_pos (by omega), hs]
          · have hrange : List.range' k (m + 1 + 1) = k :: List.range' (k + 1) (m + 1) :=
              List.range'_succ
            rw [hlines, List.append_assoc, hrange, List.map_cons, ← hk]
            rfl

end Loop

/-! ### The command -/

/-- No client that answers comes after one that does not. -/
def AnswersFirst (clients : List RestClient) : Prop :=
  clients.Pairwise fun a b => b.responds = true → a.responds = true

section Command

variable {limit : Int} {clients : List RestClient} {root : SimpleBlock} {lowest : Int}
  {graph : ForkGraph Nat} {rootNode : ForkGraphNode Nat} {nodes : List (ForkGraphNode Nat)}

theorem get?_answeredChains (j : Nat) :
    (goodChains clients limit).get? j = (answeredChains limit clients)[j]? :=
  Dict.get?_enumerate _ _

section Cells

variable (hprints : Prints limit clients root lowest graph rootNode nodes)
  (h : Comparable limit clients)

include hprints

/-- What the nodes of the walk list. -/
theorem Prints.mem_listed_iff {j : Nat} {b : SimpleBlock} :
    (j, b) ∈ listedIn (rootNode :: nodes) ↔
      ∃ chain, (answeredChains limit clients)[j]? = some chain ∧ b ∈ chain ∧ root.num ≤ b.num := by
  have hperm : (listedIn (rootNode :: nodes)).Perm (listedIn graph.graph.values) :=
    hprints.perm.flatMap_right _
  rw [hperm.mem_iff, hprints.holds.lists.listed.mem_iff, mem_readPairs_get?]
  simp only [get?_answeredChains]

/-- A peer has a cell in a table for all chains. -/
theorem Prints.lt_length {a : Nat × SimpleBlock} (ha : a ∈ listedIn (rootNode :: nodes)) :
    a.1 < (answeredChains limit clients).length := by
  obtain ⟨chain, hchain, -⟩ := hprints.mem_listed_iff.mp ha
  exact (List.getElem?_eq_some_iff.mp hchain).1

theorem Prints.mem_listedAt_iff {num : Int} (hnum : root.num ≤ num) {j : Nat} {b : SimpleBlock} :
    (j, b) ∈ listedIn ((rootNode :: nodes).filter fun node => node.num = num) ↔
      ∃ chain, (answeredChains limit clients)[j]? = some chain ∧ b ∈ chain ∧ b.num = num := by
  have hlisted : (j, b) ∈ listedIn ((rootNode :: nodes).filter fun node => node.num = num) ↔
      (j, b) ∈ listedIn (rootNode :: nodes) ∧ b.num = num := by
    simp only [listedIn, List.mem_flatMap, List.mem_filter, decide_eq_true_eq]
    constructor
    · rintro ⟨node, ⟨hnode, hnodeNum⟩, hb⟩
      exact ⟨⟨node, hnode, hb⟩, (ForkGraphNode.mem_listed_iff.mp hb).2.1.trans hnodeNum⟩
    · rintro ⟨⟨node, hnode, hb⟩, hbNum⟩
      exact ⟨node, ⟨hnode, (ForkGraphNode.mem_listed_iff.mp hb).2.1.symm.trans hbNum⟩, hb⟩
  rw [hlisted, hprints.mem_listed_iff]
  constructor
  · rintro ⟨⟨chain, hchain, hb, -⟩, hbNum⟩
    exact ⟨chain, hchain, hb, hbNum⟩
  · rintro ⟨chain, hchain, hb, hbNum⟩
    exact ⟨⟨chain, hchain, hb, by omega⟩, hbNum⟩

include h

/-- **The cells of a line** are those of the chains. -/
theorem Prints.placeAll_eq {num : Int} (hnum : root.num ≤ num) :
    placeAll (List.replicate (answeredChains limit clients).length [])
        (listedIn ((rootNode :: nodes).filter fun node => node.num = num))
      = (answeredChains limit clients).map (cellText num) := by
  have hlinked : ∀ (j : Nat) chain, (answeredChains limit clients)[j]? = some chain →
      Linked chain := by
    intro j chain hchain
    rw [← get?_answeredChains, Dict.get?_eq_some_iff] at hchain
    exact h.chains.linked chain (mem_values hchain)
  have hsame : ∀ a ∈ listedIn ((rootNode :: nodes).filter fun node => node.num = num),
      ∀ b ∈ listedIn ((rootNode :: nodes).filter fun node => node.num = num),
        a.1 = b.1 → a.2 = b.2 := by
    rintro ⟨i, a⟩ ha ⟨j, b⟩ hb (rfl : i = j)
    obtain ⟨chain, hchain, hmem, haNum⟩ := (hprints.mem_listedAt_iff hnum).mp ha
    obtain ⟨chain', hchain', hmem', hbNum⟩ := (hprints.mem_listedAt_iff hnum).mp hb
    obtain rfl := Option.some.inj (hchain.symm.trans hchain')
    exact (hlinked i chain hchain).eq_of_num_eq hmem hmem' (haNum.trans hbNum.symm)
  refine List.ext_getElem? fun i => ?_
  by_cases hi : i < (answeredChains limit clients).length
  · have hchain := List.getElem?_eq_getElem hi
    obtain ⟨hfilled, hempty⟩ := getElem?_placeAll
      (List.replicate (answeredChains limit clients).length []) (by simpa using hi) hsame
    rw [List.getElem?_map, hchain, Option.map_some, cellText]
    cases hfind : (answeredChains limit clients)[i].find? fun b => b.num = num with
    | some b =>
        have hb := (hprints.mem_listedAt_iff hnum).mpr
          ⟨_, hchain, List.mem_of_find?_eq_some hfind, by simpa using List.find?_some hfind⟩
        exact hfilled b hb
    | none =>
        rw [hempty fun b hb => ?_]
        · simp [hi]
        · obtain ⟨chain, hchain', hb, hbNum⟩ := (hprints.mem_listedAt_iff hnum).mp hb
          obtain rfl := Option.some.inj (hchain.symm.trans hchain')
          simpa [hbNum] using List.find?_eq_none.mp hfind b hb
  · rw [List.getElem?_eq_none (by simpa using hi), List.getElem?_eq_none (by simpa using hi)]

/-- The heads of the chains are no higher than the last block, and one of them is as high. -/
theorem Prints.maxHeight {top : Int}
    (htop : ∀ a ∈ readPairs (goodChains clients limit) root.num, a.2.num ≤ top)
    (hexists : ∃ a ∈ readPairs (goodChains clients limit) root.num, a.2.num = top) :
    pyMax ((answeredChains limit clients).map fun chain => (chainHead chain).num) = .ok top := by
  rw [← values_goodChains]
  have hhead : ∀ e ∈ (goodChains clients limit).entries,
      (e.1, chainHead e.2) ∈ readPairs (goodChains clients limit) root.num := by
    intro e he
    obtain ⟨hmem, hle⟩ :=
      (h.chains.linked e.2 (mem_values he)).chainHead_spec (hprints.common e.2 (mem_values he))
    exact mem_readPairs_iff.mpr ⟨e, he, rfl, hmem, hle⟩
  have hmax : ((goodChains clients limit).values.map fun chain => (chainHead chain).num).max?
      = some top := by
    rw [List.max?_eq_some_iff]
    constructor
    · obtain ⟨a, ha, rfl⟩ := hexists
      obtain ⟨e, he, -, hb, -⟩ := mem_readPairs_iff.mp ha
      refine List.mem_map.mpr ⟨e.2, mem_values he, ?_⟩
      have hle := (h.chains.linked e.2 (mem_values he)).chainHead_spec hb
      have hge := htop _ (hhead e he)
      dsimp only at hge
      omega
    · intro num hnum
      obtain ⟨chain, hchain, rfl⟩ := List.mem_map.mp hnum
      obtain ⟨e, he, rfl⟩ := List.mem_map.mp hchain
      exact htop _ (hhead e he)
  rw [pyMax, hmax]

/-- **The loop of `print_table`** with a cell for every peer: a line for each height. -/
theorem Prints.tableNodes_ok (hroot : 0 ≤ root.num) {top : Nat}
    (hlevels : ∀ k ≤ top, levelAt graph rootNode k ≠ [])
    (htop : ∀ a ∈ readPairs (goodChains clients limit) root.num, a.2.num ≤ root.num + top)
    (line : PyString → List PyString → PyString) :
    ∃ s, (rootNode :: nodes).foldlM (tableNode line (answeredChains limit clients).length)
        ⟨-1, List.replicate (answeredChains limit clients).length [], []⟩ = .ok s ∧
      s.lines ++ [line (intText s.prevBlockNum) s.nodeList] =
        (List.range' 0 (top + 1)).map fun (k : Nat) => line (intText (root.num + k))
          ((answeredChains limit clients).map (cellText (root.num + k))) := by
  have hrooted := hprints.rooted h
  have hnodes : ∀ node ∈ rootNode :: nodes, node.num ≤ root.num + top := by
    intro node hnode
    obtain ⟨key, hkey⟩ := mem_values_iff.mp (hprints.perm.mem_iff.mp hnode)
    obtain ⟨ident, hident⟩ :=
      List.exists_mem_of_ne_nil _ (hprints.holds.lists.filled key node hkey).blocks
    obtain ⟨peer, hadded⟩ := hprints.holds.lists.exists_added hkey hident
    exact htop _ hadded
  have hexists : ∀ k ≤ top, ∃ node ∈ rootNode :: nodes, node.num = root.num + k := by
    intro k hk
    obtain ⟨row, hrow⟩ := List.exists_mem_of_ne_nil _ (hlevels k hk)
    obtain ⟨hrowNum, node, hnode, hmem⟩ := hprints.holds.row_spec hrooted
      (fun a ha => readTo_of_mem ha) hprints.isRootNode hprints.rootNum k hrow
    have hnodeNum := (mem_nodeRows_iff.mp hmem).2.1
    exact ⟨node, hprints.perm.mem_iff.mpr (mem_values_iff.mpr ⟨_, hnode⟩), by omega⟩
  obtain ⟨s, hs, hlines⟩ := tableNodes_rest hroot hprints.heights
    (fun a ha => hprints.lt_length ha) hexists hnodes
    (fun num hnum => hprints.placeAll_eq h hnum) top 0 root.num (by omega) (by simp) []
  refine ⟨s, ?_, hlines⟩
  -- the node of the root starts the first line
  have hcells := hprints.placeAll_eq h (Int.le_refl root.num)
  have hrootOnly : (rootNode :: nodes).filter (fun node => node.num = root.num) = [rootNode] := by
    rw [List.filter_cons_of_pos (by simpa using hprints.rootNum), List.filter_eq_nil_iff.mpr]
    exact fun node hnode => by simpa using Int.ne_of_gt (hprints.lt_num h hnode)
  have hrest : (rootNode :: nodes).filter (fun node => root.num + 1 ≤ node.num) = nodes := by
    have hskip : ¬root.num + 1 ≤ rootNode.num := by
      rw [hprints.rootNum]
      omega
    rw [List.filter_cons_of_neg (by simpa using hskip), List.filter_eq_self]
    exact fun node hnode => decide_eq_true (hprints.lt_num h hnode)
  rw [hrootOnly] at hcells
  rw [hrest] at hs
  have hlisted : listedIn [rootNode] = rootNode.listed := List.flatMap_singleton _ _
  rw [hlisted] at hcells
  rw [List.foldlM_cons, tableNode_next (by rw [hprints.rootNum]; show root.num ≠ -1; omega)
    fun a ha => hprints.lt_length (List.mem_flatMap.mpr ⟨rootNode, by simp, ha⟩), ok_bind, hcells,
    hprints.rootNum]
  exact hs

/-- The largest height of the tails, where none is left out. -/
theorem Prints.heights_first (hfirst : AnswersFirst clients) {top : Int}
    (htop : ∀ a ∈ readPairs (goodChains clients limit) root.num, a.2.num ≤ top)
    (hexists : ∃ a ∈ readPairs (goodChains clients limit) root.num, a.2.num = top) :
    (getHeights (printedTails limit clients lowest)).bind pyMax = .ok top := by
  rw [getHeights, (ends_printedTails h.chains.linked hprints.reach).1, keptChains_eq_iff.mpr hfirst]
  show pyMax (((answeredChains limit clients).map chainHead).map SimpleBlock.num) = _
  rw [List.map_map]
  exact hprints.maxHeight h htop hexists

end Cells

/-- A table with a cell for every client that answers. -/
theorem Prints.printTable_ok (hprints : Prints limit clients root lowest graph rootNode nodes)
    (h : Comparable limit clients) (hfirst : AnswersFirst clients) (hroot : 0 ≤ root.num)
    {top : Nat} (hlevels : ∀ k ≤ top, levelAt graph rootNode k ≠ [])
    (htop : ∀ a ∈ readPairs (goodChains clients limit) root.num, a.2.num ≤ root.num + top)
    (hexists : ∃ a ∈ readPairs (goodChains clients limit) root.num, a.2.num = root.num + top)
    (hpos : 0 < root.num + top) (display : Display) {fuel : Nat}
    (hwalk : graph.walk fuel = some (.ok (rootNode :: nodes))) :
    printTable display fuel graph (printedTails limit clients lowest) (printedIds clients)
      = some (.ok (tableOf display limit clients root.num (root.num + top))) := by
  have hlength : (printedTails limit clients lowest).length
      = (answeredChains limit clients).length := by
    rw [printedTails_eq, List.length_map, keptChains_eq_iff.mpr hfirst]
  have hheights := hprints.heights_first h hfirst htop hexists
  have hcount : (answeredChains limit clients).length = clients.countP RestClient.responds := by
    rw [answeredChains, List.length_map, List.countP_eq_length_filter]
  have hids : (List.range (answeredChains limit clients).length).mapM (nodeId (printedIds clients))
      = .ok (List.range (answeredChains limit clients).length) := by
    rw [nodeIds_eq (Nat.le_of_eq hcount)]
    refine congrArg Except.ok ((List.map_congr_left fun j hj => ?_).trans (List.map_id' _))
    rw [List.mem_range, hcount] at hj
    rw [positionOf, responsive, Positions.findIdxs_eq_range hfirst, List.getD_eq_getElem?_getD,
      List.getElem?_range hj]
    rfl
  obtain ⟨s, hs, hlines⟩ := hprints.tableNodes_ok h hroot hlevels htop
    (tableLine (max (display.floorLog10 (root.num + top) + 1) 3)
      (max (display.floorLog10 (answeredChains limit clients).length + 1) 8))
  have hrange : (root.num + top - root.num + 1).toNat = top + 1 := by omega
  rw [printTable, hlength]
  dsimp only
  rw [hheights]
  dsimp only
  rw [if_neg (by omega), hids]
  dsimp only
  rw [hwalk]
  simp only [Option.map_some, Except.bind, hs, Except.map, List.append_assoc, hlines, tableOf,
    hrange, List.range_eq_range', heightLine]

/-- A tail was left out, so a peer of the root has no cell. -/
theorem Prints.printTable_error (hprints : Prints limit clients root lowest graph rootNode nodes)
    (h : Comparable limit clients) (hfirst : ¬AnswersFirst clients) (hroot : 0 ≤ root.num)
    (display : Display) {fuel : Nat} (hwalk : graph.walk fuel = some (.ok (rootNode :: nodes))) :
    ∃ e, (e = .valueError ∨ e = .indexError) ∧
      printTable display fuel graph (printedTails limit clients lowest) (printedIds clients)
        = some (.error e) := by
  have hless : (keptChains limit clients).length < (answeredChains limit clients).length := by
    refine lt_of_le_of_ne keptChains_sublist.length_le fun heq => hfirst ?_
    exact keptChains_eq_iff.mp (keptChains_sublist.eq_of_length heq)
  -- the root is listed for every peer, and for one that has no cell
  have hlisted : ((keptChains limit clients).length, root) ∈ rootNode.listed := by
    have hchain := List.getElem?_eq_getElem hless
    have hmem := hprints.common (answeredChains limit clients)[(keptChains limit clients).length]
      (by rw [values_goodChains]; exact List.getElem_mem hless)
    obtain ⟨node, hnode, hlisted⟩ := List.mem_flatMap.mp
      (hprints.mem_listed_iff.mpr ⟨_, hchain, hmem, Int.le_refl _⟩)
    rcases List.mem_cons.mp hnode with rfl | hnode
    · exact hlisted
    · have hlt := hprints.lt_num h hnode
      have hnum := (ForkGraphNode.mem_listed_iff.mp hlisted).2.1
      omega
  have hlength : (printedTails limit clients lowest).length
      = (keptChains limit clients).length := by
    rw [printedTails_eq, List.length_map]
  have hcount : (keptChains limit clients).length ≤ clients.countP RestClient.responds := by
    rw [List.countP_eq_length_filter]
    simpa [answeredChains] using Nat.le_of_lt hless
  have hheights : (getHeights (printedTails limit clients lowest)).bind pyMax
      = pyMax (((keptChains limit clients).map chainHead).map SimpleBlock.num) := by
    rw [getHeights, (ends_printedTails h.chains.linked hprints.reach).1]
    rfl
  rw [printTable, hlength]
  dsimp only
  rw [hheights, pyMax]
  cases hmax : (((keptChains limit clients).map chainHead).map SimpleBlock.num).max? with
  | none => exact ⟨.valueError, .inl rfl, rfl⟩
  | some maxHeight =>
      dsimp only
      by_cases hpos : maxHeight ≤ 0
      · rw [if_pos hpos]
        exact ⟨.valueError, .inl rfl, rfl⟩
      · refine ⟨.indexError, .inr rfl, ?_⟩
        rw [if_neg hpos, nodeIds_eq hcount]
        dsimp only
        rw [hwalk, Option.map_some]
        simp only [Except.bind, List.foldlM_cons]
        rw [tableNode_error (by rw [hprints.rootNum]; show root.num ≠ -1; omega) hlisted
          (Nat.le_refl _)]
        rfl

/-- **`compare-chains --table`** prints the table of the clients that answer, where these come
first and a block is numbered above zero, and raises where they do not. -/
theorem compareChains_table (h : Comparable limit clients)
    (hnums : ∀ p b, HasBlock limit clients p b → 0 ≤ b.num) : ∃ (root : SimpleBlock) (top : Int),
    (∀ c ∈ clients, c.responds = true → root ∈ c.listBlocks limit) ∧
      (∀ b, (∀ c ∈ clients, c.responds = true → b ∈ c.listBlocks limit) → b.num ≤ root.num) ∧
      (∃ p b, HasBlock limit clients p b ∧ b.num = top) ∧
      (∀ p b, HasBlock limit clients p b → b.num ≤ top) ∧
      ∃ n, ∀ fuel, n < fuel → ∀ display,
        (AnswersFirst clients ∧ 0 < top → compareChains display fuel limit .table clients
          = some (.ok (connectionErrors clients, tableOf display limit clients root.num top))) ∧
        (¬(AnswersFirst clients ∧ 0 < top) → ∃ e, (e = .valueError ∨ e = .indexError) ∧
          compareChains display fuel limit .table clients = some (.error (.raised e))) := by
  obtain ⟨root, lowest, graph, rootNode, nodes, hprints, n, hcommand⟩ := h.exists_prints
  obtain ⟨top, hlevels, htop, hexists⟩ := hprints.exists_top h
  have hread : ∀ j b, (j, b) ∈ readPairs (goodChains clients limit) root.num →
      ∃ p, HasBlock limit clients p b := fun j b hb => by
    obtain ⟨-, p, -, hblock⟩ := mem_readPairs_goodChains.mp hb
    exact ⟨p, hblock⟩
  have hroot : 0 ≤ root.num := by
    obtain ⟨j, hj⟩ := exists_peer (hprints.rooted h).mem
    obtain ⟨p, hblock⟩ := hread j root hj
    exact hnums p root hblock
  refine ⟨root, root.num + top, common_goodChains_iff.mp hprints.common,
    fun b hb => hprints.highest b (common_goodChains_iff.mpr hb), ?_, ?_, n,
    fun fuel hfuel display => ?_⟩
  · obtain ⟨a, ha, hnum⟩ := hexists
    obtain ⟨p, hblock⟩ := hread a.1 a.2 ha
    exact ⟨p, a.2, hblock, hnum⟩
  · rintro p b ⟨client, hclient, hresponds, hb⟩
    obtain ⟨j, hj⟩ := getElem?_responsive_iff.mpr ⟨client, hclient, hresponds⟩
    by_cases hle : root.num ≤ b.num
    · exact htop (j, b)
        (mem_readPairs_goodChains.mpr ⟨hle, p, hj, client, hclient, hresponds, hb⟩)
    · omega
  · obtain ⟨hwalk, hprinted⟩ := hcommand fuel hfuel
    rw [hprinted display .table, printView]
    constructor
    · rintro ⟨hfirst, hpos⟩
      rw [hprints.printTable_ok h hfirst hroot hlevels htop hexists hpos display hwalk]
      rfl
    · intro hnot
      by_cases hfirst : AnswersFirst clients
      · refine ⟨.valueError, .inl rfl, ?_⟩
        rw [printTable]
        dsimp only
        rw [hprints.heights_first h hfirst htop hexists]
        dsimp only
        rw [if_pos (by by_contra hpos; exact hnot ⟨hfirst, by omega⟩)]
        rfl
      · obtain ⟨e, he, hprint⟩ := hprints.printTable_error h hfirst hroot display hwalk
        exact ⟨e, he, by rw [hprint]; rfl⟩

end Command

/-- The forked chains before a client that does not answer, and behind it. -/
theorem compareChains_table_forked : (∃ n, ∀ fuel, n < fuel → ∀ display,
      compareChains display fuel 25 .table [longer, diverging, silent]
        = some (.ok ([⟨"Error connecting to node", 2, ['w']⟩],
          tableOf display 25 [longer, diverging, silent] 5 6))) ∧
    ∃ n, ∀ fuel, n < fuel → ∀ display, ∃ e, (e = .valueError ∨ e = .indexError) ∧
      compareChains display fuel 25 .table [silent, longer, diverging]
        = some (.error (.raised e)) := by
  constructor
  · obtain ⟨root, top, hcommon, -, ⟨p, b, hb, htop⟩, hhighest, n, hprinted⟩ :=
      compareChains_table comparable_silentLast fun p b hb => (num_of_forked (by simp) hb).1
    obtain rfl := eq_of_forked (hcommon longer (by simp) rfl) (hcommon diverging (by simp) rfl)
    have htopNum : top = 6 := by
      have hle := hhighest 0 ⟨6, ['b'], ['a']⟩ ⟨longer, rfl, rfl, by simp [longer]⟩
      have hge := (num_of_forked (by simp) hb).2
      dsimp only at hle
      omega
    subst htopNum
    exact ⟨n, fun fuel hfuel display =>
      (hprinted fuel hfuel display).1 ⟨by unfold AnswersFirst; decide, by decide⟩⟩
  · obtain ⟨root, top, -, -, -, -, n, hprinted⟩ :=
      compareChains_table comparable_silentFirst fun p b hb => (num_of_forked (by simp) hb).1
    exact ⟨n, fun fuel hfuel display => (hprinted fuel hfuel display).2 fun hanswers =>
      absurd hanswers.1 (by unfold AnswersFirst; decide)⟩

end Evoting
