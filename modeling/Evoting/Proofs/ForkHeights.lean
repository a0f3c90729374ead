/-
The nodes of a fork graph, height by height, and what `compare-chains` prints from.

In a tree of blocks a child node is one above its parent, so a walk yields the nodes in
the order of their numbers, the root's first (`Holds.exists_walk_heights`).  `Prints` says
what the print functions get where the chains of the clients that answer have a common
block; `Comparable.exists_prints` is that they do get it.
-/
import Evoting.Model.ComparePrint
import Evoting.Proofs.CompareChains

namespace Evoting

namespace ForkGraph

section Heights

variable {Peer : Type} {g : ForkGraph Peer} {adds : List (Peer × SimpleBlock)}
  {S : SimpleBlock → Prop} {root : SimpleBlock}

/-- Below a block of a tree there is one at every height down to the root. -/
theorem Rooted.exists_num (hS : Rooted S root) : ∀ (n : Nat) {b : SimpleBlock}, S b →
    ∀ m, root.num ≤ m → m + n = b.num → ∃ p, S p ∧ p.num = m := by
  intro n
  induction n with
  | zero => intro b hb m _ hm; exact ⟨b, hb, by omega⟩
  | succ n ih =>
      intro b hb m hroot hm
      rcases hS.connected b hb with rfl | ⟨p, hp, hbp⟩
      · omega
      · have hnum := hS.previous b p hb hp hbp
        exact ih hp m hroot (by omega)

variable (h : g.Holds adds) (hS : Rooted S root) (hsub : ∀ a ∈ adds, S a.2)
  (hall : ∀ b, S b → ∃ peer, (peer, b) ∈ adds)

include h hS hsub

/-- A child is one above its parent. -/
theorem Holds.child_num {node child : ForkGraphNode Peer} (hnode : node ∈ g.graph.values)
    (hchild : child ∈ g.children node) :
    child ∈ g.graph.values ∧ child.num = node.num + 1 := by
  obtain ⟨hmem, hident⟩ := h.child_key hchild
  obtain ⟨key, hkey⟩ := mem_values_iff.mp hnode
  obtain ⟨childKey, hchildKey⟩ := mem_values_iff.mp hmem
  obtain ⟨peer, hadded⟩ := h.lists.exists_added hkey hident
  obtain ⟨b, hb, hprevious, hnum⟩ := h.exists_block hsub hchildKey
  rw [← h.lists.previous _ _ hchildKey] at hprevious
  exact ⟨hmem, hnum ▸ hS.previous b _ hb (hsub _ hadded) hprevious⟩

include hall

/-- The only node at the height of the root is its node. -/
theorem Holds.key_eq_root {key : PyString} {node : ForkGraphNode Peer}
    (hnode : g.graph.get? key = some node) (hnum : node.num = root.num) : key = root.previous := by
  by_contra hkey
  obtain ⟨p, -, hp, -, -, hparent⟩ := h.exists_parent hS hsub hall hnode hkey
  have hle := hS.least p hp
  omega

/-- **A walk goes up height by height** from the node of the root. -/
theorem Holds.exists_walk_heights : ∃ rootNode nodes,
    g.graph.get? root.previous = some rootNode ∧ rootNode.num = root.num ∧
      (rootNode :: nodes).Perm g.graph.values ∧
      (rootNode :: nodes).Pairwise (fun a b => a.num ≤ b.num) ∧
      ∀ fuel, g.graph.values.length < fuel → g.walk fuel = some (.ok (rootNode :: nodes)) := by
  obtain ⟨rootNode, hrootNode, hget, hnum⟩ := h.rootNode (h.root_eq hS hsub hall)
  obtain ⟨visited, hvisited, hwalk⟩ := (h.isTree hS hsub hall hget).exists_walk
  have hends := hwalk (g.graph.values.length + 1) (Nat.lt_succ_self _)
  obtain ⟨hsorted, -⟩ := Walk.walk_pairwise (P := (· ∈ g.graph.values)) (r := rootNode.num)
    (fun a ha b hb => h.child_num hS hsub ha hb) _ hends (List.pairwise_singleton _ _)
    fun a ha => by
      rw [List.mem_singleton.mp ha]
      exact ⟨mem_values_iff.mpr ⟨_, hget⟩, Int.le_refl _, by omega⟩
  obtain ⟨nodes, -, rfl⟩ := Option.map_eq_some_iff.mp hends
  refine ⟨rootNode, nodes, hget, hnum, hvisited, hsorted, fun fuel hfuel => ?_⟩
  rw [walk, hrootNode]
  show (Walk.walk g.children fuel [rootNode]).map Except.ok = _
  rw [hwalk fuel hfuel]
  rfl

end Heights

end ForkGraph

open ForkGraph

/-! ### What is printed from -/

/-- Every client answers or is not reached, and the chains of those that answer are chains with
a common block. -/
structure Comparable (limit : Int) (clients : List RestClient) : Prop where
  answers : ∀ c ∈ clients, c.firstAnswer ≠ .stopIteration
  chains : AreChains (goodChains clients limit)
  below : PreviousBelow (goodChains clients limit)

/-- The errors of the clients that do not answer. -/
def connectionErrors (clients : List RestClient) : List Report :=
  (unresponsive clients).map (report "Error connecting to node" (clients.map RestClient.url))

/-- The tails that are printed, read down to a height. -/
def printedTails (limit : Int) (clients : List RestClient) (lowest : Int) :
    List (List SimpleBlock) :=
  tailsToPrint (unresponsive clients) ((goodChains clients limit).mapValues (tailAt lowest))

/-- The node ids that are printed. -/
def printedIds (clients : List RestClient) : Dict Nat Nat :=
  getNodeIdMap (unresponsive clients) clients.length

/-- **What the print functions get**: tails down to the lowest head, and a graph of the blocks
down to the highest common one, which a walk yields height by height. -/
structure Prints (limit : Int) (clients : List RestClient) (root : SimpleBlock) (lowest : Int)
    (graph : ForkGraph Nat) (rootNode : ForkGraphNode Nat) (nodes : List (ForkGraphNode Nat)) :
    Prop where
  common : Common (goodChains clients limit) root
  highest : ∀ b, Common (goodChains clients limit) b → b.num ≤ root.num
  isLowest :
    (oldestNums ((goodChains clients limit).mapValues firstBlock)).min? = some lowest
  reach : ∀ chain ∈ (goodChains clients limit).values, Reaches lowest chain
  isRoot : graph.root = some root
  holds : graph.Holds (readPairs (goodChains clients limit) root.num)
  isRootNode : graph.graph.get? root.previous = some rootNode
  rootNum : rootNode.num = root.num
  perm : (rootNode :: nodes).Perm graph.graph.values
  heights : (rootNode :: nodes).Pairwise fun a b => a.num ≤ b.num

/-- The blocks that are printed are rooted in the highest common one. -/
theorem Prints.rooted {limit : Int} {clients : List RestClient} {root : SimpleBlock}
    {lowest : Int} {graph : ForkGraph Nat} {rootNode : ForkGraphNode Nat}
    {nodes : List (ForkGraphNode Nat)}
    (hprints : Prints limit clients root lowest graph rootNode nodes)
    (h : Comparable limit clients) : Rooted (ReadTo (goodChains clients limit) root.num) root :=
  h.chains.rooted h.below hprints.common

/-- The chains of the clients that answer. -/
def answeredChains (limit : Int) (clients : List RestClient) : List (List SimpleBlock) :=
  (clients.filter RestClient.responds).map fun c => c.listBlocks limit

section Printed

variable {limit : Int} {clients : List RestClient}

/-- **The command prints.** -/
theorem Comparable.exists_prints (h : Comparable limit clients) :
    ∃ root lowest graph rootNode nodes, Prints limit clients root lowest graph rootNode nodes ∧
      ∃ n, ∀ fuel, n < fuel → graph.walk fuel = some (.ok (rootNode :: nodes)) ∧
        ∀ display view, compareChains display fuel limit view clients
          = (printView display fuel view graph (printedTails limit clients lowest)
              (printedIds clients)).map (withReports (connectionErrors clients)) := by
  obtain ⟨lowest, hmin, hreach, hhighest⟩ := h.chains.exists_lowest
  obtain ⟨root, graph, hcommon, hhighestRoot, hholds, n, hbuild⟩ :=
    buildForkGraph_ok h.chains h.below hhighest hreach
  have hrooted := h.chains.rooted h.below hcommon
  have hsub : ∀ a ∈ readPairs (goodChains clients limit) root.num,
      ReadTo (goodChains clients limit) root.num a.2 := fun a ha => readTo_of_mem ha
  have hall : ∀ b, ReadTo (goodChains clients limit) root.num b →
      ∃ peer, (peer, b) ∈ readPairs (goodChains clients limit) root.num :=
    fun b hb => exists_peer hb
  obtain ⟨rootNode, nodes, hget, hnum, hperm, hheights, hwalk⟩ :=
    hholds.exists_walk_heights hrooted hsub hall
  refine ⟨root, lowest, graph, rootNode, nodes,
    ⟨hcommon, hhighestRoot, hmin, hreach, hholds.root_eq hrooted hsub hall, hholds, hget, hnum,
      hperm, hheights⟩,
    max n graph.graph.values.length, fun fuel hfuel =>
      ⟨hwalk fuel (by omega), fun display view => ?_⟩⟩
  have hprinted := doCompareChains_ok h.answers (getTails_eq h.chains hmin hreach) rfl
    (hbuild fuel (by omega))
  unfold compareChains
  rw [hprinted]
  rfl

/-- All nodes but the root's are above it. -/
theorem Prints.lt_num {root : SimpleBlock} {lowest : Int} {graph : ForkGraph Nat}
    {rootNode : ForkGraphNode Nat} {nodes : List (ForkGraphNode Nat)}
    (hprints : Prints limit clients root lowest graph rootNode nodes)
    (h : Comparable limit clients) {node : ForkGraphNode Nat} (hnode : node ∈ nodes) :
    root.num < node.num := by
  have hle := (List.pairwise_cons.mp hprints.heights).1 node hnode
  rw [hprints.rootNum] at hle
  refine lt_of_le_of_ne hle fun heq => ?_
  obtain ⟨key, hkey⟩ := mem_values_iff.mp (hprints.perm.mem_iff.mp (List.mem_cons_of_mem _ hnode))
  have hroot := hprints.holds.key_eq_root (h.chains.rooted h.below hprints.common)
    (fun a ha => readTo_of_mem ha) (fun b hb => exists_peer hb) hkey heq.symm
  have hget := hprints.isRootNode
  rw [hroot, hget, Option.some.injEq] at hkey
  have hnodup := (hprints.perm.map (·.previous)).nodup_iff.mpr hprints.holds.nodup_previous
  rw [List.map_cons, List.nodup_cons] at hnodup
  exact hnodup.1 (hkey ▸ List.mem_map_of_mem hnode)

theorem values_goodChains : (goodChains clients limit).values = answeredChains limit clients := by
  rw [goodChains, Dict.values, Dict.enumerate, List.map_map]
  exact List.zipIdx_map_fst 0 _

/-- The chain of a number is that of the client at the position that the number stands for. -/
theorem get?_goodChains (j : Nat) : (goodChains clients limit).get? j
    = (responsive clients)[j]?.bind fun p => clients[p]?.map fun c => c.listBlocks limit := by
  rw [goodChains, Dict.get?_enumerate, List.getElem?_map]
  cases hclient : (clients.filter RestClient.responds)[j]? with
  | none =>
      have hlength := List.getElem?_eq_none_iff.mp hclient
      rw [← List.countP_eq_length_filter, ← List.length_findIdxs] at hlength
      rw [responsive, List.getElem?_eq_none hlength]
      rfl
  | some client =>
      obtain ⟨i, hi, hi'⟩ := Positions.getElem?_filter_eq hclient
      rw [responsive, hi, Option.bind_some, hi']

/-- A client that answers has a block. -/
def HasBlock (limit : Int) (clients : List RestClient) (p : Nat) (b : SimpleBlock) : Prop :=
  ∃ client, clients[p]? = some client ∧ client.responds = true ∧ b ∈ client.listBlocks limit

/-- The number of a client that answers stands for its position. -/
theorem getElem?_responsive_iff {p : Nat} : (∃ j : Nat, (responsive clients)[j]? = some p) ↔
    ∃ client, clients[p]? = some client ∧ client.responds = true := by
  rw [← List.mem_iff_getElem?, responsive]
  constructor
  · exact Positions.exists_of_mem_findIdxs
  · rintro ⟨client, hclient, hresponds⟩
    obtain ⟨hp, rfl⟩ := List.getElem?_eq_some_iff.mp hclient
    rw [List.mem_findIdxs_iff_pos_getElem hp]
    exact hresponds

/-- The position that a number stands for. -/
def positionOf (clients : List RestClient) (j : Nat) : Nat := (responsive clients).getD j 0

theorem get?_printedIds {j p : Nat} (hp : (responsive clients)[j]? = some p) :
    (printedIds clients).get? j = some (positionOf clients j) := by
  rw [printedIds, getNodeIdMap_responsive, positionOf, List.getD_eq_getElem?_getD, hp]
  rfl

/-- The ids of numbers of clients that answer. -/
theorem nodeIds_eq {n : Nat} (hn : n ≤ clients.countP RestClient.responds) :
    (List.range n).mapM (nodeId (printedIds clients))
      = .ok ((List.range n).map (positionOf clients)) := by
  refine mapM_eq_ok fun j hj => ?_
  have hlt : j < (responsive clients).length := by
    rw [responsive, List.length_findIdxs]
    exact Nat.lt_of_lt_of_le (List.mem_range.mp hj) hn
  rw [nodeId, get?_printedIds (List.getElem?_eq_getElem hlt)]

/-- What is read of the chain of a number. -/
theorem mem_readPairs_get? {Peer : Type} [DecidableEq Peer] {chains : Dict Peer (List SimpleBlock)}
    {j : Peer} {b : SimpleBlock} {lowest : Int} : (j, b) ∈ readPairs chains lowest ↔
      ∃ chain, chains.get? j = some chain ∧ b ∈ chain ∧ lowest ≤ b.num := by
  rw [mem_readPairs_iff]
  constructor
  · rintro ⟨e, he, rfl, hb, hle⟩
    exact ⟨e.2, Dict.get?_eq_some_iff.mpr he, hb, hle⟩
  · rintro ⟨chain, hchain, hb, hle⟩
    exact ⟨(j, chain), Dict.get?_eq_some_iff.mp hchain, rfl, hb, hle⟩

/-- What is read of the chain of a number are the blocks of its client. -/
theorem mem_readPairs_goodChains {j : Nat} {b : SimpleBlock} {lowest : Int} :
    (j, b) ∈ readPairs (goodChains clients limit) lowest ↔
      lowest ≤ b.num ∧ ∃ p, (responsive clients)[j]? = some p ∧ HasBlock limit clients p b := by
  simp only [mem_readPairs_get?, get?_goodChains, Option.bind_eq_some_iff, Option.map_eq_some_iff]
  constructor
  · rintro ⟨_, ⟨p, hp, client, hclient, rfl⟩, hb, hle⟩
    obtain ⟨found, hfound, hresponds⟩ := getElem?_responsive_iff.mp ⟨j, hp⟩
    obtain rfl := Option.some.inj (hclient.symm.trans hfound)
    exact ⟨hle, p, hp, client, hclient, hresponds, hb⟩
  · rintro ⟨hle, p, hp, client, hclient, -, hb⟩
    exact ⟨_, ⟨p, hp, client, hclient, rfl⟩, hb, hle⟩

/-- No block is read of a chain twice. -/
theorem nodup_readPairs {Peer : Type} {chains : Dict Peer (List SimpleBlock)}
    (hlinked : ∀ chain ∈ chains.values, Linked chain) (lowest : Int) :
    (readPairs chains lowest).Nodup := by
  rw [readPairs, List.nodup_flatMap]
  constructor
  · intro e he
    have hchain : e.2.Nodup := (hlinked e.2 (mem_values he)).pairwise.imp fun hlt heq => by
      rw [heq] at hlt
      exact Int.lt_irrefl _ hlt
    exact (hchain.filter _).map fun b b' h => (Prod.mk.inj h).2
  · refine (List.pairwise_map.mp chains.nodup).imp fun hne a ha ha' => ?_
    obtain ⟨b, -, rfl⟩ := List.mem_map.mp ha
    obtain ⟨b', -, heq⟩ := List.mem_map.mp ha'
    exact hne (Prod.mk.inj heq).1.symm

/-- The chains that the tails are printed of: the filter of the tails leaves out those whose
number is the position of a client that does not answer. -/
def keptChains (limit : Int) (clients : List RestClient) : List (List SimpleBlock) :=
  ((goodChains clients limit).entries.filter fun e => e.1 ∉ unresponsive clients).map Prod.snd

theorem keys_goodChains (limit : Int) :
    (goodChains clients limit).keys = List.range (clients.countP RestClient.responds) := by
  have hkeys := Dict.keys_enumerate
    ((clients.filter RestClient.responds).map fun c => c.listBlocks limit)
  rw [List.length_map, ← List.countP_eq_length_filter] at hkeys
  exact hkeys

theorem printedTails_eq (lowest : Int) : printedTails limit clients lowest
    = (keptChains limit clients).map fun chain => (tailAt lowest chain).blocks := by
  have hkeys : ((goodChains clients limit).mapValues (tailAt lowest)).keys
      = List.range (clients.countP RestClient.responds) := by
    rw [← keys_goodChains limit]
    simp [Dict.keys, Dict.mapValues]
  rw [printedTails, tailsToPrint, sortedItems_of_keys hkeys, Dict.mapValues, List.filter_map,
    List.map_map, keptChains, List.map_map]
  rfl

/-- **No tail is left out** if and only if no client that answers comes after one that does
not. -/
theorem keptChains_eq_iff : keptChains limit clients = answeredChains limit clients ↔
    clients.Pairwise fun a b => b.responds = true → a.responds = true := by
  rw [← values_goodChains]
  have hall : keptChains limit clients = (goodChains clients limit).values ↔
      ∀ e ∈ (goodChains clients limit).entries, e.1 ∉ unresponsive clients := by
    constructor
    · intro heq e he
      have hlength := congrArg List.length heq
      rw [keptChains, Dict.values, List.length_map, List.length_map,
        List.length_filter_eq_length_iff] at hlength
      simpa using hlength e he
    · intro hall
      rw [keptChains, List.filter_eq_self.mpr fun e he => by simpa using hall e he, Dict.values]
  rw [hall, ← Positions.passing_first_iff]
  have hkey : ∀ i, (∃ e ∈ (goodChains clients limit).entries, e.1 = i) ↔
      i < clients.countP RestClient.responds := by
    intro i
    rw [← List.mem_range, ← keys_goodChains limit, Dict.keys, List.mem_map]
  constructor
  · intro hnone i hi
    by_contra hlt
    obtain ⟨e, he, rfl⟩ := (hkey i).mpr (Nat.lt_of_not_le hlt)
    exact hnone e he hi
  · intro hle e he hmem
    have hlt := (hkey e.1).mp ⟨e, he, rfl⟩
    have := hle e.1 hmem
    omega

theorem keptChains_sublist :
    (keptChains limit clients).Sublist (answeredChains limit clients) := by
  rw [← values_goodChains]
  exact List.filter_sublist.map _

theorem mem_keptChains {chain : List SimpleBlock} (h : chain ∈ keptChains limit clients) :
    chain ∈ (goodChains clients limit).values := by
  rw [values_goodChains]
  exact keptChains_sublist.subset h

/-- The head of a chain. -/
def chainHead (chain : List SimpleBlock) : SimpleBlock := chain.headD ⟨0, [], []⟩

/-- The head of a linked chain is above all its other blocks. -/
theorem Linked.chainHead_spec {chain : List SimpleBlock} (hchain : Linked chain) {b : SimpleBlock}
    (hb : b ∈ chain) : chainHead chain ∈ chain ∧ b.num ≤ (chainHead chain).num := by
  cases chain with
  | nil => simp at hb
  | cons head rest =>
      refine ⟨List.mem_cons_self, ?_⟩
      rcases List.mem_cons.mp hb with rfl | hb
      · exact Int.le_refl _
      · exact Int.le_of_lt ((List.pairwise_cons.mp hchain.pairwise).1 b hb)

/-- The ends of a tail: the block at its height, and the head of the chain. -/
theorem Linked.tail_ends {chain : List SimpleBlock} {lowest : Int} (hchain : Linked chain)
    (hreach : Reaches lowest chain) :
    (tailAt lowest chain).blocks.head? = some (blockAt lowest chain) ∧
      (tailAt lowest chain).blocks.getLast? = some (chainHead chain) := by
  refine ⟨rfl, ?_⟩
  have hblocks : (tailAt lowest chain).blocks = (above lowest chain).reverse := by
    rw [hchain.above_eq hreach, List.reverse_append, List.reverse_singleton]
    rfl
  obtain ⟨b, hb, hnum⟩ := hreach
  obtain ⟨-, hle⟩ := hchain.chainHead_spec hb
  rw [hblocks, List.getLast?_reverse]
  cases chain with
  | nil => simp at hb
  | cons head rest =>
      have hhead : lowest ≤ head.num := by rw [← hnum]; exact hle
      rw [above, List.filter_cons_of_pos (by simpa using hhead)]
      rfl

/-- **The ends of the printed tails.** -/
theorem ends_printedTails {lowest : Int} (hlinked : ∀ chain ∈ (goodChains clients limit).values,
      Linked chain) (hreach : ∀ chain ∈ (goodChains clients limit).values, Reaches lowest chain) :
    lastBlocks (printedTails limit clients lowest)
        = .ok ((keptChains limit clients).map chainHead) ∧
      firstBlocks (printedTails limit clients lowest)
        = .ok ((keptChains limit clients).map (blockAt lowest)) := by
  have hends : ∀ chain ∈ keptChains limit clients, _ := fun chain hchain =>
    (hlinked chain (mem_keptChains hchain)).tail_ends (hreach chain (mem_keptChains hchain))
  rw [printedTails_eq, lastBlocks, firstBlocks, List.mapM_map, List.mapM_map]
  exact ⟨mapM_eq_ok fun chain hchain => by rw [Function.comp_apply, (hends chain hchain).2],
    mapM_eq_ok fun chain hchain => by rw [Function.comp_apply, (hends chain hchain).1]⟩

/-- A block that all chains have is one that all clients that answer have. -/
theorem common_goodChains_iff {b : SimpleBlock} : Common (goodChains clients limit) b ↔
    ∀ c ∈ clients, c.responds = true → b ∈ c.listBlocks limit := by
  unfold Common
  simp only [values_goodChains, answeredChains, List.mem_map, List.mem_filter]
  constructor
  · exact fun h c hc hresponds => h _ ⟨c, ⟨hc, hresponds⟩, rfl⟩
  · rintro h _ ⟨c, ⟨hc, hresponds⟩, rfl⟩
    exact h c hc hresponds

end Printed

/-- A client whose chain forks from that of `longer`. -/
def diverging : RestClient :=
  ⟨['x'], .block ⟨6, ['d'], ['a']⟩, fun _ => [⟨6, ['d'], ['a']⟩, ⟨5, ['a'], ['0']⟩]⟩

theorem comparable_silentFirst : Comparable 25 [silent, longer, diverging] :=
  ⟨by decide, ⟨by decide, by decide, by decide, ⟨5, ['a'], ['0']⟩, by unfold Common; decide⟩,
    by unfold PreviousBelow; decide⟩

theorem comparable_silentLast : Comparable 25 [longer, diverging, silent] :=
  ⟨by decide, ⟨by decide, by decide, by decide, ⟨5, ['a'], ['0']⟩, by unfold Common; decide⟩,
    by unfold PreviousBelow; decide⟩

/-- The two chains have only block `a` in common. -/
theorem eq_of_forked {root : SimpleBlock} (hlonger : root ∈ longer.listBlocks 25)
    (hdiverging : root ∈ diverging.listBlocks 25) : root = ⟨5, ['a'], ['0']⟩ := by
  simp only [longer, diverging, List.mem_cons, List.not_mem_nil, or_false] at hlonger hdiverging
  rcases hlonger with rfl | rfl
  · simp at hdiverging
  · rfl

theorem num_of_forked {clients : List RestClient} (hsub : clients ⊆ [silent, longer, diverging])
    {p : Nat} {b : SimpleBlock} (hblock : HasBlock 25 clients p b) : 0 ≤ b.num ∧ b.num ≤ 6 := by
  obtain ⟨client, hclient, -, hb⟩ := hblock
  have hmem := hsub (List.mem_of_getElem? hclient)
  simp only [List.mem_cons, List.not_mem_nil, or_false] at hmem
  rcases hmem with rfl | rfl | rfl
  · simp [silent] at hb
  · simp only [longer, List.mem_cons, List.not_mem_nil, or_false] at hb
    rcases hb with rfl | rfl <;> decide
  · simp only [diverging, List.mem_cons, List.not_mem_nil, or_false] at hb
    rcases hb with rfl | rfl <;> decide

end Evoting
