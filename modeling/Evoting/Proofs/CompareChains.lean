/-
Which client a row of `compare-chains` is of.

Where nothing goes wrong after the clients have been asked, the tails are keyed by the
numbers of the clients that answered, and `get_node_id_map` gives each of these numbers
the right position (`getNodeIdMap_responsive`).  But the filter of the tails compares
the keys with the positions of the clients that did not answer.  So a row is lost for
every one of these positions that is also a number of a client that answered, and the
rows after it are printed under other nodes.  `attributesRows_iff` says when there is none.
-/
import Evoting.Lib.Positions
import Evoting.Model.CompareChains
import Evoting.Proofs.Tails

namespace Evoting

/-- The block a client answers with. -/
def FirstAnswer.head : FirstAnswer → Option SimpleBlock
  | .block b => some b
  | .cliException => none
  | .stopIteration => none

/-- The client answers the first request. -/
def RestClient.responds (client : RestClient) : Bool := client.firstAnswer.head.isSome

/-- The positions of the clients that answer. -/
def responsive (clients : List RestClient) : List Nat := clients.findIdxs RestClient.responds

/-- The positions of the clients that do not. -/
def unresponsive (clients : List RestClient) : List Nat := clients.findIdxs fun c => !c.responds

/-- The chains of the clients that answer, numbered from zero. -/
def goodChains (clients : List RestClient) (limit : Int) : Dict Nat (List SimpleBlock) :=
  Dict.enumerate ((clients.filter RestClient.responds).map fun c => c.listBlocks limit)

/-- The chains lead to no error after the clients have been asked. -/
def NoLaterError (fuel : Nat) (limit : Int) (clients : List RestClient) : Prop :=
  (∀ c ∈ clients, c.firstAnswer ≠ .stopIteration) ∧
    ∃ t graph, getTails (goodChains clients limit) = .ok t ∧ t.badChains = [] ∧
      buildForkGraph fuel t.chains t.tails = some (.ok (graph, []))

/-- What is printed is right: one row for each client that answers, each under the
position of the client whose chain it is, and no error but of clients that do not answer. -/
structure RowsMatch (clients : List RestClient) (limit : Int) (reports : List Report)
    (tails : List (List SimpleBlock)) (nodeIdMap : Dict Nat Nat) : Prop where
  one_each : tails.length = clients.countP RestClient.responds
  rows : ∀ j tail, tails[j]? = some tail → ∃ p client, nodeIdMap.get? j = some p ∧
    (responsive clients)[j]? = some p ∧ clients[p]? = some client ∧
    tail ≠ [] ∧ tail.reverse <+: client.listBlocks limit
  reported : ∀ r ∈ reports, ∃ client, clients[r.node]? = some client ∧
    client.responds = false ∧ r.url = client.url

/-- The command prints, and what it prints is right. -/
def AttributesRows (fuel : Nat) (limit : Int) (clients : List RestClient) : Prop :=
  ∃ reports graph tails nodeIdMap,
    doCompareChains fuel limit clients = some (.ok (reports, .printed graph tails nodeIdMap)) ∧
      RowsMatch clients limit reports tails nodeIdMap

section Clients

variable {clients : List RestClient} {limit : Int}

/-! ### Asking the clients -/

/-- The loop of `get_chain_generators` sorts the clients by whether they answer. -/
theorem pollClients_ok (hstop : ∀ c ∈ clients, c.firstAnswer ≠ .stopIteration) :
    ∀ (s : Polled) (start : Nat), (clients.zipIdx start).foldlM pollClient s = .ok
      ⟨s.heads ++ clients.filterMap fun c => c.firstAnswer.head,
        s.goodClients ++ clients.filter RestClient.responds,
        s.badClients ++ clients.findIdxs (fun c => !c.responds) start⟩ := by
  induction clients with
  | nil => intro s start; simp
  | cons c clients ih =>
      intro s start
      have hrest := ih fun d hd => hstop d (by simp [hd])
      rw [List.zipIdx_cons, List.foldlM_cons]
      cases hanswer : c.firstAnswer with
      | block block =>
          have hresponds : c.responds = true := by
            simp [RestClient.responds, hanswer, FirstAnswer.head]
          simp [pollClient, hanswer, hrest, hresponds, FirstAnswer.head]
      | cliException =>
          have hresponds : c.responds = false := by
            simp [RestClient.responds, hanswer, FirstAnswer.head]
          simp [pollClient, hanswer, hrest, hresponds, FirstAnswer.head]
      | stopIteration => exact absurd hanswer (hstop c (by simp))

/-- **`get_chain_generators`** numbers the clients that answer, and reports the positions
of the others. -/
theorem getChainGenerators_ok (hstop : ∀ c ∈ clients, c.firstAnswer ≠ .stopIteration) :
    getChainGenerators clients limit = .ok (goodChains clients limit, unresponsive clients) := by
  rw [getChainGenerators, pollClients_ok hstop]
  simp only [List.nil_append]
  by_cases hnone : (clients.filterMap fun c => c.firstAnswer.head) = []
  · have hfilter : clients.filter RestClient.responds = [] := by
      rw [List.filter_eq_nil_iff]
      intro c hc
      rw [RestClient.responds, List.filterMap_eq_nil_iff.mp hnone c hc]
      simp
    rw [if_pos hnone, goodChains, hfilter]
    rfl
  · rw [if_neg hnone]
    rfl

/-- The indices below `n` that are reported, in order. -/
def reporting (unreporting : List Nat) (n : Nat) : List Nat :=
  (List.range n).filter fun i => i ∉ unreporting

/-- The invariant of the loop of `get_node_id_map`: the offset counts the indices left out, and
the others are numbered from zero. -/
structure Numbers (unreporting : List Nat) (n : Nat) (s : Dict Nat Nat × Nat) : Prop where
  offset : s.2 + (reporting unreporting n).length = n
  get? : ∀ j, s.1.get? j = (reporting unreporting n)[j]?

theorem Numbers.step {unreporting : List Nat} {n : Nat} {s : Dict Nat Nat × Nat}
    (h : Numbers unreporting n s) : Numbers unreporting (n + 1) (mapNodeId unreporting s n) := by
  obtain ⟨hoffset, hget⟩ := h
  unfold mapNodeId
  by_cases hn : n ∉ unreporting
  · have hnext : reporting unreporting (n + 1) = reporting unreporting n ++ [n] := by
      simp [reporting, List.range_succ, hn]
    have hnumber : n - s.2 = (reporting unreporting n).length := by omega
    rw [if_pos hn, hnumber]
    refine ⟨by rw [hnext, List.length_append, List.length_singleton]; omega, fun j => ?_⟩
    rw [hnext, Dict.get?_set, hget, List.getElem?_append]
    -- the new number is the next one
    by_cases hj : j < (reporting unreporting n).length
    · rw [if_pos hj, if_neg (by omega)]
    · rw [if_neg hj, List.getElem?_singleton]
      by_cases hlast : (reporting unreporting n).length = j
      · rw [if_pos hlast, if_pos (by omega)]
      · rw [if_neg hlast, if_neg (by omega), List.getElem?_eq_none (by omega)]
  · have hnext : reporting unreporting (n + 1) = reporting unreporting n := by
      simp [reporting, List.range_succ, not_not.mp hn]
    rw [if_neg hn]
    exact ⟨by rw [hnext]; omega, by rw [hnext]; exact hget⟩

theorem numbers_loop (unreporting : List Nat) (n : Nat) :
    Numbers unreporting n ((List.range n).foldl (mapNodeId unreporting) (Dict.empty, 0)) := by
  induction n with
  | zero => exact ⟨rfl, fun j => rfl⟩
  | succ n ih =>
      rw [List.range_succ, List.foldl_append]
      exact ih.step

/-- **`get_node_id_map`** is right: it maps numbers to the positions of the clients that
answer. -/
theorem getNodeIdMap_responsive (j : Nat) :
    (getNodeIdMap (unresponsive clients) clients.length).get? j = (responsive clients)[j]? := by
  rw [getNodeIdMap, (numbers_loop _ _).get?, reporting, unresponsive, Positions.range_without,
    responsive]

/-! ### The tails -/

section GetTails

variable {chains : Dict Nat (List SimpleBlock)} {t : Tails Nat}

/-- What `get_tails` returns: the chains without a first block are among the bad ones, the
others are walked back to one number. -/
theorem getTails_ok (ht : getTails chains = .ok t) : ∃ minBlockNum,
    t.tails = ((chains.mapValues firstBlock).filterMapValues fun e =>
      e.1.map fun tail => walkBack minBlockNum tail e.2).mapValues Prod.fst ∧
    (∀ e ∈ chains.entries, e.2 = [] → e.1 ∈ t.badChains) ∧ t.chains.keys = chains.keys := by
  unfold getTails at ht
  dsimp only at ht
  split at ht
  · simp at ht
  · rename_i minBlockNum _
    obtain rfl := Except.ok.inj ht
    refine ⟨minBlockNum, rfl, fun e he hnil => List.mem_append_left _ ?_, ?_⟩
    · refine List.mem_map.mpr ⟨(e.1, firstBlock e.2), List.mem_filter.mpr ⟨?_, ?_⟩, rfl⟩
      · exact List.mem_map.mpr ⟨e, he, rfl⟩
      · rw [hnil]
        rfl
    · simp [Dict.keys, Dict.mapValues]

/-- A tail is read from the chain under its key. -/
theorem tail_prefix (ht : getTails chains = .ok t) {k : Nat} {tail : Tail}
    (htail : t.tails.get? k = some tail) :
    ∃ chain, chains.get? k = some chain ∧ tail.blocks.reverse <+: chain := by
  obtain ⟨minBlockNum, htails, -, -⟩ := getTails_ok ht
  rw [htails, Dict.get?_eq_some_iff] at htail
  simp only [Dict.mapValues, Dict.filterMapValues, List.mem_map, List.mem_filterMap,
    Option.map_eq_some_iff] at htail
  obtain ⟨_, ⟨_, ⟨e, he, rfl⟩, _, ⟨start, hstart, rfl⟩, rfl⟩, heq⟩ := htail
  obtain ⟨rfl, rfl⟩ := Prod.mk.inj heq
  refine ⟨e.2, Dict.get?_eq_some_iff.mpr he, ?_⟩
  cases hchain : e.2 with
  | nil => simp [hchain, firstBlock] at hstart
  | cons block rest =>
      rw [hchain] at hstart
      obtain rfl := Option.some.inj hstart
      exact ⟨_, walkBack_split minBlockNum ⟨block, []⟩ rest⟩

/-- Where no generator stops, every chain has a tail. -/
theorem keys_tails (ht : getTails chains = .ok t) (hbad : t.badChains = []) :
    t.tails.keys = chains.keys := by
  obtain ⟨minBlockNum, htails, hstopped, -⟩ := getTails_ok ht
  rw [htails]
  simp only [Dict.keys, Dict.mapValues, Dict.filterMapValues, List.filterMap_map,
    List.map_filterMap]
  rw [← List.filterMap_eq_map]
  refine List.filterMap_congr fun e he => ?_
  cases hchain : e.2 with
  | nil =>
      have hmem := hstopped e he hchain
      rw [hbad] at hmem
      simp at hmem
  | cons block rest => simp [hchain, firstBlock]

end GetTails

section Rows

variable {tails : Dict Nat Tail} {n : Nat} {broken : List Nat}

theorem sortedItems_of_keys (hkeys : tails.keys = List.range n) :
    sortedItems tails = tails.entries := by
  refine List.mergeSort_of_pairwise ?_
  have hincreasing : (tails.entries.map Prod.fst).Pairwise (· < ·) := by
    rw [← Dict.keys, hkeys]
    exact List.pairwise_lt_range
  refine (List.pairwise_map.mp hincreasing).imp fun h => ?_
  simpa using Nat.le_of_lt h

/-- Every tail is printed if and only if no key of one is a broken position. -/
theorem length_tailsToPrint_iff (hkeys : tails.keys = List.range n) :
    (tailsToPrint broken tails).length = n ↔ ∀ i ∈ broken, n ≤ i := by
  have hlen : tails.entries.length = n := by
    rw [← List.length_range (n := n), ← hkeys, Dict.keys, List.length_map]
  rw [tailsToPrint, List.length_map, sortedItems_of_keys hkeys]
  conv => lhs; rhs; rw [← hlen]
  rw [List.length_filter_eq_length_iff]
  have hmem : ∀ i, i ∈ tails.keys ↔ i < n := by simp [hkeys]
  simp only [decide_eq_true_eq]
  constructor
  · intro h i hi
    by_contra hlt
    obtain ⟨e, he, rfl⟩ := List.mem_map.mp ((hmem i).mpr (by omega))
    exact h e he hi
  · intro h e he hbroken
    have hlt := (hmem e.1).mp (List.mem_map.mpr ⟨e, he, rfl⟩)
    have hle := h e.1 hbroken
    omega

/-- The `j`-th row is then the tail under the key `j`. -/
theorem getElem?_tailsToPrint (hkeys : tails.keys = List.range n) (hbroken : ∀ i ∈ broken, n ≤ i)
    (j : Nat) : (tailsToPrint broken tails)[j]? = (tails.get? j).map Tail.blocks := by
  have hall : (tails.entries.filter fun item => item.1 ∉ broken) = tails.entries := by
    rw [List.filter_eq_self]
    intro e he
    have hkey : e.1 ∈ tails.keys := List.mem_map.mpr ⟨e, he, rfl⟩
    rw [hkeys, List.mem_range] at hkey
    rw [decide_eq_true_eq]
    exact fun hmem => absurd (hbroken e.1 hmem) (by omega)
  rw [tailsToPrint, sortedItems_of_keys hkeys, hall, List.getElem?_map,
    Dict.getElem?_entries hkeys, Option.map_map]
  rfl

end Rows

/-! ### The command -/

/-- What the command prints where no later error happens. -/
theorem doCompareChains_ok {fuel : Nat} {t : Tails Nat} {graph : ForkGraph Nat}
    (hstop : ∀ c ∈ clients, c.firstAnswer ≠ .stopIteration)
    (htails : getTails (goodChains clients limit) = .ok t) (hbad : t.badChains = [])
    (hgraph : buildForkGraph fuel t.chains t.tails = some (.ok (graph, []))) :
    doCompareChains fuel limit clients = some (.ok
      ((unresponsive clients).map
          (report "Error connecting to node" (clients.map RestClient.url)),
        .printed graph (tailsToPrint (unresponsive clients) t.tails)
          (getNodeIdMap (unresponsive clients) clients.length))) := by
  have hsorted : ((unresponsive clients).mergeSort fun a b => decide (a ≤ b))
      = unresponsive clients :=
    List.mergeSort_of_pairwise (List.pairwise_findIdxs.imp fun h => by simpa using Nat.le_of_lt h)
  have hsome : (goodChains clients limit).entries ≠ [] := by
    intro hnil
    rw [show goodChains clients limit = Dict.empty from Dict.ext hnil] at htails
    simp [getTails, oldestNums, Dict.values, Dict.mapValues, Dict.empty] at htails
  have hleft : t.chains.entries ≠ [] := by
    obtain ⟨_, -, -, hkeys⟩ := getTails_ok htails
    intro hnil
    rw [Dict.keys, Dict.keys, hnil, List.map_nil] at hkeys
    exact hsome (List.map_eq_nil_iff.mp hkeys.symm)
  unfold doCompareChains
  simp only [getChainGenerators_ok hstop, htails, hbad, hgraph, if_neg hsome, if_neg hleft,
    List.foldl_nil, List.map_nil, List.append_nil, hsorted]

theorem reported_unresponsive {r : Report} (hr : r ∈ (unresponsive clients).map
      (report "Error connecting to node" (clients.map RestClient.url))) :
    ∃ client, clients[r.node]? = some client ∧ client.responds = false ∧ r.url = client.url := by
  obtain ⟨i, hi, rfl⟩ := List.mem_map.mp hr
  obtain ⟨client, hclient, hresponds⟩ := Positions.exists_of_mem_findIdxs hi
  refine ⟨client, hclient, by simpa using hresponds, ?_⟩
  rw [report, List.getD_eq_getElem?_getD, List.getElem?_map, hclient]
  rfl

/-- **Rows are attributed right** if and only if no client that answers comes after one that
does not. -/
theorem attributesRows_iff {fuel : Nat} (h : NoLaterError fuel limit clients) :
    AttributesRows fuel limit clients ↔
      clients.Pairwise fun a b => b.responds = true → a.responds = true := by
  obtain ⟨hstop, t, graph, htails, hbad, hgraph⟩ := h
  have hprint := doCompareChains_ok hstop htails hbad hgraph
  have hkeys : t.tails.keys = List.range (clients.countP RestClient.responds) := by
    rw [keys_tails htails hbad, goodChains, Dict.keys_enumerate, List.length_map,
      List.countP_eq_length_filter]
  have hlength : (tailsToPrint (unresponsive clients) t.tails).length
      = clients.countP RestClient.responds ↔ _ := length_tailsToPrint_iff hkeys
  rw [← Positions.passing_first_iff, ← unresponsive, ← hlength]
  constructor
  · rintro ⟨reports, graph', tails, nodeIdMap, hresult, hrows⟩
    rw [hprint] at hresult
    simp only [Option.some.injEq, Except.ok.injEq, Prod.mk.injEq, Ending.printed.injEq] at hresult
    obtain ⟨-, -, rfl, -⟩ := hresult
    exact hrows.one_each
  · intro hall
    refine ⟨_, _, _, _, hprint, hall, fun j tail hj => ?_, fun r hr => reported_unresponsive hr⟩
    rw [getElem?_tailsToPrint hkeys (hlength.mp hall), Option.map_eq_some_iff] at hj
    obtain ⟨tail, htail, rfl⟩ := hj
    obtain ⟨chain, hchain, hprefix⟩ := tail_prefix htails htail
    rw [goodChains, Dict.get?_enumerate, List.getElem?_map, Option.map_eq_some_iff] at hchain
    obtain ⟨client, hclient, rfl⟩ := hchain
    obtain ⟨p, hp, hposition⟩ := Positions.getElem?_filter_eq hclient
    exact ⟨p, client, (getNodeIdMap_responsive j).trans hp, hp, hposition, by simp [Tail.blocks],
      hprefix⟩

end Clients

/-! ### Three clients -/

/-- A client that answers with block `b` on top of block `a`. -/
def longer : RestClient :=
  ⟨['u'], .block ⟨6, ['b'], ['a']⟩, fun _ => [⟨6, ['b'], ['a']⟩, ⟨5, ['a'], ['0']⟩]⟩

/-- A client that answers with block `a`. -/
def shorter : RestClient :=
  ⟨['v'], .block ⟨5, ['a'], ['0']⟩, fun _ => [⟨5, ['a'], ['0']⟩]⟩

/-- A client that does not answer. -/
def silent : RestClient := ⟨['w'], .cliException, fun _ => []⟩

theorem attributesRows_silentLast : AttributesRows 0 25 [longer, shorter, silent] :=
  (attributesRows_iff ⟨by decide, _, _, rfl, rfl, rfl⟩).mpr (by decide)

/-- The fork graph of the two chains. -/
def longerShorterGraph : ForkGraph Nat :=
  ⟨(Dict.empty.set ['a'] ⟨Dict.empty.set ['b'] [0], 6, ['a']⟩).set ['0']
      ⟨Dict.empty.set ['a'] [0, 1], 5, ['0']⟩,
    some ['0'], some ⟨5, ['a'], ['0']⟩⟩

/-- With the silent client in front the row of `longer` is lost, and that of `shorter` is
printed under position 1, which is that of `longer`. -/
theorem not_attributesRows_silentFirst :
    NoLaterError 0 25 [silent, longer, shorter] ∧
      doCompareChains 0 25 [silent, longer, shorter] = some (.ok
        ([⟨"Error connecting to node", 0, ['w']⟩],
          .printed longerShorterGraph [[⟨5, ['a'], ['0']⟩]] ((Dict.empty.set 0 1).set 1 2))) ∧
      ¬AttributesRows 0 25 [silent, longer, shorter] := by
  have hprint : doCompareChains 0 25 [silent, longer, shorter] = some (.ok
      ([⟨"Error connecting to node", 0, ['w']⟩],
        .printed longerShorterGraph [[⟨5, ['a'], ['0']⟩]] ((Dict.empty.set 0 1).set 1 2))) := by
    rw [doCompareChains_ok (by decide) rfl rfl rfl, tailsToPrint, sortedItems_of_keys (n := 2) rfl]
    rfl
  refine ⟨⟨by decide, _, _, rfl, rfl, rfl⟩, hprint, ?_⟩
  rintro ⟨reports, graph, tails, nodeIdMap, hresult, hrows⟩
  rw [hprint] at hresult
  simp only [Option.some.injEq, Except.ok.injEq, Prod.mk.injEq, Ending.printed.injEq] at hresult
  obtain ⟨-, -, rfl, -⟩ := hresult
  exact absurd hrows.one_each (by decide)

end Evoting
