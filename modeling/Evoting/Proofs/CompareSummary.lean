/-
The summary that `compare-chains` prints.

A row has the head of a chain, its height, how far that is behind the largest height, and
how far the chain has gone from the ancestor, which is how many of its blocks are above it
(`Linked.length_above`).  None of the assertions on the widths fails.  The rows are those of
the tails that are left, under the positions of the first clients that answer.
-/
import Evoting.Proofs.ForkHeights

namespace Evoting

open ForkGraph

/-! ### What a summary is -/

/-- The largest of some numbers. -/
def largest (l : List Int) : Int := l.max?.getD 0

/-- The width of a column for numbers up to one. -/
def numberWidth (display : Display) (num : Int) (minWidth : Nat) : Nat :=
  max (display.floorLog (if num = 0 then 1 else num) + 1) minWidth

/-- How many blocks a chain has above a block. -/
def divergence (root : SimpleBlock) (chain : List SimpleBlock) : Int :=
  (chain.filter fun b => root.num < b.num).length

/-- The row of a chain, under a position. -/
def summaryRow (w : NodeWidths) (root : SimpleBlock) (top : Int) (position : Nat)
    (chain : List SimpleBlock) : PyString :=
  nodeLine w (intText position) ((chainHead chain).ident.take 8) (intText (chainHead chain).num)
    (intText (top - (chainHead chain).num)) (intText (divergence root chain))

/-- **What a summary is to show** of the chains whose tails are left: the common ancestor, the
blocks at the height of the lowest head, and a row for each chain. -/
def summaryOf (display : Display) (limit : Int) (clients : List RestClient) (root : SimpleBlock)
    (lowest : Int) : List PyString :=
  let kept := keptChains limit clients
  let top := largest (kept.map fun chain => (chainHead chain).num)
  let w : NodeWidths :=
    ⟨numberWidth display kept.length 4, numberWidth display top 6,
      numberWidth display (largest (kept.map fun chain => top - (chainHead chain).num)) 3,
      numberWidth display (largest (kept.map (divergence root))) 6⟩
  let header := summaryLine "COMMON".toList "HEIGHT".toList "BLOCKS".toList
  let rowHeader :=
    nodeLine w "NODE".toList "HEAD".toList "HEIGHT".toList "LAG".toList "DIVERG".toList
  [header, dashes header,
    summaryLine "ANCESTOR".toList (intText root.num) (root.ident.take 8),
    summaryLine "HEIGHT".toList (intText lowest)
      (display.setText (kept.map fun chain => (blockAt lowest chain).ident.take 8)), []] ++
    [rowHeader, dashes rowHeader] ++
    (kept.zipIdx.map fun e => summaryRow w root top (positionOf clients e.2) e.1) ++ [[]]

/-! ### Numbers -/

theorem pyMax_ok {l : List Int} (h : l ≠ []) :
    pyMax l = .ok (largest l) ∧ largest l ∈ l ∧ ∀ x ∈ l, x ≤ largest l := by
  cases hmax : l.max? with
  | none => exact absurd (List.max?_eq_none_iff.mp hmax) h
  | some x =>
      obtain ⟨hmem, hle⟩ := List.max?_eq_some_iff.mp hmax
      have hlargest : largest l = x := by rw [largest, hmax]; rfl
      rw [hlargest]
      exact ⟨by rw [pyMax, hmax], hmem, hle⟩

theorem getColWidthForNum_ok (display : Display) {num : Int} (h : 0 ≤ num) (minWidth : Nat) :
    getColWidthForNum display num minWidth = .ok (numberWidth display num minWidth) := by
  rw [getColWidthForNum, if_pos h]
  rfl

/-- **The blocks of a chain above one of its blocks** are as many as its head is above it. -/
theorem Linked.length_above {root : SimpleBlock} : ∀ {chain : List SimpleBlock}, Linked chain →
    root ∈ chain → divergence root chain = (chainHead chain).num - root.num := by
  intro chain
  induction chain with
  | nil => intro _ hroot; simp at hroot
  | cons b chain ih =>
      intro hchain hroot
      have hbelow := (List.pairwise_cons.mp hchain.pairwise).1
      rcases List.mem_cons.mp hroot with rfl | hroot
      · have hnone : (root :: chain).filter (fun x => root.num < x.num) = [] := by
          rw [List.filter_eq_nil_iff]
          intro x hx
          rcases List.mem_cons.mp hx with rfl | hx
          · simp
          · simpa using Int.le_of_lt (hbelow x hx)
        rw [divergence, hnone]
        simp [chainHead]
      · have hrest : Linked chain := by
          cases chain with
          | nil => simp at hroot
          | cons p chain => exact (List.isChain_cons_cons.mp hchain).2
        have hnext : (chainHead chain).num + 1 = b.num := by
          cases chain with
          | nil => simp at hroot
          | cons p chain => exact ((List.isChain_cons_cons.mp hchain).1.1).symm
        have hcount := ih hrest hroot
        rw [divergence] at hcount ⊢
        rw [List.filter_cons_of_pos (by simpa using hbelow root hroot), List.length_cons]
        show _ = b.num - root.num
        push_cast
        omega

/-! ### The command -/

section Command

variable {limit : Int} {clients : List RestClient} {root : SimpleBlock} {lowest : Int}
  {graph : ForkGraph Nat} {rootNode : ForkGraphNode Nat} {nodes : List (ForkGraphNode Nat)}

/-- The rows of the summary. -/
theorem nodeLines_eq (w : NodeWidths) {chains : List (List SimpleBlock)} {top : Int}
    (hlength : chains.length ≤ clients.countP RestClient.responds) :
    nodeLines w (printedIds clients) (chains.map fun chain => (chainHead chain).ident.take 8)
        (chains.map fun chain => (chainHead chain).num)
        (chains.map fun chain => top - (chainHead chain).num)
        (chains.map (divergence root)) chains.length
      = .ok (chains.zipIdx.map fun e => summaryRow w root top (positionOf clients e.2) e.1) := by
  have hrange : List.range chains.length = chains.zipIdx.map Prod.snd := by
    rw [List.zipIdx_map_snd, List.range_eq_range']
  rw [nodeLines, hrange, List.mapM_map]
  refine mapM_eq_ok fun e he => ?_
  have hget := List.mem_zipIdx_iff_getElem?.mp he
  have hlt : e.2 < (responsive clients).length := by
    obtain ⟨hlt, -⟩ := List.getElem?_eq_some_iff.mp hget
    rw [responsive, List.length_findIdxs]
    exact Nat.lt_of_lt_of_le hlt hlength
  have hid : nodeId (printedIds clients) e.2 = .ok (positionOf clients e.2) := by
    rw [nodeId, get?_printedIds (List.getElem?_eq_getElem hlt)]
  simp only [Function.comp_apply, hid, List.getElem?_map, hget, Option.map_some, summaryRow]

/-- Without tails there is no largest height. -/
theorem Prints.printSummary_error (hprints : Prints limit clients root lowest graph rootNode nodes)
    (h : Comparable limit clients) (hnone : keptChains limit clients = []) (display : Display) :
    printSummary display graph (printedTails limit clients lowest) (printedIds clients)
      = .error .valueError := by
  have hlast := (ends_printedTails h.chains.linked hprints.reach).1
  rw [hnone] at hlast
  unfold printSummary getHeads getHeights
  simp only [hlast, Except.map, List.map_nil, ok_bind]
  rfl

/-- The blocks of a chain above the ancestor, and its head. -/
theorem Prints.kept_spec (hprints : Prints limit clients root lowest graph rootNode nodes)
    (h : Comparable limit clients) (hnums : ∀ p b, HasBlock limit clients p b → 0 ≤ b.num)
    {chain : List SimpleBlock} (hchain : chain ∈ keptChains limit clients) :
    divergence root chain = (chainHead chain).num - root.num ∧ 0 ≤ (chainHead chain).num := by
  have hmem := mem_keptChains hchain
  have hlinked := h.chains.linked chain hmem
  refine ⟨hlinked.length_above (hprints.common chain hmem), ?_⟩
  obtain ⟨hhead, -⟩ := hlinked.chainHead_spec (hprints.common chain hmem)
  rw [values_goodChains] at hmem
  obtain ⟨client, hclient, rfl⟩ := List.mem_map.mp hmem
  obtain ⟨hclient, hresponds⟩ := List.mem_filter.mp hclient
  obtain ⟨p, hp⟩ := List.mem_iff_getElem?.mp hclient
  exact hnums p _ ⟨client, hp, hresponds, hhead⟩

/-- The common height is that of the lowest head. -/
theorem Prints.getCommonHeight_eq (hprints : Prints limit clients root lowest graph rootNode nodes)
    (h : Comparable limit clients) (hsome : keptChains limit clients ≠ []) :
    getCommonHeight (printedTails limit clients lowest) = .ok (lowest,
      (keptChains limit clients).map fun chain => (blockAt lowest chain).ident.take 8) := by
  rw [getCommonHeight, (ends_printedTails h.chains.linked hprints.reach).2]
  cases hkept : keptChains limit clients with
  | nil => exact absurd hkept hsome
  | cons chain chains =>
      have hmem : chain ∈ keptChains limit clients := by rw [hkept]; exact List.mem_cons_self
      have hnum := (blockAt_spec (hprints.reach chain (mem_keptChains hmem))).2
      simp [hnum, List.map_map, Function.comp_def]

/-- **`print_summary`** shows the chains whose tails are left. -/
theorem Prints.printSummary_ok (hprints : Prints limit clients root lowest graph rootNode nodes)
    (h : Comparable limit clients) (hnums : ∀ p b, HasBlock limit clients p b → 0 ≤ b.num)
    (hsome : keptChains limit clients ≠ []) (display : Display) :
    printSummary display graph (printedTails limit clients lowest) (printedIds clients)
      = .ok (summaryOf display limit clients root lowest) := by
  have hlast := (ends_printedTails h.chains.linked hprints.reach).1
  have hlength : (printedTails limit clients lowest).length
      = (keptChains limit clients).length := by
    rw [printedTails_eq, List.length_map]
  have hcount : (keptChains limit clients).length ≤ clients.countP RestClient.responds := by
    rw [List.countP_eq_length_filter]
    simpa [answeredChains] using keptChains_sublist.length_le
  have hkept : ∀ chain ∈ keptChains limit clients, divergence root chain
      = (chainHead chain).num - root.num ∧ 0 ≤ (chainHead chain).num := fun chain hchain =>
    hprints.kept_spec h hnums hchain
  have hdivergences : ((keptChains limit clients).map fun chain => (chainHead chain).num - root.num)
      = (keptChains limit clients).map (divergence root) :=
    List.map_congr_left fun chain hchain => (hkept chain hchain).1.symm
  have hne : ∀ f : List SimpleBlock → Int, (keptChains limit clients).map f ≠ [] :=
    fun f hnil => hsome (List.map_eq_nil_iff.mp hnil)
  obtain ⟨hmax, hmaxMem, hmaxLe⟩ := pyMax_ok (hne fun chain => (chainHead chain).num)
  generalize htop : largest ((keptChains limit clients).map fun chain => (chainHead chain).num)
    = top at hmax hmaxMem hmaxLe
  obtain ⟨hlag, hlagMem, -⟩ := pyMax_ok (hne fun chain => top - (chainHead chain).num)
  obtain ⟨hdiverg, hdivergMem, -⟩ := pyMax_ok (hne (divergence root))
  -- none of the widths is of a negative number
  have htopNonneg : 0 ≤ top := by
    obtain ⟨chain, hchain, rfl⟩ := List.mem_map.mp hmaxMem
    exact (hkept chain hchain).2
  have hlagNonneg :
      0 ≤ largest ((keptChains limit clients).map fun chain => top - (chainHead chain).num) := by
    obtain ⟨chain, hchain, heq⟩ := List.mem_map.mp hlagMem
    have hle := hmaxLe _ (List.mem_map_of_mem hchain)
    rw [← heq]
    omega
  have hdivergNonneg : 0 ≤ largest ((keptChains limit clients).map (divergence root)) := by
    obtain ⟨chain, -, heq⟩ := List.mem_map.mp hdivergMem
    rw [← heq]
    exact Int.natCast_nonneg _
  unfold printSummary getHeads getHeights
  simp only [hlast, Except.map, List.map_map, ok_bind, Function.comp_def, hmax,
    hprints.getCommonHeight_eq h hsome, hprints.isRoot, getLags, getDivergences, hdivergences,
    hlength, hlag, hdiverg, getColWidthForNum_ok display (Int.natCast_nonneg _),
    getColWidthForNum_ok display htopNonneg, getColWidthForNum_ok display hlagNonneg,
    getColWidthForNum_ok display hdivergNonneg, nodeLines_eq _ hcount, summaryOf, htop]

/-- **`compare-chains`** prints a summary of the chains whose tails are left, unless none is. -/
theorem compareChains_summary (h : Comparable limit clients)
    (hnums : ∀ p b, HasBlock limit clients p b → 0 ≤ b.num) : ∃ (root : SimpleBlock) (lowest : Int),
    (∀ c ∈ clients, c.responds = true → root ∈ c.listBlocks limit) ∧
      (∀ b, (∀ c ∈ clients, c.responds = true → b ∈ c.listBlocks limit) → b.num ≤ root.num) ∧
      (∃ chain ∈ answeredChains limit clients, (chainHead chain).num = lowest) ∧
      (∀ chain ∈ answeredChains limit clients, lowest ≤ (chainHead chain).num) ∧
      ∃ n, ∀ fuel, n < fuel → ∀ display,
        (keptChains limit clients ≠ [] → compareChains display fuel limit .summary clients
          = some (.ok (connectionErrors clients,
            summaryOf display limit clients root lowest))) ∧
        (keptChains limit clients = [] → compareChains display fuel limit .summary clients
          = some (.error (.raised .valueError))) := by
  obtain ⟨root, lowest, graph, rootNode, nodes, hprints, n, hcommand⟩ := h.exists_prints
  obtain ⟨hlowest, hleast⟩ := List.min?_eq_some_iff.mp hprints.isLowest
  refine ⟨root, lowest, common_goodChains_iff.mp hprints.common,
    fun b hb => hprints.highest b (common_goodChains_iff.mpr hb), ?_, fun chain hchain => ?_, n,
    fun fuel hfuel display => ?_⟩
  · obtain ⟨chain, hchain, b, rest, rfl, hnum⟩ := mem_oldestNums_iff.mp hlowest
    exact ⟨b :: rest, values_goodChains ▸ hchain, hnum⟩
  · rw [← values_goodChains] at hchain
    refine hleast _ (mem_oldestNums_iff.mpr ⟨chain, hchain, ?_⟩)
    cases chain with
    | nil => exact absurd (hprints.common _ hchain) (by simp)
    | cons b rest => exact ⟨b, rest, rfl, rfl⟩
  · rw [(hcommand fuel hfuel).2 display .summary, printView]
    constructor
    · intro hsome
      rw [hprints.printSummary_ok h hnums hsome]
      rfl
    · intro hnone
      rw [hprints.printSummary_error h hnone]
      rfl

end Command

/-- Behind a client that does not answer only the second of the forked chains is left, and its
row is under the position of the first. -/
theorem compareChains_summary_forked : keptChains 25 [silent, longer, diverging]
      = [[⟨6, ['d'], ['a']⟩, ⟨5, ['a'], ['0']⟩]] ∧ positionOf [silent, longer, diverging] 0 = 1 ∧
    ∃ n, ∀ fuel, n < fuel → ∀ display,
      compareChains display fuel 25 .summary [silent, longer, diverging]
        = some (.ok ([⟨"Error connecting to node", 0, ['w']⟩],
          summaryOf display 25 [silent, longer, diverging] ⟨5, ['a'], ['0']⟩ 6)) := by
  obtain ⟨root, lowest, hcommon, -, ⟨chain, hchain, hnum⟩, -, n, hprinted⟩ :=
    compareChains_summary comparable_silentFirst fun p b hb =>
      (num_of_forked (List.Subset.refl _) hb).1
  obtain rfl := eq_of_forked (hcommon longer (by simp) rfl) (hcommon diverging (by simp) rfl)
  have hlowest : lowest = 6 := by
    have hmem : chain ∈ [longer.listBlocks 25, diverging.listBlocks 25] := hchain
    rw [← hnum]
    simp only [List.mem_cons, List.not_mem_nil, or_false] at hmem
    rcases hmem with rfl | rfl <;> rfl
  subst hlowest
  exact ⟨by decide, by decide, n, fun fuel hfuel display =>
    (hprinted fuel hfuel display).1 (by decide)⟩

end Evoting
