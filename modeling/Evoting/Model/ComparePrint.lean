/-
`print_summary`, `print_table` and `print_tree`: what `compare-chains` prints.

Lines are texts.  The widths of columns come from logarithms in floating point, and
the text of a set is in no order that one could rely on: `Display` has both.  A function
that raises has printed some lines before, which are left out.
-/
import Evoting.Lib.Decimal
import Evoting.Model.CompareChains

namespace Evoting

/-- What the text of a display depends on beside its arguments. -/
structure Display where
  /-- `floor(log(x))` of a positive number. -/
  floorLog : Int → Nat
  /-- `floor(log(x, 10))` of a positive number. -/
  floorLog10 : Int → Nat
  /-- `str(set(l))`. -/
  setText : List PyString → PyString

/-- `'{:<w}'.format(s)`. -/
def ljust (width : Nat) (s : PyString) : PyString := s ++ List.replicate (width - s.length) ' '

/-- `max(l)`. -/
def pyMax (l : List Int) : Except PyException Int :=
  match l.max? with
  | none => .error .valueError
  | some x => .ok x

/-- `tail[-1]`, of every tail. -/
def lastBlocks (tails : List (List SimpleBlock)) : Except PyException (List SimpleBlock) :=
  tails.mapM fun tail =>
    match tail.getLast? with
    | none => .error .indexError
    | some block => .ok block

/-- `tail[0]`, of every tail. -/
def firstBlocks (tails : List (List SimpleBlock)) : Except PyException (List SimpleBlock) :=
  tails.mapM fun tail =>
    match tail.head? with
    | none => .error .indexError
    | some block => .ok block

/-- `get_heads`. -/
def getHeads (tails : List (List SimpleBlock)) : Except PyException (List PyString) :=
  (lastBlocks tails).map fun blocks => blocks.map fun block => block.ident.take 8

/-- `get_heights`. -/
def getHeights (tails : List (List SimpleBlock)) : Except PyException (List Int) :=
  (lastBlocks tails).map fun blocks => blocks.map SimpleBlock.num

/-- `get_common_height`; the set is the list of the ids. -/
def getCommonHeight (tails : List (List SimpleBlock)) : Except PyException (Int × List PyString) :=
  match firstBlocks tails with
  | .error e => .error e
  | .ok [] => .error .indexError
  | .ok (block :: blocks) =>
      .ok (block.num, (block :: blocks).map fun block => block.ident.take 8)

/-- `get_lags`. -/
def getLags (heights : List Int) (maxHeight : Int) : List Int :=
  heights.map fun height => maxHeight - height

/-- `get_divergences`. -/
def getDivergences (heights : List Int) (root : SimpleBlock) : List Int :=
  heights.map fun height => height - root.num

/-- `node_id_map[i]`. -/
def nodeId (nodeIdMap : Dict Nat Nat) (i : Nat) : Except PyException Nat :=
  match nodeIdMap.get? i with
  | none => .error .keyError
  | some node => .ok node

/-- `str(i)`. -/
abbrev intText (i : Int) : PyString := Decimal.render i

/-- `'-' * len(header)`. -/
def dashes (header : PyString) : PyString := List.replicate header.length '-'

/-! ### The summary -/

/-- `get_col_width_for_num`. -/
def getColWidthForNum (display : Display) (num : Int) (minWidth : Nat) : Except PyException Nat :=
  if num ≥ 0 then
    let num := if num = 0 then 1 else num
    .ok (max (display.floorLog num + 1) minWidth)
  else .error .assertionError

/-- A line of the first part of the summary. -/
def summaryLine (a b c : PyString) : PyString :=
  ljust 8 a ++ [' '] ++ (ljust 8 b ++ [' ']) ++ (ljust 8 c ++ [' '])

/-- The widths of the columns of the second part. -/
structure NodeWidths where
  node : Nat
  num : Nat
  lag : Nat
  diverg : Nat
  deriving DecidableEq, Repr

/-- A line of the second part. -/
def nodeLine (w : NodeWidths) (node head height lag diverg : PyString) : PyString :=
  ljust w.node node ++ [' '] ++ (ljust 8 head ++ [' ']) ++ (ljust w.num height ++ [' ']) ++
    (ljust w.lag lag ++ [' ']) ++ ljust w.diverg diverg

/-- The loop of `print_summary` that prints the nodes. -/
def nodeLines (w : NodeWidths) (nodeIdMap : Dict Nat Nat) (heads : List PyString)
    (heights lags divergences : List Int) (n : Nat) : Except PyException (List PyString) :=
  (List.range n).mapM fun i =>
    match nodeId nodeIdMap i, heads[i]?, heights[i]?, lags[i]?, divergences[i]? with
    | .ok node, some head, some height, some lag, some divergence =>
        .ok (nodeLine w (intText node) head (intText height) (intText lag) (intText divergence))
    | .error e, _, _, _, _ => .error e
    | _, _, _, _, _ => .error .indexError

/-- `print_summary`. -/
def printSummary (display : Display) (graph : ForkGraph Nat) (tails : List (List SimpleBlock))
    (nodeIdMap : Dict Nat Nat) : Except PyException (List PyString) := do
  let heads ← getHeads tails
  let heights ← getHeights tails
  let maxHeight ← pyMax heights
  let (commonHeight, blockIdsAtCommonHeight) ← getCommonHeight tails
  let lags := getLags heights maxHeight
  match graph.root with
  | none => .error .attributeError
  | some commonAncestor =>
      let divergences := getDivergences heights commonAncestor
      let header := summaryLine "COMMON".toList "HEIGHT".toList "BLOCKS".toList
      let common :=
        [header, dashes header,
          summaryLine "ANCESTOR".toList (intText commonAncestor.num) (commonAncestor.ident.take 8),
          summaryLine "HEIGHT".toList (intText commonHeight)
            (display.setText blockIdsAtCommonHeight), []]
      let nodeColWidth ← getColWidthForNum display tails.length 4
      let numColWidth ← getColWidthForNum display maxHeight 6
      let lagColWidth ← getColWidthForNum display (← pyMax lags) 3
      let divergColWidth ← getColWidthForNum display (← pyMax divergences) 6
      let w : NodeWidths := ⟨nodeColWidth, numColWidth, lagColWidth, divergColWidth⟩
      let header :=
        nodeLine w "NODE".toList "HEAD".toList "HEIGHT".toList "LAG".toList "DIVERG".toList
      let nodes ← nodeLines w nodeIdMap heads heights lags divergences tails.length
      .ok (common ++ [header, dashes header] ++ nodes ++ [[]])

/-! ### The table -/

/-- A line of the table: `format_str.format(first, *others)`. -/
def tableLine (numColWidth nodeColWidth : Nat) (first : PyString) (others : List PyString) :
    PyString :=
  ljust numColWidth first ++ [' '] ++ others.flatMap fun other => ljust nodeColWidth other ++ [' ']

/-- The variables of `print_table` that its loop changes, and the lines that it has printed. -/
structure TableState where
  prevBlockNum : Int
  nodeList : List PyString
  lines : List PyString
  deriving DecidableEq, Repr

/-- `node_list[node_id] = block_id[:8]`, for the nodes of one block. -/
def fillNodes (nodeList : List PyString) (sibling : PyString × List Nat) :
    Except PyException (List PyString) :=
  sibling.2.foldlM
    (fun nodeList nodeId =>
      if nodeId < nodeList.length then .ok (nodeList.set nodeId (sibling.1.take 8))
      else .error .indexError)
    nodeList

/-- The loop of `print_table`, at one node of the walk. -/
def tableNode (line : PyString → List PyString → PyString) (nodeCount : Nat) (s : TableState)
    (node : ForkGraphNode Nat) : Except PyException TableState :=
  let s :=
    if node.num ≠ s.prevBlockNum then
      { prevBlockNum := node.num
        nodeList := List.replicate nodeCount []
        -- the first one has no line before it
        lines :=
          if s.prevBlockNum ≠ -1 then s.lines ++ [line (intText s.prevBlockNum) s.nodeList]
          else s.lines }
    else s
  (node.siblings.entries.foldlM fillNodes s.nodeList).map fun nodeList =>
    { s with nodeList := nodeList }

/-- `print_table`, unless the fuel of the walk runs out. -/
def printTable (display : Display) (fuel : Nat) (graph : ForkGraph Nat)
    (tails : List (List SimpleBlock)) (nodeIdMap : Dict Nat Nat) :
    Option (Except PyException (List PyString)) :=
  let nodeCount := tails.length
  match (getHeights tails).bind pyMax with
  | .error e => some (.error e)
  | .ok maxHeight =>
      -- "math domain error"
      if maxHeight ≤ 0 then some (.error .valueError)
      else
        let numColWidth := max (display.floorLog10 maxHeight + 1) 3
        let nodeColWidth := max (display.floorLog10 nodeCount + 1) 8
        let line := tableLine numColWidth nodeColWidth
        match (List.range nodeCount).mapM (nodeId nodeIdMap) with
        | .error e => some (.error e)
        | .ok nodes =>
            let header := line "NUM".toList
              (nodes.map fun (node : Nat) => "NODE ".toList ++ intText node)
            (graph.walk fuel).map fun walked => walked.bind fun nodes =>
              (nodes.foldlM (tableNode line nodeCount)
                  ⟨-1, List.replicate nodeCount [], []⟩).map fun s =>
                [header, dashes header] ++ s.lines ++ [line (intText s.prevBlockNum) s.nodeList]

/-! ### The tree -/

/-- A block id and the nodes that have the block. -/
abbrev Clique := PyString × List Nat

/-- `format_siblings`. -/
def formatSiblings (nodes : List Nat) (nodeIdMap : Dict Nat Nat) : Except PyException PyString :=
  (nodes.mapM (nodeId nodeIdMap)).map fun ids =>
    '\x7b' :: ", ".toList.intercalate (ids.map fun (id : Nat) => intText id) ++ ['\x7d']

/-- The loop of `print_cliques`, at one clique and its index; beside `branches` stand the lines
printed. -/
def printClique (nCliques : Nat) (nextCliques : List PyString) (nodeIdMap : Dict Nat Nat)
    (s : List PyString × List PyString) (e : Clique × Nat) :
    Except PyException (List PyString × List PyString) :=
  (formatSiblings e.1.2 nodeIdMap).map fun siblings =>
    let columns := pyJoin ' ' (s.1.take e.2 ++ [['*']] ++ s.1.drop (e.2 + 1))
    let line := ljust (nCliques * 2) columns ++ "  ".toList ++ e.1.1.take 8 ++ [' '] ++ siblings
    (if e.1.1 ∉ nextCliques then s.1.set e.2 [' '] else s.1, s.2 ++ [line])

/-- `print_cliques`; of the next cliques it asks only what their parents are. -/
def printCliques (cliques : List Clique) (nextCliques : List PyString) (nodeIdMap : Dict Nat Nat) :
    Except PyException (List PyString) :=
  (cliques.zipIdx.foldlM (printClique cliques.length nextCliques nodeIdMap)
    (List.replicate cliques.length ['|'], [])).map Prod.snd

/-- `print_block_num_row`. -/
def printBlockNumRow (blockNum : Int) (cliques : List Clique) (nextCliques : List PyString) :
    List PyString :=
  let nCliques := cliques.length
  if nCliques = 0 then ["|  ".toList ++ intText blockNum]
  else
    let branches := cliques.map fun clique => if clique.1 ∉ nextCliques then [' '] else ['|']
    [[], intText blockNum].map fun last =>
      ljust (nCliques * 2) (pyJoin ' ' branches) ++ [' '] ++ last

/-- `print_split`. -/
def printSplit (columnToSplit totalColumns : Nat) : PyString :=
  (List.replicate columnToSplit "| ".toList).flatten ++ ['|', '\\'] ++
    (List.replicate (totalColumns - (columnToSplit + 1)) [' ', '\\']).flatten

/-- The cliques of a block number, under the ids of the blocks before them. -/
abbrev Cliques := Dict PyString (Dict PyString (List Nat))

/-- The loop of `print_splits`, at one clique and its index; beside `splits` stand the lines
printed. -/
def printSplitAt (nCliques : Nat) (nextCliques : Cliques) (s : Nat × List PyString)
    (e : Clique × Nat) : Nat × List PyString :=
  match nextCliques.get? e.1.1 with
  | none => s
  | some siblings =>
      if siblings.entries.length > 1 then
        (s.1 + 1, s.2 ++ [printSplit (e.2 + s.1) (nCliques + s.1)])
      else s

/-- `print_splits`. -/
def printSplits (cliques : List Clique) (nextCliques : Cliques) : List PyString :=
  (cliques.zipIdx.foldl (printSplitAt cliques.length nextCliques) (0, [])).2

/-- `print_fold`. -/
def printFold (columnToFold totalColumns : Nat) (skips : List Nat) : PyString :=
  ((List.range columnToFold).flatMap fun i => if i ∈ skips then [' ', ' '] else ['|', ' ']) ++
    (List.range' (columnToFold + 1) (totalColumns - (columnToFold + 1))).flatMap fun i =>
      if i ∈ skips then [' ', ' '] else [' ', '/']

/-- The second loop of `print_folds`, from index `i` on.  Each pass has lowered by one the folds
that were left, and replaced its own by `None`. -/
def printFoldsFrom (nCliques i : Nat) : List Nat → List PyString
  | [] => []
  | fold :: folds =>
      printFold (fold - i) (nCliques - i) ((fold :: folds).map fun fold => fold - i) ::
        printFoldsFrom nCliques (i + 1) folds

/-- `print_folds`. -/
def printFolds (cliques : List Clique) (nextCliques : List PyString) : List PyString :=
  printFoldsFrom cliques.length 0 (cliques.findIdxs fun clique => clique.1 ∉ nextCliques)

/-- `sorted(siblings.items(), key=sort_key)`. -/
def sortCliques (siblings : Dict PyString (List Nat)) : List Clique :=
  siblings.entries.mergeSort fun a b => decide (b.2.length ≤ a.2.length)

/-- `build_ordered_cliques`. -/
def buildOrderedCliques (cliques : List Clique) (nextCliques : Cliques) :
    Except PyException (List Clique) :=
  if cliques = [] then
    match nextCliques.values with
    | [] => .error .indexError
    | siblings :: _ => .ok (sortCliques siblings)
  else
    .ok (cliques.flatMap fun clique =>
      match nextCliques.get? clique.1 with
      | none => []
      | some siblings => sortCliques siblings)

/-- What one pass of the loop of `print_tree` prints, and the `prev_cliques` that it leaves. -/
def printPass (nodeIdMap : Dict Nat Nat) (prevCliques : List Clique) (blockNum : Int)
    (cliques : Cliques) : Except PyException (List PyString × List Clique) := do
  let rows ← printCliques prevCliques cliques.keys nodeIdMap
  let next ← buildOrderedCliques prevCliques cliques
  .ok (rows ++ printBlockNumRow blockNum prevCliques cliques.keys ++
    printSplits prevCliques cliques ++ printFolds prevCliques cliques.keys, next)

/-- The loop of `print_tree`, with the nodes that the walk still yields. -/
def printTreeFrom (nodeIdMap : Dict Nat Nat) :
    List (ForkGraphNode Nat) → List Clique → Int → Cliques → Except PyException (List PyString)
  | [], prevCliques, blockNum, cliques => do
      let (lines, prevCliques) ← printPass nodeIdMap prevCliques blockNum cliques
      let rows ← printCliques prevCliques [] nodeIdMap
      .ok (lines ++ rows)
  | node :: nodes, prevCliques, blockNum, cliques =>
      if blockNum = node.num then
        printTreeFrom nodeIdMap nodes prevCliques blockNum (cliques.set node.previous node.siblings)
      else do
        let (lines, prevCliques) ← printPass nodeIdMap prevCliques blockNum cliques
        let rest ← printTreeFrom nodeIdMap nodes prevCliques node.num
          (Dict.empty.set node.previous node.siblings)
        .ok (lines ++ rest)

/-- `print_tree`, unless the fuel of the walk runs out. -/
def printTree (fuel : Nat) (graph : ForkGraph Nat) (nodeIdMap : Dict Nat Nat) :
    Option (Except PyException (List PyString)) :=
  (graph.walk fuel).map fun walked => walked.bind fun nodes =>
    match nodes with
    | [] => .ok []
    | node :: nodes =>
        printTreeFrom nodeIdMap nodes [] node.num (Dict.empty.set node.previous node.siblings)

/-! ### The command -/

/-- Which of the print functions `args.table` and `args.tree` ask for. -/
inductive View where
  | table
  | tree
  | summary
  deriving DecidableEq, Repr

/-- The branch of `do_compare_chains` that prints. -/
def printView (display : Display) (fuel : Nat) (view : View) (graph : ForkGraph Nat)
    (tails : List (List SimpleBlock)) (nodeIdMap : Dict Nat Nat) :
    Option (Except PyException (List PyString)) :=
  match view with
  | .table => printTable display fuel graph tails nodeIdMap
  | .tree => printTree fuel graph nodeIdMap
  | .summary => some (printSummary display graph tails nodeIdMap)

/-- What was printed before, with what a print function prints. -/
def withReports (reports : List Report) (printed : Except PyException (List PyString)) :
    Except CompareException (List Report × List PyString) :=
  match printed with
  | .error e => .error (.raised e)
  | .ok lines => .ok (reports, lines)

/-- `do_compare_chains` with what it prints, unless the fuel of a loop runs out: the errors of
nodes, and the lines after them. -/
def compareChains (display : Display) (fuel : Nat) (limit : Int) (view : View)
    (clients : List RestClient) : Option (Except CompareException (List Report × List PyString)) :=
  match doCompareChains fuel limit clients with
  | none => none
  | some (.error e) => some (.error e)
  | some (.ok (reports, .noNodesReporting)) =>
      some (.ok (reports, ["No nodes reporting".toList]))
  | some (.ok (reports, .noCommonHeight)) =>
      some (.ok (reports, ["Failed to get common height".toList]))
  | some (.ok (reports, .printed graph tails nodeIdMap)) =>
      (printView display fuel view graph tails nodeIdMap).map (withReports reports)

end Evoting
