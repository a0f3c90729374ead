/-
`do_compare_chains`: which rows are printed, under which nodes.

Three numberings meet here.  `get_chain_generators` reports the clients that do not
answer by their index in the list of all clients and numbers the others from zero;
`broken` collects the errors of all three stages, and the map of node ids and the filter
of the tails both read it.  The three print functions get the same arguments, which is
why the command ends in `printed` whichever option was given.
-/
import Evoting.Model.Compare

namespace Evoting

/-- What `next(client.list_blocks(limit=1))` comes to. -/
inductive FirstAnswer where
  | block (block : SimpleBlock)
  | cliException
  /-- The page has no blocks. -/
  | stopIteration
  deriving DecidableEq, Repr

/-- A client of one node, with the url it is for. -/
structure RestClient where
  url : PyString
  firstAnswer : FirstAnswer
  /-- The blocks of `list_blocks`, for a page size. -/
  listBlocks : Int → List SimpleBlock

/-- What ends the command early. -/
inductive CompareException where
  | stopIteration
  | raised (e : PyException)
  deriving DecidableEq, Repr

/-! ### Asking the clients -/

/-- The variables of `get_chain_generators`. -/
structure Polled where
  heads : List SimpleBlock
  goodClients : List RestClient
  badClients : List Nat

/-- The loop of `get_chain_generators`, at one client and its index. -/
def pollClient (s : Polled) (e : RestClient × Nat) : Except CompareException Polled :=
  match e.1.firstAnswer with
  | .block block =>
      .ok { s with heads := s.heads ++ [block], goodClients := s.goodClients ++ [e.1] }
  | .cliException => .ok { s with badClients := s.badClients ++ [e.2] }
  | .stopIteration => .error .stopIteration

/-- `get_chain_generators`. -/
def getChainGenerators (clients : List RestClient) (limit : Int) :
    Except CompareException (Dict Nat (List SimpleBlock) × List Nat) :=
  match clients.zipIdx.foldlM pollClient ⟨[], [], []⟩ with
  | .error e => .error e
  | .ok s =>
      if s.heads = [] then .ok (Dict.empty, s.badClients)
      else .ok (Dict.enumerate (s.goodClients.map fun c => c.listBlocks limit), s.badClients)

/-- The loop of `get_node_id_map`, at one index; `offset` is the number of indices left out. -/
def mapNodeId (unreporting : List Nat) (s : Dict Nat Nat × Nat) (i : Nat) : Dict Nat Nat × Nat :=
  if i ∉ unreporting then (s.1.set (i - s.2) i, s.2) else (s.1, s.2 + 1)

/-- `get_node_id_map`. -/
def getNodeIdMap (unreporting : List Nat) (total : Nat) : Dict Nat Nat :=
  ((List.range total).foldl (mapNodeId unreporting) (Dict.empty, 0)).1

/-! ### The command -/

/-- A line that reports an error of a node. -/
structure Report where
  message : String
  node : Nat
  url : PyString
  deriving DecidableEq, Repr

/-- `"… %d: %s" % (node, urls[node])`.  Every reported index is below the number of clients. -/
def report (message : String) (urls : List PyString) (node : Nat) : Report :=
  ⟨message, node, urls.getD node []⟩

/-- How the command ends. -/
inductive Ending where
  /-- "No nodes reporting" -/
  | noNodesReporting
  /-- "Failed to get common height" -/
  | noCommonHeight
  /-- The arguments of the print function. -/
  | printed (graph : ForkGraph Nat) (tails : List (List SimpleBlock)) (nodeIdMap : Dict Nat Nat)
  deriving DecidableEq

/-- `sorted(tails.items())`; two items never have one key. -/
def sortedItems (tails : Dict Nat Tail) : List (Nat × Tail) :=
  tails.entries.mergeSort fun a b => decide (a.1 ≤ b.1)

/-- The tails without those of the broken clients. -/
def tailsToPrint (broken : List Nat) (tails : Dict Nat Tail) : List (List SimpleBlock) :=
  ((sortedItems tails).filter fun item => item.1 ∉ broken).map fun item => item.2.blocks

/-- `do_compare_chains`, unless the fuel of a loop of `build_fork_graph` runs out. -/
def doCompareChains (fuel : Nat) (limit : Int) (clients : List RestClient) :
    Option (Except CompareException (List Report × Ending)) :=
  let urls := clients.map RestClient.url
  match getChainGenerators clients limit with
  | .error e => some (.error e)
  | .ok (chains, broken) =>
      let reports := broken.map (report "Error connecting to node" urls)
      if chains.entries = [] then some (.ok (reports, .noNodesReporting))
      else
        match getTails chains with
        | .error e => some (.error (.raised e))
        | .ok t =>
            let broken := broken ++ t.badChains
            let chains := t.badChains.foldl Dict.erase t.chains
            let reports := reports ++
              t.badChains.map (report "Failed to reach common height with node" urls)
            if chains.entries = [] then some (.ok (reports, .noCommonHeight))
            else
              match buildForkGraph fuel chains t.tails with
              | none => none
              | some (.error e) => some (.error (.raised e))
              | some (.ok (graph, errors)) =>
                  -- A `ForkGraph` is true, so "Failed to build fork graph" is never printed.
                  let broken := (broken ++ errors).mergeSort fun a b => decide (a ≤ b)
                  let reports := reports ++
                    errors.map (report "Failed to reach common ancestor with node" urls)
                  some (.ok (reports, .printed graph (tailsToPrint broken t.tails)
                    (getNodeIdMap broken clients.length)))

end Evoting
