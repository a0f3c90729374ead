/-
`get_tails` and `build_fork_graph`: reading chains down to a common ancestor.

A block generator is the list of the blocks that it still gives; where the list ends
the generator raises `StopIteration`.  Each pass of a loop of `get_tails` works on the
generator and the tail of its own index, so the loops are maps over the entries of the
dictionaries.  A tail is never empty and has its oldest block apart.
-/
import Evoting.Model.ForkGraph

namespace Evoting

/-- A list of blocks in increasing order, as `get_tails` makes it. -/
structure Tail where
  oldest : SimpleBlock
  newer : List SimpleBlock
  deriving DecidableEq, Repr

namespace Tail

/-- The list. -/
def blocks (tail : Tail) : List SimpleBlock := tail.oldest :: tail.newer

/-- `get_num_of_oldest`. -/
def numOfOldest (tail : Tail) : Int := tail.oldest.num

end Tail

/-- What `get_tails` returns, and what is left of the generators. -/
structure Tails (Peer : Type) where
  tails : Dict Peer Tail
  badChains : List Peer
  chains : Dict Peer (List SimpleBlock)
  deriving DecidableEq

/-- The first loop of `get_tails`, at one chain: its first block, and what is left. -/
def firstBlock : List SimpleBlock → Option Tail × List SimpleBlock
  | [] => (none, [])
  | block :: rest => (some ⟨block, []⟩, rest)

/-- The second loop of `get_tails`, at one chain: its tail, what is left, and whether the
generator stopped. -/
def walkBack (minBlockNum : Int) (tail : Tail) : List SimpleBlock → Tail × List SimpleBlock × Bool
  | [] => (tail, [], decide (tail.numOfOldest > minBlockNum))
  | block :: rest =>
      if tail.numOfOldest > minBlockNum then walkBack minBlockNum ⟨block, tail.blocks⟩ rest
      else (tail, block :: rest, false)

/-- What is left of a chain after both loops. -/
def leftAfter (minBlockNum : Int) (e : Option Tail × List SimpleBlock) : List SimpleBlock :=
  match e.1 with
  | none => e.2
  | some tail => (walkBack minBlockNum tail e.2).2.1

/-- `_compare_across`. -/
def compareAcross {α β : Type} [DecidableEq β] (key : α → β) : List α → Bool
  | [] => true
  | c :: rest => rest.all fun d => key c = key d

section

variable {Peer : Type}

/-- `map(get_num_of_oldest, tails.values())`, after the first loop. -/
def oldestNums (started : Dict Peer (Option Tail × List SimpleBlock)) : List Int :=
  started.values.filterMap fun e => e.1.map Tail.numOfOldest

/-- `get_tails`. -/
def getTails (chains : Dict Peer (List SimpleBlock)) : Except PyException (Tails Peer) :=
  let started := chains.mapValues firstBlock
  let stopped := (started.entries.filter fun e => e.2.1 = none).map Prod.fst
  match (oldestNums started).min? with
  | none => .error .valueError
  | some minBlockNum =>
      let walked := started.filterMapValues fun e =>
        e.1.map fun tail => walkBack minBlockNum tail e.2
      let ended := (walked.entries.filter fun e => e.2.2.2).map Prod.fst
      .ok
        { tails := walked.mapValues fun e => e.1
          badChains := stopped ++ ended
          chains := started.mapValues (leftAfter minBlockNum) }

variable [DecidableEq Peer]

/-- The first loop of `build_fork_graph`, at one tail. -/
def addTail (g : ForkGraph Peer) (e : Peer × Tail) : Except PyException (ForkGraph Peer) :=
  e.2.blocks.reverse.foldlM (fun g block => g.addBlock e.1 block) g

/-- The variables of `build_fork_graph` that a pass over the chains works on. -/
structure Heads (Peer : Type) where
  /-- The chains already passed, as the pass leaves them. -/
  chains : List (Peer × List SimpleBlock)
  badChains : List Peer
  /-- `head`, which keeps its value from one chain to the next. -/
  head : Option SimpleBlock
  heads : List (Peer × SimpleBlock)
  deriving DecidableEq, Repr

/-- The next head of one chain; where the generator stops, `head` is what it was. -/
def nextHead (s : Heads Peer) (e : Peer × List SimpleBlock) : Except PyException (Heads Peer) :=
  if e.1 ∈ s.badChains then .ok { s with chains := s.chains ++ [e] }
  else
    match e.2 with
    | block :: rest =>
        .ok { s with
          chains := s.chains ++ [(e.1, rest)]
          head := some block
          heads := s.heads ++ [(e.1, block)] }
    | [] =>
        match s.head with
        | none => .error .unboundLocalError
        | some head =>
            .ok { s with
              chains := s.chains ++ [e]
              badChains := s.badChains ++ [e.1]
              heads := s.heads ++ [(e.1, head)] }

/-- The `while` loop of `build_fork_graph`, unless the fuel runs out. -/
def walkToAncestor : Nat → ForkGraph Peer → List (Peer × List SimpleBlock) → List Peer →
    Option SimpleBlock → Option (Except PyException (ForkGraph Peer × List Peer))
  | 0, _, _, _, _ => none
  | fuel + 1, graph, chains, badChains, head =>
      match chains.foldlM nextHead ⟨[], badChains, head, []⟩ with
      | .error e => some (.error e)
      | .ok s =>
          match s.heads.foldlM (fun g e => g.addBlock e.1 e.2) graph with
          | .error e => some (.error e)
          | .ok graph =>
              if compareAcross (fun e => e.2.ident) s.heads then some (.ok (graph, s.badChains))
              else walkToAncestor fuel graph s.chains s.badChains s.head

/-- The peers of a block without the bad ones; each bad peer is removed once. -/
def withoutPeers (unreporting peers : List Peer) : List Peer :=
  unreporting.foldl
    (fun peers badPeer => if badPeer ∈ peers then peers.erase badPeer else peers) peers

/-- The loop of `prune_unreporting_peers`, at one node of the walk. -/
def pruneNode (unreporting : List Peer) (g : ForkGraph Peer) (node : ForkGraphNode Peer) :
    ForkGraph Peer :=
  match g.graph.get? node.previous with
  | none => g
  | some current =>
      let siblings := current.siblings.mapValues (withoutPeers unreporting)
      { g with graph := g.graph.set node.previous { current with siblings := siblings } }

/-- `prune_unreporting_peers`. -/
def pruneUnreportingPeers (fuel : Nat) (g : ForkGraph Peer) (unreporting : List Peer) :
    Option (Except PyException (ForkGraph Peer)) :=
  (g.walk fuel).map fun walked => walked.map fun nodes => nodes.foldl (pruneNode unreporting) g

/-- `build_fork_graph`, unless the fuel of one of its loops runs out. -/
def buildForkGraph (fuel : Nat) (chains : Dict Peer (List SimpleBlock)) (tails : Dict Peer Tail) :
    Option (Except PyException (ForkGraph Peer × List Peer)) :=
  match tails.entries.foldlM addTail ForkGraph.new with
  | .error e => some (.error e)
  | .ok graph =>
      if compareAcross (fun tail => tail.oldest.ident) tails.values then some (.ok (graph, []))
      else
        match walkToAncestor fuel graph chains.entries [] none with
        | none => none
        | some (.error e) => some (.error e)
        | some (.ok (graph, badChains)) =>
            (pruneUnreportingPeers fuel graph badChains).map fun pruned =>
              pruned.map fun graph => (graph, badChains)

end

end Evoting
