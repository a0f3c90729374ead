/-
`ForkGraph`: blocks reported by peers, stored under their previous block's id.

A node is an object that the graph, the root and the queue of a walk refer to; here
the root is the id under which the graph has the node, and a walk, which changes no
keys, queues the nodes themselves.  Peers are what the chains are numbered by, of any
type with equality.
-/
import Evoting.Lib.Dict
import Evoting.Lib.Walk
import Evoting.Python.Basic

namespace Evoting

/-- `SimpleBlock`. -/
structure SimpleBlock where
  num : Int
  ident : PyString
  previous : PyString
  deriving DecidableEq, Repr

/-- `ForkGraphNode`. -/
structure ForkGraphNode (Peer : Type) where
  siblings : Dict PyString (List Peer)
  num : Int
  previous : PyString
  deriving DecidableEq

namespace ForkGraphNode

variable {Peer : Type}

/-- The constructor. -/
def new (num : Int) (previous : PyString) : ForkGraphNode Peer := ⟨Dict.empty, num, previous⟩

/-- `add_sibling`. -/
def addSibling (node : ForkGraphNode Peer) (peerId : Peer) (block : SimpleBlock) :
    Except PyException (ForkGraphNode Peer) :=
  if block.num ≠ node.num then .error .assertionError
  else if block.previous ≠ node.previous then .error .assertionError
  else
    let peers := (node.siblings.get? block.ident).getD []
    .ok { node with siblings := node.siblings.set block.ident (peers ++ [peerId]) }

end ForkGraphNode

/-- `ForkGraph`. -/
structure ForkGraph (Peer : Type) where
  graph : Dict PyString (ForkGraphNode Peer)
  /-- The id that `_root_node` is stored under. -/
  rootKey : Option PyString
  /-- `_root_block`, which is also the property `root`. -/
  root : Option SimpleBlock
  deriving DecidableEq

namespace ForkGraph

variable {Peer : Type}

/-- The constructor. -/
def new : ForkGraph Peer := ⟨Dict.empty, none, none⟩

/-- `_root_node`. -/
def rootNode (g : ForkGraph Peer) : Option (ForkGraphNode Peer) := g.rootKey.bind g.graph.get?

/-- `add_block`. -/
def addBlock (g : ForkGraph Peer) (peerId : Peer) (block : SimpleBlock) :
    Except PyException (ForkGraph Peer) :=
  let node := (g.graph.get? block.previous).getD (.new block.num block.previous)
  match node.addSibling peerId block with
  | .error e => .error e
  | .ok node =>
      let g := { g with graph := g.graph.set block.previous node }
      match g.rootNode with
      | none => .ok { g with rootKey := some block.previous, root := some block }
      | some root =>
          if root.num > block.num then
            .ok { g with rootKey := some block.previous, root := some block }
          else .ok g

/-- The nodes that `walk` queues after a node. -/
def children (g : ForkGraph Peer) (node : ForkGraphNode Peer) : List (ForkGraphNode Peer) :=
  node.siblings.keys.filterMap g.graph.get?

/-- `walk` without a head: the nodes it yields, unless the fuel runs out.  A graph without a root
has `None` in its queue. -/
def walk (g : ForkGraph Peer) (fuel : Nat) :
    Option (Except PyException (List (ForkGraphNode Peer))) :=
  match g.rootNode with
  | none => some (.error .attributeError)
  | some head => (Walk.walk g.children fuel [head]).map .ok

end ForkGraph

end Evoting
