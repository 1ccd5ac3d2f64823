import RuleDiagram.Pattern
import RuleDiagram.Text.Digest

/-!
# Rule diagrams

A diagram is a list of nodes and the index of its root. A branch tests a pattern and has two edges,
followed on a match and on a refutation; a leaf emits a fact built from its pattern. Edges name
their targets by index, so a diagram may share nodes and run in cycles. Editing does not check that
a diagram is well formed. Where an edit or a query takes the index of a node, negative indices count
from the end.

## Main definitions

* `Edge`, `Node`, `Diagram`
* `Diagram.node?`, `Diagram.edges`, `Diagram.parents`: lookups
* `Diagram.withEdge`, `Diagram.withNode`, `Diagram.append`, `Diagram.removeNode`: editing
* `Diagram.signature`: the digest of a diagram's description
-/

namespace RuleDiagram

/-- The two edges of a branch, and the edge that enters the root. -/
inductive Edge where
  | root
  | onMatch
  | onRefute
deriving DecidableEq

namespace Edge

def name : Edge → String
  | root => "ROOT"
  | onMatch => "MATCH"
  | onRefute => "REFUTE"

def lowerName : Edge → String
  | root => "root"
  | onMatch => "match"
  | onRefute => "refute"

def number : Edge → Nat
  | root => 0
  | onMatch => 1
  | onRefute => 2

/-- The description of an edge. -/
def described (e : Edge) : String := "<EdgeKind." ++ e.name ++ ": " ++ numeral e.number ++ ">"

end Edge

/-- A node: a branch with the targets of its two edges, or a leaf. -/
inductive Node where
  | branch (pattern : Pattern) (onMatch onRefute : Option Int)
  | leaf (pattern : Pattern)
deriving DecidableEq, Inhabited

/-- The description of an optional index. -/
def describedIndex (i : Option Int) : String := (i.map integerText).getD "None"

/-- Why an edit or a query of a diagram fails. -/
inductive EditFault where
  /-- An index names no node. -/
  | noSuchNode (index : Int)
  /-- A node was to be named and none was. -/
  | noNodeNamed
  /-- An edge of a leaf was to be read or set on the leaf itself. -/
  | notABranch
  | leafEdge (node : Int)
  | branchRootEdge
  | rootTarget
  | removesRoot (node : Int)
  | stillReferenced (node : Option Int) (source : Int)
deriving DecidableEq

namespace EditFault

/-- The fault in words. -/
def message : EditFault → String
  | noSuchNode i => "There is no node " ++ integerText i ++ "."
  | noNodeNamed => "No node was named."
  | notABranch => "The node is not a branch."
  | leafEdge n => "Node " ++ integerText n ++ " is a leaf and has no outgoing edges."
  | branchRootEdge => "Branches have no ROOT edge."
  | rootTarget => "The root edge must have a target."
  | removesRoot n => "Cannot remove root node " ++ integerText n ++ "."
  | stillReferenced n source =>
    "Node " ++ describedIndex n ++ " is still referenced by node " ++ integerText source ++ "."

end EditFault

namespace Node

instance : Canonical Node where
  canonical
    | branch p m r => branch (canonical p) m r
    | leaf p => leaf (canonical p)

def pattern : Node → Pattern
  | branch p _ _ => p
  | leaf p => p

def isBranch : Node → Bool
  | branch .. => true
  | leaf _ => false

/-- A branch whose pattern is pass-through. -/
def isPassThrough : Node → Bool
  | branch p _ _ => p.isPassThrough
  | leaf _ => false

/-- The edges that leave a node, with their targets. -/
def children : Node → List (Edge × Option Int)
  | branch _ m r => [(.onMatch, m), (.onRefute, r)]
  | leaf _ => []

/-- The nodes that a node's edges lead to. -/
def targets (n : Node) : List Int := n.children.filterMap Prod.snd

/-- The target of an edge of a branch. -/
def child : Node → Edge → Except EditFault (Option Int)
  | branch _ m _, .onMatch => .ok m
  | branch _ _ r, .onRefute => .ok r
  | branch .., .root => .error .branchRootEdge
  | leaf _, _ => .error .notABranch

/-- The branch with another target of an edge. -/
def withChild : Node → Edge → Option Int → Except EditFault Node
  | branch p _ r, .onMatch, t => .ok (branch p t r)
  | branch p m _, .onRefute, t => .ok (branch p m t)
  | branch .., .root, _ => .error .branchRootEdge
  | leaf _, _, _ => .error .notABranch

def withPattern : Node → Pattern → Node
  | branch _ m r, p => branch p m r
  | leaf _, p => leaf p

/-- The node with every target replaced. -/
def mapTargets (f : Int → Int) : Node → Node
  | branch p m r => branch p (m.map f) (r.map f)
  | leaf p => leaf p

/-- The description of a node as a record. -/
def described : Node → String
  | branch p m r =>
    "Branch(pattern=" ++ p.described ++ ", match=" ++ describedIndex m ++
      ", refute=" ++ describedIndex r ++ ")"
  | leaf p => "Leaf(pattern=" ++ p.described ++ ")"

end Node

/-! ## Diagrams -/

/-- **A rule diagram**: its nodes, and the index of the root. -/
structure Diagram where
  nodes : List Node
  root : Int
deriving DecidableEq, Inhabited

namespace Diagram

instance : Canonical Diagram := ⟨fun d => ⟨canonical d.nodes, d.root⟩⟩

def size (d : Diagram) : Nat := d.nodes.length

/-- The node that an index names. -/
def node? (d : Diagram) (index : Int) : Option Node :=
  (place? d.size index).bind fun place => d.nodes[place]?

/-- The node that an index names, or a fault. -/
def node (d : Diagram) (index : Int) : Except EditFault Node :=
  match d.node? index with
  | some n => .ok n
  | none => .error (.noSuchNode index)

/-- All edges, with source and target; the root edge comes first and has no source. -/
def edges (d : Diagram) : List (Option Int × Edge × Option Int) :=
  (none, .root, some d.root) ::
    d.nodes.zipIdx.flatMap fun (n, i) => n.children.map fun (e, t) => (some (i : Int), e, t)

/-- The edges that lead to a node, with their sources; without a node, the edges that lead
nowhere. -/
def parents (d : Diagram) (index : Option Int) : List (Option Int × Edge) :=
  d.edges.filterMap fun (source, e, t) => if t = index then some (source, e) else none

/-- The diagram with another node at a place. -/
def setNode (d : Diagram) (place : Nat) (n : Node) : Diagram := ⟨d.nodes.set place n, d.root⟩

/-- The diagram with another node at an index. -/
def withNode (d : Diagram) (index : Int) (n : Node) : Except EditFault Diagram :=
  match place? d.size index with
  | some place => .ok (d.setNode place n)
  | none => .error (.noSuchNode index)

def withRoot (d : Diagram) (root : Int) : Diagram := ⟨d.nodes, root⟩

/-- The diagram with further nodes at the end. -/
def append (d : Diagram) (nodes : List Node) : Diagram := ⟨d.nodes ++ nodes, d.root⟩

/-! ## Edges -/

/-- The branch that owns an edge. -/
def owner (d : Diagram) (source : Option Int) : Except EditFault (Int × Node) :=
  match source with
  | none => .error .noNodeNamed
  | some index =>
    match d.node? index with
    | none => .error (.noSuchNode index)
    | some (.leaf _) => .error (.leafEdge index)
    | some n => .ok (index, n)

/-- The target of an edge; the source is ignored for the root edge. -/
def edgeTarget (d : Diagram) (source : Option Int) (e : Edge) : Except EditFault (Option Int) :=
  match e with
  | .root => .ok (some d.root)
  | _ => do
    let (_, n) ← d.owner source
    n.child e

/-- The diagram with another target of an edge; the source is ignored for the root edge. -/
def withEdge (d : Diagram) (source : Option Int) (e : Edge) (target : Option Int) :
    Except EditFault Diagram :=
  match e with
  | .root =>
    match target with
    | some root => .ok (d.withRoot root)
    | none => .error .rootTarget
  | _ => do
    let (index, n) ← d.owner source
    d.withNode index (← n.withChild e target)

/-- The index of a node after the removal of another. -/
def shiftIndex (removed target : Int) : Int := if target < removed then target else target - 1

/-- Drops a node that only its own edges lead to, and lowers the indices above it by one. -/
def removeNode (d : Diagram) (index : Int) : Except EditFault Diagram :=
  if d.root = index then .error (.removesRoot index)
  else
    match d.edges.find? fun (source, _, t) => decide (t = some index ∧ source ≠ some index) with
    | some (source, _, _) => .error (.stillReferenced (some index) (source.getD index))
    | none =>
      let kept := d.nodes.zipIdx.filterMap fun (n, i) => if (i : Int) = index then none else some n
      .ok ⟨kept.map (Node.mapTargets (shiftIndex index)), shiftIndex index d.root⟩

/-- Drops the node of an index. Without an index the first edge that leads nowhere is at fault. -/
def remove (d : Diagram) (index : Option Int) : Except EditFault Diagram :=
  match index with
  | some i => d.removeNode i
  | none =>
    match (d.parents none).findSome? Prod.fst with
    | some source => .error (.stillReferenced none source)
    | none => .error .noNodeNamed

/-! ## Contents -/

/-- The registers that some term mentions, ascending. -/
def registers (d : Diagram) : List Int := ascending (d.nodes.flatMap fun n => n.pattern.registers)

/-- The constants of all patterns in order of appearance, each once. -/
def constants (d : Diagram) : List Value :=
  ListSet.ofList (d.nodes.flatMap fun n => n.pattern.constants)

/-- Two nodes have the same pattern. -/
def samePattern (d : Diagram) (first second : Int) : Except EditFault Bool := do
  let a ← d.node first
  let b ← d.node second
  return decide (Same a.pattern b.pattern)

/-- The description of a diagram: root and nodes. -/
def described (d : Diagram) : String :=
  "(" ++ integerText d.root ++ ", " ++ tupleText (d.nodes.map Node.described) ++ ")"

/-- The digest of a diagram's description. -/
def signature (d : Diagram) : String := digest d.described

end Diagram

end RuleDiagram
