import RuleDiagram.Draft.Basic
import RuleDiagram.Draft.Fault

/-!
# Looking into drafts

What is asked of a draft is answered part by part, so that a stray part is at fault only where it is
met. A stray node has neither edges nor a pattern; a register has to be a value, and registers that
are listed need an order.

## Main definitions

* `Draft.Pattern.reads`, `Draft.Pattern.writes`, `Draft.Pattern.registers`: registers of a pattern
* `Draft.node`, `Draft.edges`, `Draft.parents`: nodes and edges
* `Draft.registers`, `Draft.constants`: what all patterns hold
-/

namespace RuleDiagram

namespace Draft

/-! ## Patterns -/

namespace Term

/-- The register that a free term writes. -/
def written? : Term → Option Item
  | free r => some r
  | _ => none

/-- The register that a reference reads. -/
def read? : Term → Option Item
  | reference r => some r
  | _ => none

/-- The value of a constant. -/
def constant? : Term → Option Value
  | constant v => some v
  | _ => none

/-- A term is a stray item. -/
def isOther : Term → Bool
  | other _ => true
  | _ => false

end Term

namespace Pattern

def passThrough : Pattern := ⟨none, []⟩

def isPassThrough (p : Pattern) : Bool := p.predicate.isNone

def arity (p : Pattern) : Nat := p.terms.length

/-- The registers read through references. -/
def reads (p : Pattern) : Except DraftFault (List Value) :=
  ListSet.ofList <$> (p.terms.filterMap Term.read?).mapM Item.key

/-- The registers written through free terms. -/
def writes (p : Pattern) : Except DraftFault (List Value) :=
  ListSet.ofList <$> (p.terms.filterMap Term.written?).mapM Item.key

/-- The registers mentioned. -/
def registers (p : Pattern) : Except DraftFault (List Value) := do
  return ListSet.union (← p.reads) (← p.writes)

/-- The values of the constants, from left to right. -/
def constants (p : Pattern) : List Value := p.terms.filterMap Term.constant?

/-- The terms before a position, all of them if there is none. -/
def termsBefore (p : Pattern) (position : Item) : Except DraftFault (List Term) :=
  if position.isAbsent then .ok p.terms else before p.terms <$> position.index

/-- One of the terms writes the register. -/
def writtenIn (terms : List Term) (register : Item) : Bool :=
  terms.any fun t => t.written?.any fun r => r.same register

/-- The pattern with another term at a position. -/
def withTerm (p : Pattern) (position : Item) (t : Term) : Except DraftFault Pattern := do
  match place? p.arity (← position.index) with
  | some place => return ⟨p.predicate, p.terms.set place t⟩
  | none => throw .noSuchNode

end Pattern

/-! ## Nodes and edges -/

namespace Node

def isBranch : Node → Bool
  | branch .. => true
  | _ => false

/-- The pattern of a node. -/
def pattern : Node → Except DraftFault Pattern
  | branch p _ _ => .ok p
  | leaf p => .ok p
  | other _ => .error .partless

/-- The edges that leave a node, with their targets. -/
def children : Node → Except DraftFault (List (Edge × Item))
  | branch _ m r => .ok [(.onMatch, m), (.onRefute, r)]
  | leaf _ => .ok []
  | other _ => .error .partless

/-- The target of an edge of a branch. -/
def child : Node → Edge → Except DraftFault Item
  | branch _ m _, .onMatch => .ok m
  | branch _ _ r, .onRefute => .ok r
  | branch .., .root => .error .branchRootEdge
  | _, _ => .error .partless

/-- The branch with another target of an edge. -/
def withChild : Node → Edge → Item → Except DraftFault Node
  | branch p _ r, .onMatch, t => .ok (branch p t r)
  | branch p m _, .onRefute, t => .ok (branch p m t)
  | branch .., .root, _ => .error .branchRootEdge
  | _, _, _ => .error .partless

/-- The node with another pattern. -/
def withPattern : Node → Pattern → Except DraftFault Node
  | branch _ m r, p => .ok (branch p m r)
  | leaf _, p => .ok (leaf p)
  | other _, _ => .error .partless

end Node

/-- The place of the node that an index names. -/
def place (d : Draft) (index : Item) : Except DraftFault Nat := do
  match place? d.size (← index.index) with
  | some place => return place
  | none => throw .noSuchNode

/-- The node that an index names. -/
def node (d : Draft) (index : Item) : Except DraftFault Node := do
  match d.nodes[← d.place index]? with
  | some n => return n
  | none => throw .noSuchNode

/-- All edges, with source and target; the root edge comes first and has no source. -/
def edges (d : Draft) : Except DraftFault (List (Option Int × Edge × Item)) := do
  let rest ← d.nodes.zipIdx.mapM fun (n, i) => do
    return (← n.children).map fun (e, t) => (some (i : Int), e, t)
  return (none, .root, d.root) :: rest.flatten

/-- The edges that lead to an index, with their sources. -/
def parents (d : Draft) (index : Item) : Except DraftFault (List (Option Int × Edge)) := do
  return (← d.edges).filterMap fun (source, e, t) =>
    if t.same index then some (source, e) else none

/-- The branch at an index that owns edges. -/
def owner (d : Draft) (index : Item) : Except DraftFault Node := do
  match ← d.node index with
  | .branch p m r => return .branch p m r
  | _ => throw (.leafEdge index)

/-- The target of an edge; the source is ignored for the root edge. -/
def edgeTarget (d : Draft) (source : Item) (e : Edge) : Except DraftFault Item :=
  match e with
  | .root => .ok d.root
  | _ => do (← d.owner source).child e

/-! ## Contents -/

/-- The registers that some term mentions, in order. -/
def registers (d : Draft) : Except DraftFault (List Value) := do
  let found ← d.nodes.mapM fun n => do (← n.pattern).registers
  arranged id (ListSet.ofList found.flatten)

/-- The constants of all patterns in order of appearance, each once. -/
def constants (d : Draft) : Except DraftFault (List Value) := do
  return ListSet.ofList ((← d.nodes.mapM Node.pattern).flatMap Pattern.constants)

/-- Two nodes have the same pattern. -/
def samePattern (d : Draft) (first second : Item) : Except DraftFault Bool := do
  let p ← (← d.node first).pattern
  let q ← (← d.node second).pattern
  return p.same q

end Draft

end RuleDiagram
