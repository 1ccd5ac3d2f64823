import RuleDiagram.Diagram.Flow

/-!
# Well-formed diagrams

A diagram is well formed when its root and all targets exist, its patterns fit their predicates and
the registry, its leaves have a predicate and no free term, and every reference reads a register
that is bound on every way to it. `Diagram.validate` reports the first fault: first by node, and
within a node its targets, then its terms, then the shape of its pattern; references come last.

## Main definitions

* `Fault`: what is wrong with a diagram, and at which node
* `Diagram.fault?`, `Diagram.validate`: the first fault of a diagram
-/

namespace RuleDiagram

/-- What can be wrong with a diagram. What was found where something else should be is given by its
description, for it may come from a source that promises nothing. -/
inductive FaultCause where
  | noNodes
  | rootOutOfRange (found : String)
  | unknownNode (found : String)
  | targetOutOfRange (edge : Edge) (found : String)
  | unknownTerm (found : String)
  | badReference (found : String)
  | badFree (found : String)
  | leafWithoutPredicate
  | passThroughWithTerms
  | wrongArity (predicate : Predicate) (terms : Nat)
  | unknownPredicate (predicate : Predicate)
  | freeInLeaf
  | unboundReference (found : String)
deriving DecidableEq

namespace FaultCause

/-- The cause in words. -/
def message : FaultCause → String
  | noNodes => "diagram has no nodes"
  | rootOutOfRange found => "root " ++ found ++ " is out of range"
  | unknownNode found => "unknown node " ++ found
  | targetOutOfRange e found => e.lowerName ++ " target " ++ found ++ " is out of range"
  | unknownTerm found => "unknown term " ++ found
  | badReference found => "bad register in Reference(register=" ++ found ++ ")"
  | badFree found => "bad register in Free(register=" ++ found ++ ")"
  | leafWithoutPredicate => "leaf without a predicate"
  | passThroughWithTerms => "pass-through pattern with terms"
  | wrongArity p terms => p.shown ++ " given " ++ numeral terms ++ " terms"
  | unknownPredicate p => "unknown predicate " ++ p.shown
  | freeInLeaf => "leaf pattern contains a Free term"
  | unboundReference found => "%" ++ found ++ " is not bound on every path"

end FaultCause

/-- A fault of a diagram: its cause, and the node at which it lies if it lies at one. -/
structure Fault where
  node : Option Int
  cause : FaultCause
deriving DecidableEq

/-- The fault in words. -/
def Fault.message (f : Fault) : String :=
  match f.node with
  | some n => "node " ++ integerText n ++ ": " ++ f.cause.message
  | none => f.cause.message

/-- An index lies within a list of the given length. -/
def inRange (length : Nat) (index : Int) : Bool := decide (0 ≤ index ∧ index < length)

/-- The fault of an edge whose target does not exist. -/
def targetFault? (length : Nat) : Edge × Option Int → Option FaultCause
  | (_, none) => none
  | (e, some t) => if inRange length t then none else some (.targetOutOfRange e (integerText t))

/-- The fault of a term with a negative register. -/
def Term.fault? : Term → Option FaultCause
  | constant _ => none
  | reference r => if r < 0 then some (.badReference (integerText r)) else none
  | free r => if r < 0 then some (.badFree (integerText r)) else none

/-- The fault of a pattern that does not fit its predicate, its registry or its kind of node. -/
def Node.shapeFault? (registry : Option Registry) (n : Node) : Option FaultCause :=
  let p := n.pattern
  match p.predicate with
  | none =>
    if !n.isBranch then some .leafWithoutPredicate
    else if p.terms ≠ [] then some .passThroughWithTerms
    else none
  | some q =>
    if (p.terms.length : Int) ≠ q.arity then some (.wrongArity q p.terms.length)
    else if registry.any fun r => !r.has q then some (.unknownPredicate q)
    else if !n.isBranch && p.terms.any fun t => t.written?.isSome then some .freeInLeaf
    else none

/-- The first fault of a node in a diagram of the given size, references aside. -/
def Node.fault? (registry : Option Registry) (size : Nat) (n : Node) : Option FaultCause :=
  (n.children.findSome? (targetFault? size)).or <|
    (n.pattern.terms.findSome? Term.fault?).or (n.shapeFault? registry)

/-- The first register that the terms read while it is neither live on entry nor written further
left. -/
def firstUnbound (live : List Int) : List Term → Option Int
  | [] => none
  | .constant _ :: rest => firstUnbound live rest
  | .reference r :: rest => if r ∈ live then firstUnbound live rest else some r
  | .free r :: rest => firstUnbound (r :: live) rest

/-- The first reference, in the order of the table, that reads an unbound register. -/
def Diagram.referenceFault? (d : Diagram) (table : BoundTable) : Option Fault :=
  table.findSome? fun (index, entry) => do
    let n ← d.node? index
    let r ← firstUnbound entry n.pattern.terms
    return ⟨some index, .unboundReference (integerText r)⟩

/-- The first fault of a diagram. -/
def Diagram.fault? (registry : Option Registry) (d : Diagram) : Option Fault :=
  if d.nodes = [] then some ⟨none, .noNodes⟩
  else if !inRange d.size d.root then some ⟨none, .rootOutOfRange (integerText d.root)⟩
  else
    (d.nodes.zipIdx.findSome? fun (n, i) =>
      (n.fault? registry d.size).map fun cause => ⟨some (i : Int), cause⟩).or <|
    match d.bound with
    | .ok table => d.referenceFault? table
    | .error _ => none

/-- The diagram itself if it is well formed, and its first fault otherwise. -/
def Diagram.validate (registry : Option Registry) (d : Diagram) : Except Fault Diagram :=
  match d.fault? registry with
  | some f => .error f
  | none => .ok d

end RuleDiagram
