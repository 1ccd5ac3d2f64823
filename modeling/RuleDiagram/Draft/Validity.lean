import RuleDiagram.Diagram.Validity
import RuleDiagram.Draft.Flow

/-!
# Well-formed drafts

A draft is well formed if it stands for a well-formed diagram, where truth values count as integers.
Its flaws are found in the order of the faults of diagrams.

## Main definitions

* `Draft.Flaw`: what is wrong with a draft, and at which index
* `Draft.flaw?`, `Draft.validate`: the first flaw of a draft
-/

namespace RuleDiagram

namespace Draft

/-- A flaw of a draft: its cause, and the index at which it lies, absent if it lies at none. -/
structure Flaw where
  node : Item
  cause : FaultCause

namespace Flaw

/-- The flaw in words. -/
def message (f : Flaw) : String :=
  if f.node.isAbsent then f.cause.message
  else "node " ++ f.node.shown ++ ": " ++ f.cause.message

/-- The flaw that is a fault of a diagram. -/
def ofFault (f : Fault) : Flaw := ⟨(f.node.map Item.int).getD .absent, f.cause⟩

end Flaw

/-- The index that an item is in a draft of the given size. -/
def indexWithin? (size : Nat) (x : Item) : Option Int := x.integer?.filter fun i => inRange size i

/-- The target that an item stands for in a draft of the given size. -/
def target (size : Nat) (e : Edge) (x : Item) : Except FaultCause (Option Int) :=
  if x.isAbsent then .ok none
  else
    match indexWithin? size x with
    | some i => .ok (some i)
    | none => .error (.targetOutOfRange e x.described)

/-- The register that an item stands for. -/
def register? (x : Item) : Option Int := x.integer?.filter fun r => decide (0 ≤ r)

/-- The term that a term of a draft stands for. -/
def Term.resolve : Term → Except FaultCause RuleDiagram.Term
  | constant v => .ok (.constant v)
  | reference x =>
    match register? x with
    | some r => .ok (.reference r)
    | none => .error (.badReference x.described)
  | free x =>
    match register? x with
    | some r => .ok (.free r)
    | none => .error (.badFree x.described)
  | other x => .error (.unknownTerm x.described)

def Pattern.resolve (p : Pattern) : Except FaultCause RuleDiagram.Pattern := do
  return ⟨p.predicate, ← p.terms.mapM Term.resolve⟩

/-- The node that a node of a draft stands for. -/
def Node.resolve (size : Nat) : Node → Except FaultCause RuleDiagram.Node
  | other x => .error (.unknownNode x.described)
  | leaf p => do return .leaf (← p.resolve)
  | branch p m r => do
    let m ← target size .onMatch m
    let r ← target size .onRefute r
    return .branch (← p.resolve) m r

/-- The first fault of a node in a draft of the given size, references aside. -/
def Node.fault? (registry : Option Registry) (size : Nat) (n : Node) : Option FaultCause :=
  match n.resolve size with
  | .ok resolved => resolved.shapeFault? registry
  | .error cause => some cause

/-- The first register that the terms read while it is neither live on entry nor written further
left. -/
def firstUnbound (live : List Value) : List Term → Option Value
  | [] => none
  | .reference (.value r) :: rest => if ListSet.has live r then firstUnbound live rest else some r
  | .free (.value r) :: rest => firstUnbound (r :: live) rest
  | _ :: rest => firstUnbound live rest

/-- The first reference, in the order of the table, that reads an unbound register. -/
def referenceFlaw? (d : Draft) (table : BoundTable) : Option Flaw :=
  table.findSome? fun (index, entry) => do
    let p ← ((d.node (.value index)).bind Node.pattern).toOption
    let r ← firstUnbound entry p.terms
    return ⟨.value index, .unboundReference r.shown⟩

/-- The first flaw of a draft that is no diagram. -/
def flaw? (registry : Option Registry) (d : Draft) : Option Flaw :=
  if d.nodes.isEmpty then some ⟨.absent, .noNodes⟩
  else if (indexWithin? d.size d.root).isNone then
    some ⟨.absent, .rootOutOfRange d.root.described⟩
  else
    (d.nodes.zipIdx.findSome? fun (n, i) =>
      (n.fault? registry d.size).map fun cause => ⟨.int i, cause⟩).or <|
    d.bound.toOption.bind d.referenceFlaw?

/-- The draft itself if it is well formed, and its first flaw otherwise. -/
def validate (registry : Option Registry) (d : Draft) : Except Flaw Draft :=
  match d.diagram? with
  | some e => ((e.validate registry).map fun _ => d).mapError .ofFault
  | none =>
    match d.flaw? registry with
    | some f => .error f
    | none => .ok d

/-- The diagram that a well-formed draft stands for, or the first flaw of the draft. -/
def validDiagram (registry : Option Registry) (d : Draft) : Except Flaw Diagram := do
  return (← d.validate registry).countedDiagram?.getD default

end Draft

end RuleDiagram
