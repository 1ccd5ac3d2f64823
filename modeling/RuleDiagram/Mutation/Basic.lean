import RuleDiagram.Diagram.Basic

/-!
# Mutations

A mutation is one edit of a diagram. Neutral mutations keep what the diagram does on given facts and
its size; size-changing ones keep what it does on all facts; the others may change behaviour.

## Main definitions

* `Mutation`: the thirteen kinds of edits
* `MutationClass`, `Mutation.effect`: what a mutation keeps
* `Mutation.fields`, `Mutation.described`: the fields of a mutation, and its description as a record
-/

namespace RuleDiagram

/-- What a mutation may change. -/
inductive MutationClass where
  | neutral
  | sizeChanging
  | behaviorChanging
deriving DecidableEq

/-- The class as a number. -/
def MutationClass.number : MutationClass → Nat
  | neutral => 0
  | sizeChanging => 1
  | behaviorChanging => 2

/-- The kinds of mutations. -/
inductive MutationKind where
  | bindConstant
  | unbindConstant
  | retargetRegister
  | replaceFreeRegister
  | replaceConstant
  | spliceEdge
  | collapsePassThrough
  | duplicateNode
  | mergeNodes
  | redirectEdge
  | replaceTerm
  | replacePredicate
  | graft
deriving DecidableEq

namespace MutationKind

/-- All kinds: neutral ones, then size-changing ones, then the others. -/
def all : List MutationKind :=
  [bindConstant, unbindConstant, retargetRegister, replaceFreeRegister, replaceConstant, spliceEdge,
    collapsePassThrough, duplicateNode, mergeNodes, redirectEdge, replaceTerm, replacePredicate,
    graft]

def name : MutationKind → String
  | bindConstant => "BindConstant"
  | unbindConstant => "UnbindConstant"
  | retargetRegister => "RetargetRegister"
  | replaceFreeRegister => "RewriteFreeRegister"
  | replaceConstant => "ReplaceConstant"
  | spliceEdge => "SpliceEdge"
  | collapsePassThrough => "CollapsePassThrough"
  | duplicateNode => "DuplicateNode"
  | mergeNodes => "MergeNodes"
  | redirectEdge => "RedirectEdge"
  | replaceTerm => "ReplaceTerm"
  | replacePredicate => "ReplacePredicate"
  | graft => "Graft"

/-- What mutations of a kind may change. -/
def effect : MutationKind → MutationClass
  | bindConstant | unbindConstant | retargetRegister | replaceFreeRegister | replaceConstant =>
    .neutral
  | spliceEdge | collapsePassThrough | duplicateNode | mergeNodes => .sizeChanging
  | redirectEdge | replaceTerm | replacePredicate | graft => .behaviorChanging

/-- Mutations of the kind keep what a diagram does on the facts at hand. -/
def preserves (k : MutationKind) : Bool := decide (k.effect ≠ .behaviorChanging)

end MutationKind

/-- **A mutation.** Where a mutation acts is an index, or nothing if no node is named. -/
inductive Mutation where
  /-- Turns a constant into a reference. -/
  | bindConstant (node : Option Int) (position register : Int)
  /-- Turns a reference into a constant. -/
  | unbindConstant (node : Option Int) (position : Int) (value : Value)
  /-- Moves a reference to another register. -/
  | retargetRegister (node : Option Int) (position register : Int)
  /-- Moves a free term to another register. -/
  | replaceFreeRegister (node : Option Int) (position register : Int)
  /-- Turns a constant into another one. -/
  | replaceConstant (node : Option Int) (position : Int) (value : Value)
  /-- Puts a pass-through branch into an edge; the node is ignored for the root edge. -/
  | spliceEdge (node : Option Int) (edge : Edge)
  /-- Takes out a pass-through branch whose edges share their target. -/
  | collapsePassThrough (node : Option Int)
  /-- Gives the two edges of a branch, which share their target, a target each. -/
  | duplicateNode (parent : Option Int)
  /-- Gives the two edges of a branch, whose targets are equal, one target. -/
  | mergeNodes (parent : Option Int)
  | redirectEdge (node : Option Int) (edge : Edge) (target : Option Int)
  | replaceTerm (node : Option Int) (position : Int) (term : Term)
  /-- Gives a pattern another predicate, or none; the terms stay if none are given. -/
  | replacePredicate (node : Option Int) (predicate : Option Predicate) (terms : Option (List Term))
  /-- Appends nodes and moves the root; the base is the index of the first appended node. -/
  | graft (base : Int) (nodes : List Node) (root : Int)
deriving DecidableEq

/-- What a field of a mutation holds. -/
inductive MutationField where
  | index (i : Option Int)
  | number (n : Int)
  | value (v : Value)
  | edge (e : Edge)
  | term (t : Term)
  | predicate (p : Option Predicate)
  | terms (ts : Option (List Term))
  | nodes (ns : List Node)
deriving DecidableEq

/-- The description of a field. -/
def MutationField.described : MutationField → String
  | index i => describedIndex i
  | number n => integerText n
  | value v => v.described
  | edge e => e.described
  | term t => t.described
  | predicate p => (p.map Predicate.described).getD "None"
  | terms ts => (ts.map fun ts => tupleText (ts.map Term.described)).getD "None"
  | nodes ns => tupleText (ns.map Node.described)

namespace Mutation

instance : Canonical Mutation where
  canonical
    | unbindConstant n i v => unbindConstant n i (canonical v)
    | replaceConstant n i v => replaceConstant n i (canonical v)
    | replaceTerm n i t => replaceTerm n i (canonical t)
    | replacePredicate n p ts => replacePredicate n p (canonical ts)
    | graft base nodes root => graft base (canonical nodes) root
    | m => m

def kind : Mutation → MutationKind
  | bindConstant .. => .bindConstant
  | unbindConstant .. => .unbindConstant
  | retargetRegister .. => .retargetRegister
  | replaceFreeRegister .. => .replaceFreeRegister
  | replaceConstant .. => .replaceConstant
  | spliceEdge .. => .spliceEdge
  | collapsePassThrough _ => .collapsePassThrough
  | duplicateNode _ => .duplicateNode
  | mergeNodes _ => .mergeNodes
  | redirectEdge .. => .redirectEdge
  | replaceTerm .. => .replaceTerm
  | replacePredicate .. => .replacePredicate
  | graft .. => .graft

/-- What a mutation may change. -/
def effect (m : Mutation) : MutationClass := m.kind.effect

/-- The fields of a mutation, by name and in order. -/
def fields : Mutation → List (String × MutationField)
  | bindConstant n i r | retargetRegister n i r | replaceFreeRegister n i r =>
    [("node", .index n), ("position", .number i), ("register", .number r)]
  | unbindConstant n i v | replaceConstant n i v =>
    [("node", .index n), ("position", .number i), ("value", .value v)]
  | spliceEdge n e => [("node", .index n), ("edge", .edge e)]
  | collapsePassThrough n => [("node", .index n)]
  | duplicateNode p | mergeNodes p => [("parent", .index p)]
  | redirectEdge n e t => [("node", .index n), ("edge", .edge e), ("target", .index t)]
  | replaceTerm n i t => [("node", .index n), ("position", .number i), ("term", .term t)]
  | replacePredicate n p ts =>
    [("node", .index n), ("predicate", .predicate p), ("terms", .terms ts)]
  | graft base nodes root =>
    [("base", .number base), ("nodes", .nodes nodes), ("root", .number root)]

/-- The record of a mutation of some kind, with its fields by name. -/
def record (k : MutationKind) (fields : List (String × String)) : String :=
  k.name ++ "(" ++ ", ".intercalate (fields.map fun f => f.1 ++ "=" ++ f.2) ++ ")"

/-- The description of a mutation as a record. -/
def described (m : Mutation) : String :=
  record m.kind (m.fields.map fun f => (f.1, f.2.described))

end Mutation

end RuleDiagram
