import RuleDiagram.Draft.Basic
import RuleDiagram.Mutation.Basic

/-!
# Proposed mutations

A proposal comes from a source that promises nothing: it may be no mutation at all, and its fields
may hold any items of data. A proposal whose fields are those of a mutation is read as one.

## Main definitions

* `Proposal`, `Proposal.described`
* `Proposal.mutation?`, `Proposal.ofMutation`: the mutation that a proposal is, and back
-/

namespace RuleDiagram

/-- The fields of proposals. Those that a kind of mutation does not have are of no account. -/
structure ProposalFields where
  node : Item
  position : Item
  register : Item
  value : Value
  edge : Edge
  parent : Item
  target : Item
  term : Draft.Term
  predicate : Option Predicate
  terms : Option (List Draft.Term)
  base : Item
  nodes : List Draft.Node
  root : Item

/-- A proposed mutation, or some other item. -/
inductive Proposal where
  | mutation (k : MutationKind) (f : ProposalFields)
  | other (x : Item)

namespace ProposalFields

/-- Fields that hold nothing. -/
def blank : ProposalFields :=
  ⟨.absent, .absent, .absent, .absent, .root, .absent, .absent, .other .absent, none, none, .absent,
    [], .absent⟩

/-- The mutation of a kind with the fields, if they hold what its fields hold. -/
def read (f : ProposalFields) (k : MutationKind) : Option Mutation := do
  let target := Draft.readTarget Item.int?
  let term := Draft.Term.read Item.int?
  match k with
  | .bindConstant =>
    return .bindConstant (← target f.node) (← f.position.int?) (← f.register.int?)
  | .unbindConstant => return .unbindConstant (← target f.node) (← f.position.int?) f.value
  | .retargetRegister =>
    return .retargetRegister (← target f.node) (← f.position.int?) (← f.register.int?)
  | .replaceFreeRegister =>
    return .replaceFreeRegister (← target f.node) (← f.position.int?) (← f.register.int?)
  | .replaceConstant => return .replaceConstant (← target f.node) (← f.position.int?) f.value
  | .spliceEdge => return .spliceEdge (← target f.node) f.edge
  | .collapsePassThrough => return .collapsePassThrough (← target f.node)
  | .duplicateNode => return .duplicateNode (← target f.parent)
  | .mergeNodes => return .mergeNodes (← target f.parent)
  | .redirectEdge => return .redirectEdge (← target f.node) f.edge (← target f.target)
  | .replaceTerm => return .replaceTerm (← target f.node) (← f.position.int?) (← term f.term)
  | .replacePredicate =>
    return .replacePredicate (← target f.node) f.predicate (← f.terms.mapM fun ts => ts.mapM term)
  | .graft =>
    return .graft (← f.base.int?) (← f.nodes.mapM (Draft.Node.read Item.int?)) (← f.root.int?)

/-- The descriptions of the fields of a kind of mutation, by name. -/
def described (f : ProposalFields) (k : MutationKind) : List (String × String) :=
  let node := ("node", f.node.described)
  let position := ("position", f.position.described)
  let edge := ("edge", f.edge.described)
  let terms (ts : List Draft.Term) := tupleText (ts.map Draft.Term.described)
  match k with
  | .bindConstant | .retargetRegister | .replaceFreeRegister =>
    [node, position, ("register", f.register.described)]
  | .unbindConstant | .replaceConstant => [node, position, ("value", f.value.described)]
  | .spliceEdge => [node, edge]
  | .collapsePassThrough => [node]
  | .duplicateNode | .mergeNodes => [("parent", f.parent.described)]
  | .redirectEdge => [node, edge, ("target", f.target.described)]
  | .replaceTerm => [node, position, ("term", f.term.described)]
  | .replacePredicate =>
    [node, ("predicate", (f.predicate.map Predicate.described).getD "None"),
      ("terms", (f.terms.map terms).getD "None")]
  | .graft =>
    [("base", f.base.described), ("nodes", tupleText (f.nodes.map Draft.Node.described)),
      ("root", f.root.described)]

end ProposalFields

namespace Proposal

/-- The description of a proposal. -/
def described : Proposal → String
  | mutation k f => Mutation.record k (f.described k)
  | other x => x.described

/-- The kind of mutation that a proposal is meant to be. -/
def kind? : Proposal → Option MutationKind
  | mutation k _ => some k
  | other _ => none

/-- The mutation that a proposal is. -/
def mutation? : Proposal → Option Mutation
  | mutation k f => f.read k
  | other _ => none

/-- The fields of a mutation as those of a proposal. -/
def fieldsOf (m : Mutation) : ProposalFields :=
  let blank := ProposalFields.blank
  let index (i : Option Int) : ProposalFields := { blank with node := Draft.targetItem i }
  match m with
  | .bindConstant i position r | .retargetRegister i position r
  | .replaceFreeRegister i position r =>
    { index i with position := .int position, register := .int r }
  | .unbindConstant i position v | .replaceConstant i position v =>
    { index i with position := .int position, value := v }
  | .spliceEdge i e => { index i with edge := e }
  | .collapsePassThrough i => index i
  | .duplicateNode i | .mergeNodes i => { blank with parent := Draft.targetItem i }
  | .redirectEdge i e t => { index i with edge := e, target := Draft.targetItem t }
  | .replaceTerm i position t => { index i with position := .int position, term := .ofTerm t }
  | .replacePredicate i q ts =>
    { index i with predicate := q, terms := ts.map fun ts => ts.map .ofTerm }
  | .graft base ns root =>
    { blank with base := .int base, nodes := ns.map .ofNode, root := .int root }

/-- A mutation as a proposal. -/
def ofMutation (m : Mutation) : Proposal := mutation m.kind (fieldsOf m)

end Proposal

end RuleDiagram
