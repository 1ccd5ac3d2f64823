import RuleDiagram.Draft.Edit
import RuleDiagram.Draft.Proposal
import RuleDiagram.Draft.Run
import RuleDiagram.Draft.Validity
import RuleDiagram.Mutation.Apply

/-!
# Mutating drafts

A proposal that is a mutation is applied to a draft that is a diagram as mutations are. Otherwise
its conditions are checked in the same order, and so are the parts of the draft that they mention: a
place has to be a number before it can be out of range, and a stray node has no terms.

## Main definitions

* `Draft.edited`: the edited draft, if the conditions of the proposal hold
* `Draft.mutate`: the result of a proposal that is judged by given evaluations
* `Draft.mutateOn`: the same, with evaluations made when they are needed
-/

namespace RuleDiagram

/-- The fault of a mutation, its reason put into words. -/
def DraftFault.ofMutation : MutationFault → DraftFault
  | .invalid r =>
    match r.message with
    | .ok text => rejected text
    | .error f => untextual f
  | .untextual f => untextual f
  | .run f => ofRun f
  | .edit f => ofEdit f

namespace Draft

/-- Rejects a proposal if a condition holds. -/
def refuseIf (condition : Bool) (reason : String) : Except DraftFault Unit :=
  if condition then .error (.rejected reason) else .ok ()

/-- Rejects a proposal for one of the reasons for which mutations are rejected. -/
def refuse {α : Type} (r : Reason) : Except DraftFault α := .error (.ofMutation (.invalid r))

/-! ## What a proposal refers to -/

/-- The node of an index, with its place. -/
def findNode (d : Draft) (index : Item) : Except DraftFault (Nat × Node) :=
  match indexWithin? d.size index with
  | some i => do return (i.toNat, ← d.node index)
  | none => .error (.rejected ("node " ++ index.described ++ " does not exist"))

/-- The branch of an index, with its place, pattern and targets. -/
def findBranch (d : Draft) (index : Item) : Except DraftFault (Nat × Pattern × Item × Item) := do
  match ← d.findNode index with
  | (place, .branch p m r) => return (place, p, m, r)
  | _ => throw (.rejected ("node " ++ index.shown ++ " is a leaf"))

/-- An item is less than a number. -/
def isLess (x y : Item) : Except DraftFault Bool :=
  match x.less? y with
  | some b => .ok b
  | none => .error .unsuited

/-- Rejects a number that is not among the first so many naturals. -/
def within (x : Item) (count : Except DraftFault Nat) (reason : String) :
    Except DraftFault Unit := do
  refuseIf (← isLess x (.int 0)) reason
  refuseIf (!(← isLess x (.int (← count)))) reason

/-- A term at a position of a node: where both are, and the pattern of the node. -/
structure TermSite where
  place : Nat
  node : Node
  pattern : Pattern
  position : Nat
  term : Term

namespace TermSite

/-- The site of a term. -/
def find (d : Draft) (index position : Item) : Except DraftFault TermSite := do
  let (place, n) ← d.findNode index
  within position (Pattern.arity <$> n.pattern)
    ("position " ++ position.shown ++ " out of range")
  let p ← n.pattern
  let i := (← position.index).toNat
  match p.terms[i]? with
  | some t => return ⟨place, n, p, i, t⟩
  | none => throw .noSuchNode

/-- The site of a term of a kind that is expected. -/
def expect (d : Draft) (index position : Item) (kind : TermKind) (isKind : Term → Bool) :
    Except DraftFault TermSite := do
  discard (← d.findNode index).2.pattern
  let s ← find d index position
  if !isKind s.term then
    let term ← s.term.written.mapError .untextual
    throw (.rejected ("term " ++ term ++ " is not a " ++ kind.name))
  return s

/-- A free term further left in the pattern writes the register. -/
def rebinds (s : TermSite) (register : Item) : Bool :=
  Pattern.writtenIn (s.pattern.terms.take s.position) register

/-- The node with another term at the site. -/
def changed (s : TermSite) (t : Term) : Except DraftFault Node :=
  s.node.withPattern ⟨s.pattern.predicate, s.pattern.terms.set s.position t⟩

/-- The draft with another term at the site. -/
def put (s : TermSite) (d : Draft) (t : Term) : Except DraftFault Draft := do
  return { d with nodes := d.nodes.set s.place (← s.changed t) }

end TermSite

/-! ## What evaluations say -/

/-- In some evaluation a snapshot has come to a node that lacks a property. -/
def someReaching (evaluations : List Evaluation) (place : Nat)
    (lacks : Snapshot → Except DraftFault Bool) : Except DraftFault Bool :=
  (evaluations.flatMap fun e => e.snapshots place).anyM lacks

/-- A node in place of another one would have sent on, or emitted, the same in an evaluation. -/
def sameOutgoing (place : Nat) (n : Node) (e : Evaluation) : Except DraftFault Bool := do
  let incoming := e.snapshots place
  match n with
  | .leaf p =>
    let facts ← incoming.mapM fun s => instantiate p s
    return ListSet.equal facts (e.emittedBy place)
  | n =>
    let out ← propagate (← n.pattern) e.facts incoming
    let before := e.outgoing place
    return ListSet.equal out.onMatch before.onMatch && ListSet.equal out.onRefute before.onRefute

/-- Changes a term if all that leaves the node stays the same. -/
def changeQuietly (d : Draft) (s : TermSite) (t : Term) (evaluations : List Evaluation)
    (otherwise : Reason) : Except DraftFault Draft := do
  let candidate ← s.changed t
  if !(← evaluations.allM (sameOutgoing s.place candidate)) then refuse otherwise
  else s.put d t

/-! ## Edits -/

/-- The value of a register in a snapshot. -/
def held (s : Snapshot) (register : Item) : Except DraftFault (Option Value) := do
  return s.get? (← register.key)

/-- A register does not hold a value. -/
def differs (register : Item) (v : Value) (s : Snapshot) : Except DraftFault Bool := do
  return !(← held s register).any fun w => decide (Same w v)

/-- A term in words. -/
def wording (t : Term) : Except DraftFault String := t.written.mapError .untextual

/-- Turns the constant at a site into a reference. -/
def bindConstant (d : Draft) (f : ProposalFields) (evaluations : List Evaluation) :
    Except DraftFault Draft := do
  let s ← TermSite.expect d f.node f.position .constant fun t => t.constant?.isSome
  if s.rebinds f.register then refuse .reboundRegister
  let v := s.term.constant?.getD .absent
  if ← someReaching evaluations s.place (differs f.register v) then
    throw (.rejected ("%" ++ f.register.shown ++ " does not always hold " ++ (← wording s.term)))
  s.put d (.reference f.register)

/-- Turns the reference at a site into a constant. -/
def unbindConstant (d : Draft) (f : ProposalFields) (evaluations : List Evaluation) :
    Except DraftFault Draft := do
  let s ← TermSite.expect d f.node f.position .reference fun t => t.read?.isSome
  let register := s.term.read?.getD .absent
  if s.rebinds register then refuse .reboundRegister
  if ← someReaching evaluations s.place (differs register f.value) then
    throw (.rejected ((← wording s.term) ++ " does not always hold " ++ f.value.described))
  s.put d (.constant f.value)

/-- Moves the reference at a site to another register. -/
def retargetRegister (d : Draft) (f : ProposalFields) (evaluations : List Evaluation) :
    Except DraftFault Draft := do
  let s ← TermSite.expect d f.node f.position .reference fun t => t.read?.isSome
  let register := s.term.read?.getD .absent
  if f.register.same register then refuse .sameRegister
  if s.rebinds register || s.rebinds f.register then refuse .reboundRegister
  let disagrees (x : Snapshot) : Except DraftFault Bool := do
    match ← held x register with
    | some v => differs f.register v x
    | none => return true
  if ← someReaching evaluations s.place disagrees then
    throw (.rejected ((← wording s.term) ++ " and %" ++ f.register.shown ++ " disagree"))
  s.put d (.reference f.register)

/-- Takes out a pass-through branch whose edges share their target. -/
def collapsePassThrough (d : Draft) (index : Item) : Except DraftFault Draft := do
  let (_, p, target, other) ← d.findBranch index
  if !p.isPassThrough then refuse .notPassThrough
  if !target.same other then refuse .edgesDiffer
  if target.same index then refuse .loopsOntoItself
  if target.isAbsent && d.root.same index then refuse .rootWithoutTarget
  let parents := (← d.parents index).filter fun (source, _) =>
    !source.any fun i => (Item.int i).same index
  let result ← parents.foldlM (fun d (source, e) => d.withEdge (targetItem source) e target) d
  result.removeNode index

/-- Gives the two edges of a branch, which share their target, a target each. -/
def duplicateNode (d : Draft) (parent : Item) : Except DraftFault Draft := do
  let (_, _, child, other) ← d.findBranch parent
  if child.isAbsent || !other.same child then refuse .noSharedChild
  if child.same parent then refuse .ownChild
  (d.append [← d.node child]).withEdge parent .onRefute (.int d.size)

/-- Gives the two edges of a branch, whose targets are equal, one target. -/
def mergeNodes (d : Draft) (parent : Item) : Except DraftFault Draft := do
  let (_, _, kept, dropped) ← d.findBranch parent
  if kept.isAbsent || dropped.isAbsent || kept.same dropped then refuse .noTwoChildren
  if dropped.same parent then refuse .ownRefuteChild
  let a ← d.node kept
  let b ← d.node dropped
  if !a.same b then refuse .childrenDiffer
  let result ← d.withEdge parent .onRefute kept
  if result.root.same dropped then return result
  let stillUsed := (← result.edges).any fun (source, _, t) =>
    t.same dropped && !source.any fun i => (Item.int i).same dropped
  if stillUsed then return result
  result.removeNode dropped

/-- Moves an edge to another target. -/
def redirectEdge (d : Draft) (f : ProposalFields) : Except DraftFault Draft := do
  if !f.target.isAbsent then
    within f.target (.ok d.size) ("target " ++ f.target.shown ++ " does not exist")
  match f.edge with
  | .root => if f.target.isAbsent then refuse .rootEdgeWithoutTarget
  | _ => discard (d.findBranch f.node)
  d.withEdge f.node f.edge f.target

/-- Gives a pattern another predicate, or none; the terms stay if none are given. -/
def replacePredicate (d : Draft) (f : ProposalFields) : Except DraftFault Draft := do
  let (place, n) ← d.findNode f.node
  let pattern ← match f.predicate, f.terms with
    | none, _ => pure Pattern.passThrough
    | some q, some ts => pure ⟨some q, ts⟩
    | some q, none => do
      let p ← n.pattern
      if q.arity = p.arity ∧ !(n.isBranch && p.isPassThrough) then pure ⟨some q, p.terms⟩
      else refuse .termsMissing
  return { d with nodes := d.nodes.set place (← n.withPattern pattern) }

/-- Appends nodes and moves the root. -/
def graft (d : Draft) (f : ProposalFields) : Except DraftFault Draft := do
  refuseIf (!f.base.same (.int d.size))
    ("graft base " ++ f.base.shown ++ " != diagram size " ++ numeral d.size)
  let grown := d.append f.nodes
  within f.root (.ok grown.size) ("root " ++ f.root.shown ++ " does not exist")
  return grown.withRoot f.root

/-- The edited draft, if the conditions of the proposal hold. -/
def edited (d : Draft) (k : MutationKind) (f : ProposalFields) (evaluations : List Evaluation) :
    Except DraftFault Draft :=
  match k with
  | .bindConstant => d.bindConstant f evaluations
  | .unbindConstant => d.unbindConstant f evaluations
  | .retargetRegister => d.retargetRegister f evaluations
  | .replaceFreeRegister => do
    let s ← TermSite.expect d f.node f.position .free fun t => t.written?.isSome
    if s.term.written?.any fun r => f.register.same r then refuse .sameRegister
    d.changeQuietly s (.free f.register) evaluations .snapshotsChange
  | .replaceConstant => do
    let s ← TermSite.expect d f.node f.position .constant fun t => t.constant?.isSome
    if s.term.constant?.any fun v => decide (Same v f.value) then refuse .sameConstant
    d.changeQuietly s (.constant f.value) evaluations .outputChanges
  | .spliceEdge => do
    let target ← match f.edge with
      | .root => pure d.root
      | .onMatch => do pure (← d.findBranch f.node).2.2.1
      | .onRefute => do pure (← d.findBranch f.node).2.2.2
    (d.append [.branch .passThrough target target]).withEdge f.node f.edge (.int d.size)
  | .collapsePassThrough => d.collapsePassThrough f.node
  | .duplicateNode => d.duplicateNode f.parent
  | .mergeNodes => d.mergeNodes f.parent
  | .redirectEdge => d.redirectEdge f
  | .replaceTerm => do (← TermSite.find d f.node f.position).put d f.term
  | .replacePredicate => d.replacePredicate f
  | .graft => d.graft f

/-! ## Results -/

/-- **The result of a proposal** that is judged by given evaluations. -/
def mutate (registry : Option Registry) (d : Draft) (p : Proposal)
    (evaluations : List Evaluation) : Except DraftFault Draft :=
  match d.diagram?, p.mutation?, p with
  | some e, some m, _ =>
    ((m.apply registry e (evaluations.map Evaluation.integral)).map ofDiagram).mapError .ofMutation
  | _, _, .other _ => refuse .unknownMutation
  | _, _, .mutation k f => do
    if k.effect = .neutral ∧ evaluations.isEmpty then refuse .noFacts
    let result ← d.edited k f evaluations
    (result.validate registry).mapError fun flaw => .rejected flaw.message

/-- The evaluations of a draft on fact sets; one that reaches its round limit is a reason to reject
a proposal. -/
def evaluationsOn (d : Draft) (inputs : List (List Fact)) (limit : RoundLimit) :
    Except DraftFault (List Evaluation) :=
  inputs.mapM fun facts =>
    match d.evaluate facts limit with
    | .error (.limitReached l) => refuse (.limitReached l)
    | outcome => outcome

/-- The result of a proposal that is judged by evaluations on fact sets. -/
def mutateOn (registry : Option Registry) (limit : RoundLimit) (d : Draft) (p : Proposal)
    (inputs : List (List Fact)) : Except DraftFault Draft := do
  let isNeutral := p.kind?.any fun k => decide (k.effect = .neutral)
  d.mutate registry p (← if isNeutral then d.evaluationsOn inputs limit else pure [])

/-- A proposal has a result; that it is rejected is no fault here. -/
def isMutable (registry : Option Registry) (limit : RoundLimit) (d : Draft) (p : Proposal)
    (inputs : List (List Fact)) : Except DraftFault Bool :=
  match d.mutateOn registry limit p inputs with
  | .ok _ => .ok true
  | .error (.rejected _) => .ok false
  | .error f => .error f

/-- The children that proposals make of a draft, with their kinds, those that are rejected left out;
or the proposal that fails. -/
def children (registry : Option Registry) (d : Draft) (evaluations : List Evaluation) :
    List Proposal → Except (Proposal × DraftFault) (List (Draft × MutationKind))
  | [] => .ok []
  | p :: rest => do
    let child ← match d.mutate registry p evaluations with
      | .ok child => pure ((p.kind?.map fun k => (child, k)).toList)
      | .error (.rejected _) => pure []
      | .error f => throw (p, f)
    return child ++ (← d.children registry evaluations rest)

end Draft

end RuleDiagram
