import RuleDiagram.Mutation.Basic
import RuleDiagram.Mutation.Reason

/-!
# Applying mutations

Neutral mutations are judged by evaluations of the unchanged diagram: what has come to the mutated
node must allow the edit. All results are validated before they are handed out.

## Main definitions

* `Mutation.edit`: the edited diagram, if the conditions of the mutation hold
* `Mutation.apply`: the edited diagram, validated
* `Mutation.applyOn`: the same, with evaluations made when they are needed
-/

namespace RuleDiagram

namespace Mutation

/-! ## What a mutation refers to -/

/-- The node of an index, with its place. -/
def findNode (d : Diagram) (index : Option Int) : Except MutationFault (Nat × Node) :=
  match index with
  | none => reject (.noSuchNode none)
  | some i =>
    if 0 ≤ i then
      match d.nodes[i.toNat]? with
      | some n => .ok (i.toNat, n)
      | none => reject (.noSuchNode (some i))
    else reject (.noSuchNode (some i))

/-- The branch of an index, with its place, pattern and targets. -/
def findBranch (d : Diagram) (index : Option Int) :
    Except MutationFault (Nat × Pattern × Option Int × Option Int) := do
  match ← findNode d index with
  | (place, .branch p m r) => return (place, p, m, r)
  | (place, .leaf _) => reject (.isLeaf place)

/-- The place of a position in the pattern of a node. -/
def findPosition (n : Node) (position : Int) : Except MutationFault (Nat × Term) :=
  if 0 ≤ position then
    match n.pattern.terms[position.toNat]? with
    | some t => .ok (position.toNat, t)
    | none => reject (.positionOutOfRange position)
  else reject (.positionOutOfRange position)

/-- A term at a position of a node: where both are, and the node itself. -/
structure TermSite where
  place : Nat
  node : Node
  position : Nat
  term : Term

namespace TermSite

/-- The site of a term. -/
def find (d : Diagram) (index : Option Int) (position : Int) : Except MutationFault TermSite := do
  let (place, n) ← findNode d index
  let (i, t) ← findPosition n position
  return ⟨place, n, i, t⟩

/-- The constant at a site. -/
def constant (s : TermSite) : Except MutationFault Value :=
  match s.term with
  | .constant v => .ok v
  | t => reject (.otherTerm t .constant)

/-- The register that the reference at a site reads. -/
def reference (s : TermSite) : Except MutationFault Int :=
  match s.term with
  | .reference r => .ok r
  | t => reject (.otherTerm t .reference)

/-- The register that the free term at a site writes. -/
def free (s : TermSite) : Except MutationFault Int :=
  match s.term with
  | .free r => .ok r
  | t => reject (.otherTerm t .free)

/-- A free term further left in the pattern writes the register. -/
def rebinds (s : TermSite) (register : Int) : Bool :=
  s.node.pattern.writtenBefore s.position register

/-- The node with another term at the site. -/
def changed (s : TermSite) (t : Term) : Node :=
  s.node.withPattern (s.node.pattern.withTerm s.position t)

/-- The diagram with another term at the site. -/
def put (s : TermSite) (d : Diagram) (t : Term) : Diagram := d.setNode s.place (s.changed t)

end TermSite

/-! ## What evaluations say -/

/-- The snapshots that have come to a node in some evaluation. -/
def reaching (evaluations : List Evaluation) (index : Int) : List Snapshot :=
  evaluations.flatMap fun e => e.snapshots index

/-- A node in place of another one would have sent on, or emitted, the same in an evaluation. -/
def sameOutgoing (place : Nat) (n : Node) (e : Evaluation) : Except MutationFault Bool :=
  let incoming := e.snapshots place
  match n with
  | .leaf p => do
    let facts ← (incoming.mapM fun s => instantiate p s).mapError fun f =>
      MutationFault.run (.emission f)
    return ListSet.equal facts (e.emittedBy place)
  | .branch p _ _ =>
    let out := propagate p e.facts incoming
    let before := e.outgoing place
    .ok (ListSet.equal out.onMatch before.onMatch && ListSet.equal out.onRefute before.onRefute)

/-- The same in every evaluation. -/
def keepsOutgoing (place : Nat) (n : Node) : List Evaluation → Except MutationFault Bool
  | [] => .ok true
  | e :: rest => do
    if ← sameOutgoing place n e then keepsOutgoing place n rest else return false

/-- Changes the diagram if all that leaves the node stays the same. -/
def changeQuietly (d : Diagram) (s : TermSite) (t : Term) (evaluations : List Evaluation)
    (otherwise : Reason) : Except MutationFault Diagram := do
  rejectIf (!(← keepsOutgoing s.place (s.changed t) evaluations)) otherwise
  return s.put d t

/-! ## Edits -/

/-- An edit of the diagram as a step of a mutation. -/
def step {α : Type} (x : Except EditFault α) : Except MutationFault α := x.mapError .edit

/-- The edited diagram, if the conditions of the mutation hold. -/
def edit (d : Diagram) (m : Mutation) (evaluations : List Evaluation) :
    Except MutationFault Diagram :=
  match m with
  | bindConstant n i r => do
    let s ← TermSite.find d n i
    let v ← s.constant
    rejectIf (s.rebinds r) .reboundRegister
    rejectIf ((reaching evaluations s.place).any fun x => !x.holds r v) (.registerVaries r s.term)
    return s.put d (.reference r)
  | unbindConstant n i v => do
    let s ← TermSite.find d n i
    let r ← s.reference
    rejectIf (s.rebinds r) .reboundRegister
    rejectIf ((reaching evaluations s.place).any fun x => !x.holds r v) (.referenceVaries s.term v)
    return s.put d (.constant v)
  | retargetRegister n i r => do
    let s ← TermSite.find d n i
    let old ← s.reference
    rejectIf (decide (r = old)) .sameRegister
    rejectIf (s.rebinds old || s.rebinds r) .reboundRegister
    rejectIf ((reaching evaluations s.place).any fun x => (x.get? old).all fun v => !x.holds r v)
      (.registersDisagree s.term r)
    return s.put d (.reference r)
  | replaceFreeRegister n i r => do
    let s ← TermSite.find d n i
    let old ← s.free
    rejectIf (decide (r = old)) .sameRegister
    changeQuietly d s (.free r) evaluations .snapshotsChange
  | replaceConstant n i v => do
    let s ← TermSite.find d n i
    let old ← s.constant
    rejectIf (decide (Same old v)) .sameConstant
    changeQuietly d s (.constant v) evaluations .outputChanges
  | spliceEdge n e => do
    let target ← match e with
      | .root => pure (some d.root)
      | .onMatch => do pure (← findBranch d n).2.2.1
      | .onRefute => do pure (← findBranch d n).2.2.2
    step ((d.append [.branch .passThrough target target]).withEdge n e (some d.size))
  | collapsePassThrough n => do
    let (place, p, target, other) ← findBranch d n
    rejectIf (!p.isPassThrough) .notPassThrough
    rejectIf (decide (target ≠ other)) .edgesDiffer
    rejectIf (decide (target = some (place : Int))) .loopsOntoItself
    rejectIf (decide (target = none ∧ d.root = place)) .rootWithoutTarget
    let parents := (d.parents (some (place : Int))).filter fun (source, _) =>
      decide (source ≠ some (place : Int))
    let result ← step (parents.foldlM (fun d (source, e) => d.withEdge source e target) d)
    step (result.removeNode place)
  | duplicateNode n => do
    let (place, _, child, other) ← findBranch d n
    match child with
    | none => reject .noSharedChild
    | some child =>
      rejectIf (decide (other ≠ some child)) .noSharedChild
      rejectIf (decide (child = place)) .ownChild
      let copied ← step (d.node child)
      step ((d.append [copied]).withEdge n .onRefute (some d.size))
  | mergeNodes n => do
    let (place, _, kept, dropped) ← findBranch d n
    match kept, dropped with
    | some kept, some dropped =>
      rejectIf (decide (kept = dropped)) .noTwoChildren
      rejectIf (decide (dropped = place)) .ownRefuteChild
      let a ← step (d.node kept)
      let b ← step (d.node dropped)
      rejectIf (!decide (Same a b)) .childrenDiffer
      let result ← step (d.withEdge n .onRefute (some kept))
      let stillUsed := result.edges.any fun (source, _, t) =>
        decide (t = some dropped ∧ source ≠ some dropped)
      if stillUsed then return result
      else step (result.removeNode dropped)
    | _, _ => reject .noTwoChildren
  | redirectEdge n e target => do
    match target with
    | some t => rejectIf (!inRange d.size t) (.noSuchTarget t)
    | none => pure ()
    match e with
    | .root => rejectIf target.isNone .rootEdgeWithoutTarget
    | _ => discard (findBranch d n)
    step (d.withEdge n e target)
  | replaceTerm n i t => do
    let s ← TermSite.find d n i
    return s.put d t
  | replacePredicate n p ts => do
    let (place, node) ← findNode d n
    let pattern ← match p, ts with
      | none, _ => pure Pattern.passThrough
      | some p, some ts => pure ⟨some p, ts⟩
      | some p, none =>
        if p.arity = node.pattern.arity ∧ !node.isPassThrough then pure ⟨some p, node.pattern.terms⟩
        else reject .termsMissing
    return d.setNode place (node.withPattern pattern)
  | graft base nodes root => do
    rejectIf (decide (base ≠ d.size)) (.wrongBase base d.size)
    let grown := d.append nodes
    rejectIf (!inRange grown.size root) (.noSuchRoot root)
    return grown.withRoot root

/-! ## Results -/

/-- **The result of a mutation.** Neutral mutations need evaluations to be judged by. -/
def apply (registry : Option Registry) (d : Diagram) (m : Mutation)
    (evaluations : List Evaluation) : Except MutationFault Diagram := do
  rejectIf (decide (m.effect = .neutral) && evaluations.isEmpty) .noFacts
  let result ← m.edit d evaluations
  match result.fault? registry with
  | some f => reject (.malformed f)
  | none => return result

/-- The evaluations of a diagram on fact sets; one that reaches its round limit is a reason to
reject the mutation. -/
def evaluationsOn (d : Diagram) (inputs : List (List Fact)) (limit : RoundLimit) :
    Except MutationFault (List Evaluation) :=
  inputs.mapM fun facts =>
    match d.evaluate facts limit with
    | .ok e => .ok e
    | .error (.limitReached l) => reject (.limitReached l)
    | .error f => .error (.run f)

/-- The result of a mutation that is judged by evaluations on fact sets. -/
def applyOn (registry : Option Registry) (limit : RoundLimit) (d : Diagram) (m : Mutation)
    (inputs : List (List Fact)) : Except MutationFault Diagram := do
  let evaluations ← if m.effect = .neutral then evaluationsOn d inputs limit else pure []
  m.apply registry d evaluations

end Mutation

end RuleDiagram
