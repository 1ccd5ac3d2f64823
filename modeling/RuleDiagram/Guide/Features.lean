import RuleDiagram.Diagram.Flow
import RuleDiagram.Number.Single
import RuleDiagram.Predicate

/-!
# Features of diagrams

A diagram is described by a fixed number of shares: of its size, its shape, the kinds of its terms,
and the predicates of its branches and leaves. A share is an exact quotient, which is rounded to
single precision where numbers are needed.

## Main definitions

* `Share`: a part of a whole
* `FeatureSpace`: the predicates and bounds that features refer to
* `FeatureSpace.features`: the shares of a diagram
* `Featured`: what has features
-/

namespace RuleDiagram

/-- A part of a whole other than zero. -/
structure Share where
  part : Int
  whole : Int
deriving DecidableEq

namespace Share

/-- The share, or all of it if it is more than that. -/
def capped (part whole : Int) : Share :=
  if 0 < whole ∧ whole < part then ⟨1, 1⟩ else ⟨part, whole⟩

/-- The number nearest to a share, rounded to single precision. -/
def toSingle (s : Share) : Binary64 := ((Binary64.ofInt s.part).div (.ofInt s.whole)).toSingle

end Share

/-- The predicates, and the bounds on nodes and registers, that features refer to. -/
structure FeatureSpace where
  predicates : List Predicate
  maxNodes : Int
  maxRegisters : Int

/-- Why a diagram has no features. -/
inductive FeatureFault where
  | edit (f : EditFault)
  | zeroBound

namespace FeatureSpace

/-- The space of a registry with the usual bounds. -/
def standard (r : Registry) : FeatureSpace := ⟨r.predicates, 64, 16⟩

/-- The number of features: eight for shape and size, one for each kind of term, two for each
predicate. -/
def dimension (f : FeatureSpace) : Nat := 8 + 3 + 2 * f.predicates.length

/-- The number of nodes with a property. -/
def countNodes (d : Diagram) (property : Node → Bool) : Nat := (d.nodes.filter property).length

/-- The number of edges of branches that have no target. -/
def openEdges (d : Diagram) : Nat :=
  (d.nodes.flatMap fun n => n.children.filter fun (_, t) => t.isNone).length

/-- The number of edges that lead to their own branch or to an earlier node. -/
def backEdges (d : Diagram) : Nat :=
  (d.nodes.zipIdx.flatMap fun (n, i) => n.targets.filter fun t => decide (t ≤ (i : Int))).length

/-- The shares of shape: reachable nodes, branches, leaves and pass-through branches among the
nodes; open and backward edges among the edges. -/
def shape (d : Diagram) (reachable : Nat) : List Share :=
  let branches := countNodes d Node.isBranch
  let edges := max (2 * branches) 1
  [⟨reachable, d.size⟩, ⟨branches, d.size⟩, ⟨d.size - branches, d.size⟩,
    ⟨countNodes d Node.isPassThrough, d.size⟩, ⟨openEdges d, edges⟩, ⟨backEdges d, edges⟩]

/-- The shares of constants, references and free terms among the terms. -/
def termKinds (d : Diagram) : List Share :=
  let terms := d.nodes.flatMap fun n => n.pattern.terms
  [0, 1, 2].map fun kind =>
    ⟨(terms.filter fun t => decide (t.kind = kind)).length, max terms.length 1⟩

/-- The shares of the branches and of the leaves with a predicate among the nodes. -/
def predicateUse (d : Diagram) (p : Predicate) : List Share :=
  let uses (n : Node) : Bool := decide (n.pattern.predicate = some p)
  [⟨countNodes d fun n => n.isBranch && uses n, d.size⟩,
    ⟨countNodes d fun n => !n.isBranch && uses n, d.size⟩]

/-- **The features of a diagram.** -/
def features (f : FeatureSpace) (d : Diagram) : Except FeatureFault (List Share) := do
  let reachable ← d.reachable.mapError FeatureFault.edit
  if f.maxNodes = 0 ∨ f.maxRegisters = 0 then throw .zeroBound
  return .capped d.size f.maxNodes :: shape d reachable.length ++
    [.capped d.registers.length f.maxRegisters] ++ termKinds d ++
        f.predicates.flatMap (predicateUse d)

end FeatureSpace

/-- What has features, unless a fault is in the way. -/
class Featured (δ : Type) (φ : outParam Type) where
  features : FeatureSpace → δ → Except φ (List Share)

instance : Featured Diagram FeatureFault := ⟨FeatureSpace.features⟩

end RuleDiagram
