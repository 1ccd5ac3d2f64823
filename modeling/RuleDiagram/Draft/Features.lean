import RuleDiagram.Draft.Flow
import RuleDiagram.Guide.Features

/-!
# Features of drafts

A draft has features as a diagram has them, unless a stray part is in the way. Of a register only
counts which others are the same, and of a target only whether it lies behind its node; so a draft
without such a part has the features of a diagram with other registers and targets.

## Main definitions

* `Draft.standIn`: a diagram with the same features
* `Draft.features`: the features of a draft
-/

namespace RuleDiagram

/-- The fault of the features of a diagram. -/
def DraftFault.ofFeatures : FeatureFault → DraftFault
  | .edit f => ofEdit f
  | .zeroBound => zeroBound

namespace Draft

/-- The register with the place of an item in a list of registers. -/
def registerAmong (registers : List Value) (x : Item) : Int :=
  registers.findIdx fun r => (Item.value r).same x

/-- The index of a target, by its amount. -/
def indexNear (x : Item) : Int := (x.amount?.map Amount.ceiling).getD 0

def Term.standIn (registers : List Value) : Term → RuleDiagram.Term
  | constant v => .constant v
  | reference x | other x => .reference (registerAmong registers x)
  | free x => .free (registerAmong registers x)

def Node.standIn (registers : List Value) : Node → RuleDiagram.Node
  | branch p m r =>
    let target (x : Item) : Option Int := if x.isAbsent then none else some (indexNear x)
    .branch ⟨p.predicate, p.terms.map (Term.standIn registers)⟩ (target m) (target r)
  | leaf p => .leaf ⟨p.predicate, p.terms.map (Term.standIn registers)⟩
  | other _ => .leaf .passThrough

/-- The draft with places of registers for registers and integers for targets. -/
def standIn (d : Draft) (registers : List Value) : Diagram :=
  ⟨d.nodes.map (Node.standIn registers), indexNear d.root⟩

/-- The features of a draft. -/
def features (f : FeatureSpace) (d : Draft) : Except DraftFault (List Share) :=
  match d.diagram? with
  | some e => (f.features e).mapError .ofFeatures
  | none => do
    discard d.reachable
    let targets := (← d.nodes.mapM Node.children).flatten.map Prod.snd
    if targets.any fun t => !t.isAbsent && t.amount?.isNone then throw .unsuited
    if f.maxNodes = 0 then throw .zeroBound
    let registers ← d.registers
    if f.maxRegisters = 0 then throw .zeroBound
    if (← d.nodes.mapM Node.pattern).any fun p => p.terms.any Term.isOther then throw .partless
    (f.features (d.standIn registers)).mapError .ofFeatures

instance : Featured Draft DraftFault := ⟨features⟩

end Draft

end RuleDiagram
