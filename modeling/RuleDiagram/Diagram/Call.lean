import RuleDiagram.Diagram.Builder

/-!
# The calls of a builder

What may be asked of a builder, as data. A node is defined by its pattern, whose predicate is either
given or looked up by its name when the node is defined, and a branch by the two targets besides.

## Main definitions

* `PatternRef`, `Definition`, `Call`
* `Call.perform`: a call acts on a builder
* `Call.performAll`: calls one after another, up to the first that fails
* `Building.outcome`: the answer, and the builder that is left
-/

namespace RuleDiagram

variable {π ι : Type}

/-- What is answered at a builder, and the builder that is left. -/
def Building.outcome {α : Type} (x : Building π ι α) (b : Builder π ι) :
    Except BuilderFault α × Builder π ι :=
  x.run.run b

/-- The pattern of a node: a given one, or one to be made of the predicate of a name. -/
inductive PatternRef (π : Type) where
  | given (pattern : π)
  | named (name : String) (make : Predicate → π)

/-- The definition of a node as it is asked for. -/
inductive Definition (π ι : Type) where
  | branch (pattern : PatternRef π) (onMatch onRefute : Option (NodeRef ι))
  | leaf (pattern : PatternRef π)

/-- A call that acts on a builder. A node is defined in the next slot, or in the reserved slot of
an index. -/
inductive Call (π ι : Type) where
  | reserve (name : Option String)
  | define (node : Definition π ι) (name : Option String) (at? : Option ι)
  | link (source : Option (NodeRef ι)) (e : Edge) (target : Option (NodeRef ι))
  | setRoot (target : Option (NodeRef ι))

/-- The pattern that is meant. -/
def PatternRef.find : PatternRef π → Building π ι π
  | given pattern => return pattern
  | named name make => return make (← Builder.predicate name)

/-- The content of the slot of a node. -/
def Definition.slot : Definition π ι → Building π ι (Slot π ι)
  | branch pattern m r => return .branch (← pattern.find) m r
  | leaf pattern => return .leaf (← pattern.find)

namespace Call

variable [SlotIndex ι]

/-- A call acts on a builder. -/
def perform : Call π ι → Building π ι Unit
  | reserve name => do
    let _ ← Builder.reserve name
    return
  | define node name at? => do Builder.define (← node.slot) name at?
  | link source e target => Builder.link source e target
  | setRoot target => Builder.setRoot target

/-- Calls act on a builder in turn. None acts after one that fails. -/
def performAll (calls : List (Call π ι)) : Building π ι Unit := calls.forM perform

end Call

end RuleDiagram
