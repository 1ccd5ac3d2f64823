import RuleDiagram.Diagram.Validity

/-!
# Building diagrams node by node

A builder hands out slots in order; each becomes the node of its index. Slots may carry labels, and
edges may name their targets by index or by label, including labels given later; names are resolved
when the diagram is built. A call that fails keeps what it had done before it failed. Patterns are
not looked into before the diagram is built, and indices only where they name a slot, so a builder
is one for any types of them.

## Main definitions

* `SlotIndex`: what may serve as an index
* `NodeRef`, `Slot`, `Builder`
* `Builder.reserve`, `Builder.define`, `Builder.link`, `Builder.setRoot`: the calls
* `Builder.build`: the diagram of a builder
-/

namespace RuleDiagram

/-- A type of indices of slots. -/
class SlotIndex (ι : Type) where
  ofSlot : Nat → ι
  /-- The integer that an index is. -/
  int? : ι → Option Int
  /-- The index is among the first so many naturals, if it is a number at all. -/
  within? : ι → Nat → Option Bool
  shown : ι → String
  described : ι → String

instance : SlotIndex Int where
  ofSlot slot := slot
  int? := some
  within? i count := some (inRange count i)
  shown := integerText
  described := integerText

/-- A node named by its index or by a label. -/
inductive NodeRef (ι : Type) where
  | index (i : ι)
  | label (name : String)
deriving DecidableEq

/-- The description of a name. -/
def NodeRef.described {ι : Type} [SlotIndex ι] : NodeRef ι → String
  | index i => SlotIndex.described i
  | label name => literal name

/-- The definition of a node whose targets are still names. -/
inductive Slot (π ι : Type) where
  | branch (pattern : π) (onMatch onRefute : Option (NodeRef ι))
  | leaf (pattern : π)
deriving DecidableEq

/-- Why a call of a builder fails. -/
inductive BuilderFault where
  | diagram (f : Fault)
  | duplicateLabel (name : String)
  | undefinedLabel (name : String)
  | unknownPredicate (name : String)
  | notReserved (index : String)
  | notBranch (source : String)
  | neverDefined (index : Nat)
  /-- An index names no slot. -/
  | noSuchSlot
  /-- A slot was to be named and none was. -/
  | noSlotNamed
deriving DecidableEq

namespace BuilderFault

/-- The fault in words. -/
def message : BuilderFault → String
  | diagram f => f.message
  | duplicateLabel name => "duplicate label '" ++ name ++ "'"
  | undefinedLabel name => "undefined label '" ++ name ++ "'"
  | unknownPredicate name => "unknown predicate '" ++ name ++ "'"
  | notReserved i => "index " ++ i ++ " is not a reserved slot"
  | notBranch source => source ++ " is not a branch"
  | neverDefined i => "node " ++ numeral i ++ ": reserved node was never defined"
  | noSuchSlot => "There is no such slot."
  | noSlotNamed => "No slot was named."

/-- The node at which the fault lies, if it lies at one. -/
def node? : BuilderFault → Option Int
  | diagram f => f.node
  | neverDefined i => some i
  | _ => none

end BuilderFault

/-- The state of a builder: its slots in order, reserved ones empty, the labels with the slots they
stand for, and the chosen root. -/
structure Builder (π ι : Type) where
  registry : Option Registry
  slots : List (Option (Slot π ι))
  labels : List (String × Nat)
  root : Option (NodeRef ι)

/-- A call of a builder; its effects up to a fault stay. -/
abbrev Building (π ι : Type) := ExceptT BuilderFault (StateM (Builder π ι))

namespace Builder

variable {π ι : Type} [SlotIndex ι]

/-- The builder without slots. -/
def empty (registry : Option Registry) : Builder π ι := ⟨registry, [], [], none⟩

/-- The latest slot. -/
def last? (b : Builder π ι) : Option Nat :=
  if b.slots.isEmpty then none else some (b.slots.length - 1)

/-- The slot is reserved and not defined yet. -/
def isReserved (b : Builder π ι) (slot : Nat) : Bool :=
  match b.slots[slot]? with
  | some none => true
  | _ => false

/-- Gives a slot a label that no other slot has. -/
def label (name : String) (slot : Nat) : Building π ι Unit := do
  match (← get).labels.lookup name with
  | some i => if i = slot then return else throw (.duplicateLabel name)
  | none => modify fun b => { b with labels := b.labels ++ [(name, slot)] }

/-- Reserves the next slot, with or without a label. -/
def reserve (name : Option String) : Building π ι Nat := do
  let slot := (← get).slots.length
  modify fun b => { b with slots := b.slots ++ [none] }
  if let some name := name then label name slot
  return slot

/-- The registered predicate of a name. -/
def predicate (name : String) : Building π ι Predicate := do
  match (← get).registry.bind fun r => r.find? name with
  | some p => return p
  | none => throw (.unknownPredicate name)

/-- The reserved slot that an index names. -/
def reservedSlot (b : Builder π ι) (i : ι) : Building π ι Nat :=
  match SlotIndex.within? i b.slots.length, SlotIndex.int? i with
  | some true, some slot =>
    if b.isReserved slot.toNat then pure slot.toNat else throw (.notReserved (SlotIndex.shown i))
  | some false, _ => throw (.notReserved (SlotIndex.shown i))
  | _, _ => throw .noSlotNamed

/-- Defines a node: in the next slot, or in the reserved slot of an index. -/
def define (slot : Slot π ι) (name : Option String) (at? : Option ι) : Building π ι Unit := do
  let place ← match at? with
    | none => reserve none
    | some i => reservedSlot (← get) i
  if let some name := name then label name place
  modify fun b => { b with slots := b.slots.set place (some slot) }

/-- Chooses the root. -/
def setRoot (target : Option (NodeRef ι)) : Building π ι Unit :=
  modify fun b => { b with root := target }

/-- The index that a name stands for. -/
def resolve (b : Builder π ι) : NodeRef ι → Except BuilderFault ι
  | .index i => .ok i
  | .label name =>
    match b.labels.lookup name with
    | some slot => .ok (SlotIndex.ofSlot slot)
    | none => .error (.undefinedLabel name)

/-- Sets the target of an edge of a branch defined before; the source is ignored for
the root edge. -/
def link (source : Option (NodeRef ι)) (e : Edge) (target : Option (NodeRef ι)) :
    Building π ι Unit := do
  if e = .root then setRoot target
  else
    match source with
    | none => throw .noSlotNamed
    | some source =>
      let b ← get
      let index ← liftExcept (b.resolve source)
      match SlotIndex.int? index with
      | none => throw .noSlotNamed
      | some i =>
        match place? b.slots.length i with
        | none => throw .noSuchSlot
        | some place =>
          match b.slots[place]? with
          | some (some (.branch p m r)) =>
            let slot := if e = .onMatch then Slot.branch p target r else Slot.branch p m target
            modify fun b => { b with slots := b.slots.set place (some slot) }
          | _ => throw (.notBranch source.described)
where
  /-- A fault of a resolution is a fault of the call. -/
  liftExcept {α : Type} : Except BuilderFault α → Building π ι α
    | .ok x => pure x
    | .error f => throw f

/-- The node of a slot with its names resolved, made of a pattern and, for a branch, two targets. -/
def node {ν : Type} (b : Builder π ι) (branch : π → Option ι → Option ι → ν) (leaf : π → ν)
    (slot : Option (Slot π ι)) (index : Nat) : Except BuilderFault ν :=
  match slot with
  | none => .error (.neverDefined index)
  | some (.leaf p) => .ok (leaf p)
  | some (.branch p m r) => do return branch p (← m.mapM b.resolve) (← r.mapM b.resolve)

/-- The nodes of all slots. -/
def nodes {ν : Type} (b : Builder π ι) (branch : π → Option ι → Option ι → ν) (leaf : π → ν) :
    Except BuilderFault (List ν) :=
  b.slots.zipIdx.mapM fun (slot, i) => b.node branch leaf slot i

/-- The index of the root: the chosen one, otherwise the slot labelled as root, otherwise the
first. -/
def rootIndex (b : Builder π ι) : Except BuilderFault ι :=
  match b.root with
  | some target => b.resolve target
  | none => .ok (SlotIndex.ofSlot ((b.labels.lookup "root").getD 0))

/-- The diagram of the slots. -/
def assemble (b : Builder Pattern Int) : Except BuilderFault Diagram := do
  return ⟨← b.nodes .branch .leaf, ← b.rootIndex⟩

/-- The diagram of the slots, if it is well formed. -/
def build (b : Builder Pattern Int) : Except BuilderFault Diagram := do
  (Diagram.validate b.registry (← b.assemble)).mapError .diagram

end Builder

end RuleDiagram
