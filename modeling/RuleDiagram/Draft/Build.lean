import RuleDiagram.Diagram.Builder
import RuleDiagram.Draft.Basic

/-!
# Building drafts

A builder takes patterns and indices as they come, so it can build drafts as well; whether they are
some is found out when the draft is validated.

## Main definitions

* `NodeRef.ofItem?`: an item as the name of a node
* `Builder.draft`: the draft of the slots
-/

namespace RuleDiagram

instance : SlotIndex Item where
  ofSlot slot := .int slot
  int? := Item.integer?
  within? x count := do return !(← x.less? (.int 0)) && (← x.less? (.int count))
  shown := Item.shown
  described := Item.described

/-- The node that an item names: texts are labels, the absent value names none. -/
def NodeRef.ofItem? : Item → Option (NodeRef Item)
  | .value .absent => none
  | .value (.text name) => some (.label name)
  | x => some (.index x)

/-- The draft of the slots. -/
def Builder.draft (b : Builder Draft.Pattern Item) : Except BuilderFault Draft := do
  let target (t : Option Item) : Item := t.getD .absent
  return ⟨← b.nodes (fun p m r => .branch p (target m) (target r)) .leaf, ← b.rootIndex⟩

end RuleDiagram
