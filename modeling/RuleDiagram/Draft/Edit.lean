import RuleDiagram.Draft.Query

/-!
# Editing drafts

Edits of drafts are those of diagrams. They do not check what they put in, so an item stays what it
was; only the removal of a node has to lower indices, and fails at an item that is no number.

## Main definitions

* `Draft.withNode`, `Draft.withEdge`, `Draft.withRoot`, `Draft.append`
* `Draft.remove`: the removal of a node
-/

namespace RuleDiagram

namespace Draft

/-- The draft with another node at an index. -/
def withNode (d : Draft) (index : Item) (n : Node) : Except DraftFault Draft := do
  return { d with nodes := d.nodes.set (← d.place index) n }

def withRoot (d : Draft) (root : Item) : Draft := { d with root := root }

/-- The draft with further nodes at the end. -/
def append (d : Draft) (nodes : List Node) : Draft := { d with nodes := d.nodes ++ nodes }

/-- The draft with another target of an edge; the source is ignored for the root edge. -/
def withEdge (d : Draft) (source : Item) (e : Edge) (target : Item) : Except DraftFault Draft :=
  match e with
  | .root => if target.isAbsent then .error .rootTarget else .ok (d.withRoot target)
  | _ => do d.withNode source (← (← d.owner source).withChild e target)

/-- The index of a node after the removal of another. -/
def shiftIndex (removed target : Item) : Except DraftFault Item :=
  if target.isAbsent then .ok target
  else
    match target.less? removed with
    | some true => .ok target
    | some false => Item.value <$> target.plus (-1)
    | none => .error .unsuited

/-- The node with its targets shifted. -/
def Node.shifted (removed : Item) : Node → Except DraftFault Node
  | .branch p m r => do return .branch p (← shiftIndex removed m) (← shiftIndex removed r)
  | n => .ok n

/-- Drops a node that only its own edges lead to, and lowers the indices above it by one. -/
def removeNode (d : Draft) (index : Item) : Except DraftFault Draft := do
  if d.root.same index then throw (.removesRoot index)
  let isOwn (source : Option Int) : Bool := source.any fun i => (Item.int i).same index
  match (← d.edges).find? fun (source, _, t) => t.same index && !isOwn source with
  | some (source, _, _) => throw (.stillReferenced index (source.getD 0))
  | none =>
    let kept := d.nodes.zipIdx.filterMap fun (n, i) =>
      if (Item.int i).same index then none else some n
    return ⟨← kept.mapM (Node.shifted index), ← shiftIndex index d.root⟩

/-- The same, by the rules for diagrams where the draft is one. -/
def remove (d : Draft) (index : Item) : Except DraftFault Draft :=
  match d.diagram?, index.int? with
  | some e, some i => ((e.removeNode i).map ofDiagram).mapError .ofEdit
  | _, _ => d.removeNode index

end Draft

end RuleDiagram
