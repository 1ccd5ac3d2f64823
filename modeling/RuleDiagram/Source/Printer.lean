import RuleDiagram.Draft.Basic

/-!
# Writing diagram source

A diagram is written with one labelled body per node, in the order of the indices. The root is
labelled as such, every other node by its index, and arms hold labels only.

## Main definitions

* `Diagram.written`: the source of a diagram
* `Draft.written`: the same for a draft, items that are no nodes left out
-/

namespace RuleDiagram

/-- A target label between braces. -/
def armText (label : String) : String := "\x7b" ++ label ++ "\x7d"

/-- One labelled body. -/
def bodyText (label pattern : String) (arms : Option (String × String)) : String :=
  match arms with
  | none => label ++ ": output " ++ pattern
  | some (m, r) => label ++ ": " ++ pattern ++ " " ++ armText m ++ " " ++ armText r

/-- The lines of a text, separated by line breaks and followed by one. -/
def unlines (lines : List String) : String := "\n".intercalate lines ++ "\n"

namespace Diagram

/-- The label of a node. -/
def label (d : Diagram) (index : Int) : String :=
  if index = d.root then "root" else "n" ++ integerText index

/-- The label of an optional target. -/
def targetLabel (d : Diagram) (target : Option Int) : String := (target.map d.label).getD ""

/-- The labelled body of a node. -/
def nodeText (d : Diagram) (index : Nat) (n : Node) : Except Untextual String := do
  let pattern ← n.pattern.written
  return bodyText (d.label index) pattern <|
    match n with
    | .leaf _ => none
    | .branch _ m r => some (d.targetLabel m, d.targetLabel r)

/-- **The source of a diagram**, if all its constants have a written form. -/
def written (d : Diagram) : Except Untextual String :=
  unlines <$> d.nodes.zipIdx.mapM fun (n, i) => d.nodeText i n

end Diagram

namespace Draft

/-- The label of an index in a draft. -/
def label (d : Draft) (index : Item) : String :=
  match index with
  | .value .absent => ""
  | index => if index.same d.root then "root" else "n" ++ index.shown

/-- The source of a draft. -/
def written (d : Draft) : Except Untextual String := do
  let lines ← d.nodes.zipIdx.mapM fun (n, i) =>
    match n with
    | .other _ => pure none
    | .leaf p => do pure (some (bodyText (d.label (.value (.int i))) (← p.written) none))
    | .branch p m r => do
      pure (some (bodyText (d.label (.value (.int i))) (← p.written) (some (d.label m, d.label r))))
  return unlines (lines.filterMap id)

end Draft

end RuleDiagram
