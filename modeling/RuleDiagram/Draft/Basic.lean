import RuleDiagram.Diagram.Basic
import RuleDiagram.Draft.Item

/-!
# Drafts of diagrams

A draft comes from a source that promises nothing: any item of data may stand where an index, a
register, a term or a node should be. A draft that has integers for indices and registers is a
diagram.

## Main definitions

* `Draft`: a diagram in the making
* `Draft.described`, `Draft.signature`: its description, and the digest of it
* `Draft.same`: drafts that count as one
* `Draft.ofDiagram`, `Draft.diagram?`: diagrams as drafts, and back
-/

namespace RuleDiagram

namespace Draft

/-- A term, or some item in its place. -/
inductive Term where
  | constant (v : Value)
  | reference (register : Item)
  | free (register : Item)
  | other (x : Item)

structure Pattern where
  predicate : Option Predicate
  terms : List Term

/-- A node, or some item in its place. The absent value stands for an edge without a target. -/
inductive Node where
  | branch (pattern : Pattern) (onMatch onRefute : Item)
  | leaf (pattern : Pattern)
  | other (x : Item)

end Draft

/-- A diagram in the making. -/
structure Draft where
  nodes : List Draft.Node
  root : Item

namespace Draft

def size (d : Draft) : Nat := d.nodes.length

/-! ## Descriptions and written forms -/

/-- The description of a term of a draft. -/
def Term.described : Term → String
  | constant v => "Constant(value=" ++ v.described ++ ")"
  | reference x => "Reference(register=" ++ x.described ++ ")"
  | free x => "Free(register=" ++ x.described ++ ")"
  | other x => x.described

def Pattern.described (p : Pattern) : String :=
  "Pattern(predicate=" ++ (p.predicate.map Predicate.described).getD "None" ++
    ", terms=" ++ tupleText (p.terms.map Term.described) ++ ")"

/-- The description of a node of a draft. -/
def Node.described : Node → String
  | branch p m r =>
    "Branch(pattern=" ++ p.described ++ ", match=" ++ m.described ++
      ", refute=" ++ r.described ++ ")"
  | leaf p => "Leaf(pattern=" ++ p.described ++ ")"
  | other x => x.described

/-- The description of a draft: root and nodes. -/
def described (d : Draft) : String :=
  "(" ++ d.root.described ++ ", " ++ tupleText (d.nodes.map Node.described) ++ ")"

/-- The digest of the description. -/
def signature (d : Draft) : String := digest d.described

/-- The written form of a term of a draft. -/
def Term.written : Term → Except Untextual String
  | constant v => v.written
  | reference r => .ok ("%" ++ r.shown)
  | free r => .ok ("%" ++ r.shown ++ " <- _")
  | other x => .ok x.shown

/-- The written form of a pattern of a draft. -/
def Pattern.written (p : Pattern) : Except Untextual String :=
  match p.predicate with
  | none => .ok "*"
  | some q => do
    let terms ← p.terms.mapM Term.written
    return q.name ++ "(" ++ ", ".intercalate terms ++ ")"

/-! ## Sameness -/

/-- Two terms count as one: terms of one kind with the same register or value. -/
def Term.same : Term → Term → Bool
  | constant v, constant w => decide (Same v w)
  | reference x, reference y => x.same y
  | free x, free y => x.same y
  | other x, other y => x.same y
  | _, _ => false

def Pattern.same (p q : Pattern) : Bool :=
  decide (p.predicate = q.predicate) && decide (p.terms.length = q.terms.length) &&
    (p.terms.zip q.terms).all fun (t, u) => t.same u

/-- Two nodes count as one: nodes of one kind with the same pattern and the same targets. -/
def Node.same : Node → Node → Bool
  | branch p m r, branch q n s => p.same q && m.same n && r.same s
  | leaf p, leaf q => p.same q
  | other x, other y => x.same y
  | _, _ => false

/-- Two drafts count as one. -/
def same (d e : Draft) : Bool :=
  d.root.same e.root && decide (d.size = e.size) &&
    (d.nodes.zip e.nodes).all fun (m, n) => m.same n

/-! ## Diagrams -/

/-- A term as one of a draft. -/
def Term.ofTerm : RuleDiagram.Term → Term
  | .constant v => constant v
  | .reference r => reference (.int r)
  | .free r => free (.int r)

/-- A pattern as one of a draft. -/
def Pattern.ofPattern (p : RuleDiagram.Pattern) : Pattern := ⟨p.predicate, p.terms.map Term.ofTerm⟩

/-- An optional target as an item. -/
def targetItem (t : Option Int) : Item := (t.map Item.int).getD .absent

/-- A node as one of a draft. -/
def Node.ofNode : RuleDiagram.Node → Node
  | .branch p m r => branch (.ofPattern p) (targetItem m) (targetItem r)
  | .leaf p => leaf (.ofPattern p)

/-- A diagram as a draft. -/
def ofDiagram (d : Diagram) : Draft := ⟨d.nodes.map Node.ofNode, .int d.root⟩

section Reading

variable (int? : Item → Option Int)

/-- The optional target that an item is. -/
def readTarget (x : Item) : Option (Option Int) := if x.isAbsent then some none else some <$> int? x

/-- The term that a term of a draft is. -/
def Term.read : Term → Option RuleDiagram.Term
  | constant v => some (.constant v)
  | reference x => RuleDiagram.Term.reference <$> int? x
  | free x => RuleDiagram.Term.free <$> int? x
  | other _ => none

/-- The pattern that a pattern of a draft is. -/
def Pattern.read (p : Pattern) : Option RuleDiagram.Pattern :=
  RuleDiagram.Pattern.mk p.predicate <$> p.terms.mapM (Term.read int?)

/-- The node that a node of a draft is. -/
def Node.read : Node → Option RuleDiagram.Node
  | branch p m r => do
    return .branch (← p.read int?) (← readTarget int? m) (← readTarget int? r)
  | leaf p => RuleDiagram.Node.leaf <$> p.read int?
  | other _ => none

/-- The diagram that a draft is, if its indices and registers are integers by a way to read them. -/
def read (d : Draft) : Option Diagram := do
  return ⟨← d.nodes.mapM (Node.read int?), ← int? d.root⟩

end Reading

/-- The diagram that a draft is, if its indices and registers are integers. -/
def diagram? (d : Draft) : Option Diagram := d.read Item.int?

/-- The diagram that a draft stands for where truth values count as integers. -/
def countedDiagram? (d : Draft) : Option Diagram := d.read Item.integer?

end Draft

end RuleDiagram
