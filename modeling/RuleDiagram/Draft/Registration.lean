import RuleDiagram.Draft.Fault

/-!
# Registration of items

A vocabulary may come as items of which nothing is promised. Whatever has two parts stands for a
predicate, the first part being its name and the second its arity; the predicates are registered one
by one, and the first item that fails is what is wrong with the vocabulary.

## Main definitions

* `Item.parts`, `Item.predicate`: an item as a collection, and as a predicate
* `Registry.registerAll`, `Registry.ofItem`: registration
* `Registry.lookup`, `Registry.fetch`, `Registry.declared?`, `Registry.codeOf`,
  `Registry.ofArity`: lookups by items
-/

namespace RuleDiagram

namespace Item

/-- The parts of a collection: the items of a list, the characters of a text, the names in a
record. -/
def parts : Item → Except DraftFault (List Item)
  | list items => .ok items
  | record fields => .ok (fields.map fun (name, _) => value (.text name))
  | value (.text s) => .ok (s.toList.map fun c => value (.text c.toString))
  | value _ => .error .unsuited

/-- The predicate that an item of two parts stands for. -/
def predicate (x : Item) : Except DraftFault Predicate := do
  match ← x.parts with
  | [name, arity] => return ⟨name.shown, ← arity.whole⟩
  | parts => throw (.wrongCount parts.length)

end Item

namespace Registry

/-- Registers the predicate that an item stands for. -/
def register (r : Registry) (x : Item) : Except DraftFault Registry := do
  (r.add (← x.predicate)).mapError .registration

/-- Registers the predicates of a vocabulary in order. -/
def registerAll (r : Registry) (vocabulary : Item) : Except DraftFault Registry := do
  (← vocabulary.parts).foldlM register r

/-- The registry of a vocabulary. -/
def ofItem (vocabulary : Item) : Except DraftFault Registry := empty.registerAll vocabulary

/-- The predicate registered under a name; only a text is the name of one. -/
def lookup (r : Registry) (name : Item) : Except DraftFault (Option Predicate) := do
  match ← name.key with
  | .text s => return r.find? s
  | _ => return none

/-- The predicate registered under a name, which has to be there. -/
def fetch (r : Registry) (name : Item) : Except DraftFault Predicate := do
  match ← r.lookup name with
  | some p => return p
  | none => throw (.unknownPredicate name)

/-- The registered predicate with the given name and arity. -/
def declared? (r : Registry) (name arity : Item) : Except DraftFault (Option Predicate) := do
  return (← r.lookup name).filter fun p => (Item.int p.arity).same arity

/-- The code of the registered predicate with the given name and arity. -/
def codeOf (r : Registry) (name arity : Item) : Except DraftFault Nat := do
  discard arity.key
  match (← r.declared? name arity).bind r.code? with
  | some code => return code
  | none => throw (.unregistered name arity)

/-- The registered predicates whose arity is the given item. -/
def ofArity (r : Registry) (arity : Item) : List Predicate :=
  r.predicates.filter fun p => (Item.int p.arity).same arity

end Registry

end RuleDiagram
