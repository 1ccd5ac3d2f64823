import RuleDiagram.Draft.Item
import RuleDiagram.Run.Evaluation
import RuleDiagram.Text.Numeral

/-!
# Why a draft fails

What is asked of a draft, or done to it, fails where a diagram would fail too, and besides where an
item does not do for what it stands for.

## Main definitions

* `DraftFault`, `DraftFault.message`
* `DraftFault.ofEdit`, `DraftFault.ofRun`: faults of diagrams
* `Item.key`, `Item.index`, `Item.plus`, `Item.whole`: an item as a value to look up, an index, a
  summand, a whole number
-/

namespace RuleDiagram

/-- Why something fails on a draft. -/
inductive DraftFault where
  /-- An item is not of the kind that is needed, or several items have no order. -/
  | unsuited
  /-- A stray term has no register, or a stray node neither pattern nor edges. -/
  | partless
  /-- An index names no node. -/
  | noSuchNode
  | unbound (register : Item)
  | limitReached (limit : RoundLimit)
  /-- A number of rounds is no limit. -/
  | noLimit
  | zeroBound
  | rejected (reason : String)
  /-- A text is no numeral of a whole number. -/
  | notWhole (text : String)
  | longNumeral (digits : Nat)
  /-- An infinite number is no whole one. -/
  | infinite
  | registration (f : RegistryFault)
  /-- An item with some number of parts stands for no predicate, which has two. -/
  | wrongCount (parts : Nat)
  | unknownPredicate (name : Item)
  | unregistered (name arity : Item)
  | untextual (f : Untextual)
  | arity (f : ArityMismatch)
  | leafEdge (node : Item)
  | branchRootEdge
  | rootTarget
  | removesRoot (node : Item)
  | stillReferenced (node : Item) (source : Int)

namespace DraftFault

/-- The fault in words. -/
def message : DraftFault → String
  | unsuited => "An item is not of the kind that is needed."
  | partless => "A stray part has no parts of its own."
  | noSuchNode => "There is no such node."
  | unbound r => r.shown
  | limitReached l => l.message
  | noLimit => RoundLimit.complaint
  | zeroBound => "A bound is zero."
  | rejected reason => reason
  | notWhole text =>
    "invalid literal for int() with base 10: " ++ String.ofList ((literal text).toList.take 200)
  | longNumeral digits => overlongText digits
  | infinite => "The number is infinite."
  | registration f => f.message
  | wrongCount parts =>
    if parts < 2 then "not enough values to unpack (expected 2, got " ++ numeral parts ++ ")"
    else "too many values to unpack (expected 2)"
  | unknownPredicate name => "Unknown predicate '" ++ name.shown ++ "'."
  | unregistered n k => "Predicate " ++ n.shown ++ "/" ++ k.shown ++ " is not registered."
  | untextual f => f.message
  | arity f => f.message
  | leafEdge n => "Node " ++ n.shown ++ " is a leaf and has no outgoing edges."
  | branchRootEdge => EditFault.branchRootEdge.message
  | rootTarget => EditFault.rootTarget.message
  | removesRoot n => "Cannot remove root node " ++ n.shown ++ "."
  | stillReferenced n source =>
    "Node " ++ n.shown ++ " is still referenced by node " ++ integerText source ++ "."

/-- The fault of an edit or a query. -/
def ofEdit : EditFault → DraftFault
  | .noSuchNode _ => noSuchNode
  | .noNodeNamed => unsuited
  | .notABranch => partless
  | .leafEdge n => leafEdge (.int n)
  | .branchRootEdge => branchRootEdge
  | .rootTarget => rootTarget
  | .removesRoot n => removesRoot (.int n)
  | .stillReferenced n source => stillReferenced ((n.map Item.int).getD .absent) source

/-- The fault of a run. -/
def ofRun : RunFault → DraftFault
  | .limitReached l => limitReached l
  | .noSuchNode _ => noSuchNode
  | .emission (.unboundRegister r) => unbound (.int r)
  | .emission (.arity f) => arity f
  | .emission .noPredicate => partless

end DraftFault

namespace Item

/-- The value by which something is looked up: lists and records are none. -/
def key : Item → Except DraftFault Value
  | value v => .ok v
  | _ => .error .unsuited

/-- The integer that an index has to be. -/
def index (x : Item) : Except DraftFault Int :=
  match x.integer? with
  | some i => .ok i
  | none => .error .unsuited

/-- The sum of a number and an integer. -/
def plus (x : Item) (n : Int) : Except DraftFault Value :=
  match x.amount? with
  | some (.whole m) => .ok (.int (m + n))
  | some (.float x) => .ok (.float (x.add (.ofInt n)))
  | none => .error .unsuited

/-- The whole number that an item stands for: that of its text, or what is left of a number without
its fraction. -/
def whole : Item → Except DraftFault Int
  | value (.text s) =>
    match readWhole s with
    | .number n => .ok n
    | .overlong digits => .error (.longNumeral digits)
    | .malformed => .error (.notWhole s)
  | value (.float x) =>
    if x.isFinite then .ok (x.units.tdiv unitsPerOne) else .error .infinite
  | x => x.index

end Item

/-- Elements in the order of the values that go with them, if they have one. -/
def arranged {α : Type} (value : α → Value) (xs : List α) : Except DraftFault (List α) :=
  match Value.arrange? value xs with
  | some xs => .ok xs
  | none => .error .unsuited

end RuleDiagram
