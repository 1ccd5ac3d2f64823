import RuleDiagram.Diagram.Validity
import RuleDiagram.Run.Evaluation

/-!
# Why a mutation is rejected

A mutation is rejected for a reason, and the reason is put into words. Some reasons mention a term;
a constant without a written form cannot be mentioned, and the attempt is a fault of its own.

## Main definitions

* `Reason`, `Reason.message`
* `MutationFault`: a rejection, or one of the faults that are none
-/

namespace RuleDiagram

/-- The kind of term that a mutation expects. -/
inductive TermKind where
  | constant
  | reference
  | free
deriving DecidableEq

def TermKind.name : TermKind → String
  | constant => "Constant"
  | reference => "Reference"
  | free => "Free"

/-- Why a mutation is rejected. -/
inductive Reason where
  | unknownMutation
  | noFacts
  | limitReached (limit : RoundLimit)
  | malformed (f : Fault)
  | noSuchNode (index : Option Int)
  | isLeaf (index : Int)
  | positionOutOfRange (position : Int)
  | otherTerm (t : Term) (expected : TermKind)
  | reboundRegister
  | sameRegister
  | sameConstant
  | registerVaries (register : Int) (t : Term)
  | referenceVaries (t : Term) (v : Value)
  | registersDisagree (t : Term) (register : Int)
  | snapshotsChange
  | outputChanges
  | notPassThrough
  | edgesDiffer
  | loopsOntoItself
  | rootWithoutTarget
  | noSharedChild
  | ownChild
  | noTwoChildren
  | ownRefuteChild
  | childrenDiffer
  | noSuchTarget (target : Int)
  | rootEdgeWithoutTarget
  | termsMissing
  | wrongBase (base : Int) (size : Nat)
  | noSuchRoot (root : Int)

/-- A reason in words. -/
def Reason.message : Reason → Except Untextual String
  | unknownMutation => .ok "unknown mutation type"
  | noFacts => .ok "neutral mutations need at least one reference fact set"
  | limitReached l => .ok l.message
  | malformed f => .ok f.message
  | noSuchNode i => .ok ("node " ++ describedIndex i ++ " does not exist")
  | isLeaf i => .ok ("node " ++ integerText i ++ " is a leaf")
  | positionOutOfRange i => .ok ("position " ++ integerText i ++ " out of range")
  | otherTerm t expected => do return "term " ++ (← t.written) ++ " is not a " ++ expected.name
  | reboundRegister => .ok "register is rebound earlier in the pattern"
  | sameRegister => .ok "register is unchanged"
  | sameConstant => .ok "constant is unchanged"
  | registerVaries r t => do
    return "%" ++ integerText r ++ " does not always hold " ++ (← t.written)
  | referenceVaries t v => do return (← t.written) ++ " does not always hold " ++ v.described
  | registersDisagree t r => do return (← t.written) ++ " and %" ++ integerText r ++ " disagree"
  | snapshotsChange => .ok "outgoing snapshot sets would change"
  | outputChanges => .ok "node output would change"
  | notPassThrough => .ok "node is not a pass-through"
  | edgesDiffer => .ok "pass-through edges lead to different nodes"
  | loopsOntoItself => .ok "pass-through loops onto itself"
  | rootWithoutTarget => .ok "root pass-through has no target"
  | noSharedChild => .ok "edges do not share a child"
  | ownChild => .ok "parent is its own child"
  | noTwoChildren => .ok "edges do not lead to two distinct nodes"
  | ownRefuteChild => .ok "parent is its own refute child"
  | childrenDiffer => .ok "children are not identical"
  | noSuchTarget t => .ok ("target " ++ integerText t ++ " does not exist")
  | rootEdgeWithoutTarget => .ok "the root edge needs a target"
  | termsMissing => .ok "arity changes and no terms were given"
  | wrongBase base size =>
    .ok ("graft base " ++ integerText base ++ " != diagram size " ++ numeral size)
  | noSuchRoot r => .ok ("root " ++ integerText r ++ " does not exist")

/-- Why a mutation gives no diagram. -/
inductive MutationFault where
  /-- The mutation is rejected. -/
  | invalid (r : Reason)
  /-- The reason of a rejection cannot be put into words. -/
  | untextual (f : Untextual)
  /-- An evaluation fails for another reason than its round limit. -/
  | run (f : RunFault)
  | edit (f : EditFault)

/-- Rejects a mutation. -/
def reject {α : Type} (r : Reason) : Except MutationFault α :=
  match r.message with
  | .ok _ => .error (.invalid r)
  | .error f => .error (.untextual f)

/-- Rejects a mutation if a condition holds. -/
def rejectIf (condition : Bool) (r : Reason) : Except MutationFault Unit :=
  if condition then reject r else .ok ()

end RuleDiagram
