import RuleDiagram.Fact
import RuleDiagram.Snapshot

/-!
# Unification and emission

A pattern meets the values of a fact under a snapshot. Its terms are taken from left to right, so a
free term binds a register that later references of the same pattern read. The pattern of a leaf is
a template: filled from a snapshot it gives a fact.

## Main definitions

* `Term.unify`, `unify`: the extended snapshot, if the values fit
* `instantiate`: the fact that a template and a snapshot give
-/

namespace RuleDiagram

/-- One term meets one value. -/
def Term.unify (t : Term) (v : Value) (s : Snapshot) : Option Snapshot :=
  match t with
  | constant w => if Same w v then some s else none
  | reference r => if s.holds r v then some s else none
  | free r => some (s.bind r v)

/-- Terms meet values from left to right, as long as there are both. -/
def unify : List Term → List Value → Snapshot → Option Snapshot
  | t :: terms, v :: values, s => (t.unify v s).bind (unify terms values)
  | [], _, s => some s
  | _ :: _, [], s => some s

/-- Why a template gives no fact. -/
inductive EmissionFault where
  | unboundRegister (register : Int)
  | arity (f : ArityMismatch)
  | noPredicate

/-- The value that a term of a template stands for. -/
def Term.instantiate (t : Term) (s : Snapshot) : Except EmissionFault Value :=
  match t with
  | constant v => .ok v
  | reference r | free r =>
    match s.get? r with
    | some v => .ok v
    | none => .error (.unboundRegister r)

/-- The fact that a template gives under a snapshot. -/
def instantiate (p : Pattern) (s : Snapshot) : Except EmissionFault Fact := do
  let values ← p.terms.mapM fun t => t.instantiate s
  match p.predicate with
  | none => .error .noPredicate
  | some q => (Fact.make q values).mapError .arity

end RuleDiagram
