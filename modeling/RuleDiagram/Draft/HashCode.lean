import RuleDiagram.Draft.Query
import RuleDiagram.Draft.Snapshot

/-!
# Hash codes

Whether two things are hashed alike. Numbers are hashed by their residue modulo a Mersenne prime, so
numbers that count as one have one code; the texts but for the empty one and the absent value have
codes of their own. A predicate is hashed like its name and arity together, a term like the register
or value that it holds.

## Main definitions

* `HashCode`, `Value.hashCode`, `Predicate.hashCodes`
* `Draft.Pattern.hashCodes`, `Draft.Snapshot.hashCodes`: codes of the parts of a pattern or snapshot
-/

namespace RuleDiagram

/-- The hash code of a value. -/
inductive HashCode where
  | number (n : Int)
  | text (s : String)
  | absent
deriving DecidableEq

namespace HashCode

/-- The prime modulus of the codes of numbers, one less than the power `2 ^ 61`. -/
def modulus : Nat := 2305843009213693951

/-- The inverse of `2 ^ 1074` modulo the prime, for `2 ^ 61` is one. -/
def unit : Nat := 16777216

/-- The code of an infinite number. -/
def infinity : Int := 314159

/-- The code of a signed residue; minus one is no code. -/
def signed (negative : Bool) (residue : Int) : HashCode :=
  let n := if negative then -residue else residue
  number (if n = -1 then -2 else n)

end HashCode

/-- The hash code of a value. -/
def Value.hashCode : Value → HashCode
  | .text s => if s = "" then .number 0 else .text s
  | .bool b => .number (ofTruth b)
  | .int n => .signed (decide (n < 0)) (n.natAbs % HashCode.modulus : Nat)
  | .float x =>
    if x.isFinite then .signed x.negative (x.magnitude * HashCode.unit % HashCode.modulus : Nat)
    else .signed x.negative HashCode.infinity
  | .absent => .absent

/-- The codes of the name and the arity of a predicate. -/
def Predicate.hashCodes (p : Predicate) : HashCode × HashCode :=
  ((Value.text p.name).hashCode, (Value.int p.arity).hashCode)

namespace Draft

/-- The code of what a term holds, and whether it is a term that holds it. -/
def Term.hashCode : Term → Except DraftFault (Bool × HashCode)
  | constant v => .ok (true, v.hashCode)
  | reference x | free x => do return (true, (← x.key).hashCode)
  | other x => do return (false, (← x.key).hashCode)

/-- The codes of the predicate of a pattern and of its terms. -/
def Pattern.hashCodes (p : Pattern) :
    Except DraftFault (Option (HashCode × HashCode) × List (Bool × HashCode)) := do
  return (p.predicate.map Predicate.hashCodes, ← p.terms.mapM Term.hashCode)

/-- The codes of the bindings of a snapshot. -/
def Snapshot.hashCodes (s : Snapshot) : List (HashCode × HashCode) :=
  s.bindings.map fun b => (b.1.hashCode, b.2.hashCode)

end Draft

end RuleDiagram
