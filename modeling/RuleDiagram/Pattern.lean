import RuleDiagram.Predicate
import RuleDiagram.Value

/-!
# Terms and patterns

A pattern is a predicate with one term per argument. A constant matches only its value, a reference
only the value its register holds, and a free term matches anything and binds it into its register.
The pass-through pattern has neither predicate nor terms.

## Main definitions

* `Term`, `Pattern`
* `Pattern.reads`, `Pattern.writes`, `Pattern.writtenBefore`: the registers a pattern touches
* `Pattern.written`: the written form of a pattern
-/

namespace RuleDiagram

/-- A term of a pattern. -/
inductive Term where
  | constant (v : Value)
  | reference (register : Int)
  | free (register : Int)
deriving DecidableEq, Inhabited

namespace Term

instance : Canonical Term where
  canonical
    | constant v => constant (canonical v)
    | t => t

/-- The kind of a term, as a number: constants, references, free terms. -/
def kind : Term → Nat
  | constant _ => 0
  | reference _ => 1
  | free _ => 2

/-- The register a free term writes. -/
def written? : Term → Option Int
  | free r => some r
  | _ => none

/-- The register a reference reads. -/
def read? : Term → Option Int
  | reference r => some r
  | _ => none

/-- The value of a constant. -/
def constant? : Term → Option Value
  | constant v => some v
  | _ => none

/-- The written form of a term. -/
def written : Term → Except Untextual String
  | constant v => v.written
  | reference r => do return "%" ++ (← writtenInteger r)
  | free r => do return "%" ++ (← writtenInteger r) ++ " <- _"

/-- The description of a term as a record. -/
def described : Term → String
  | constant v => "Constant(value=" ++ v.described ++ ")"
  | reference r => "Reference(register=" ++ integerText r ++ ")"
  | free r => "Free(register=" ++ integerText r ++ ")"

end Term

/-- Inserts an integer into an ascending list, unless it is there. -/
def insertAscending (n : Int) : List Int → List Int
  | [] => [n]
  | m :: rest =>
    if n < m then n :: m :: rest
    else if n = m then m :: rest
    else m :: insertAscending n rest

/-- The integers of a list, ascending and each once. -/
def ascending (ns : List Int) : List Int := ns.foldl (fun sorted n => insertAscending n sorted) []

/-- The place that an index stands for in a list of the given length: negative indices count from
the end. -/
def place? (length : Nat) (index : Int) : Option Nat :=
  let place := if index < 0 then index + length else index
  if 0 ≤ place ∧ place < length then some place.toNat else none

/-- The members of a list before an index, where negative indices count from the end. -/
def before {α : Type} (xs : List α) (index : Int) : List α :=
  xs.take (if index < 0 then index + xs.length else index).toNat

/-- The written list of members between brackets, a single member followed by a comma. -/
def tupleText (members : List String) : String :=
  match members with
  | [only] => "(" ++ only ++ ",)"
  | _ => "(" ++ ", ".intercalate members ++ ")"

/-- A predicate with one term per argument; without a predicate, the pass-through pattern. -/
structure Pattern where
  predicate : Option Predicate
  terms : List Term
deriving DecidableEq, Inhabited

namespace Pattern

instance : Canonical Pattern := ⟨fun p => ⟨p.predicate, canonical p.terms⟩⟩

def passThrough : Pattern := ⟨none, []⟩

def isPassThrough (p : Pattern) : Bool := p.predicate.isNone

def arity (p : Pattern) : Nat := p.terms.length

/-- The registers read through references, ascending. -/
def reads (p : Pattern) : List Int := ascending (p.terms.filterMap Term.read?)

/-- The registers written through free terms, ascending. -/
def writes (p : Pattern) : List Int := ascending (p.terms.filterMap Term.written?)

/-- The registers mentioned, ascending. -/
def registers (p : Pattern) : List Int := ascending (p.reads ++ p.writes)

/-- The values of the constants, from left to right. -/
def constants (p : Pattern) : List Value := p.terms.filterMap Term.constant?

/-- A free term left of the position writes the register. -/
def writtenBefore (p : Pattern) (position register : Int) : Bool :=
  (before p.terms position).any fun t => decide (t.written? = some register)

/-- The pattern with another term at a place. -/
def withTerm (p : Pattern) (place : Nat) (t : Term) : Pattern := ⟨p.predicate, p.terms.set place t⟩

/-- The written form: an asterisk for the pass-through pattern, otherwise the name and the written
terms. -/
def written (p : Pattern) : Except Untextual String :=
  match p.predicate with
  | none => .ok "*"
  | some q => do
    let terms ← p.terms.mapM Term.written
    return q.name ++ "(" ++ ", ".intercalate terms ++ ")"

/-- The description of a pattern as a record. -/
def described (p : Pattern) : String :=
  "Pattern(predicate=" ++ (p.predicate.map Predicate.described).getD "None" ++
    ", terms=" ++ tupleText (p.terms.map Term.described) ++ ")"

end Pattern

end RuleDiagram
