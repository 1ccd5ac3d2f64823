import RuleDiagram.Pattern

/-!
# Facts

A fact is a predicate applied to as many values as it has arguments. Facts are ordered by their
predicate's name and then by their written form.

## Main definitions

* `Fact`, `Fact.make`
* `Fact.asPattern`: the pattern that matches exactly this fact
* `sortFacts`: the facts of a list in order
-/

namespace RuleDiagram

/-- A predicate applied to values, one for each of its arguments. -/
structure Fact where
  predicate : Predicate
  values : List Value
  length_values : (values.length : Int) = predicate.arity
deriving DecidableEq

/-- A predicate was applied to the wrong number of values. -/
structure ArityMismatch where
  predicate : Predicate
  count : Nat

/-- The failure in words. -/
def ArityMismatch.message (f : ArityMismatch) : String :=
  "Fact for " ++ f.predicate.shown ++ " has " ++ numeral f.count ++ " values."

namespace Fact

instance : Canonical Fact :=
  ⟨fun f => ⟨f.predicate, f.values.map canonical, by simpa using f.length_values⟩⟩

/-- The fact that applies a predicate to values. -/
def make (predicate : Predicate) (values : List Value) : Except ArityMismatch Fact :=
  if h : (values.length : Int) = predicate.arity then .ok ⟨predicate, values, h⟩
  else .error ⟨predicate, values.length⟩

/-- The pattern of constants that matches exactly this fact. -/
def asPattern (f : Fact) : Pattern := ⟨some f.predicate, f.values.map Term.constant⟩

/-- The written form of a fact. -/
def written (f : Fact) : Except Untextual String := do
  let values ← f.values.mapM Value.written
  return f.predicate.name ++ "(" ++ ", ".intercalate values ++ ")"

end Fact

/-- The place of a fact in the order of facts: name, then written form. -/
structure FactKey where
  name : String
  text : String

namespace FactKey

/-- The order of keys: names first, then texts, both by code points. -/
def le (a b : FactKey) : Bool :=
  decide (a.name < b.name) || (decide (a.name = b.name) && !decide (b.text < a.text))

end FactKey

/-- The facts of a list in order; facts with equal keys keep their order. -/
def sortFacts (facts : List Fact) : Except Untextual (List Fact) := do
  let keyed ← facts.mapM fun f => do return (FactKey.mk f.predicate.name (← f.written), f)
  return (keyed.mergeSort fun a b => a.1.le b.1).map Prod.snd

end RuleDiagram
