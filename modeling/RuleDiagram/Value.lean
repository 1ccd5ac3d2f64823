import RuleDiagram.Sameness
import RuleDiagram.Text.Identifier
import RuleDiagram.Text.Literal
import RuleDiagram.Text.Numeral

/-!
# Values

The constants of a diagram, the arguments of facts and the contents of registers. Truth values,
integers and floating-point numbers are compared by the number they stand for, so `true`, `1` and
`1.0` count as one value; texts never equal numbers.

## Main definitions

* `Value`: texts, truth values, integers, floating-point numbers and the absent value
* `Value.written`: the written form of a value in diagram source, if it has one
* `Value.described`: the description of a value in messages and signatures
-/

namespace RuleDiagram

/-- A value. -/
inductive Value where
  | text (s : String)
  | bool (b : Bool)
  | int (n : Int)
  | float (x : Binary64)
  | absent
deriving DecidableEq, Inhabited

/-- A value without a written form was to be written. -/
structure Untextual where
  value : Value

/-- The written form of an integer, unless it has more digits than would be read again. -/
def writtenInteger (n : Int) : Except Untextual String :=
  if digitLimit < digitCount n.natAbs then .error ⟨.int n⟩ else .ok (integerText n)

namespace Value

/-- The number a truth value stands for. -/
def ofTruth (b : Bool) : Int := if b then 1 else 0

/-- The canonical form: numbers that stand for an integer become that integer. -/
instance : Canonical Value where
  canonical
    | bool b => int (ofTruth b)
    | float x =>
      match x.whole? with
      | some n => int n
      | none => float x
    | v => v

/-- The description of a value: texts as literals, the truth values and the absent value by name,
numbers by their digits. -/
def described : Value → String
  | text s => literal s
  | bool b => if b then "True" else "False"
  | int n => integerText n
  | float x => x.text
  | absent => "None"

/-- The written form of a value. Words follow a colon, other texts are quoted; numbers follow a
colon; overlong integers, infinities and the absent value cannot be written. -/
def written (v : Value) : Except Untextual String :=
  match v with
  | bool b => .ok (if b then "true" else "false")
  | int n => do return ":" ++ (← writtenInteger n)
  | float x => if x.isFinite then .ok (":" ++ x.text) else .error ⟨v⟩
  | text s => .ok (if isWord s then ":" ++ s else quoted s)
  | absent => .error ⟨v⟩

end Value

namespace Untextual

/-- The failure in words; of integers, only overlong ones fail. -/
def message (f : Untextual) : String :=
  match f.value with
  | .int _ => "Exceeds the limit (" ++ numeral digitLimit ++ " digits) for integer string " ++
      "conversion; use sys.set_int_max_str_digits() to increase the limit"
  | v => "Constant " ++ v.described ++ " has no textual form."

end Untextual

end RuleDiagram
