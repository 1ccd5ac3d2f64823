import RuleDiagram.Text.Blank
import RuleDiagram.Text.Digit
import RuleDiagram.Text.LowerCase

/-!
# Numerals

Numbers written in decimal digits of any script. A numeral that stands alone may have blanks at its
ends, a sign, and underscores between digits; the digits of a whole number are limited in number.

## Main definitions

* `digitLimit`, `overlongText`: the limit, and what is said of a numeral beyond it
* `realOfNumeral`: the number of an unsigned or negative numeral
* `readWhole`, `realOfText?`: numerals that stand alone
-/

namespace RuleDiagram

/-- The greatest number of digits of an integer that is read or written. -/
def digitLimit : Nat := 4300

/-- What is said of a numeral with too many digits. -/
def overlongText (digits : Nat) : String :=
  "Exceeds the limit (" ++ numeral digitLimit ++
    " digits) for integer string conversion: value has " ++
    numeral digits ++ " digits; use sys.set_int_max_str_digits() to increase the limit"

/-- The floating-point number that a numeral stands for, which has no sign but a minus sign and no
blanks. -/
def realOfNumeral (cs : List Char) : Binary64 :=
  let negative := decide (cs.head? = some '-')
  let unsigned := if negative then cs.drop 1 else cs
  let whole := unsigned.takeWhile isDigit
  let afterWhole := unsigned.drop whole.length
  let fraction := if afterWhole.head? = some '.' then (afterWhole.drop 1).takeWhile isDigit else []
  let afterFraction := afterWhole.drop (if fraction = [] then 0 else fraction.length + 1)
  let exponentDigits := afterFraction.filter isDigit
  let magnitude : Int := naturalOfDigits exponentDigits
  let exponent := if '-' ∈ afterFraction then -magnitude else magnitude
  .ofDecimal negative ⟨naturalOfDigits (whole ++ fraction), exponent - fraction.length⟩

/-- The characters without the underscores between digits; nothing if an underscore stands
elsewhere. -/
def ungrouped? (afterDigit : Bool) : List Char → Option (List Char)
  | [] => some []
  | '_' :: rest =>
    if afterDigit && rest.head?.any isDigit then ungrouped? false rest else none
  | c :: rest => (c :: ·) <$> ungrouped? (isDigit c) rest

/-- Whether a minus sign comes first, and the characters after the sign, if there is one. -/
def afterSign (cs : List Char) : Bool × List Char :=
  match cs with
  | '-' :: rest => (true, rest)
  | '+' :: rest => (false, rest)
  | _ => (false, cs)

/-- What a text is as the numeral of a whole number. -/
inductive WholeReading where
  | number (n : Int)
  /-- The digits are too many to be read. -/
  | overlong (digits : Nat)
  | malformed
deriving DecidableEq

/-- Reads a text as a whole number that stands alone. Its digits are counted before anything after
them is looked at. -/
def readWhole (text : String) : WholeReading :=
  let (negative, rest) := afterSign (text.toList.dropWhile isMargin)
  let run := rest.takeWhile fun c => isDigit c || c = '_'
  match ungrouped? false run with
  | none => .malformed
  | some digits =>
    if digitLimit < digits.length then .overlong digits.length
    else if digits = [] || !(rest.drop run.length).all isMargin then .malformed
    else .number (if negative then -naturalOfDigits digits else naturalOfDigits digits)

/-- The characters are the exponent of a numeral. -/
def isExponent (cs : List Char) : Bool :=
  match cs with
  | [] => true
  | c :: rest =>
    let digits := (afterSign rest).2
    (c = 'e' || c = 'E') && !digits.isEmpty && digits.all isDigit

/-- The characters are a numeral without a sign, with or without a fraction and an exponent. -/
def isRealNumeral (cs : List Char) : Bool :=
  let whole := cs.takeWhile isDigit
  match cs.dropWhile isDigit with
  | '.' :: rest =>
    !(whole.isEmpty && (rest.takeWhile isDigit).isEmpty) && isExponent (rest.dropWhile isDigit)
  | rest => !whole.isEmpty && isExponent rest

/-- The floating-point number that a text stands for, infinities and the undefined number by
name. -/
def realOfText? (text : String) : Option Binary64 := do
  let (negative, rest) := afterSign (trimmed isMargin text.toList)
  match lowerCase (String.ofList rest) with
  | "inf" | "infinity" => some (.infinity negative)
  | "nan" => some .undefined
  | _ =>
    let cs ← ungrouped? false rest
    if isRealNumeral cs then some (realOfNumeral (if negative then '-' :: cs else cs)) else none

end RuleDiagram
