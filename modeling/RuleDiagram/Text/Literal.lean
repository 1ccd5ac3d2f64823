import RuleDiagram.Text.Printable
import RuleDiagram.Text.Quoted

/-!
# Text literals

In descriptions of values a text stands between single quotes, or between double quotes if it holds
a single quote and no double quote. Unlike in quoted text, printable characters of all scripts stand
for themselves.
-/

namespace RuleDiagram

/-- The single quote. -/
def singleQuote : Char := '\x27'

/-- The quote that encloses the literal of a text. -/
def literalQuote (s : List Char) : Char :=
  if singleQuote ∈ s ∧ '"' ∉ s then '"' else singleQuote

/-- The form of one character in a literal with the given quote. -/
def literalChar (quote c : Char) : List Char :=
  let n := c.toNat
  if c = quote ∨ c = '\\' then ['\\', c]
  else if c = '\n' then ['\\', 'n']
  else if c = '\r' then ['\\', 'r']
  else if c = '\t' then ['\\', 't']
  else if isPrintable c then [c]
  else if n < 0x100 then '\\' :: 'x' :: hexadecimal 2 n
  else if n < supplementaryStart then '\\' :: 'u' :: hexadecimal 4 n
  else '\\' :: 'U' :: hexadecimal 8 n

/-- The literal of a text. -/
def literal (s : String) : String :=
  let quote := literalQuote s.toList
  String.ofList (quote :: s.toList.flatMap (literalChar quote) ++ [quote])

end RuleDiagram
