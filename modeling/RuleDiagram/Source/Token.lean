import RuleDiagram.Text.Blank
import RuleDiagram.Text.Digit
import RuleDiagram.Text.Identifier
import RuleDiagram.Text.Literal

/-!
# Tokens of diagram source

Source text is cut into lexemes from left to right: runs of blanks and comments from a number sign
to the end of the line, which are dropped, and the tokens arrow, quoted text, number, word and
punctuation. A number may be written in the digits of any script; it is a float if it has a fraction
or an exponent. Every token carries the line and column at which it begins.

## Main definitions

* `Token`, `Position`, `TokenList`
* `lexeme?`: the kind and length of the lexeme at the front of a text
* `tokenize`: the tokens of a text
-/

namespace RuleDiagram

/-- A place in a text: line and column, both counted from one. -/
structure Position where
  line : Nat
  column : Nat
deriving DecidableEq

namespace Position

def start : Position := ⟨1, 1⟩

/-- The place after a character. -/
def next (p : Position) (c : Char) : Position :=
  if c = '\n' then ⟨p.line + 1, 1⟩ else ⟨p.line, p.column + 1⟩

/-- The place after a run of characters. -/
def advance (p : Position) (cs : List Char) : Position := cs.foldl next p

end Position

inductive TokenKind where
  | arrow
  | quote
  | float
  | int
  | word
  | punctuation
  | stop
deriving DecidableEq

namespace TokenKind

def name : TokenKind → String
  | arrow => "arrow"
  | quote => "string"
  | float => "float"
  | int => "int"
  | word => "ident"
  | punctuation => "punct"
  | stop => "eof"

end TokenKind

/-- A token: its kind, its text and the place at which it begins. -/
structure Token where
  kind : TokenKind
  text : String
  position : Position
deriving DecidableEq

/-- The tokens of a text, and the place at which the text ends. -/
structure TokenList where
  tokens : List Token
  stop : Position

/-- The token that stands for the end of the text. -/
def TokenList.stopToken (ts : TokenList) : Token := ⟨.stop, "", ts.stop⟩

/-- What is wrong with a program. -/
inductive ProgramCause where
  | unexpectedCharacter (c : Char)
  /-- Something else stands where something was expected; nothing stands there at the end. -/
  | expected (what found : String)
  | emptyProgram
  | duplicateLabel (name : String)
  | unknownPredicate (name : String)
  | expectedConstant
  | negativeRegister
  | expectedHole
deriving DecidableEq

namespace ProgramCause

/-- The cause in words. -/
def message : ProgramCause → String
  | unexpectedCharacter c => "unexpected character " ++ literal (String.ofList [c])
  | expected what found =>
    "expected " ++ what ++ ", found '" ++ (if found = "" then "end of input" else found) ++ "'"
  | emptyProgram => "empty program"
  | duplicateLabel name => "duplicate label '" ++ name ++ "'"
  | unknownPredicate name => "unknown predicate '" ++ name ++ "'"
  | expectedConstant => "expected a constant after ':'"
  | negativeRegister => "registers are non-negative"
  | expectedHole => "expected '_' after '<-'"

end ProgramCause

/-- A fault of a program and its place. -/
structure ProgramFault where
  cause : ProgramCause
  position : Position
deriving DecidableEq

/-- The fault in words. -/
def ProgramFault.message (f : ProgramFault) : String :=
  "line " ++ numeral f.position.line ++ ", column " ++ numeral f.position.column ++ ": " ++
    f.cause.message

/-- The length of the run of characters of a class at the front of a text. -/
def runLength (p : Char → Bool) (cs : List Char) : Nat := (cs.takeWhile p).length

/-- The length of the rest of a quoted text up to and with its closing quote. A backslash protects
the next character, which must not be a line break. -/
def closingLength? : List Char → Option Nat
  | [] => none
  | '"' :: _ => some 1
  | ['\\'] => none
  | '\\' :: c :: rest => if c = '\n' then none else (closingLength? rest).map (· + 2)
  | _ :: rest => (closingLength? rest).map (· + 1)

/-- The length of the exponent at the front of a text, zero if there is none: a letter E, a sign or
none, and digits. -/
def exponentLength : List Char → Nat
  | [] => 0
  | c :: rest =>
    if c = 'e' ∨ c = 'E' then
      let sign := if rest.head? = some '+' ∨ rest.head? = some '-' then 1 else 0
      let digits := runLength isDigit (rest.drop sign)
      if digits = 0 then 0 else 1 + sign + digits
    else 0

/-- The length of the fraction at the front of a text, zero if there is none: a point and digits. -/
def fractionLength : List Char → Nat
  | '.' :: rest =>
    let digits := runLength isDigit rest
    if digits = 0 then 0 else 1 + digits
  | _ => 0

/-- The kind and length of the number at the front of a text. -/
def numberLexeme? (cs : List Char) : Option (TokenKind × Nat) :=
  let sign := if cs.head? = some '-' then 1 else 0
  let whole := runLength isDigit (cs.drop sign)
  if whole = 0 then none
  else
    let fraction := fractionLength (cs.drop (sign + whole))
    let exponent := exponentLength (cs.drop (sign + whole + fraction))
    some (if fraction + exponent = 0 then .int else .float, sign + whole + fraction + exponent)

/-- The characters of which each is a token by itself. -/
def punctuationMarks : List Char := [':', '(', ')', '\x7b', '\x7d', ',', '%', '*']

/-- The kind and length of the lexeme at the front of a text. Blanks and comments have no kind. -/
def lexeme? (cs : List Char) : Option (Option TokenKind × Nat) :=
  match cs with
  | [] => none
  | c :: rest =>
    if isBlank c then some (none, runLength isBlank cs)
    else if c = '#' then some (none, 1 + runLength (fun d => decide (d ≠ '\n')) rest)
    else if c = '<' then if rest.head? = some '-' then some (some .arrow, 2) else none
    else if c = '"' then (closingLength? rest).map fun n => (some .quote, n + 1)
    else if isWordStart c then some (some .word, runLength isWordPart cs)
    else if c ∈ punctuationMarks then some (some .punctuation, 1)
    else (numberLexeme? cs).map fun (kind, n) => (some kind, n)

/-- Cuts a text into at most the given number of lexemes. -/
def tokensFrom : Nat → Position → List Char → Except ProgramFault TokenList
  | 0, p, _ => .ok ⟨[], p⟩
  | _ + 1, p, [] => .ok ⟨[], p⟩
  | bound + 1, p, c :: cs =>
    match lexeme? (c :: cs) with
    | none => .error ⟨.unexpectedCharacter c, p⟩
    | some (kind?, length) => do
      let chunk := (c :: cs).take length
      let ts ← tokensFrom bound (p.advance chunk) ((c :: cs).drop length)
      match kind? with
      | some kind => return { ts with tokens := ⟨kind, String.ofList chunk, p⟩ :: ts.tokens }
      | none => return ts

/-- The tokens of a text. A lexeme has at least one character, so there are no more of them than
characters. -/
def tokenize (text : String) : Except ProgramFault TokenList :=
  tokensFrom text.toList.length .start text.toList

end RuleDiagram
