import RuleDiagram.Diagram.Builder
import RuleDiagram.Source.Token
import RuleDiagram.Text.Numeral

/-!
# Reading diagram source

A program is a list of labelled bodies. A body is a pattern with two arms, an asterisk with two arms
for the pass-through pattern, or the word `output` and a pattern for a leaf. An arm stands in braces
and holds nothing, a label, or a nested body with or without a label. A term is a quoted text, a
truth value, a colon and a number or word, or a percent sign and a register, which an arrow and an
underscore make a free term.

Bodies are numbered in the order in which they begin in the text; nesting a body in an arm is the
same as naming it there and defining it elsewhere.

## Main definitions

* `Body`, `Arm`, `Program`: the structure of a program
* `Program.builder`: the builder that holds the bodies of a program in text order
* `Program.ofTokens`: the program of a token list
* `parse`: the diagram of a text
-/

namespace RuleDiagram

/-! ## Programs -/

mutual

/-- The definition of a node. -/
inductive Body where
  | branch (pattern : Pattern) (onMatch onRefute : Arm)
  | leaf (pattern : Pattern)

/-- What an edge leads to: nothing, a labelled node, or a node defined on the spot. -/
inductive Arm where
  | empty
  | label (name : String)
  | body (name : Option String) (body : Body)

end

/-- A program: labelled bodies in text order. -/
abbrev Program := List (String × Body)

/-- The name of the node that an arm leads to, if a body in it has the given index. -/
def Arm.ref (index : Nat) : Arm → Option (NodeRef Int)
  | .empty => none
  | .label name => some (.label name)
  | .body .. => some (.index index)

mutual

/-- The slots of a body and the bodies in its arms, from the given index on, with their labels. -/
def Body.slots (index : Nat) (name : Option String) : Body → List (Option String × Slot Pattern Int)
  | .leaf p => [(name, .leaf p)]
  | .branch p m r =>
    let inMatch := m.slots (index + 1)
    let next := index + 1 + inMatch.length
    (name, .branch p (m.ref (index + 1)) (r.ref next)) :: (inMatch ++ r.slots next)

/-- The slots of the bodies in an arm, from the given index on, with their labels. -/
def Arm.slots (index : Nat) : Arm → List (Option String × Slot Pattern Int)
  | .empty => []
  | .label _ => []
  | .body name b => b.slots index name

end

/-- The slots of a program, from the given index on, with their labels. -/
def Program.slots (index : Nat) : Program → List (Option String × Slot Pattern Int)
  | [] => []
  | (name, b) :: rest =>
    let first := b.slots index (some name)
    first ++ Program.slots (index + first.length) rest

/-- The builder whose slots are the bodies of a program in text order. -/
def Program.builder (registry : Registry) (program : Program) : Builder Pattern Int :=
  let slots := program.slots 0
  { registry := some registry
    slots := slots.map fun (_, slot) => some slot
    labels := slots.zipIdx.filterMap fun ((name, _), i) => name.map fun n => (n, i)
    root := none }

/-! ## Faults -/

/-- Why a text is no program of a well-formed diagram. -/
inductive ParseFault where
  | program (f : ProgramFault)
  | quote (f : QuoteFault)
  /-- A numeral has more digits than are read. -/
  | longNumeral (digits : Nat)
  | builder (f : BuilderFault)
deriving DecidableEq

namespace ParseFault

/-- The fault in words. -/
def message : ParseFault → String
  | program f => f.message
  | quote f => f.message
  | longNumeral digits => overlongText digits
  | builder f => f.message

end ParseFault

/-! ## Numbers -/

/-- The integer that a number token without fraction and exponent stands for. -/
def integerOf (text : String) : Except ParseFault Int :=
  let cs := text.toList
  let negative := decide (cs.head? = some '-')
  let digits := if negative then cs.drop 1 else cs
  if digitLimit < digits.length then .error (.longNumeral digits.length)
  else
    let n : Int := naturalOfDigits digits
    .ok (if negative then -n else n)

/-- The floating-point number that a number token stands for. -/
def floatOf (text : String) : Binary64 := realOfNumeral text.toList

/-! ## Steps of a parse -/

/-- A parse under way: the tokens ahead, the end of the text, and the labels defined so far. -/
structure ParseState where
  ahead : List Token
  stop : Position
  labels : List String

/-- A step of a parse: a result with the state after it, or a fault. -/
abbrev Parsing (α : Type) := ParseState → Except ParseFault (α × ParseState)

namespace ParseState

/-- The next token; at the end of the text the token that stands for the end. -/
def next (s : ParseState) : Token := s.ahead.headD ⟨.stop, "", s.stop⟩

/-- The token after the next. -/
def second (s : ParseState) : Token := (s.ahead.drop 1).headD ⟨.stop, "", s.stop⟩

/-- The state after the next tokens. -/
def skip (s : ParseState) (count : Nat) : ParseState := { s with ahead := s.ahead.drop count }

/-- A fault at a token. -/
def fault {α : Type} (t : Token) (cause : ProgramCause) : Except ParseFault α :=
  .error (.program ⟨cause, t.position⟩)

/-- The next token is the given punctuation mark or the arrow. -/
def isAt (s : ParseState) (mark : String) : Bool :=
  (s.next.kind = .punctuation || s.next.kind = .arrow) && s.next.text = mark

/-- The state after the given punctuation mark. -/
def expect (s : ParseState) (mark : String) : Except ParseFault ParseState :=
  if s.isAt mark then .ok (s.skip 1) else fault s.next (.expected ("'" ++ mark ++ "'") s.next.text)

/-- The next token, which must be of the given kind, and the state after it. -/
def expectKind (kind : TokenKind) (what : String) : Parsing Token := fun s =>
  if s.next.kind = kind then .ok (s.next, s.skip 1) else fault s.next (.expected what s.next.text)

end ParseState

open ParseState

/-! ## Terms and patterns -/

/-- The constant after a colon. -/
def parseConstant : Parsing Term := fun s =>
  let t := s.next
  match t.kind with
  | .int => do return (.constant (.int (← integerOf t.text)), s.skip 1)
  | .float => .ok (.constant (.float (floatOf t.text)), s.skip 1)
  | .word => .ok (.constant (.text t.text), s.skip 1)
  | _ => fault t .expectedConstant

/-- The register after a percent sign, and whether the term is free. -/
def parseRegister : Parsing Term := fun s => do
  let (register, s) ← expectKind .int "a register number" s
  if register.text.toList.head? = some '-' then fault register .negativeRegister
  else if s.isAt "<-" then
    let (hole, s) ← expectKind .word "'_'" (s.skip 1)
    if hole.text ≠ "_" then fault hole .expectedHole
    else return (.free (← integerOf register.text), s)
  else return (.reference (← integerOf register.text), s)

/-- A term. -/
def parseTerm : Parsing Term := fun s =>
  let t := s.next
  if t.kind = .quote then
    match unquoted t.text with
    | .ok text => .ok (.constant (.text text), s.skip 1)
    | .error f => .error (.quote f)
  else if t.kind = .word ∧ t.text = "true" then .ok (.constant (.bool true), s.skip 1)
  else if t.kind = .word ∧ t.text = "false" then .ok (.constant (.bool false), s.skip 1)
  else if s.isAt ":" then parseConstant (s.skip 1)
  else if s.isAt "%" then parseRegister (s.skip 1)
  else fault t (.expected "a term" t.text)

/-- Terms separated by commas, at most the given number of them after the first. -/
def parseTerms : Nat → Parsing (List Term)
  | 0, s => do
    let (t, s) ← parseTerm s
    return ([t], s)
  | bound + 1, s => do
    let (t, s) ← parseTerm s
    if s.isAt "," then
      let (ts, s) ← parseTerms bound (s.skip 1)
      return (t :: ts, s)
    else return ([t], s)

/-- A pattern on a registered predicate. -/
def parsePattern (registry : Registry) : Parsing Pattern := fun s => do
  let (name, s) ← expectKind .word "a predicate name" s
  match registry.find? name.text with
  | none => fault name (.unknownPredicate name.text)
  | some p =>
    let s ← s.expect "("
    if s.isAt ")" then return (⟨some p, []⟩, s.skip 1)
    else
      let (terms, s) ← parseTerms s.ahead.length s
      let s ← s.expect ")"
      return (⟨some p, terms⟩, s)

/-! ## Bodies and programs -/

/-- Records the label of a body about to be defined. -/
def defineLabel (t : Token) (s : ParseState) : Except ParseFault ParseState :=
  if t.text ∈ s.labels then fault t (.duplicateLabel t.text)
  else .ok { s with labels := t.text :: s.labels }

/-- The next token is a word that the given mark follows. -/
def ParseState.isWordThen (s : ParseState) (mark : String) : Bool :=
  s.next.kind = .word && s.second.kind = .punctuation && s.second.text = mark

mutual

/-- A body. The bound exceeds the number of tokens ahead, so it is never met. -/
def parseBody (registry : Registry) : Nat → Parsing Body
  | 0, s => fault s.next (.expected "a predicate name" s.next.text)
  | bound + 1, s =>
    if s.isAt "*" then do
      let (m, s) ← parseArm registry bound (s.skip 1)
      let (r, s) ← parseArm registry bound s
      return (.branch .passThrough m r, s)
    else if s.next.kind = .word ∧ s.next.text = "output" ∧ s.second.kind = .word then do
      let (p, s) ← parsePattern registry (s.skip 1)
      return (.leaf p, s)
    else do
      let (p, s) ← parsePattern registry s
      let (m, s) ← parseArm registry bound s
      let (r, s) ← parseArm registry bound s
      return (.branch p m r, s)

/-- An arm. The bound exceeds the number of tokens ahead, so it is never met. -/
def parseArm (registry : Registry) : Nat → Parsing Arm
  | 0, s => fault s.next (.expected "'\x7b'" s.next.text)
  | bound + 1, s => do
    let s ← s.expect "\x7b"
    if s.isAt "\x7d" then return (.empty, s.skip 1)
    else if s.isWordThen "\x7d" then return (.label s.next.text, s.skip 2)
    else if s.isWordThen ":" then
      let inner ← defineLabel s.next (s.skip 2)
      let (b, inner) ← parseBody registry bound inner
      let inner ← inner.expect "\x7d"
      return (.body (some s.next.text) b, inner)
    else
      let (b, s) ← parseBody registry bound s
      let s ← s.expect "\x7d"
      return (.body none b, s)

end

/-- Labelled bodies up to the end of the text, at most the given number of them. -/
def parseDefinitions (registry : Registry) : Nat → Parsing Program
  | 0, s => .ok ([], s)
  | bound + 1, s =>
    if s.ahead = [] then .ok ([], s)
    else do
      let (label, s) ← expectKind .word "a node label" s
      let s ← s.expect ":"
      let s ← defineLabel label s
      let (b, s) ← parseBody registry (s.ahead.length + 1) s
      let (rest, s) ← parseDefinitions registry bound s
      return ((label.text, b) :: rest, s)

/-- The program of a token list. -/
def Program.ofTokens (registry : Registry) (ts : TokenList) : Except ParseFault Program :=
  if ts.tokens = [] then fault ts.stopToken .emptyProgram
  else Prod.fst <$> parseDefinitions registry ts.tokens.length ⟨ts.tokens, ts.stop, []⟩

/-- **The diagram of a text**, if the text is a program of a well-formed diagram. -/
def parse (registry : Registry) (text : String) : Except ParseFault Diagram := do
  let tokens ← (tokenize text).mapError .program
  let program ← Program.ofTokens registry tokens
  (program.builder registry).build.mapError .builder

end RuleDiagram
