import RuleDiagram.Number.Decimal

/-!
# Quoted text

A quoted text stands between double quotes and holds ASCII characters only: a quote or backslash is
written after a backslash, the usual controls have letter escapes, and every other character outside
the printable ASCII range is written by its 16-bit units. Reading also accepts unescaped characters
beyond ASCII and an escaped slash.

## Main definitions

* `quoted`: the quoted form of a text
* `unquoted`: the text that a quoted form stands for, or the first fault in it
-/

namespace RuleDiagram

/-- The hexadecimal digits of a natural, in lower case, filled up with zeros to a width. -/
def hexadecimal (width n : Nat) : List Char := padZeros width (Nat.toDigits 16 n)

/-- The escape of one 16-bit unit. -/
def unitEscape (unit : Nat) : List Char := '\\' :: 'u' :: hexadecimal 4 unit

/-- The code point just above the ones that fit one 16-bit unit. -/
def supplementaryStart : Nat := 0x10000

/-- The quoted form of one character. -/
def quotedChar (c : Char) : List Char :=
  let n := c.toNat
  if c = '"' ∨ c = '\\' then ['\\', c]
  else if c = '\n' then ['\\', 'n']
  else if c = '\r' then ['\\', 'r']
  else if c = '\t' then ['\\', 't']
  else if n = 12 then ['\\', 'f']
  else if n = 8 then ['\\', 'b']
  else if 32 ≤ n ∧ n ≤ 126 then [c]
  else if n < supplementaryStart then unitEscape n
  else
    let offset := n - supplementaryStart
    unitEscape (0xD800 + offset / 0x400) ++ unitEscape (0xDC00 + offset % 0x400)

/-- The quoted form of a text. -/
def quoted (s : String) : String := String.ofList ('"' :: s.toList.flatMap quotedChar ++ ['"'])

/-- What is wrong with a quoted text, and at which offset. -/
inductive QuoteFault where
  | controlCharacter (offset : Nat)
  | unknownEscape (offset : Nat)
  | badUnit (offset : Nat)
  | unterminated
deriving DecidableEq

namespace QuoteFault

def offset : QuoteFault → Nat
  | controlCharacter n | unknownEscape n | badUnit n => n
  | unterminated => 0

def reason : QuoteFault → String
  | controlCharacter _ => "Invalid control character at"
  | unknownEscape _ => "Invalid \\escape"
  | badUnit _ => "Invalid \\uXXXX escape"
  | unterminated => "Unterminated string starting at"

/-- The fault in words. A faulty text has no line break before its fault. -/
def message (f : QuoteFault) : String :=
  f.reason ++ ": line 1 column " ++ numeral (f.offset + 1) ++ " (char " ++ numeral f.offset ++ ")"

end QuoteFault

/-- The value of a hexadecimal digit of either case. -/
def hexValue? (c : Char) : Option Nat :=
  if '0' ≤ c ∧ c ≤ '9' then some (c.toNat - 48)
  else if 'a' ≤ c ∧ c ≤ 'f' then some (c.toNat - 87)
  else if 'A' ≤ c ∧ c ≤ 'F' then some (c.toNat - 55)
  else none

/-- The 16-bit unit that four hexadecimal digits stand for. -/
def unitOf? (a b c d : Char) : Option Nat := do
  let a ← hexValue? a
  let b ← hexValue? b
  let c ← hexValue? c
  let d ← hexValue? d
  return ((a * 16 + b) * 16 + c) * 16 + d

/-- The character of a single unit; the replacement character for half of a pair. -/
def unitChar (unit : Nat) : Char :=
  if 0xD800 ≤ unit ∧ unit < 0xE000 then Char.ofNat 0xFFFD else Char.ofNat unit

/-- The character of a pair of units. -/
def pairChar (high low : Nat) : Char :=
  Char.ofNat (supplementaryStart + (high - 0xD800) * 0x400 + (low - 0xDC00))

/-- The character after a backslash, other than the one that opens a unit, and what
it stands for. -/
def escapedChar? (c : Char) : Option Char :=
  if c = '"' ∨ c = '\\' ∨ c = '/' then some c
  else if c = 'b' then some (Char.ofNat 8)
  else if c = 'f' then some (Char.ofNat 12)
  else if c = 'n' then some '\n'
  else if c = 'r' then some '\r'
  else if c = 't' then some '\t'
  else none

/-- What the characters after a backslash at the given offset stand for, and how many of them belong
to the escape. Two units that form a pair are one escape. -/
def escapeAfter (offset : Nat) : List Char → Except QuoteFault (Char × Nat)
  | 'u' :: a :: b :: c :: d :: rest =>
    match unitOf? a b c d with
    | none => .error (.badUnit (offset + 1))
    | some unit =>
      match rest with
      | '\\' :: 'u' :: a' :: b' :: c' :: d' :: _ =>
        if 0xD800 ≤ unit ∧ unit < 0xDC00 then
          match unitOf? a' b' c' d' with
          | none => .error (.badUnit (offset + 7))
          | some next =>
            if 0xDC00 ≤ next ∧ next < 0xE000 then .ok (pairChar unit next, 11)
            else .ok (unitChar unit, 5)
        else .ok (unitChar unit, 5)
      | _ => .ok (unitChar unit, 5)
  | 'u' :: _ => .error (.badUnit (offset + 1))
  | c :: _ =>
    match escapedChar? c with
    | some e => .ok (e, 1)
    | none => .error (.unknownEscape offset)
  | [] => .error .unterminated

/-- Reads on from the given offset inside a quoted text, up to the closing quote, after skipping the
given number of characters. -/
def unquotedFrom (offset skip : Nat) : List Char → Except QuoteFault (List Char)
  | [] => .error .unterminated
  | c :: rest =>
    match skip with
    | skip + 1 => unquotedFrom (offset + 1) skip rest
    | 0 =>
      if c = '"' then .ok []
      else if c = '\\' then
        match escapeAfter offset rest with
        | .ok (e, length) => (e :: ·) <$> unquotedFrom (offset + 1) length rest
        | .error fault => .error fault
      else if c.toNat < 32 then .error (.controlCharacter offset)
      else (c :: ·) <$> unquotedFrom (offset + 1) 0 rest

/-- The text that a quoted form stands for. -/
def unquoted (s : String) : Except QuoteFault String :=
  String.ofList <$> unquotedFrom 0 1 s.toList

end RuleDiagram
