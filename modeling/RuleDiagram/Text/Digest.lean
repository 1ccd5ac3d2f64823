import RuleDiagram.Text.Quoted

/-!
# Digest of a text

The 128-bit MD5 digest of the UTF-8 bytes of a text, written as 32 hexadecimal digits.

## Main definitions

* `Digest.State`: the four words of the running state
* `Digest.State.absorb`: the state after one block of 64 bytes
* `digest`: the digest of a text
-/

namespace RuleDiagram

namespace Digest

/-- The four words of the running state. -/
structure State where
  a : UInt32
  b : UInt32
  c : UInt32
  d : UInt32

/-- The state before the first block. -/
def State.start : State := ⟨0x67452301, 0xefcdab89, 0x98badcfe, 0x10325476⟩

/-- The addend of each of the 64 steps: the leading fractional bits of the sines of 1, 2, …, 64. -/
def addends : Array UInt32 := List.toArray
  [0xd76aa478, 0xe8c7b756, 0x242070db, 0xc1bdceee, 0xf57c0faf, 0x4787c62a, 0xa8304613,
   0xfd469501, 0x698098d8, 0x8b44f7af, 0xffff5bb1, 0x895cd7be, 0x6b901122, 0xfd987193,
   0xa679438e, 0x49b40821, 0xf61e2562, 0xc040b340, 0x265e5a51, 0xe9b6c7aa, 0xd62f105d,
   0x02441453, 0xd8a1e681, 0xe7d3fbc8, 0x21e1cde6, 0xc33707d6, 0xf4d50d87, 0x455a14ed,
   0xa9e3e905, 0xfcefa3f8, 0x676f02d9, 0x8d2a4c8a, 0xfffa3942, 0x8771f681, 0x6d9d6122,
   0xfde5380c, 0xa4beea44, 0x4bdecfa9, 0xf6bb4b60, 0xbebfbc70, 0x289b7ec6, 0xeaa127fa,
   0xd4ef3085, 0x04881d05, 0xd9d4d039, 0xe6db99e5, 0x1fa27cf8, 0xc4ac5665, 0xf4292244,
   0x432aff97, 0xab9423a7, 0xfc93a039, 0x655b59c3, 0x8f0ccc92, 0xffeff47d, 0x85845dd1,
   0x6fa87e4f, 0xfe2ce6e0, 0xa3014314, 0x4e0811a1, 0xf7537e82, 0xbd3af235, 0x2ad7d2bb,
   0xeb86d391]

/-- The rotations of the steps: each round of 16 steps repeats its four. -/
def rotations : Array UInt32 := List.toArray
  [7, 12, 17, 22, 5, 9, 14, 20, 4, 11, 16, 23, 6, 10, 15, 21]

def rotateLeft (x amount : UInt32) : UInt32 := (x <<< amount) ||| (x >>> (32 - amount))

/-- One step on the words of a block. -/
def State.step (block : Array UInt32) (s : State) (i : Nat) : State :=
  let mixed : UInt32 × Nat :=
    match i / 16 with
    | 0 => ((s.b &&& s.c) ||| (~~~s.b &&& s.d), i)
    | 1 => ((s.d &&& s.b) ||| (~~~s.d &&& s.c), 5 * i + 1)
    | 2 => (s.b ^^^ s.c ^^^ s.d, 3 * i + 5)
    | _ => (s.c ^^^ (s.b ||| ~~~s.d), 7 * i)
  let sum := mixed.1 + s.a + addends.getD i 0 + block.getD (mixed.2 % 16) 0
  ⟨s.d, s.b + rotateLeft sum (rotations.getD (i / 16 * 4 + i % 4) 0), s.b, s.c⟩

/-- The state after one block of sixteen words. -/
def State.absorb (s : State) (block : Array UInt32) : State :=
  let t := (List.range 64).foldl (State.step block) s
  ⟨s.a + t.a, s.b + t.b, s.c + t.c, s.d + t.d⟩

/-- The bytes of a natural, least significant first. -/
def bytesOf : Nat → Nat → List Nat
  | 0, _ => []
  | count + 1, n => n % 256 :: bytesOf count (n / 256)

/-- The natural with the given bytes, least significant first. -/
def ofBytes (bytes : List Nat) : Nat := bytes.foldr (fun byte n => byte + 256 * n) 0

/-- The bytes followed by a one bit, zeros up to eight bytes short of a whole block, and the length
in bits. -/
def padded (bytes : List Nat) : List Nat :=
  let zeros := (119 - bytes.length % 64) % 64
  bytes ++ 128 :: List.replicate zeros 0 ++ bytesOf 8 (8 * bytes.length)

/-- Splits a list into the given number of consecutive pieces of one size. -/
def pieces {α : Type} (size : Nat) : Nat → List α → List (List α)
  | 0, _ => []
  | count + 1, xs => xs.take size :: pieces size count (xs.drop size)

def wordsOf (block : List Nat) : Array UInt32 :=
  ((pieces 4 16 block).map fun bytes => UInt32.ofNat (ofBytes bytes)).toArray

end Digest

open Digest in
/-- The digest of a text, as hexadecimal digits. -/
def digest (s : String) : String :=
  let bytes := padded (s.toUTF8.toList.map UInt8.toNat)
  let last := (pieces 64 (bytes.length / 64) bytes).foldl (fun t b =>
    t.absorb (wordsOf b)) State.start
  String.ofList ([last.a, last.b, last.c, last.d].flatMap fun word =>
    (bytesOf 4 word.toNat).flatMap (hexadecimal 2))

end RuleDiagram
