/-!
# Sources of random numbers

A source is a state from which numbers are drawn, one after another. What is drawn from a source is
drawn through whole numbers up to a bound; nothing else is known of it, so what holds for every
source holds for every behaviour of one.

## Main definitions

* `RandomSource`: states from which numbers are drawn
* `choose?`, `shuffle`, `sample`: an element, an order, and a selection without repetition
* `Congruential`: the linear congruential source of 31 bits
-/

namespace RuleDiagram

/-- States from which numbers are drawn. -/
class RandomSource (σ : Type) where
  /-- A number up to the given one, and the next state. -/
  upTo : (bound : Nat) → σ → Fin (bound + 1) × σ

section

variable {σ : Type} [RandomSource σ] {α : Type}

/-- An element of a list; nothing is drawn from the source if there is none. -/
def choose? (xs : List α) (s : σ) : Option α × σ :=
  match xs with
  | [] => (none, s)
  | x :: rest =>
    let (i, s) := RandomSource.upTo rest.length s
    (some ((x :: rest).get i), s)

/-- The list with the elements at two places exchanged. -/
def exchange (xs : List α) (i j : Nat) : List α :=
  match xs[i]?, xs[j]? with
  | some x, some y => (xs.set i y).set j x
  | _, _ => xs

/-- Exchanges the elements at the given place and below it, from the top down, each with one that is
not above it. -/
def shuffleFrom : Nat → List α → σ → List α × σ
  | 0, xs, s => (xs, s)
  | i + 1, xs, s =>
    let (j, s) := RandomSource.upTo (i + 1) s
    shuffleFrom i (exchange xs (i + 1) j) s

/-- The elements of a list in some order. -/
def shuffle (xs : List α) (s : σ) : List α × σ := shuffleFrom (xs.length - 1) xs s

/-- As many elements of a list as asked for, taken out one after another, while there are any. -/
def sample : Nat → List α → σ → List α × σ
  | 0, _, s => ([], s)
  | _ + 1, [], s => ([], s)
  | count + 1, x :: rest, s =>
    let (i, s) := RandomSource.upTo rest.length s
    let (others, s) := sample count ((x :: rest).eraseIdx i) s
    ((x :: rest).get i :: others, s)

end

/-- The state of the linear congruential source. -/
structure Congruential where
  state : Nat
deriving DecidableEq

namespace Congruential

/-- States are natural numbers below this one. -/
def modulus : Nat := 2147483648

/-- The state that a seed stands for. -/
def ofSeed (seed : Int) : Congruential := ⟨(seed % modulus).toNat⟩

/-- The next state. -/
def next (s : Congruential) : Congruential := ⟨(s.state * 1103515245 + 12345) % modulus⟩

/-- Numbers are taken from the next state without its eight lowest bits. -/
instance : RandomSource Congruential where
  upTo bound s :=
    let s := s.next
    (Fin.ofNat (bound + 1) (s.state / 256), s)

end Congruential

end RuleDiagram
