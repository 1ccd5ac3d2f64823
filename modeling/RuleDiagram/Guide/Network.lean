import RuleDiagram.Number.Amount
import RuleDiagram.Number.Single

/-!
# Feed-forward networks

A network is a list of affine layers. Between two layers negative numbers become zero; the last
layer has one output, the prediction. All numbers are of single precision.

## Main definitions

* `Layer`, `Network`
* `Network.predict`: the prediction for an input
* `Network.gradient`: how a quantity changes with each parameter
-/

namespace RuleDiagram

/-- An affine map: for each output a row of weights and a bias. -/
structure Layer where
  weights : List (List Binary64)
  bias : List Binary64

/-- The layers of a network, from input to output. -/
abbrev Network := List Layer

/-- The sum of the products of corresponding numbers, added from left to right. -/
def dot (xs ys : List Binary64) : Binary64 :=
  (List.zip xs ys).foldl (fun sum (x, y) => Single.fused sum x y) .zero

/-- The number itself, or zero if it is below. -/
def rectify (x : Binary64) : Binary64 := if x.atMost .zero then .zero else x

namespace Layer

/-- The outputs of a layer. -/
def apply (l : Layer) (xs : List Binary64) : List Binary64 :=
  List.zipWith (fun row b => Single.add (dot row xs) b) l.weights l.bias

/-- The layer with a function applied to each parameter. -/
def map (f : Binary64 → Binary64) (l : Layer) : Layer :=
  ⟨l.weights.map fun row => row.map f, l.bias.map f⟩

/-- Two layers of one shape, parameter by parameter. -/
def zipWith (f : Binary64 → Binary64 → Binary64) (k l : Layer) : Layer :=
  ⟨List.zipWith (List.zipWith f) k.weights l.weights, List.zipWith f k.bias l.bias⟩

/-- All parameters of a layer. -/
def parameters (l : Layer) : List Binary64 := l.weights.flatten ++ l.bias

/-- How the parameters of a layer change a quantity that changes with its outputs as given; the
products are not rounded. -/
def slope (xs change : List Binary64) : Layer :=
  ⟨change.map fun c => xs.map fun x => c.mul x, change⟩

/-- How the inputs of a layer change a quantity that changes with its outputs as given. -/
def inputChange (l : Layer) (inputs : Nat) (change : List Binary64) : List Binary64 :=
  (List.zip l.weights change).foldl
    (fun sums (row, c) => List.zipWith (fun s w => Single.fused s c w) sums row)
    (List.replicate inputs .zero)

end Layer

namespace Network

/-- The value that a network starts from for a parameter: the parameters of each of its weight
tables and bias rows run through nine steps from minus one half to one half. -/
def startValue (row index : Nat) : Binary64 := .ofQuotient (((5 * index + 3 * row) % 9 : Nat) - 4) 8

/-- The layer with the given numbers of inputs and outputs, at a place in a network. -/
def startLayer (place inputs outputs : Nat) : Layer :=
  ⟨(List.range outputs).map fun o =>
      (List.range inputs).map fun i => startValue (2 * place) (o * inputs + i),
    (List.range outputs).map fun o => startValue (2 * place + 1) o⟩

/-- The layers from a place on, for the given number of inputs and the widths of the
inner layers. -/
def startFrom (place inputs : Nat) : List Nat → Network
  | [] => [startLayer place inputs 1]
  | width :: rest => startLayer place inputs width :: startFrom (place + 1) width rest

/-- The network that training starts from. -/
def start (inputs : Nat) (widths : List Nat) : Network := startFrom 0 inputs widths

/-- The numbers of outputs and inputs of the layers. -/
def shapes (n : Network) : List (Nat × Nat) :=
  n.map fun l => (l.weights.length, (l.weights.headD []).length)

/-- The outputs of a network. -/
def outputs : Network → List Binary64 → List Binary64
  | [], xs => xs
  | [l], xs => l.apply xs
  | l :: rest, xs => outputs rest ((l.apply xs).map rectify)

/-- The prediction of a network. -/
def predict (n : Network) (xs : List Binary64) : Binary64 := (outputs n xs).headD .zero

/-- How each parameter changes a quantity, given how the outputs change it; with how
the inputs do. -/
def gradient : Network → List Binary64 → (List Binary64 → List Binary64) → Network × List Binary64
  | [], xs, change => ([], change xs)
  | [l], xs, change =>
    let c := change (l.apply xs)
    ([Layer.slope xs c], l.inputChange xs.length c)
  | l :: rest, xs, change =>
    let ys := l.apply xs
    let (slopes, inner) := gradient rest (ys.map rectify) change
    let c := List.zipWith (fun y d => if y.atMost .zero then Binary64.zero else d) ys inner
    (Layer.slope xs c :: slopes, l.inputChange xs.length c)

/-- Two networks of one shape, parameter by parameter. -/
def zipWith (f : Binary64 → Binary64 → Binary64) (m n : Network) : Network :=
  List.zipWith (Layer.zipWith f) m n

/-- The network with a function applied to each parameter. -/
def map (f : Binary64 → Binary64) (n : Network) : Network := List.map (Layer.map f) n

end Network

end RuleDiagram
