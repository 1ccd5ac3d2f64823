import RuleDiagram.Proofs.Number.Sign
import RuleDiagram.Proofs.Outcome
import RuleDiagram.Proofs.Search.Fitness
import RuleDiagram.Search.Weights

/-!
# Reductions of weights

The weights of groups are floating-point numbers, and so is what they are reduced to: one of them,
their sum or their mean. If none of them is below zero, neither is the result, for a mean divides
by a count, which is not zero.

## Main definitions

* `Reduction.extremeOf`, `Reduction.ofFloats`: the reductions, on floating-point numbers

## Main results

* `Reduction.reduceFrom_floats`: weights that are floating-point numbers are reduced as such
* `Reduction.less_zero_ofFloats`: reductions of numbers that are not below zero
* `Reduction.position_extremeOf_le`: the least number is not above any other
-/

namespace RuleDiagram

open Binary64

/-- A natural number is not negative, and zero only if it is. -/
theorem nonnegative_ofInt (n : ℕ) :
    (Binary64.ofInt n).Nonnegative ∧ ((Binary64.ofInt n).position = 0 ↔ n = 0) := by
  obtain ⟨hnonpositive, hzero⟩ := Scoring.nonpositive_neg_ofInt n
  rw [position_neg, neg_eq_zero] at hzero
  exact ⟨nonnegative_iff_neg.2 hnonpositive, hzero⟩

namespace Reduction

variable {first : Binary64} {rest : List Binary64}

theorem mapM_amount (xs : List Binary64) :
    (xs.map Value.float).mapM amount = .ok (xs.map Amount.float) := by
  rw [List.mapM_eq_ok_iff, List.forall₂_map_left_iff, List.forall₂_map_right_iff]
  exact List.forall₂_same.2 fun x _ => rfl

/-- The sum of floating-point numbers is taken as such, for it starts from zero. -/
theorem sum?_floats (first : Binary64) (rest : List Binary64) :
    Amount.sum? ((first :: rest).map .float) = some (.float (Binary64.sum (first :: rest))) := by
  have hzero : (Amount.whole 0).real? = some .zero := by decide +kernel
  have hfold (x : Binary64) (xs : List Binary64) :
      (xs.map Amount.float).foldlM Amount.add? (.float x) =
        some (.float (xs.foldl Binary64.add x)) := by
    induction xs generalizing x with
    | nil => rfl
    | cons y ys ih => exact ih (x.add y)
  -- The whole zero at the start becomes a floating-point one with the first number.
  have hfirst : Amount.add? (.whole 0) (.float first) =
      some (.float (Binary64.zero.add first)) := by
    unfold Amount.add?
    dsimp only
    rw [hzero]
    rfl
  rw [Amount.sum?, List.map_cons, List.foldlM_cons, hfirst]
  exact hfold _ rest

theorem total_floats (first : Binary64) (rest : List Binary64) :
    total ((first :: rest).map .float) = .ok (.float (Binary64.sum (first :: rest))) := by
  refine Except.bind_eq_ok_iff.2 ⟨_, mapM_amount _, ?_⟩
  rw [sum?_floats]
  rfl

/-- The first of the numbers that come before all others. -/
def extremeOf (before : Binary64 → Binary64 → Bool) (first : Binary64) (rest : List Binary64) :
    Binary64 :=
  rest.foldl (fun best y => if before y best then y else best) first

theorem extreme_floats {before? : Value → Value → Option Bool} {before : Binary64 → Binary64 → Bool}
    (hbefore : ∀ x y, before? (.float x) (.float y) = some (before x y)) (first : Binary64)
    (rest : List Binary64) :
    extreme before? (.float first) (rest.map .float) =
      .ok (.float (extremeOf before first rest)) := by
  induction rest generalizing first with
  | nil => rfl
  | cons y rest ih =>
    refine Eq.trans ?_ (ih (if before y first then y else first))
    rw [extreme, List.map_cons, List.foldlM_cons, hbefore]
    cases before y first <;> rfl

theorem extremeOf_mem (before : Binary64 → Binary64 → Bool) (first : Binary64)
    (rest : List Binary64) : extremeOf before first rest ∈ first :: rest := by
  induction rest generalizing first with
  | nil => exact List.mem_cons_self
  | cons y rest ih =>
    -- The better one of the first two goes on, and either of them is in the list.
    have hmem : extremeOf before first (y :: rest) ∈
        (if before y first then y else first) :: rest := ih _
    rcases List.mem_cons.1 hmem with h | h
    · rw [h]
      split
      · exact List.mem_cons_of_mem first List.mem_cons_self
      · exact List.mem_cons_self
    · exact List.mem_cons_of_mem first (List.mem_cons_of_mem y h)

/-- The least of numbers with a value is none above any of them. -/
theorem position_extremeOf_le {z : Binary64} (h : ∀ x ∈ first :: rest, x.isUndefined = false)
    (hz : z ∈ first :: rest) : (extremeOf Binary64.less first rest).position ≤ z.position := by
  induction rest generalizing first z with
  | nil =>
    obtain rfl := List.mem_singleton.1 hz
    exact le_refl _
  | cons y rest ih =>
    obtain ⟨hfirst, hy, hrest⟩ : first.isUndefined = false ∧ y.isUndefined = false ∧
        ∀ x ∈ rest, x.isUndefined = false := by simpa using h
    have hless : y.less first = decide (y.position < first.position) := by
      simp [Binary64.less, hfirst, hy]
    -- The lesser of the first two numbers stands in for both.
    have hbest : (if y.less first then y else first).isUndefined = false ∧
        (if y.less first then y else first).position ≤ first.position ∧
        (if y.less first then y else first).position ≤ y.position := by
      rw [hless]
      by_cases hlt : y.position < first.position
      · simp [hlt, hy, hlt.le]
      · simp [hlt, hfirst, not_lt.1 hlt]
    have hall : ∀ x ∈ (if y.less first then y else first) :: rest, x.isUndefined = false :=
      List.forall_mem_cons.2 ⟨hbest.1, hrest⟩
    have hstep : extremeOf Binary64.less first (y :: rest) =
        extremeOf Binary64.less (if y.less first then y else first) rest := rfl
    have hhead := ih hall List.mem_cons_self
    rw [hstep]
    rcases List.mem_cons.1 hz with rfl | hz
    · exact hhead.trans hbest.2.1
    · rcases List.mem_cons.1 hz with rfl | hz
      · exact hhead.trans hbest.2.2
      · exact ih hall (List.mem_cons_of_mem _ hz)

/-- Floating-point numbers as one. -/
def ofFloats (r : Reduction) (first : Binary64) (rest : List Binary64) : Binary64 :=
  match r with
  | mean => (Binary64.sum (first :: rest)).div (.ofInt (rest.length + 1 : ℕ))
  | min => extremeOf Binary64.less first rest
  | max => extremeOf (fun x y => y.less x) first rest
  | sum => Binary64.sum (first :: rest)

/-- **Floating-point numbers are reduced to one of them**, or to their sum or mean. -/
theorem reduceFrom_floats (r : Reduction) (first : Binary64) (rest : List Binary64) :
    r.reduceFrom (.float first) (rest.map .float) = .ok (.float (r.ofFloats first rest)) := by
  have htotal : total (.float first :: rest.map .float) =
      .ok (.float (Binary64.sum (first :: rest))) := total_floats first rest
  cases r with
  | mean =>
    refine Except.bind_eq_ok_iff.2 ⟨_, htotal, ?_⟩
    rw [List.length_map]
    rfl
  | min => exact extreme_floats (fun x y => rfl) first rest
  | max => exact extreme_floats (fun x y => rfl) first rest
  | sum => exact Except.bind_eq_ok_iff.2 ⟨_, htotal, rfl⟩

/-- **Numbers that are not below zero** are reduced to one that is not, and to one with a value if
they have one. -/
theorem less_zero_ofFloats (r : Reduction) (h : ∀ x ∈ first :: rest, x.less .zero = false) :
    (r.ofFloats first rest).less .zero = false ∧
      ((∀ x ∈ first :: rest, x.isUndefined = false) →
        (Binary64.ofInt (rest.length + 1 : ℕ)).isFinite = true →
        (r.ofFloats first rest).isUndefined = false) := by
  obtain ⟨hsum, hdefined⟩ := (Composed.sum (first :: rest)).nonnegative h
  have hpick (before : Binary64 → Binary64 → Bool) :
      (extremeOf before first rest).less .zero = false ∧
        ((∀ x ∈ first :: rest, x.isUndefined = false) →
          (extremeOf before first rest).isUndefined = false) :=
    ⟨h _ (extremeOf_mem before first rest), fun hall => hall _ (extremeOf_mem before first rest)⟩
  cases r with
  | mean =>
    obtain ⟨hcount, hzero⟩ := nonnegative_ofInt (rest.length + 1)
    have hposition : (Binary64.ofInt (rest.length + 1 : ℕ)).position ≠ 0 :=
      hzero.not.2 (Nat.succ_ne_zero _)
    constructor
    · -- The count is not zero, whatever the sum is.
      by_cases hundefined : (Binary64.sum (first :: rest)).isUndefined = true
      · rw [ofFloats, div, hundefined]
        simp [less, isUndefined, undefined, undefinedCode]
      · exact (hsum (Bool.eq_false_iff.2 hundefined)).1.less_div_zero hcount
          fun heq => absurd heq hposition
    · intro hall hfinite
      exact isUndefined_div (hdefined hall) hfinite (position_eq_zero_iff.not.1 hposition)
  | min => exact ⟨(hpick _).1, fun hall _ => (hpick _).2 hall⟩
  | max => exact ⟨(hpick _).1, fun hall _ => (hpick _).2 hall⟩
  | sum =>
    exact ⟨less_zero_eq_false_iff.2 fun hvalue => (hsum hvalue).1, fun hall _ => hdefined hall⟩

end Reduction

end RuleDiagram
