import RuleDiagram.Proofs.Number.Level
import RuleDiagram.Proofs.Number.Sum

/-!
# Numbers that are not below zero

Numbers that are not below zero stay so in sums, in whatever order and groups these are taken, and
in quotients of them, except for one case: a number divided by a zero with a sign. A sum is zero
only if all its parts are, so the case does not come up where a part is divided by the sum.

## Main definitions

* `Binary64.Nonnegative`: a number with a value, which is not negative
* `Binary64.Composed`: sums of numbers in any order and any groups

## Main results

* `Binary64.less_zero_eq_false_iff`: a number is not below zero if it is not negative or undefined
* `Binary64.Composed.nonnegative`: sums of numbers that are not below zero
* `Binary64.less_div_zero`: quotients of numbers that are not negative
-/

namespace RuleDiagram

namespace Binary64

variable {x y : Binary64}

/-! ## Opposite numbers -/

theorem position_neg : x.neg.position = -x.position := by
  unfold position neg
  cases x.negative <;> simp

theorem units_neg : x.neg.units = -x.units := by
  unfold units neg magnitude
  cases x.negative <;> simp

theorem ofUnits_not (negative : Bool) (num den : ℕ) :
    ofUnits (!negative) num den = (ofUnits negative num den).neg := rfl

theorem isUndefined_neg : x.neg.isUndefined = x.isUndefined := rfl

theorem isFinite_neg : x.neg.isFinite = x.isFinite := rfl

/-! ## Numbers that are not negative -/

/-- The number has a value, and it is not negative. -/
structure Nonnegative (x : Binary64) : Prop where
  defined : x.isUndefined = false
  position_nonneg : 0 ≤ x.position

theorem nonnegative_iff_neg : x.Nonnegative ↔ x.neg.Nonpositive := by
  constructor
  · rintro ⟨hdefined, hposition⟩
    exact ⟨hdefined, by rw [position_neg]; omega⟩
  · rintro ⟨hdefined, hposition⟩
    rw [position_neg] at hposition
    exact ⟨hdefined, by omega⟩

/-- **A number is not below zero** if and only if it is not negative or has no value. -/
theorem less_zero_eq_false_iff :
    x.less zero = false ↔ (x.isUndefined = false → x.Nonnegative) := by
  have hzero : zero.isUndefined = false ∧ zero.position = 0 := ⟨by simp [isUndefined, zero], rfl⟩
  rw [less, hzero.1, hzero.2]
  cases hx : x.isUndefined with
  | true => simp
  | false =>
    simp only [Bool.not_false, Bool.true_and, decide_eq_false_iff_not, not_lt, forall_const]
    exact ⟨fun h => ⟨hx, h⟩, fun h => h.position_nonneg⟩

theorem Nonnegative.less_zero (hx : x.Nonnegative) : x.less zero = false :=
  less_zero_eq_false_iff.2 fun _ => hx

/-- Only zeros have a sign among the numbers that are not negative. -/
theorem nonnegative_of_sign (hcode : x.code ≤ infinityCode)
    (hsign : x.negative = true → x.code = 0) : x.Nonnegative := by
  refine ⟨by simpa [isUndefined] using hcode, ?_⟩
  unfold position
  split
  · next h => simp [hsign h]
  · exact Int.natCast_nonneg _

theorem nonnegative_zero : zero.Nonnegative := nonnegative_of_sign (Nat.zero_le _) fun _ => rfl

theorem nonnegative_ofUnits (num den : ℕ) : (ofUnits false num den).Nonnegative :=
  nonnegative_of_sign (Nat.min_le_right _ _) fun h => nomatch h

/-- A number that is not negative has no sign, unless it is zero. -/
theorem Nonnegative.code_eq_zero (hx : x.Nonnegative) (h : x.negative = true) : x.code = 0 := by
  have hposition := hx.position_nonneg
  rw [position, h] at hposition
  simp only [if_true] at hposition
  omega

theorem position_eq_zero_iff : x.position = 0 ↔ x.code = 0 := by
  unfold position
  split <;> omega

/-- The sum of two numbers that are not negative is not negative, and it is zero only if both
are. -/
theorem Nonnegative.add (hx : x.Nonnegative) (hy : y.Nonnegative) :
    (x.add y).Nonnegative ∧ ((x.add y).position = 0 ↔ x.position = 0 ∧ y.position = 0) := by
  have hx' := nonnegative_iff_neg.1 hx
  have hy' := nonnegative_iff_neg.1 hy
  -- The opposite numbers have the opposite sum, the sign of a zero aside.
  have hopposite : (x.add y).isUndefined = (x.neg.add y.neg).isUndefined ∧
      (x.add y).position = -(x.neg.add y.neg).position := by
    unfold Binary64.add
    rw [isUndefined_neg, isUndefined_neg, isFinite_neg, isFinite_neg, hx.defined, hy.defined]
    cases hxf : x.isFinite with
    | false =>
      have hxsign := (hx'.negative_of_infinite hxf).1
      cases hyf : y.isFinite with
      | false =>
        have hysign := (hy'.negative_of_infinite hyf).1
        have hsigns : x.negative = y.negative := by
          simpa [neg] using hxsign.trans hysign.symm
        simp [hsigns, hxsign, hysign, position_neg, isUndefined_neg]
      | true => simp [position_neg, isUndefined_neg]
    | true =>
      cases hyf : y.isFinite with
      | false => simp [position_neg, isUndefined_neg]
      | true =>
        have hunits : x.neg.units + y.neg.units = -(x.units + y.units) := by
          rw [units_neg, units_neg]
          omega
        simp only [Bool.or_self, Bool.false_eq_true, if_false, if_true, hunits, neg_eq_zero]
        by_cases hzero : x.units + y.units = 0
        · rw [if_pos hzero, if_pos hzero]
          simp [isUndefined, position]
        · have hsign : decide (-(x.units + y.units) < 0) = !decide (x.units + y.units < 0) := by
            rw [← decide_not, decide_eq_decide]
            omega
          rw [if_neg hzero, if_neg hzero, hsign, Int.natAbs_neg, ofUnits_not, position_neg,
            isUndefined_neg]
          simp
  obtain ⟨hadd, hzero⟩ := hx'.add hy'
  refine ⟨⟨hopposite.1.trans hadd.defined, ?_⟩, ?_⟩
  · rw [hopposite.2]
    have := hadd.position_le
    omega
  · rw [hopposite.2, neg_eq_zero, hzero, position_neg, position_neg, neg_eq_zero, neg_eq_zero]

/-- What is not zero is above zero, unless it is below or has no value. -/
theorem Nonnegative.negative_eq_false (hx : x.Nonnegative) (h : x.position ≠ 0) :
    x.negative = false := by
  cases hsign : x.negative with
  | false => rfl
  | true => exact absurd (position_eq_zero_iff.2 (hx.code_eq_zero hsign)) h

/-- **The quotient of two numbers that are not negative is not below zero**, if only zero is divided
by zero. -/
theorem Nonnegative.less_div_zero (hx : x.Nonnegative) (hy : y.Nonnegative)
    (hzero : y.position = 0 → x.position = 0) : (x.div y).less zero = false := by
  have hpos : 0 < infinityCode := by decide +kernel
  have hundefined : undefined.less zero = false := by
    simp [less, isUndefined, undefined, undefinedCode]
  unfold div
  rw [hx.defined, hy.defined]
  simp only [Bool.or_self, Bool.false_eq_true, if_false]
  by_cases hcode : y.position = 0
  · -- Zero by zero has no value.
    have hxcode := position_eq_zero_iff.1 (hzero hcode)
    have hycode := position_eq_zero_iff.1 hcode
    have hyf : y.isFinite = true := by simp [isFinite, hycode, hpos]
    rw [if_pos hyf, if_pos hycode, if_pos hxcode]
    exact hundefined
  · have hycode : ¬ y.code = 0 := fun h => hcode (position_eq_zero_iff.2 h)
    rw [hy.negative_eq_false hcode, Bool.bne_false, if_neg hycode]
    by_cases hxzero : x.position = 0
    · -- Zero by anything else is zero.
      have hxcode := position_eq_zero_iff.1 hxzero
      have hxf : x.isFinite = true := by simp [isFinite, hxcode, hpos]
      have hmagnitude : codeOfUnits (x.magnitude * unitsPerOne) y.magnitude = 0 := by
        rw [magnitude_eq_zero_iff.2 hxcode, Nat.zero_mul]
        simp [codeOfUnits, roundHalfEven]
      rw [if_pos hxf, if_pos hxf, ofUnits, hmagnitude]
      split
      · exact (nonnegative_of_sign (Nat.min_le_right _ _) fun _ => Nat.zero_min _).less_zero
      · exact (nonnegative_of_sign (Nat.zero_le _) fun _ => rfl).less_zero
    · rw [hx.negative_eq_false hxzero]
      split
      · split
        · exact (nonnegative_ofUnits _ _).less_zero
        · exact (nonnegative_of_sign (le_refl _) fun h => by cases h).less_zero
      · split
        · exact (nonnegative_of_sign (Nat.zero_le _) fun _ => rfl).less_zero
        · exact hundefined

/-- A quotient by a finite number other than zero has a value. -/
theorem isUndefined_div (hx : x.isUndefined = false) (hy : y.isFinite = true)
    (hcode : y.code ≠ 0) : (x.div y).isUndefined = false := by
  unfold div
  rw [hx, isUndefined_eq_false_of_isFinite hy]
  simp only [Bool.or_self, Bool.false_eq_true, if_false, hy, if_true, if_neg hcode]
  split
  · exact isUndefined_ofCode _ _
  · simp [isUndefined, infinity]

/-! ## Sums in any order -/

/-- **Sums of numbers in any order and any groups.** -/
inductive Composed : Set Binary64 → Binary64 → Prop
  | zero : Composed ∅ zero
  | single (x : Binary64) : Composed {x} x
  | add {S T : Set Binary64} {s t : Binary64} (hs : Composed S s) (ht : Composed T t) :
    Composed (S ∪ T) (s.add t)

namespace Composed

variable {S T : Set Binary64} {s : Binary64}

theorem congr (h : Composed S s) (hST : S = T) : Composed T s := hST ▸ h

/-- **Sums of numbers that are not below zero** are not, and are zero only if all parts are. A sum
has a value if all parts have one. -/
theorem nonnegative (h : Composed S s) (hS : ∀ x ∈ S, x.less Binary64.zero = false) :
    (s.isUndefined = false → s.Nonnegative ∧ (s.position = 0 → ∀ x ∈ S, x.position = 0)) ∧
      ((∀ x ∈ S, x.isUndefined = false) → s.isUndefined = false) := by
  induction h with
  | zero =>
    exact ⟨fun _ => ⟨nonnegative_zero, fun _ x hx => nomatch hx⟩, fun _ => nonnegative_zero.defined⟩
  | single x =>
    refine ⟨fun hdefined => ?_, fun hall => hall x rfl⟩
    exact ⟨less_zero_eq_false_iff.1 (hS x rfl) hdefined, fun hx y hy => hy ▸ hx⟩
  | @add S T s t _ _ ihs iht =>
    obtain ⟨hs, hsdefined⟩ := ihs fun x hx => hS x (.inl hx)
    obtain ⟨ht, htdefined⟩ := iht fun x hx => hS x (.inr hx)
    constructor
    · intro hdefined
      -- A sum with a value has parts with a value.
      have hparts : s.isUndefined = false ∧ t.isUndefined = false := by
        rw [← Bool.or_eq_false_iff]
        by_contra hundefined
        rw [Binary64.add, if_pos (Bool.not_eq_false _ ▸ hundefined)] at hdefined
        simp [isUndefined, undefined, undefinedCode] at hdefined
      obtain ⟨hs, hszero⟩ := hs hparts.1
      obtain ⟨ht, htzero⟩ := ht hparts.2
      obtain ⟨hadd, hzero⟩ := hs.add ht
      refine ⟨hadd, fun h => ?_⟩
      obtain ⟨hs, ht⟩ := hzero.1 h
      rintro x (hx | hx)
      · exact hszero hs x hx
      · exact htzero ht x hx
    · intro hall
      have hs := (hs (hsdefined fun x hx => hall x (.inl hx))).1
      have ht := (ht (htdefined fun x hx => hall x (.inr hx))).1
      exact (hs.add ht).1.defined

/-- Numbers added one after another. -/
theorem foldl (h : Composed S s) (xs : List Binary64) :
    Composed (S ∪ {x | x ∈ xs}) (xs.foldl Binary64.add s) := by
  induction xs generalizing S s with
  | nil => exact h.congr (by simp)
  | cons x xs ih =>
    refine (ih (h.add (.single x))).congr ?_
    ext y
    simp only [Set.mem_union, Set.mem_singleton_iff, Set.mem_ofPred_eq, List.mem_cons, or_assoc]

theorem sum (xs : List Binary64) : Composed {x | x ∈ xs} (Binary64.sum xs) :=
  (zero.foldl xs).congr (Set.empty_union _)

end Composed

end Binary64

end RuleDiagram
