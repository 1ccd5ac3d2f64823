import RuleDiagram.Number.Binary64
import RuleDiagram.Proofs.Number.Rounding

/-!
# Sums that have a value

A sum of floating-point numbers has no value when one of them has none, or when infinities of both
signs come together. Neither happens among finite numbers, even where their sum is too large to be
finite; nor among numbers that are not positive, and the sum of those is zero only if all of them
are: rounding never takes a number to zero that is not zero.

## Main definitions

* `Binary64.Nonpositive`: a number with a value, which is not positive

## Main results

* `Binary64.isUndefined_sum_of_isFinite`: sums of finite numbers have a value
* `Binary64.nonpositive_sum`: sums of numbers that are not positive
-/

namespace RuleDiagram

namespace Binary64

variable {x y : Binary64} {xs : List Binary64}

theorem isUndefined_ofCode (negative : Bool) (code : ℕ) :
    (ofCode negative code).isUndefined = false := by
  have hle : min code infinityCode ≤ infinityCode := Nat.min_le_right _ _
  simp [isUndefined, ofCode]

/-! ## Finite numbers -/

theorem isUndefined_eq_false_of_isFinite (h : x.isFinite = true) : x.isUndefined = false := by
  simp only [isFinite, decide_eq_true_eq] at h
  simp only [isUndefined, decide_eq_false_iff_not]
  omega

/-- Adding a finite number to one with a value gives one with a value. -/
theorem isUndefined_add_of_isFinite (hx : x.isUndefined = false) (hy : y.isFinite = true) :
    (x.add y).isUndefined = false := by
  rw [add, hx, isUndefined_eq_false_of_isFinite hy]
  cases hfinite : x.isFinite with
  | false => simp [hy, hx]
  | true =>
    simp only [hy, Bool.or_self, Bool.false_eq_true, if_false, if_true]
    split
    · simp [isUndefined]
    · exact isUndefined_ofCode _ _

/-- **Sums of finite numbers have a value**, be it an infinite one. -/
theorem isUndefined_sum_of_isFinite (h : ∀ x ∈ xs, x.isFinite = true) :
    (sum xs).isUndefined = false := by
  have hfold : ∀ start : Binary64, start.isUndefined = false →
      (xs.foldl add start).isUndefined = false := by
    induction xs with
    | nil =>
      intro start hstart
      exact hstart
    | cons x xs ih =>
      intro start hstart
      rw [List.foldl_cons]
      apply ih fun y hy => h y (List.mem_cons_of_mem x hy)
      exact isUndefined_add_of_isFinite hstart (h x List.mem_cons_self)
  exact hfold zero (by simp [isUndefined, zero])

/-! ## Numbers that are not positive -/

/-- The number has a value, and it is not positive. -/
structure Nonpositive (x : Binary64) : Prop where
  defined : x.isUndefined = false
  position_le : x.position ≤ 0

/-- What is not zero is not rounded to zero. -/
theorem codeOfUnits_pos {num : ℕ} (h : 0 < num) : 0 < codeOfUnits num 1 := by
  have hround {den : ℕ} (hden : 0 < den) (hle : den ≤ num) : 0 < roundHalfEven num den := by
    have hquotient : 0 < num / den := Nat.div_pos hle hden
    unfold roundHalfEven
    dsimp only
    split_ifs <;> omega
  unfold codeOfUnits
  rw [Nat.div_one]
  dsimp only
  split
  · exact hround Nat.one_pos h
  · apply Nat.add_pos_right
    rw [Nat.one_mul, Nat.pow_eq]
    apply hround (Nat.two_pow_pos _)
    -- The number has more binary digits than are shifted away.
    calc 2 ^ (num.log2 - 52) ≤ 2 ^ num.log2 := Nat.pow_le_pow_right Nat.two_pos (Nat.sub_le _ _)
      _ ≤ num := Nat.log2_self_le h.ne'

theorem position_ofCode_true (code : ℕ) : (ofCode true code).position ≤ 0 ∧
    ((ofCode true code).position = 0 ↔ code = 0) := by
  have hpos : 0 < infinityCode := by decide +kernel
  simp only [position, ofCode, if_true]
  omega

theorem magnitude_eq_zero_iff : x.magnitude = 0 ↔ x.code = 0 := by
  constructor
  · intro h
    by_contra hne
    have := magnitudeOfCode_pos (Nat.pos_of_ne_zero hne)
    exact absurd h this.ne'
  · intro h
    rw [magnitude, h]
    decide +kernel

/-- A finite number that is not positive is its magnitude below zero. -/
theorem Nonpositive.units_eq (hx : x.Nonpositive) :
    x.units = -(x.magnitude : ℤ) ∧ (x.position = 0 ↔ x.magnitude = 0) := by
  have hposition := hx.position_le
  rw [magnitude_eq_zero_iff]
  unfold units
  unfold position at hposition ⊢
  cases hnegative : x.negative with
  | true => simp
  | false =>
    -- A number without a sign is not positive only if it is zero.
    simp only [hnegative, Bool.false_eq_true, if_false] at hposition ⊢
    have hcode : x.code = 0 := by omega
    rw [magnitude_eq_zero_iff.2 hcode]
    simp

/-- An infinite number that is not positive is negative. -/
theorem Nonpositive.negative_of_infinite (hx : x.Nonpositive) (hinfinite : x.isFinite = false) :
    x.negative = true ∧ x.position < 0 := by
  have hpos : 0 < infinityCode := by decide +kernel
  have hcode : infinityCode ≤ x.code := by simpa [isFinite] using hinfinite
  have hposition := hx.position_le
  unfold position at hposition ⊢
  cases hnegative : x.negative with
  | true =>
    refine ⟨rfl, ?_⟩
    simp only [if_true]
    omega
  | false =>
    simp only [hnegative, Bool.false_eq_true, if_false] at hposition
    omega

/-- **The sum of two numbers that are not positive is not positive**, and it is zero only if both
are. -/
theorem Nonpositive.add (hx : x.Nonpositive) (hy : y.Nonpositive) :
    (x.add y).Nonpositive ∧ ((x.add y).position = 0 ↔ x.position = 0 ∧ y.position = 0) := by
  have hsum : x.add y = if x.isFinite then
      if y.isFinite then
        if x.units + y.units = 0 then ⟨x.negative && y.negative, 0, Nat.zero_le _⟩
        else ofUnits (decide (x.units + y.units < 0)) (x.units + y.units).natAbs 1
      else y
    else x := by
    rw [Binary64.add, hx.defined, hy.defined]
    cases hxf : x.isFinite with
    | true => simp
    | false =>
      cases hyf : y.isFinite with
      | true => simp
      | false =>
        have hsigns : x.negative = y.negative := by
          rw [(hx.negative_of_infinite hxf).1, (hy.negative_of_infinite hyf).1]
        simp [hsigns]
  rw [hsum]
  cases hxf : x.isFinite with
  | false =>
    obtain ⟨-, hlt⟩ := hx.negative_of_infinite hxf
    simp only [Bool.false_eq_true, if_false]
    exact ⟨hx, by omega⟩
  | true =>
    cases hyf : y.isFinite with
    | false =>
      obtain ⟨-, hlt⟩ := hy.negative_of_infinite hyf
      simp only [Bool.false_eq_true, if_false, if_true]
      exact ⟨hy, by omega⟩
    | true =>
      obtain ⟨hxu, hxzero⟩ := hx.units_eq
      obtain ⟨hyu, hyzero⟩ := hy.units_eq
      simp only [if_true]
      by_cases hzero : x.units + y.units = 0
      · rw [if_pos hzero]
        refine ⟨⟨by simp [isUndefined], by simp [position]⟩, ?_⟩
        rw [hxzero, hyzero]
        simp only [position, Nat.cast_zero, neg_zero, ite_self, true_iff]
        omega
      · -- Both are finite and one is not zero: the exact sum is negative, and is rounded.
        rw [if_neg hzero]
        have hneg : decide (x.units + y.units < 0) = true := by
          rw [decide_eq_true_iff]
          omega
        rw [hneg, ofUnits]
        obtain ⟨hle, hiff⟩ := position_ofCode_true (codeOfUnits (x.units + y.units).natAbs 1)
        have hcode : 0 < codeOfUnits (x.units + y.units).natAbs 1 := by
          apply codeOfUnits_pos
          omega
        refine ⟨⟨isUndefined_ofCode _ _, hle⟩, ?_⟩
        rw [hiff, hxzero, hyzero]
        omega

/-- **Sums of numbers that are not positive are not positive**, and zero only if all of them are. -/
theorem nonpositive_sum (h : ∀ x ∈ xs, x.Nonpositive) :
    (sum xs).Nonpositive ∧ ((sum xs).position = 0 ↔ ∀ x ∈ xs, x.position = 0) := by
  have hfold : ∀ start : Binary64, start.Nonpositive → (xs.foldl Binary64.add start).Nonpositive ∧
      ((xs.foldl Binary64.add start).position = 0 ↔
        start.position = 0 ∧ ∀ x ∈ xs, x.position = 0) := by
    induction xs with
    | nil =>
      intro start hstart
      simp [hstart]
    | cons x xs ih =>
      intro start hstart
      obtain ⟨hadd, hzero⟩ := hstart.add (h x List.mem_cons_self)
      obtain ⟨hsum, hiff⟩ := ih (fun y hy => h y (List.mem_cons_of_mem x hy)) _ hadd
      rw [List.foldl_cons]
      refine ⟨hsum, ?_⟩
      rw [hiff, hzero, List.forall_mem_cons, and_assoc]
  have hzero : zero.Nonpositive := ⟨by simp [isUndefined, zero], by simp [position, zero]⟩
  obtain ⟨hsum, hiff⟩ := hfold zero hzero
  refine ⟨hsum, ?_⟩
  rw [sum, hiff]
  simp [position, zero]

end Binary64

end RuleDiagram
