import RuleDiagram.Proofs.Number.Sign

/-!
# Arithmetic of whole numbers

Each integer of up to 53 binary digits is a floating-point number, and so are the sums of such
integers as long as they are of that size themselves: nothing is rounded.

## Main definitions

* `Binary64.Stands`: a number stands for an integer
* `wholeBound`: the size up to which each integer is a number

## Main results

* `Binary64.whole?_eq_some_iff`: which integer a number is read as
* `Binary64.stands_ofInt`, `Binary64.Stands.add`: integers and their sums are not rounded
* `Binary64.stands_sum`: nor are sums of integers of one sign
-/

namespace RuleDiagram

/-- The size up to which each integer is a floating-point number. -/
def wholeBound : ℕ := 2 ^ 53

namespace Binary64

variable {x y : Binary64} {m n : ℤ}

/-- **The number stands for an integer.** -/
structure Stands (x : Binary64) (n : ℤ) : Prop where
  isFinite : x.isFinite = true
  units_eq : x.units = n * unitsPerOne

/-- The units of one are a power of two, whatever its exponent. -/
theorem exists_unitsPerOne_eq : ∃ e, 52 ≤ e ∧ e ≤ 1074 ∧ unitsPerOne = 2 ^ e :=
  ⟨1074, by decide, Nat.le_refl _, by decide +kernel⟩

theorem dvd_units_iff (u : ℕ) : (u : ℤ) ∣ x.units ↔ x.magnitude % u = 0 := by
  rw [← Nat.dvd_iff_mod_eq_zero, ← Int.natCast_dvd_natCast, units]
  split
  · exact dvd_neg
  · rfl

theorem whole?_eq_some_iff : x.whole? = some n ↔ x.Stands n := by
  have hunits : (unitsPerOne : ℤ) ≠ 0 := Int.natCast_ne_zero.2 unitsPerOne_pos.ne'
  simp only [whole?, ← dvd_units_iff]
  constructor
  · intro h
    split at h
    · next hdvd =>
      cases h
      exact ⟨hdvd.1, (Int.ediv_mul_cancel hdvd.2).symm⟩
    · cases h
  · rintro ⟨hfinite, heq⟩
    rw [heq, if_pos ⟨hfinite, Int.dvd_mul_left _ _⟩, Int.mul_ediv_cancel _ hunits]

theorem codeOfUnits_magnitudeOfCode (code : ℕ) : codeOfUnits (magnitudeOfCode code) 1 = code := by
  obtain rfl | hcode := Nat.eq_zero_or_pos code
  · decide +kernel
  · refine codeOfUnits_eq_of_readsBack Nat.one_pos hcode ?_
    have h := readsBack_magnitudeOfCode Nat.one_pos hcode
    rwa [Nat.mul_one] at h

/-- Each natural of up to 53 binary digits is shifted to the left until it has so many. -/
theorem exists_mul_pow_mem_binade {n : ℕ} (hpos : 0 < n) (h : n ≤ wholeBound) :
    ∃ k ≤ 52, binadeSize ≤ n * 2 ^ k ∧ n * 2 ^ k ≤ 2 * binadeSize := by
  have hsize : binadeSize = 2 ^ 52 := rfl
  have hbound : wholeBound = 2 * binadeSize := by decide +kernel
  by_cases hlarge : binadeSize ≤ n
  · exact ⟨0, Nat.zero_le _, by omega, by omega⟩
  · have hlog : n.log2 < 52 := (Nat.log2_lt hpos.ne').2 (hsize ▸ Nat.not_le.1 hlarge)
    have hlow : 2 ^ n.log2 ≤ n := Nat.log2_self_le hpos.ne'
    have hhigh : n < 2 ^ (n.log2 + 1) := Nat.lt_log2_self
    have hpow : 2 ^ n.log2 * 2 ^ (52 - n.log2) = binadeSize := by
      rw [← Nat.pow_add, Nat.add_sub_of_le hlog.le, hsize]
    refine ⟨52 - n.log2, Nat.sub_le _ _, ?_, ?_⟩
    · rw [← hpow]
      exact Nat.mul_le_mul_right _ hlow
    · rw [← hpow, ← Nat.mul_assoc, ← Nat.pow_succ']
      exact Nat.mul_le_mul_right _ hhigh.le

/-- Each natural of up to 53 binary digits is the magnitude of a finite number. -/
theorem exists_magnitudeOfCode_eq {n : ℕ} (h : n ≤ wholeBound) :
    ∃ code < infinityCode, magnitudeOfCode code = n * unitsPerOne := by
  obtain rfl | hpos := Nat.eq_zero_or_pos n
  · exact ⟨0, by decide +kernel, by rw [Nat.zero_mul, magnitudeOfCode_zero]⟩
  obtain ⟨k, hk, hlow, hhigh⟩ := exists_mul_pow_mem_binade hpos h
  obtain ⟨e, hge, hle, hunits⟩ := exists_unitsPerOne_eq
  have hcode : (e - k) * binadeSize + n * 2 ^ k < infinityCode := by
    have hshift : (e - k) * binadeSize ≤ 1074 * binadeSize :=
      Nat.mul_le_mul_right _ (Nat.le_trans (Nat.sub_le _ _) hle)
    have hbound : 1076 * binadeSize < infinityCode := by decide +kernel
    omega
  refine ⟨(e - k) * binadeSize + n * 2 ^ k, hcode, ?_⟩
  rw [magnitudeOfCode_binade hhigh (.inr hlow), hunits, Nat.mul_assoc, ← Nat.pow_add,
    Nat.add_sub_of_le (by omega)]

/-! ## Integers that are not rounded -/

theorem stands_of_code_eq_zero (h : x.code = 0) : x.Stands 0 := by
  have hpos : 0 < infinityCode := by decide +kernel
  refine ⟨?_, ?_⟩
  · rw [isFinite, h]
    exact decide_eq_true hpos
  · rw [units, magnitude, h, magnitudeOfCode_zero, Nat.cast_zero, neg_zero, ite_self, zero_mul]

/-- The numbers that stand for zero are the two zeros. -/
theorem whole?_eq_zero_iff : x.whole? = some 0 ↔ x.position = 0 := by
  rw [whole?_eq_some_iff, position_eq_zero_iff]
  refine ⟨fun h => ?_, stands_of_code_eq_zero⟩
  have hunits := h.units_eq
  rw [zero_mul, units, ite_eq_iff'] at hunits
  rw [← magnitude_eq_zero_iff]
  cases hnegative : x.negative with
  | true => exact Int.natCast_eq_zero.1 (neg_eq_zero.1 (hunits.1 hnegative))
  | false => exact Int.natCast_eq_zero.1 (hunits.2 (by rw [hnegative]; exact Bool.false_ne_true))

/-- A whole number of ones is not rounded. -/
theorem stands_ofUnits {k : ℕ} (h : k ≤ wholeBound) (negative : Bool) :
    (ofUnits negative (k * unitsPerOne) 1).Stands (if negative then -k else k) := by
  obtain ⟨code, hcode, heq⟩ := exists_magnitudeOfCode_eq h
  have hrounded : (ofUnits negative (k * unitsPerOne) 1).code = code := by
    rw [← heq, ofUnits, codeOfUnits_magnitudeOfCode]
    exact Nat.min_eq_left hcode.le
  refine ⟨?_, ?_⟩
  · rw [isFinite, hrounded]
    exact decide_eq_true hcode
  · rw [units, magnitude, hrounded, heq, Nat.cast_mul, ite_mul, neg_mul]
    rfl

theorem stands_ofInt (h : n.natAbs ≤ wholeBound) : (ofInt n).Stands n := by
  have hstands := stands_ofUnits h (decide (n < 0))
  have hn : (if decide (n < 0) = true then -(n.natAbs : ℤ) else n.natAbs) = n := by
    split <;> rename_i hsign <;> rw [decide_eq_true_eq] at hsign <;> omega
  rwa [hn] at hstands

theorem Stands.neg (h : x.Stands n) : x.neg.Stands (-n) :=
  ⟨h.isFinite, by rw [units_neg, h.units_eq, neg_mul]⟩

/-- **The sum of two integers is not rounded** if it is itself an integer that is a number. -/
theorem Stands.add (hx : x.Stands m) (hy : y.Stands n) (h : (m + n).natAbs ≤ wholeBound) :
    (x.add y).Stands (m + n) := by
  have hpos : (0 : ℤ) < unitsPerOne := Int.natCast_pos.2 unitsPerOne_pos
  have hsum : x.units + y.units = (m + n) * unitsPerOne := by
    rw [hx.units_eq, hy.units_eq, add_mul]
  rw [Binary64.add, isUndefined_eq_false_of_isFinite hx.isFinite,
    isUndefined_eq_false_of_isFinite hy.isFinite, hx.isFinite, hy.isFinite, hsum]
  simp only [Bool.or_self, Bool.false_eq_true, if_false, if_true]
  split
  · next hzero =>
    have hmn : m + n = 0 := (mul_eq_zero.1 hzero).resolve_right hpos.ne'
    rw [hmn]
    exact stands_of_code_eq_zero rfl
  · have hsign : (m + n) * unitsPerOne < 0 ↔ m + n < 0 := by
      rw [mul_neg_iff]
      omega
    have hstands := stands_ofInt h
    rw [ofInt] at hstands
    simp only [hsign, Int.natAbs_mul, Int.natAbs_natCast]
    exact hstands

/-- **The sum of integers that are not positive** is not rounded if it is itself an integer that is
a number. -/
theorem stands_sum {xs : List Binary64} {ns : List ℕ}
    (h : List.Forall₂ (fun x n => x.Stands (-(n : ℤ))) xs ns) (hsum : ns.sum ≤ wholeBound) :
    (sum xs).Stands (-(ns.sum : ℤ)) := by
  -- The partial sums are no larger than the whole one.
  have hfold : ∀ (start : Binary64) (k : ℕ), start.Stands (-(k : ℤ)) → k + ns.sum ≤ wholeBound →
      (xs.foldl Binary64.add start).Stands (-((k + ns.sum : ℕ) : ℤ)) := by
    clear hsum
    induction h with
    | nil =>
      intro start k hstart _
      exact hstart
    | @cons x n xs ns hx _ ih =>
      intro start k hstart hbound
      rw [List.sum_cons, ← Nat.add_assoc] at hbound ⊢
      have hadd : -(k : ℤ) + -(n : ℤ) = -((k + n : ℕ) : ℤ) := by
        push_cast
        ring
      have hstep := hstart.add hx (by omega)
      rw [hadd] at hstep
      exact ih _ _ hstep hbound
  have hzero : zero.Stands (-((0 : ℕ) : ℤ)) := stands_of_code_eq_zero rfl
  have hsumFold := hfold zero 0 hzero (by omega)
  rwa [Nat.zero_add] at hsumFold

end Binary64

end RuleDiagram
