import Mathlib.Tactic.Linarith
import Mathlib.Tactic.Ring
import RuleDiagram.Number.Decimal

/-!
# Rounding to the nearest binary number

The magnitudes of consecutive codes are multiples of one power of two within a binade and at its
end. So rounding a quotient to a code is rounding a quotient to a natural, in the binade that the
quotient lies in: whatever lies between the two midpoints around a code is rounded to that code.

## Main results

* `roundHalfEven_eq`: the natural that is nearest to a quotient
* `magnitudeOfCode_binade`, `magnitudeOfCode_lt_succ`: the magnitudes of a binade, and their order
* `codeOfUnits_eq_of_readsBack`: what reads back to a code is rounded to it
* `readsBack_congr`: what is read back depends on the value of a quotient only
-/

namespace RuleDiagram

variable {num den r : Nat}

/-- The natural that is nearest to a quotient, a half going to the even neighbour. -/
theorem roundHalfEven_eq (hlow : 2 * r * den ≤ 2 * num + den) (hhigh : 2 * num ≤ (2 * r + 1) * den)
    (hodd : r % 2 = 1 → 2 * r * den < 2 * num + den ∧ 2 * num < (2 * r + 1) * den)
    (hden : 0 < den) : roundHalfEven num den = r := by
  have hrem : num % den < den := Nat.mod_lt num hden
  have hnum : den * (num / den) + num % den = num := Nat.div_add_mod num den
  have hlowEq : 2 * r * den = 2 * (den * r) := by ring
  have hhighEq : (2 * r + 1) * den = 2 * (den * r) + den := by ring
  rw [hlowEq] at hlow hodd
  rw [hhighEq] at hhigh hodd
  -- The quotient rounded down is the number or the one below it.
  have hle : num / den ≤ r := by
    by_contra hlt
    have hmul := Nat.mul_le_mul_left den (Nat.succ_le_of_lt (Nat.not_le.1 hlt))
    rw [Nat.mul_succ] at hmul
    omega
  have hge : r ≤ num / den + 1 := by
    by_contra hlt
    have hmul := Nat.mul_le_mul_left den (Nat.succ_le_of_lt (Nat.not_le.1 hlt))
    rw [Nat.mul_succ, Nat.mul_succ] at hmul
    omega
  unfold roundHalfEven
  generalize num / den = q at *
  generalize num % den = m at *
  dsimp only
  obtain rfl | rfl : q = r ∨ r = q + 1 := by omega
  · split_ifs <;> omega
  · rw [Nat.mul_succ] at *
    split_ifs <;> omega

theorem binadeSize_pos : 0 < binadeSize := Nat.two_pow_pos 52

theorem two_dvd_binadeSize : 2 ∣ binadeSize := ⟨2 ^ 51, by decide +kernel⟩

namespace Binary64

variable {code shift : Nat}

/-! ## The magnitudes of codes -/

/-- The magnitudes of a binade and the first one beyond it are multiples of one power of two. -/
theorem magnitudeOfCode_binade (hle : r ≤ 2 * binadeSize) (hge : shift = 0 ∨ binadeSize ≤ r) :
    magnitudeOfCode (shift * binadeSize + r) = r * 2 ^ shift := by
  have hpos := binadeSize_pos
  unfold magnitudeOfCode
  by_cases hr : r < binadeSize
  · obtain rfl : shift = 0 := hge.resolve_right (Nat.not_le.2 hr)
    simp [hr]
  · obtain ⟨t, rfl⟩ := Nat.exists_eq_add_of_le (Nat.not_lt.1 hr)
    have hcode : shift * binadeSize + (binadeSize + t) = t + (shift + 1) * binadeSize := by ring
    have hnot : ¬ t + (shift + 1) * binadeSize < binadeSize := by
      rw [Nat.succ_mul]
      omega
    rw [hcode, if_neg hnot, Nat.add_mul_div_right _ _ hpos, Nat.add_mul_mod_self_right]
    obtain ht | rfl : t < binadeSize ∨ t = binadeSize := by omega
    · rw [Nat.div_eq_of_lt ht, Nat.mod_eq_of_lt ht, Nat.zero_add, Nat.add_sub_cancel, Nat.pow_eq]
    · rw [Nat.div_self hpos, Nat.mod_self, Nat.pow_eq]
      have hshift : 1 + (shift + 1) - 1 = shift + 1 := by omega
      rw [hshift, Nat.pow_succ]
      ring

/-- Each code lies in a binade; the first one goes with the second. -/
theorem exists_binade (code : Nat) : ∃ shift r, code = shift * binadeSize + r ∧
    r < 2 * binadeSize ∧ (shift = 0 ∨ binadeSize ≤ r) := by
  have hpos := binadeSize_pos
  have hmod := Nat.mod_lt code hpos
  have hdiv := Nat.div_add_mod' code binadeSize
  cases hq : code / binadeSize with
  | zero => exact ⟨0, code, by omega, by rw [hq] at hdiv; omega, .inl rfl⟩
  | succ q =>
    rw [hq, Nat.succ_mul] at hdiv
    exact ⟨q, binadeSize + code % binadeSize, by omega, by omega, .inr (by omega)⟩

theorem magnitudeOfCode_lt_succ (code : Nat) :
    magnitudeOfCode code < magnitudeOfCode (code + 1) := by
  obtain ⟨shift, r, rfl, hlt, hge⟩ := exists_binade code
  have hge' : shift = 0 ∨ binadeSize ≤ r + 1 := hge.imp_right Nat.le_succ_of_le
  rw [Nat.add_assoc, magnitudeOfCode_binade (Nat.le_of_lt hlt) hge,
    magnitudeOfCode_binade hlt hge']
  exact Nat.mul_lt_mul_of_pos_right (Nat.lt_succ_self r) (Nat.two_pow_pos shift)

theorem magnitudeOfCode_mono {code code' : Nat} (h : code ≤ code') :
    magnitudeOfCode code ≤ magnitudeOfCode code' := by
  induction h with
  | refl => exact Nat.le_refl _
  | step _ ih => exact Nat.le_trans ih (Nat.le_of_lt (magnitudeOfCode_lt_succ _))

theorem magnitudeOfCode_pos (h : 0 < code) : 0 < magnitudeOfCode code :=
  Nat.lt_of_lt_of_le (magnitudeOfCode_lt_succ 0) (magnitudeOfCode_mono h)

theorem magnitudeOfCode_infinityCode : magnitudeOfCode infinityCode = 2 ^ 2098 := by
  decide +kernel

/-! ## Rounding to a code -/

/-- A quotient in a binade is rounded as a quotient by the spacing of that binade. -/
theorem codeOfUnits_eq (hlt : num / den < 2 * binadeSize * 2 ^ shift)
    (hge : shift = 0 ∨ binadeSize * 2 ^ shift ≤ num / den) :
    codeOfUnits num den = shift * binadeSize + roundHalfEven num (den * 2 ^ shift) := by
  have hsize : Nat.pow 2 53 = 2 * binadeSize := by decide +kernel
  have hsize' : binadeSize = 2 ^ 52 := rfl
  cases shift with
  | zero =>
    rw [Nat.pow_zero, Nat.mul_one, ← hsize] at hlt
    simp [codeOfUnits, hlt]
  | succ shift =>
    -- The binade of the quotient is told by its logarithm.
    have hge : binadeSize * 2 ^ (shift + 1) ≤ num / den := hge.resolve_left (Nat.succ_ne_zero shift)
    have hpow : binadeSize * 2 ^ (shift + 1) = 2 ^ (52 + (shift + 1)) := (Nat.pow_add 2 52 _).symm
    have hpow' : 2 * binadeSize * 2 ^ (shift + 1) = 2 ^ (52 + (shift + 1) + 1) := by
      rw [Nat.mul_assoc, hpow, Nat.pow_succ 2 (52 + (shift + 1)), Nat.mul_comm]
    have hlog : (num / den).log2 = 52 + (shift + 1) := by
      have hne : num / den ≠ 0 := by
        have := Nat.two_pow_pos (52 + (shift + 1))
        omega
      rw [Nat.log2_eq_iff hne, ← hpow, ← hpow']
      exact ⟨hge, hlt⟩
    have hnot : ¬ num / den < Nat.pow 2 53 := by
      have hone : 1 ≤ 2 ^ shift := Nat.two_pow_pos shift
      rw [hsize, Nat.not_lt]
      refine Nat.le_trans ?_ hge
      rw [Nat.pow_succ]
      nlinarith
    have hshift : 52 + (shift + 1) - 52 = shift + 1 := by omega
    simp only [codeOfUnits, if_neg hnot, hlog, hshift, Nat.pow_eq]

theorem readsBack_iff : readsBack code num den ↔
    (magnitudeOfCode (code - 1) + magnitudeOfCode code) * den ≤ num ∧
    num ≤ (magnitudeOfCode code + magnitudeOfCode (code + 1)) * den ∧
    (code % 2 = 1 → (magnitudeOfCode (code - 1) + magnitudeOfCode code) * den < num ∧
      num < (magnitudeOfCode code + magnitudeOfCode (code + 1)) * den) := by
  unfold readsBack
  dsimp only
  split_ifs with h
  · rw [decide_eq_true_eq]
    exact ⟨fun ⟨h₁, h₂⟩ => ⟨h₁, h₂, by omega⟩, fun ⟨h₁, h₂, _⟩ => ⟨h₁, h₂⟩⟩
  · rw [decide_eq_true_eq]
    exact ⟨fun ⟨h₁, h₂⟩ => ⟨Nat.le_of_lt h₁, Nat.le_of_lt h₂, fun _ => ⟨h₁, h₂⟩⟩,
      fun ⟨_, _, h₃⟩ => h₃ (by omega)⟩

theorem readsBack_mul {c : Nat} (hc : 0 < c) :
    readsBack code (num * c) (den * c) ↔ readsBack code num den := by
  have hle (a b : Nat) : a * (den * c) ≤ b * c ↔ a * den ≤ b := by
    rw [← Nat.mul_assoc, Nat.mul_le_mul_right_iff hc]
  have hge (a b : Nat) : b * c ≤ a * (den * c) ↔ b ≤ a * den := by
    rw [← Nat.mul_assoc, Nat.mul_le_mul_right_iff hc]
  rw [readsBack_iff, readsBack_iff]
  simp only [hle, hge, ← Nat.not_le]

/-- Which code is read back depends on the value of a quotient only. -/
theorem readsBack_congr {num' den' : Nat} (hden : 0 < den) (hden' : 0 < den')
    (h : num * den' = num' * den) : readsBack code num den ↔ readsBack code num' den' := by
  rw [← readsBack_mul hden', h, Nat.mul_comm den, readsBack_mul hden]

/-- The magnitude of a code reads back to it. -/
theorem readsBack_magnitudeOfCode (hden : 0 < den) (hcode : 0 < code) :
    readsBack code (2 * (magnitudeOfCode code * den)) den := by
  have hbelow := magnitudeOfCode_lt_succ (code - 1)
  rw [Nat.sub_add_cancel hcode] at hbelow
  have hlow := Nat.mul_lt_mul_of_pos_right hbelow hden
  have hhigh := Nat.mul_lt_mul_of_pos_right (magnitudeOfCode_lt_succ code) hden
  rw [readsBack_iff, Nat.add_mul, Nat.add_mul]
  omega

/-- Twice the midpoint above a code is an odd multiple of the spacing of its binade. -/
theorem magnitudeOfCode_add_succ (hr : r < 2 * binadeSize) (hshift : shift = 0 ∨ binadeSize ≤ r) :
    magnitudeOfCode (shift * binadeSize + r) + magnitudeOfCode (shift * binadeSize + r + 1) =
      (2 * r + 1) * 2 ^ shift := by
  rw [Nat.add_assoc, magnitudeOfCode_binade (Nat.le_of_lt hr) hshift,
    magnitudeOfCode_binade hr (hshift.imp_right Nat.le_succ_of_le), Nat.succ_eq_add_one]
  ring

/-- Twice the midpoint below a code is an odd multiple of the spacing of the binade below it. -/
theorem magnitudeOfCode_pred_add (hpos : 0 < r) (hr : r ≤ 2 * binadeSize)
    (hshift : shift = 0 ∨ binadeSize < r) :
    magnitudeOfCode (shift * binadeSize + r - 1) + magnitudeOfCode (shift * binadeSize + r) +
      2 ^ shift = 2 * r * 2 ^ shift := by
  obtain ⟨r, rfl⟩ := Nat.exists_eq_add_of_lt hpos
  rw [Nat.zero_add] at *
  rw [← Nat.add_assoc, Nat.add_sub_cancel,
    magnitudeOfCode_add_succ hr (hshift.imp_right Nat.le_of_lt_succ)]
  ring

/-- A quotient in a binade is rounded to the multiple of the spacing that is nearest. -/
theorem codeOfUnits_eq_of_nearest {step : Nat} (hstep : step = 2 ^ shift * den) (hpos : 0 < step)
    (hlow : 2 * r * step ≤ 2 * num + step) (hhigh : 2 * num ≤ (2 * r + 1) * step)
    (hodd : r % 2 = 1 → 2 * r * step < 2 * num + step ∧ 2 * num < (2 * r + 1) * step)
    (hlt : num < 2 * binadeSize * step) (hge : shift = 0 ∨ binadeSize * step ≤ num) :
    codeOfUnits num den = shift * binadeSize + r := by
  subst hstep
  have hden : 0 < den := Nat.pos_of_mul_pos_left hpos
  rw [← Nat.mul_assoc, ← Nat.div_lt_iff_lt_mul hden] at hlt
  rw [← Nat.mul_assoc, ← Nat.le_div_iff_mul_le hden] at hge
  rw [codeOfUnits_eq hlt hge, Nat.mul_comm den, roundHalfEven_eq hlow hhigh hodd hpos]

/-- A quotient between the midpoints around the least magnitude of a binade is rounded to that, from
either side: below it the spacing is half as wide. -/
theorem codeOfUnits_eq_of_least {half : Nat} (hhalf : half = 2 ^ shift * den) (hpos : 0 < half)
    (hlow : 2 * (2 * binadeSize) * half ≤ 2 * num + half)
    (hhigh : 2 * num ≤ (2 * binadeSize + 1) * (2 * half)) :
    codeOfUnits num den = shift * binadeSize + 2 * binadeSize := by
  have heven (k : Nat) : ¬ (k * binadeSize) % 2 = 1 := by
    rw [Nat.mod_eq_zero_of_dvd (Nat.dvd_mul_left_of_dvd two_dvd_binadeSize k)]
    exact Nat.zero_ne_one
  -- All bounds are multiples of half a spacing.
  obtain ⟨span, hspan⟩ : ∃ span, span = binadeSize * half := ⟨_, rfl⟩
  have hle : half ≤ span := hspan ▸ Nat.le_mul_of_pos_left half binadeSize_pos
  have hfour : 2 * (2 * binadeSize) * half = 4 * span := by rw [hspan]; ring
  have htwo : 2 * binadeSize * half = 2 * span := by rw [hspan]; ring
  have hwide : binadeSize * (2 * half) = 2 * span := by rw [hspan]; ring
  have hwide' : 2 * binadeSize * (2 * half) = 4 * span := by rw [hspan]; ring
  rw [Nat.add_mul, hwide'] at hhigh
  by_cases hge : 2 * span ≤ num
  · -- In the binade itself: the number is its first one.
    have hcode : shift * binadeSize + 2 * binadeSize = (shift + 1) * binadeSize + binadeSize := by
      ring
    have hstep : 2 * half = 2 ^ (shift + 1) * den := by
      rw [hhalf]
      ring
    rw [hcode]
    refine codeOfUnits_eq_of_nearest hstep (by omega) (by omega) ?_ (fun h => ?_) (by omega)
      (.inr (by omega))
    · rwa [Nat.add_mul, hwide']
    · rw [← Nat.one_mul binadeSize] at h
      exact absurd h (heven 1)
  · -- In the binade below: the number is the one past its end.
    refine codeOfUnits_eq_of_nearest hhalf hpos hlow ?_ (fun h => absurd h (heven 2)) (by omega)
      (.inr (by omega))
    rw [Nat.add_mul, hfour]
    omega

/-- **What reads back to a code is rounded to it.** -/
theorem codeOfUnits_eq_of_readsBack (hden : 0 < den) (hcode : 0 < code)
    (h : readsBack code (2 * num) den) : codeOfUnits num den = code := by
  obtain ⟨shift, r, rfl, hr, hshift⟩ := exists_binade code
  obtain ⟨hlow, hhigh, hodd⟩ := readsBack_iff.1 h
  have hsize := binadeSize_pos
  -- The spacing of the binade, as a multiple of the denominator.
  obtain ⟨step, hstep⟩ : ∃ step, step = 2 ^ shift * den := ⟨_, rfl⟩
  have hpos : 0 < step := hstep ▸ Nat.mul_pos (Nat.two_pow_pos shift) hden
  have hparity : (shift * binadeSize + r) % 2 = r % 2 := by
    obtain ⟨k, hk⟩ := Nat.dvd_mul_left_of_dvd two_dvd_binadeSize shift
    rw [hk, Nat.mul_add_mod]
  rw [magnitudeOfCode_add_succ hr hshift, Nat.mul_assoc, ← hstep] at hhigh hodd
  rw [hparity] at hodd
  by_cases hinner : shift = 0 ∨ binadeSize < r
  · -- The code below is of the same binade.
    have hr0 : 0 < r := hinner.elim (fun h => by simpa [h] using hcode) (Nat.lt_trans hsize)
    have hbelow := congrArg (· * den) (magnitudeOfCode_pred_add hr0 (Nat.le_of_lt hr) hinner)
    rw [Nat.add_mul, Nat.mul_assoc (2 * r), ← hstep] at hbelow
    refine codeOfUnits_eq_of_nearest hstep hpos ?_ hhigh (fun h => ?_) ?_ ?_
    · rw [← hbelow]
      exact Nat.add_le_add_right hlow step
    · rw [← hbelow]
      exact ⟨Nat.add_lt_add_right (hodd h).1 step, (hodd h).2⟩
    · have := Nat.mul_le_mul_right step (Nat.succ_le_of_lt hr)
      nlinarith
    · refine hinner.imp_right fun h => ?_
      have := Nat.mul_le_mul_right step (Nat.succ_le_of_lt h)
      nlinarith
  · -- The code is the least of its binade.
    rw [not_or, Nat.not_lt] at hinner
    obtain rfl : r = binadeSize := Nat.le_antisymm hinner.2 (hshift.resolve_left hinner.1)
    obtain ⟨shift, rfl⟩ := Nat.exists_eq_succ_of_ne_zero hinner.1
    have hcodeEq : shift.succ * binadeSize + binadeSize = shift * binadeSize + 2 * binadeSize := by
      rw [Nat.succ_eq_add_one]
      ring
    have hhalf : step = 2 * (2 ^ shift * den) := by
      rw [hstep, Nat.succ_eq_add_one]
      ring
    have hpred : magnitudeOfCode (shift * binadeSize + 2 * binadeSize - 1) +
        magnitudeOfCode (shift * binadeSize + 2 * binadeSize) + 2 ^ shift =
          2 * (2 * binadeSize) * 2 ^ shift :=
      magnitudeOfCode_pred_add (Nat.mul_pos (Nat.succ_pos 1) hsize) (Nat.le_refl _)
        (.inr (by omega))
    have hbelow := congrArg (· * den) hpred
    rw [Nat.add_mul, Nat.mul_assoc (2 * (2 * binadeSize)), ← hcodeEq] at hbelow
    rw [hcodeEq]
    refine codeOfUnits_eq_of_least rfl (Nat.mul_pos (Nat.two_pow_pos shift) hden) ?_ ?_
    · rw [← hbelow]
      exact Nat.add_le_add_right hlow _
    · rw [← hhalf]
      exact hhigh

end Binary64

end RuleDiagram
