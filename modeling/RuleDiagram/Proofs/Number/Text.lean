import RuleDiagram.Proofs.Number.Rounding
import RuleDiagram.Proofs.Text.Numeral

/-!
# Written binary numbers are read back

The digits that a number is written with are found by trial, and each trial asks whether the digits
read back to the number; if all fail, its exact value is written. So the search need not be
followed: the decimal it ends with reads back, and layout, trailing zeros and the range of exponents
that are looked at change nothing about its value.

## Main definitions

* `Decimal.shift`: a decimal with further zeros at the end of its digits
* `Decimal.ReadsBack`: a decimal is rounded to a code
* `LaysOut`: a numeral is the text of a decimal

## Main results

* `readsBack_shortest`: the digits searched for are rounded to the code
* `ofDecimal_of_readsBack`: the number of a decimal that reads back
* `exists_laysOut`: a laid out decimal is a numeral of the same value
* `Binary64.exists_numeral`, `floatOf_text`: a finite number comes back from its text
-/

namespace RuleDiagram

open Binary64

namespace Decimal

variable {d : Decimal} {code k : Nat}

/-- The decimal with further zeros at the end of its digits, of the same value. -/
def shift (d : Decimal) (k : Nat) : Decimal := ⟨d.digits * 10 ^ k, d.exponent - k⟩

/-- The value of a decimal in units is a quotient of this and the denominator. -/
def numerator (d : Decimal) : Nat := d.digits * Nat.pow 10 d.exponent.toNat * unitsPerOne

def denominator (d : Decimal) : Nat := Nat.pow 10 (-d.exponent).toNat

/-- **A decimal lies between the midpoints around the number with a code.** -/
def ReadsBack (d : Decimal) (code : Nat) : Prop := readsBack code (2 * d.numerator) d.denominator

theorem denominator_pos : 0 < d.denominator := Nat.pow_pos (by decide)

theorem denominator_congr {e : Decimal} (h : d.exponent = e.exponent) :
    d.denominator = e.denominator := by
  rw [denominator, h, denominator]

theorem numerator_of_nonpos (h : d.exponent ≤ 0) : d.numerator = d.digits * unitsPerOne := by
  rw [numerator, Int.toNat_of_nonpos h, Nat.pow_eq, Nat.pow_zero, Nat.mul_one]

theorem numerator_shift : (d.shift k).numerator * d.denominator =
    d.numerator * (d.shift k).denominator := by
  have hpow : k + (d.exponent - k).toNat + (-d.exponent).toNat =
      d.exponent.toNat + (-(d.exponent - k)).toNat := by
    omega
  have hten := congrArg (10 ^ ·) hpow
  simp only [Nat.pow_add] at hten
  simp only [numerator, denominator, shift, Nat.pow_eq]
  calc d.digits * 10 ^ k * 10 ^ (d.exponent - k).toNat * unitsPerOne * 10 ^ (-d.exponent).toNat
      = d.digits * unitsPerOne * (10 ^ k * 10 ^ (d.exponent - k).toNat *
          10 ^ (-d.exponent).toNat) := by ring
    _ = d.digits * 10 ^ d.exponent.toNat * unitsPerOne * 10 ^ (-(d.exponent - k)).toNat := by
      rw [hten]
      ring

theorem readsBack_shift_iff : (d.shift k).ReadsBack code ↔ d.ReadsBack code := by
  refine readsBack_congr denominator_pos denominator_pos ?_
  rw [Nat.mul_assoc, numerator_shift, Nat.mul_assoc]

theorem exists_shift_stripZeros (n : Nat) (d : Decimal) : ∃ k, (d.stripZeros n).shift k = d := by
  induction n generalizing d with
  | zero => exact ⟨0, by simp [stripZeros, shift]⟩
  | succ n ih =>
    unfold stripZeros
    split
    · -- A zero is dropped: one more shift brings it back.
      next h =>
      obtain ⟨k, hk⟩ := ih ⟨d.digits / 10, d.exponent + 1⟩
      have hdigits : (stripZeros n ⟨d.digits / 10, d.exponent + 1⟩).digits * 10 ^ k =
          d.digits / 10 := congrArg digits hk
      have hexponent : (stripZeros n ⟨d.digits / 10, d.exponent + 1⟩).exponent - k =
          d.exponent + 1 := congrArg exponent hk
      refine ⟨k + 1, ?_⟩
      obtain ⟨digits, exponent⟩ := d
      rw [shift, mk.injEq, Nat.pow_succ, ← Nat.mul_assoc, hdigits]
      exact ⟨Nat.div_mul_cancel (Nat.dvd_of_mod_eq_zero h), by dsimp only at *; omega⟩
    · exact ⟨0, by simp [shift]⟩

theorem ReadsBack.stripZeros (h : d.ReadsBack code) (n : Nat) :
    (d.stripZeros n).ReadsBack code := by
  obtain ⟨k, hk⟩ := exists_shift_stripZeros n d
  rwa [← readsBack_shift_iff (k := k), hk]

/-- The exact value of a number reads back to it. -/
theorem ReadsBack.of_numerator_eq (hcode : 0 < code)
    (h : d.numerator = magnitudeOfCode code * d.denominator) : d.ReadsBack code := by
  rw [ReadsBack, h]
  exact readsBack_magnitudeOfCode denominator_pos hcode

end Decimal

namespace Binary64

variable {x : Binary64} {code : Nat} {d : Decimal}

/-! ## The digits of a number -/

theorem readsBack_of_onGrid {place : Int} (h : onGrid code place = some d) : d.ReadsBack code := by
  have hits {n : Nat} (hn : readsBack code (n * (halfUnitsPerOne * Nat.pow 10 place.toNat))
      (Nat.pow 10 (-place).toNat)) : Decimal.ReadsBack ⟨n, place⟩ code := by
    have hhalf : halfUnitsPerOne = 2 * unitsPerOne := by decide +kernel
    have heq : 2 * Decimal.numerator ⟨n, place⟩ =
        n * (halfUnitsPerOne * Nat.pow 10 place.toNat) := by
      rw [hhalf, Decimal.numerator]
      ring
    rw [Decimal.ReadsBack, heq]
    exact hn
  unfold onGrid at h
  dsimp only at h
  split_ifs at h with h₁ h₂
  · cases h
    exact hits (by simp only [Bool.and_eq_true] at h₁; exact h₁.1)
  · cases h
    exact hits h₂

/-- **The digits searched for are rounded to the code.** -/
theorem readsBack_shortest (hcode : 0 < code) : (shortest code).ReadsBack code := by
  unfold shortest
  dsimp only
  split
  · -- Some short decimal was found.
    next d hd =>
    obtain ⟨n, -, hn⟩ := List.exists_of_findSome?_eq_some hd
    exact (readsBack_of_onGrid hn).stripZeros 17
  · -- None was found: the decimal is the exact value.
    refine Decimal.ReadsBack.stripZeros ?_ 1100
    have hten : Nat.pow 5 1074 * unitsPerOne = Decimal.denominator ⟨0, -1074⟩ := by decide +kernel
    refine Decimal.ReadsBack.of_numerator_eq hcode ?_
    rw [Decimal.numerator_of_nonpos (Int.negSucc_lt_zero 1073).le, Nat.mul_assoc, hten]
    exact congrArg _ (Decimal.denominator_congr rfl)

/-! ## The number of a decimal -/

theorem lt_pow_digitCount (n : Nat) : n < 10 ^ digitCount n := by
  have hpos : 0 < digitCount n := List.length_pos_iff.2 (Nat.toDigits_ne_nil)
  exact (digitCount_le_iff hpos).1 (Nat.le_refl _)

theorem pow_digitCount_le {n : Nat} (hn : 0 < n) : 10 ^ (digitCount n - 1) ≤ n := by
  by_cases h : 0 < digitCount n - 1
  · exact Nat.not_lt.1 (mt (digitCount_le_iff h).2 (by omega))
  · rw [Nat.eq_zero_of_not_pos h]
    exact hn

/-- A decimal that reads back to a number is at least half a unit. -/
theorem denominator_le_of_readsBack (hcode : 0 < code) (h : d.ReadsBack code) :
    d.denominator ≤ 2 * d.numerator :=
  Nat.le_trans (Nat.le_mul_of_pos_left _ (Nat.add_pos_right _ (magnitudeOfCode_pos hcode)))
    (readsBack_iff.1 h).1

/-- A decimal that reads back to a finite number is at most the first magnitude beyond them. -/
theorem numerator_le_of_readsBack (hfinite : code < infinityCode) (h : d.ReadsBack code) :
    d.numerator ≤ 2 ^ 2098 * d.denominator := by
  have hself := magnitudeOfCode_mono (Nat.le_of_lt hfinite)
  have hnext := magnitudeOfCode_mono (Nat.succ_le_of_lt hfinite)
  rw [magnitudeOfCode_infinityCode] at hself hnext
  have hsum := Nat.mul_le_mul_right d.denominator (Nat.add_le_add hself hnext)
  have hhigh := Nat.le_trans (readsBack_iff.1 h).2.1 hsum
  rw [← Nat.two_mul, Nat.mul_assoc] at hhigh
  exact Nat.le_of_mul_le_mul_left hhigh Nat.two_pos

theorem le_lead_of_readsBack (hcode : 0 < code) (h : d.ReadsBack code) :
    -400 ≤ d.exponent + digitCount d.digits := by
  -- Otherwise the decimal would be less than half a unit.
  by_contra hlt
  have hunits : 2 * unitsPerOne ≤ 10 ^ 400 := by decide +kernel
  have hdenominator : 10 ^ 400 * 10 ^ digitCount d.digits ≤ d.denominator := by
    rw [← Nat.pow_add, Decimal.denominator]
    exact Nat.pow_le_pow_right (by decide) (by omega)
  generalize 10 ^ 400 = bound at hunits hdenominator
  have hpos : 0 < bound := Nat.lt_of_lt_of_le (by decide +kernel) hunits
  refine Nat.lt_irrefl (bound * d.digits) ?_
  calc bound * d.digits < bound * 10 ^ digitCount d.digits :=
        Nat.mul_lt_mul_of_pos_left (lt_pow_digitCount _) hpos
    _ ≤ 2 * d.numerator := Nat.le_trans hdenominator (denominator_le_of_readsBack hcode h)
    _ = 2 * unitsPerOne * d.digits := by
        rw [Decimal.numerator_of_nonpos (by omega), Nat.mul_comm d.digits, Nat.mul_assoc]
    _ ≤ bound * d.digits := Nat.mul_le_mul_right _ hunits

theorem lead_le_of_readsBack (hdigits : 0 < d.digits) (hfinite : code < infinityCode)
    (h : d.ReadsBack code) : d.exponent + digitCount d.digits ≤ 400 := by
  -- Otherwise the decimal would be beyond all finite numbers.
  by_contra hlt
  have hunits : 2 ^ 2098 < 10 ^ 400 * unitsPerOne := by decide +kernel
  have hdenominator : 10 ^ 400 * d.denominator ≤ d.digits * 10 ^ d.exponent.toNat :=
    calc 10 ^ 400 * d.denominator = 10 ^ (400 + (-d.exponent).toNat) := by
          rw [Nat.pow_add, Decimal.denominator, Nat.pow_eq]
      _ ≤ 10 ^ (digitCount d.digits - 1 + d.exponent.toNat) :=
        Nat.pow_le_pow_right (by decide) (by omega)
      _ = 10 ^ (digitCount d.digits - 1) * 10 ^ d.exponent.toNat := Nat.pow_add _ _ _
      _ ≤ d.digits * 10 ^ d.exponent.toNat := Nat.mul_le_mul_right _ (pow_digitCount_le hdigits)
  refine Nat.lt_irrefl d.numerator ?_
  calc d.numerator ≤ 2 ^ 2098 * d.denominator := numerator_le_of_readsBack hfinite h
    _ < 10 ^ 400 * unitsPerOne * d.denominator :=
        Nat.mul_lt_mul_of_pos_right hunits Decimal.denominator_pos
    _ = 10 ^ 400 * d.denominator * unitsPerOne := Nat.mul_right_comm _ _ _
    _ ≤ d.numerator := Nat.mul_le_mul_right _ hdenominator

/-- **The number of a decimal that reads back.** -/
theorem ofDecimal_of_readsBack (hcode : 0 < code) (hfinite : code < infinityCode)
    (h : d.ReadsBack code) (negative : Bool) : ofDecimal negative d = ofCode negative code := by
  have hne : d.digits ≠ 0 := by
    intro hzero
    have hle := denominator_le_of_readsBack hcode h
    rw [Decimal.numerator, hzero, Nat.zero_mul, Nat.zero_mul] at hle
    exact absurd Decimal.denominator_pos (Nat.not_lt.2 hle)
  have hlow := le_lead_of_readsBack hcode h
  have hhigh := lead_le_of_readsBack (Nat.pos_of_ne_zero hne) hfinite h
  have hcodeOf : codeOfUnits d.numerator d.denominator = code :=
    codeOfUnits_eq_of_readsBack Decimal.denominator_pos hcode h
  unfold ofDecimal
  dsimp only
  rw [if_neg (not_or.2 ⟨hne, Int.not_lt.2 hlow⟩), if_neg (Int.not_lt.2 hhigh), ofUnits, ← hcodeOf]
  rfl

end Binary64

/-! ## The layout of a decimal -/

/-- **A numeral lays out a decimal in a text**: without a sign, not as an integer, and with the same
value. -/
structure LaysOut (m : NumeralParts) (d : Decimal) (text : String) : Prop where
  valid : m.Valid
  negative : m.negative = false
  real : ¬ (m.fraction = [] ∧ m.exponent = none)
  value : ∃ k, m.decimal = d.shift k
  text : text = String.ofList m.chars

variable {d : Decimal}

theorem isDigit_of_mem_replicate {k : Nat} {c : Char} (h : c ∈ List.replicate k '0') :
    c.isDigit := by
  rw [(List.mem_replicate.1 h).2]
  decide

theorem isDigit_of_mem_append {cs ds : List Char} (hcs : ∀ c ∈ cs, c.isDigit)
    (hds : ∀ c ∈ ds, c.isDigit) : ∀ c ∈ cs ++ ds, c.isDigit := fun c hc =>
  (List.mem_append.1 hc).elim (hcs c) (hds c)

/-- Digits around a point lay out the decimal of all digits. -/
theorem laysOut_point {whole fraction : List Char} (hwhole : ∀ c ∈ whole, c.isDigit)
    (hfraction : ∀ c ∈ fraction, c.isDigit) (hwholeNe : whole ≠ []) (hfractionNe : fraction ≠ [])
    {k : Nat} (hdigits : naturalOfDigits (whole ++ fraction) = d.digits * 10 ^ k)
    (hexponent : d.exponent - k = -fraction.length) :
    LaysOut ⟨false, whole, fraction, none⟩ d (String.ofList (whole ++ '.' :: fraction)) where
  valid := ⟨hwhole, hwholeNe, hfraction, by rintro _ _ ⟨⟩⟩
  negative := rfl
  real h := hfractionNe h.1
  value := ⟨k, by
    rw [NumeralParts.decimal, Decimal.shift, Decimal.mk.injEq]
    exact ⟨hdigits, by rw [hexponent]; exact Int.zero_sub _⟩⟩
  text := by
    simp [NumeralParts.chars, NumeralParts.signChars, NumeralParts.fractionChars,
      NumeralParts.exponentChars, hfractionNe]

/-- Digits, the first of them before the point if there are more, and an exponent lay out the
decimal of these digits. -/
theorem laysOut_exponent {ds es : List Char} (hds : ∀ c ∈ ds, c.isDigit) (hne : ds ≠ [])
    (hes : ∀ c ∈ es, c.isDigit) (hesNe : es ≠ []) (hdigits : naturalOfDigits ds = d.digits)
    {lead : Int} (hlead : naturalOfDigits es = lead.natAbs)
    (hexponent : lead = d.exponent + ds.length - 1) :
    LaysOut ⟨false, ds.take 1, ds.drop 1, some (decide (lead < 0), es)⟩ d
      (String.ofList (ds.take 1 ++ (if ds.length ≤ 1 then [] else '.' :: ds.drop 1) ++
        'e' :: (if lead < 0 then '-' else '+') :: es)) where
  valid := by
    refine ⟨fun c hc => hds c (List.mem_of_mem_take hc), by simpa using hne,
      fun c hc => hds c (List.mem_of_mem_drop hc), ?_⟩
    rintro _ _ ⟨⟩
    exact ⟨hesNe, hes⟩
  negative := rfl
  real h := by cases h.2
  value := by
    have hlength : 0 < ds.length := List.length_pos_iff.2 hne
    refine ⟨0, ?_⟩
    rw [NumeralParts.decimal, Decimal.shift, Decimal.mk.injEq]
    refine ⟨by rw [List.take_append_drop, hdigits, Nat.pow_zero, Nat.mul_one], ?_⟩
    simp only [NumeralParts.scale, decide_eq_true_eq, hlead, List.length_drop]
    split_ifs <;> omega
  text := by
    have hfraction : (if ds.length ≤ 1 then [] else '.' :: ds.drop 1) =
        if ds.drop 1 = [] then [] else '.' :: ds.drop 1 := by
      simp only [List.drop_eq_nil_iff]
    rw [hfraction]
    simp [NumeralParts.chars, NumeralParts.signChars, NumeralParts.fractionChars,
      NumeralParts.exponentChars]

/-- **A laid out decimal is a numeral of the same value.** -/
theorem exists_laysOut (l : DecimalLayout) (d : Decimal) : ∃ m, LaysOut m d (l.write d) := by
  obtain ⟨ds, hds⟩ : ∃ ds, ds = Nat.toDigits 10 d.digits := ⟨_, rfl⟩
  have hdigits : ∀ c ∈ ds, c.isDigit := fun c hc => isDigit_of_mem_toDigits (hds ▸ hc)
  have hnatural : naturalOfDigits ds = d.digits := hds ▸ naturalOfDigits_toDigits d.digits
  have hlength : 0 < ds.length := List.length_pos_iff.2 (hds ▸ Nat.toDigits_ne_nil)
  have hne : ds ≠ [] := List.length_pos_iff.1 hlength
  unfold DecimalLayout.write
  dsimp only
  rw [← hds]
  by_cases hplain : l.plainFrom ≤ d.exponent + ds.length - 1 ∧
      d.exponent + ds.length - 1 < l.plainBelow
  · rw [if_pos hplain]
    split_ifs with hwhole hlead
    · -- All digits come before the point, after which there is a zero.
      have hzeros := isDigit_of_mem_append hdigits fun c hc =>
        isDigit_of_mem_replicate (k := d.exponent.toNat) hc
      refine ⟨_, laysOut_point (k := d.exponent.toNat + 1) hzeros
        (fun c hc => isDigit_of_mem_replicate (k := 1) hc) (by simp [hne])
        (List.cons_ne_nil '0' []) ?_ ?_⟩
      · have hone : ['0'] = List.replicate 1 '0' := rfl
        rw [hone, List.append_assoc, List.replicate_append_replicate, naturalOfDigits_append_zeros,
          hnatural]
      · rw [List.length_singleton]
        omega
    · -- The point is among the digits.
      refine ⟨_, laysOut_point (k := 0) (fun c hc => hdigits c (List.mem_of_mem_take hc))
        (fun c hc => hdigits c (List.mem_of_mem_drop hc)) ?_ ?_ ?_ ?_⟩
      · simp [hne]
      · rw [Ne, List.drop_eq_nil_iff]
        omega
      · rw [List.take_append_drop, hnatural, Nat.pow_zero, Nat.mul_one]
      · rw [List.length_drop]
        omega
    · -- All digits come after the point, some of them after zeros.
      have hzeros := isDigit_of_mem_append (fun c hc => isDigit_of_mem_replicate
        (k := (-(d.exponent + ds.length - 1) - 1).toNat) hc) hdigits
      refine ⟨_, laysOut_point (k := 0) (fun c hc => isDigit_of_mem_replicate (k := 1) hc) hzeros
        (List.cons_ne_nil '0' []) (by simp [hne]) ?_ ?_⟩
      · rw [List.append_eq, naturalOfDigits_zeros_append, naturalOfDigits_zeros_append, hnatural,
          Nat.pow_zero, Nat.mul_one]
      · rw [List.append_eq, List.length_append, List.length_replicate]
        omega
  · -- The number is too small or too large for a point alone.
    rw [if_neg hplain]
    refine ⟨_, laysOut_exponent hdigits hne ?_ ?_ hnatural ?_ rfl⟩
    · exact isDigit_of_mem_append (fun c hc => isDigit_of_mem_replicate hc)
        fun c hc => isDigit_of_mem_toDigits hc
    · simp [padZeros]
    · rw [padZeros, naturalOfDigits_zeros_append, naturalOfDigits_toDigits]

/-! ## The text of a number -/

theorem Binary64.ofCode_code {x : Binary64} (h : x.isFinite) : ofCode x.negative x.code = x := by
  have hmin : min x.code infinityCode = x.code :=
    Nat.min_eq_left (Nat.le_of_lt (of_decide_eq_true h))
  simp only [ofCode, hmin]

/-- **A number that a decimal is rounded to** is finite or infinite, but defined. -/
theorem Binary64.isFinite_or_eq_infinity_of_ofDecimal (negative : Bool) (d : Decimal) :
    (ofDecimal negative d).isFinite ∨ ofDecimal negative d = infinity negative := by
  have hcode (code : Nat) :
      (ofCode negative code).isFinite ∨ ofCode negative code = infinity negative := by
    by_cases h : code < infinityCode
    · exact .inl (decide_eq_true (Nat.lt_of_le_of_lt (Nat.min_le_left _ _) h))
    · have hmin : min code infinityCode = infinityCode := Nat.min_eq_right (Nat.le_of_not_lt h)
      exact .inr (by simp only [ofCode, infinity, hmin])
  unfold ofDecimal
  dsimp only
  split
  · exact hcode 0
  · split
    · exact .inr rfl
    · exact hcode _

namespace NumeralParts

variable {m : NumeralParts} {negative : Bool} {code : Nat} {text : String}

/-- The numeral with the given sign. -/
def withSign (m : NumeralParts) (negative : Bool) : NumeralParts := { m with negative := negative }

theorem Valid.withSign (hm : m.Valid) : (m.withSign negative).Valid :=
  ⟨hm.whole, hm.whole_ne_nil, hm.fraction, hm.exponent⟩

theorem chars_withSign (h : m.negative = false) :
    (m.withSign negative).chars = if negative then '-' :: m.chars else m.chars := by
  have hsign : m.signChars = [] := if_neg (ne_true_of_eq_false h)
  rw [chars.eq_def m, hsign]
  cases negative <;> rfl

end NumeralParts

open NumeralParts in
/-- **A finite number is written as a numeral that stands for it**, and not as an integer. -/
theorem Binary64.exists_numeral {x : Binary64} (h : x.isFinite) : ∃ m : NumeralParts, m.Valid ∧
    ¬ (m.fraction = [] ∧ m.exponent = none) ∧ x.text = String.ofList m.chars ∧
    realOfNumeral m.chars = x := by
  have hfinite : x.code < infinityCode := of_decide_eq_true h
  have hdefined : x.isUndefined = false := decide_eq_false (Nat.not_lt.2 (Nat.le_of_lt hfinite))
  by_cases hzero : x.code = 0
  · -- Zero has no digits to be searched for.
    have hm : Valid ⟨x.negative, ['0'], ['0'], none⟩ :=
      ⟨by simp, by simp, by simp, by rintro _ _ ⟨⟩⟩
    refine ⟨⟨x.negative, ['0'], ['0'], none⟩, hm, by simp, ?_, ?_⟩
    · simp only [Binary64.text, hdefined, hzero, if_true, if_false, Bool.false_eq_true]
      cases x.negative <;> rfl
    · rw [hm.realOfNumeral_chars, ← ofCode_code h, hzero]
      rfl
  · obtain ⟨m, hm⟩ := exists_laysOut layout (shortest x.code)
    have hpos : 0 < x.code := Nat.pos_of_ne_zero hzero
    obtain ⟨k, hk⟩ := hm.value
    refine ⟨m.withSign x.negative, hm.valid.withSign, hm.real, ?_, ?_⟩
    · simp only [Binary64.text, hdefined, hzero, h, if_false, if_true, Bool.false_eq_true,
        chars_withSign hm.negative, hm.text]
      cases x.negative with
      | false => rfl
      | true => exact String.ofList_append.symm
    · have hdecimal : (m.withSign x.negative).decimal = (shortest x.code).shift k := hk
      rw [hm.valid.withSign.realOfNumeral_chars, hdecimal]
      exact (ofDecimal_of_readsBack hpos hfinite
        (Decimal.readsBack_shift_iff.2 (readsBack_shortest hpos)) x.negative).trans (ofCode_code h)

/-- What a floating-point token is read as: a finite number or an infinite one. -/
theorem isFinite_or_eq_infinity_of_floatOf (text : String) :
    (floatOf text).isFinite ∨ ∃ negative, floatOf text = .infinity negative :=
  (Binary64.isFinite_or_eq_infinity_of_ofDecimal _ _).imp_right fun h => ⟨_, h⟩

/-- **A finite number comes back from its text.** -/
theorem floatOf_text {x : Binary64} (h : x.isFinite) : floatOf x.text = x := by
  obtain ⟨m, -, -, htext, hm⟩ := Binary64.exists_numeral h
  rw [floatOf, htext, String.toList_ofList, hm]

end RuleDiagram
