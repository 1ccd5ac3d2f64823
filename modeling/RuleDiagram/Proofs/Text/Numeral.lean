import Mathlib
import RuleDiagram.Source.Parser

/-!
# Numerals are read as what they were written for

The digits written are ASCII digits, on which the reading of digits of any script is the usual one.
So an integer comes back from its numeral, unless it has more digits than are read, and the parts of
a numeral with a fraction or an exponent are found again.

## Main definitions

* `NumeralParts`: sign, whole part, fraction and exponent of a numeral

## Main results

* `naturalOfDigits_toDigits`: the digits of a natural stand for it
* `writtenInteger_eq_ok_iff`: the integers that have a written form
* `integerOf_integerText`: an integer comes back from its numeral
* `NumeralParts.Valid.realOfNumeral_chars`: the number that the parts of a numeral stand for
-/

namespace RuleDiagram

variable {c : Char} {cs : List Char} {n : Nat} {z : Int}

/-! ## Digits -/

theorem toNat_of_isDigit (h : c.isDigit) : 48 ≤ c.toNat ∧ c.toNat < 58 := by
  rw [Char.isDigit, Bool.and_eq_true, decide_eq_true_eq, decide_eq_true_eq] at h
  exact ⟨UInt32.le_iff_toNat_le.1 h.1, Nat.lt_succ_of_le (UInt32.le_iff_toNat_le.1 h.2)⟩

theorem digitValue?_of_isDigit (h : c.isDigit) : digitValue? c = some (c.toNat - 48) := by
  obtain ⟨hle, hlt⟩ := toNat_of_isDigit h
  simp [digitValue?, zeroDigits, hle, hlt]

theorem isDigit_of_isDigit (h : c.isDigit) : isDigit c := by
  rw [isDigit, digitValue?_of_isDigit h]
  rfl

theorem naturalOfDigits_eq (h : ∀ c ∈ cs, c.isDigit) :
    naturalOfDigits cs = Nat.ofDigitChars 10 cs 0 := by
  refine List.foldl_ext _ _ 0 fun n c hc => ?_
  rw [digitValue?_of_isDigit (h c hc)]
  rfl

/-- Zeros in front do not count. -/
theorem naturalOfDigits_zeros_append (k : Nat) :
    naturalOfDigits (List.replicate k '0' ++ cs) = naturalOfDigits cs := by
  induction k with
  | zero => rfl
  | succ k ih => exact ih

/-- Zeros at the end are factors of ten. -/
theorem naturalOfDigits_append_zeros (cs : List Char) (k : Nat) :
    naturalOfDigits (cs ++ List.replicate k '0') = naturalOfDigits cs * 10 ^ k := by
  induction k with
  | zero => simp
  | succ k ih =>
    rw [List.replicate_succ', ← List.append_assoc, naturalOfDigits, List.foldl_append,
      ← naturalOfDigits, ih, Nat.pow_succ, ← Nat.mul_assoc, Nat.mul_comm _ 10]
    rfl

theorem digitValue?_lt {v : Nat} (h : digitValue? c = some v) : v < 10 := by
  obtain ⟨start, hstart, rfl⟩ := Option.map_eq_some_iff.1 h
  have hbounds := List.find?_some hstart
  rw [decide_eq_true_eq] at hbounds
  omega

/-- A natural has no more digits than it was written with. -/
theorem naturalOfDigits_lt (cs : List Char) : naturalOfDigits cs < 10 ^ cs.length := by
  -- Induction from the end: the last digit is added last.
  induction cs using List.reverseRecOn with
  | nil => exact Nat.one_pos
  | append_singleton cs c ih =>
    have hstep : naturalOfDigits (cs ++ [c]) =
        10 * naturalOfDigits cs + (digitValue? c).getD 0 := by
      simp [naturalOfDigits]
    have hdigit : (digitValue? c).getD 0 < 10 := by
      cases h : digitValue? c with
      | none => exact Nat.succ_pos 9
      | some v => exact digitValue?_lt h
    rw [hstep, List.length_append, List.length_singleton, Nat.pow_succ]
    omega

theorem isDigit_of_mem_toDigits (h : c ∈ Nat.toDigits 10 n) : c.isDigit :=
  Nat.isDigit_of_mem_toDigits (by decide) (by decide) h

/-- The digits of a natural stand for it. -/
theorem naturalOfDigits_toDigits (n : Nat) : naturalOfDigits (Nat.toDigits 10 n) = n := by
  rw [naturalOfDigits_eq fun c hc => isDigit_of_mem_toDigits hc, Nat.ofDigitChars_ten_toDigits]

theorem digitCount_le_iff {k : Nat} (hk : 0 < k) : digitCount n ≤ k ↔ n < 10 ^ k :=
  Nat.length_toDigits_le_iff (by decide) hk

theorem takeWhile_append_of_stop {p : Char → Bool} {rest : List Char} (h : ∀ c ∈ cs, p c)
    (hrest : ∀ c, rest.head? = some c → p c = false) : (cs ++ rest).takeWhile p = cs := by
  have htake : rest.takeWhile p = [] := by
    cases rest with
    | nil => rfl
    | cons c rest => exact List.takeWhile_cons_of_neg (by simp [hrest c rfl])
  rw [List.takeWhile_append_of_pos h, htake, List.append_nil]

/-! ## Integers -/

@[simp] theorem toList_numeral : (numeral n).toList = Nat.toDigits 10 n := String.toList_ofList

theorem toList_integerText : (integerText z).toList =
    if z < 0 then '-' :: Nat.toDigits 10 z.natAbs else Nat.toDigits 10 z.natAbs := by
  unfold integerText
  split
  · rw [String.toList_append, toList_numeral]
    rfl
  · exact toList_numeral

/-- The integers that have a written form. -/
theorem writtenInteger_eq_ok_iff {text : String} :
    writtenInteger z = .ok text ↔ z.natAbs < 10 ^ digitLimit ∧ text = integerText z := by
  have hcount : ¬ digitLimit < digitCount z.natAbs ↔ z.natAbs < 10 ^ digitLimit := by
    rw [Nat.not_lt, digitCount_le_iff (by decide)]
  unfold writtenInteger
  split
  · next h => simp [← hcount, h]
  · next h => simp [hcount.1 h, eq_comm]

theorem head?_toDigits_ne_minus : (Nat.toDigits 10 n).head? ≠ some '-' := by
  intro h
  exact absurd (isDigit_of_mem_toDigits (List.mem_of_head? h)) (by decide)

/-- **An integer comes back from its numeral.** -/
theorem integerOf_integerText (h : z.natAbs < 10 ^ digitLimit) :
    integerOf (integerText z) = .ok z := by
  have hlength : ¬ digitLimit < (Nat.toDigits 10 z.natAbs).length := by
    rw [Nat.not_lt]
    exact (digitCount_le_iff (by decide)).2 h
  unfold integerOf
  rw [toList_integerText]
  by_cases hneg : z < 0
  · have hz : -(z.natAbs : Int) = z := by omega
    simpa [hneg, hlength, naturalOfDigits_toDigits] using hz
  · have hz : (z.natAbs : Int) = z := by omega
    simpa [hneg, hlength, naturalOfDigits_toDigits, head?_toDigits_ne_minus] using hz

/-- **An integer that is read** has no more digits than are read, and is negative only after a minus
sign. -/
theorem bounds_of_integerOf {text : String} (h : integerOf text = .ok z) :
    z.natAbs < 10 ^ digitLimit ∧ (text.toList.head? ≠ some '-' → 0 ≤ z) := by
  have hbound {ds : List Char} (hds : ¬ digitLimit < ds.length) :
      naturalOfDigits ds < 10 ^ digitLimit :=
    Nat.lt_of_lt_of_le (naturalOfDigits_lt ds)
      (Nat.pow_le_pow_right (by decide) (Nat.le_of_not_lt hds))
  unfold integerOf at h
  by_cases hsign : text.toList.head? = some '-'
  · simp only [hsign, decide_true, if_true] at h
    split at h
    · cases h
    · next hlength =>
      cases h
      exact ⟨by simpa using hbound hlength, fun hne => absurd hsign hne⟩
  · simp only [hsign, decide_false, if_false, Bool.false_eq_true] at h
    split at h
    · cases h
    · next hlength =>
      cases h
      exact ⟨by simpa using hbound hlength, fun _ => Int.natCast_nonneg _⟩

/-! ## The parts of a numeral -/

/-- The parts of a numeral: its sign, the digits before and after the point, and the sign and the
digits of an exponent. Without digits after the point there is no point. -/
structure NumeralParts where
  negative : Bool
  whole : List Char
  fraction : List Char
  exponent : Option (Bool × List Char)

namespace NumeralParts

def signChars (m : NumeralParts) : List Char := if m.negative then ['-'] else []

def fractionChars (m : NumeralParts) : List Char :=
  if m.fraction = [] then [] else '.' :: m.fraction

def exponentChars (m : NumeralParts) : List Char :=
  match m.exponent with
  | none => []
  | some (negative, digits) => 'e' :: (if negative then '-' else '+') :: digits

/-- The characters of a numeral. -/
def chars (m : NumeralParts) : List Char :=
  m.signChars ++ (m.whole ++ (m.fractionChars ++ m.exponentChars))

/-- The integer that the exponent stands for. -/
def scale (m : NumeralParts) : Int :=
  match m.exponent with
  | none => 0
  | some (negative, digits) =>
    if negative then -(naturalOfDigits digits : Int) else naturalOfDigits digits

/-- The decimal that the digits and the exponent stand for. -/
def decimal (m : NumeralParts) : Decimal :=
  ⟨naturalOfDigits (m.whole ++ m.fraction), m.scale - m.fraction.length⟩

/-- The parts are of ASCII digits, and there are digits before the point and in the exponent. -/
structure Valid (m : NumeralParts) : Prop where
  whole : ∀ c ∈ m.whole, c.isDigit
  whole_ne_nil : m.whole ≠ []
  fraction : ∀ c ∈ m.fraction, c.isDigit
  exponent : ∀ negative digits, m.exponent = some (negative, digits) →
    digits ≠ [] ∧ ∀ c ∈ digits, c.isDigit

variable {m : NumeralParts}

theorem exponentChars_cases (m : NumeralParts) : m.exponent = none ∧ m.exponentChars = [] ∨
    ∃ negative digits, m.exponent = some (negative, digits) ∧
      m.exponentChars = 'e' :: (if negative then '-' else '+') :: digits := by
  unfold exponentChars
  cases h : m.exponent with
  | none => exact .inl ⟨rfl, rfl⟩
  | some x => exact .inr ⟨x.1, x.2, rfl, rfl⟩

theorem head?_exponentChars {c : Char} (h : m.exponentChars.head? = some c) : c = 'e' := by
  obtain ⟨-, he⟩ | ⟨_, _, -, he⟩ := m.exponentChars_cases
  · rw [he] at h
    cases h
  · rw [he] at h
    cases h
    rfl

/-- No digit comes right after the digits before the point. -/
theorem head?_tail {c : Char} (h : (m.fractionChars ++ m.exponentChars).head? = some c) :
    c = '.' ∨ c = 'e' := by
  unfold fractionChars at h
  split at h
  · exact .inr (head?_exponentChars h)
  · cases h
    exact .inl rfl

/-- The numeral of an integer. -/
def ofInt (z : Int) : NumeralParts := ⟨decide (z < 0), Nat.toDigits 10 z.natAbs, [], none⟩

theorem valid_ofInt (z : Int) : (ofInt z).Valid :=
  ⟨fun _ hc => isDigit_of_mem_toDigits hc, Nat.toDigits_ne_nil, by simp [ofInt], by rintro _ _ ⟨⟩⟩

theorem ofList_chars_ofInt (z : Int) : String.ofList (ofInt z).chars = integerText z := by
  rw [String.ext_iff, String.toList_ofList, toList_integerText]
  by_cases h : z < 0 <;> simp [chars, signChars, fractionChars, exponentChars, ofInt, h]

/-- **The number that the parts of a numeral stand for.** -/
theorem Valid.realOfNumeral_chars (hm : m.Valid) :
    realOfNumeral m.chars = .ofDecimal m.negative m.decimal := by
  have hdigits {cs : List Char} (h : ∀ c ∈ cs, c.isDigit) : ∀ c ∈ cs, isDigit c := fun c hc =>
    isDigit_of_isDigit (h c hc)
  -- The sign.
  obtain ⟨c, whole, hwhole⟩ := List.exists_cons_of_ne_nil hm.whole_ne_nil
  have hsign : decide (m.chars.head? = some '-') = m.negative := by
    have hc : c ≠ '-' := by
      rintro rfl
      exact absurd (hm.whole '-' (hwhole ▸ List.mem_cons_self)) (by decide)
    cases hneg : m.negative <;> simp [chars, signChars, hneg, hwhole, hc]
  have hunsigned : (if m.negative = true then m.chars.drop 1 else m.chars) =
      m.whole ++ (m.fractionChars ++ m.exponentChars) := by
    cases hneg : m.negative <;> simp [chars, signChars, hneg]
  -- The digits before the point.
  have htake : (m.whole ++ (m.fractionChars ++ m.exponentChars)).takeWhile isDigit = m.whole := by
    refine takeWhile_append_of_stop (hdigits hm.whole) fun c hc => ?_
    obtain rfl | rfl := head?_tail hc <;> decide
  -- The digits after the point.
  have hfraction : (if (m.fractionChars ++ m.exponentChars).head? = some '.' then
      ((m.fractionChars ++ m.exponentChars).drop 1).takeWhile isDigit else []) = m.fraction := by
    unfold fractionChars
    split
    · next hnil =>
      rw [List.nil_append, if_neg, hnil]
      intro h
      exact absurd (head?_exponentChars h) (by decide)
    · rw [List.cons_append, List.head?_cons, if_pos rfl, List.drop_one, List.tail_cons]
      refine takeWhile_append_of_stop (hdigits hm.fraction) fun c hc => ?_
      rw [head?_exponentChars hc]
      decide
  have hafter : (m.fractionChars ++ m.exponentChars).drop
      (if m.fraction = [] then 0 else m.fraction.length + 1) = m.exponentChars := by
    unfold fractionChars
    split
    · rfl
    · rw [List.cons_append, List.drop_succ_cons, List.drop_left]
  -- The exponent.
  have hscale : (if '-' ∈ m.exponentChars then
      -(naturalOfDigits (m.exponentChars.filter isDigit) : Int)
      else naturalOfDigits (m.exponentChars.filter isDigit)) = m.scale := by
    unfold scale
    obtain ⟨h, he⟩ | ⟨negative, digits, h, he⟩ := m.exponentChars_cases
    · rw [h, he]
      rfl
    · obtain ⟨-, hds⟩ := hm.exponent negative digits h
      have hminus : '-' ∉ digits := fun hmem => absurd (hds '-' hmem) (by decide)
      have hfilter : digits.filter isDigit = digits :=
        List.filter_eq_self.2 (hdigits hds)
      have hletter : isDigit 'e' = false ∧ isDigit '+' = false ∧ isDigit '-' = false := by decide
      cases negative <;> simp [h, he, hminus, hfilter, hletter]
  unfold realOfNumeral decimal
  simp only [hsign, hunsigned, htake, List.drop_left, hfraction, hafter, hscale]

end NumeralParts

end RuleDiagram
