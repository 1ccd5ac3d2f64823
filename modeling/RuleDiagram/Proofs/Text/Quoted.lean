import Mathlib.Data.List.Basic
import RuleDiagram.Proofs.Outcome
import RuleDiagram.Source.Token
import RuleDiagram.Text.Quoted

/-!
# Quoted texts are read as what they were written for

Each character is written by itself, by one escape, or by one or two 16-bit units, and each of these
is read as that character. So a text comes back from its quoted form, and the quoted form ends where
its first unprotected quote is.

## Main results

* `quotedChar_cases`: how a character is written
* `unquoted_quoted`: a text comes back from its quoted form
* `closingLength?_flatMap_quotedChar`: where the quoted form of a text ends
-/

namespace RuleDiagram

variable {c e : Char} {cs xs : List Char} {n o : Nat}

/-! ## Units -/

theorem hexadecimal_succ {width : Nat} (hwidth : 0 < width) (n : Nat) :
    hexadecimal (width + 1) n = hexadecimal width (n / 16) ++ [(n % 16).digitChar] := by
  unfold hexadecimal padZeros
  rw [Nat.toDigits_eq_if (n := n) (by decide)]
  split
  · next hlt =>
    rw [Nat.div_eq_of_lt hlt, Nat.mod_eq_of_lt hlt, Nat.toDigits_zero]
    obtain ⟨k, rfl⟩ := Nat.exists_eq_succ_of_ne_zero (Nat.ne_of_gt hwidth)
    simp [List.replicate_succ']
  · rw [List.length_append, List.length_singleton, Nat.add_sub_add_right, List.append_assoc]

theorem hexadecimal_one (h : n < 16) : hexadecimal 1 n = [n.digitChar] := by
  rw [hexadecimal, Nat.toDigits_of_lt_base h]
  rfl

/-- The escape of a unit holds its four hexadecimal digits. -/
theorem unitEscape_eq (h : n < 65536) : unitEscape n =
    ['\\', 'u', (n / 16 / 16 / 16).digitChar, (n / 16 / 16 % 16).digitChar,
      (n / 16 % 16).digitChar, (n % 16).digitChar] := by
  rw [unitEscape, hexadecimal_succ (by decide), hexadecimal_succ (by decide),
    hexadecimal_succ (by decide), hexadecimal_one (by omega)]
  rfl

theorem hexValue?_digitChar : ∀ d < 16, hexValue? d.digitChar = some d := by decide

theorem unitOf?_digitChars (h : n < 65536) :
    unitOf? (n / 16 / 16 / 16).digitChar (n / 16 / 16 % 16).digitChar (n / 16 % 16).digitChar
      (n % 16).digitChar = some n := by
  have hdigit (d : Nat) (hd : d < 16) := hexValue?_digitChar d hd
  rw [unitOf?, hdigit _ (by omega), hdigit _ (by omega), hdigit _ (by omega), hdigit _ (by omega)]
  simp only [Option.bind_eq_bind, Option.bind_some, Option.pure_def, Option.some_inj]
  omega

/-! ## How a character is written -/

/-- The codes of characters leave out those of the halves of pairs. -/
theorem toNat_cases (c : Char) :
    c.toNat < 0xD800 ∨ 0xDFFF < c.toNat ∧ c.toNat < 0x110000 := c.valid

/-- **How a character is written**: by itself, by one escape, by its unit, or by a pair of units. -/
theorem quotedChar_cases (c : Char) :
    (quotedChar c = [c] ∧ c ≠ '"' ∧ c ≠ '\\' ∧ 32 ≤ c.toNat) ∨
    (∃ e, quotedChar c = ['\\', e] ∧ escapedChar? e = some c ∧ e ≠ 'u' ∧ e ≠ '\n') ∨
    (quotedChar c = unitEscape c.toNat ∧ c.toNat < 65536) ∨
    ∃ high low, quotedChar c = unitEscape high ++ unitEscape low ∧ 0xD800 ≤ high ∧ high < 0xDC00 ∧
      0xDC00 ≤ low ∧ low < 0xE000 ∧ pairChar high low = c := by
  unfold quotedChar
  dsimp only
  have hvalid := toNat_cases c
  split
  · next h =>
    obtain rfl | rfl := h
    · exact .inr (.inl ⟨'"', rfl, by decide⟩)
    · exact .inr (.inl ⟨'\\', rfl, by decide⟩)
  · -- Five control characters have escapes of their own; what is left is told by its code.
    next h =>
    split
    · next hc => exact .inr (.inl ⟨'n', rfl, by rw [hc]; decide⟩)
    split
    · next hc => exact .inr (.inl ⟨'r', rfl, by rw [hc]; decide⟩)
    split
    · next hc => exact .inr (.inl ⟨'t', rfl, by rw [hc]; decide⟩)
    split
    · next hc => exact .inr (.inl ⟨'f', rfl, by rw [← Char.ofNat_toNat c, hc]; decide⟩)
    split
    · next hc => exact .inr (.inl ⟨'b', rfl, by rw [← Char.ofNat_toNat c, hc]; decide⟩)
    obtain ⟨hquote, hbackslash⟩ := not_or.1 h
    split
    · next hc => exact .inl ⟨rfl, hquote, hbackslash, hc.1⟩
    split
    · next hc => exact .inr (.inr (.inl ⟨rfl, hc⟩))
    · -- Beyond the units, the halves of the pair share the bits above the first supplement.
      next hc =>
      simp only [supplementaryStart] at hc ⊢
      refine .inr (.inr (.inr ⟨_, _, rfl, by omega, by omega, by omega, by omega, ?_⟩))
      have hsum : 65536 + (55296 + (c.toNat - 65536) / 1024 - 55296) * 1024 +
          (56320 + (c.toNat - 65536) % 1024 - 56320) = c.toNat := by omega
      rw [pairChar, supplementaryStart, hsum, Char.ofNat_toNat]

/-! ## Reading -/

theorem unquotedFrom_skip (ds : List Char) :
    unquotedFrom o ds.length (ds ++ xs) = unquotedFrom (o + ds.length) 0 xs := by
  induction ds generalizing o with
  | nil => rfl
  | cons d ds ih =>
    rw [List.cons_append, List.length_cons, unquotedFrom, ih]
    congr 1
    omega

theorem unitChar_toNat (c : Char) : unitChar c.toNat = c := by
  have hvalid := toNat_cases c
  rw [unitChar, if_neg (by omega), Char.ofNat_toNat]

/-- A character that is written by itself is read by itself. -/
theorem unquotedFrom_plain (hquote : c ≠ '"') (hbackslash : c ≠ '\\') (hc : 32 ≤ c.toNat) :
    unquotedFrom o 0 (c :: xs) = (c :: ·) <$> unquotedFrom (o + 1) 0 xs := by
  rw [unquotedFrom, if_neg hquote, if_neg hbackslash, if_neg (by omega)]

/-- What is read of an escape. -/
theorem unquotedFrom_escape {ds : List Char} (h : escapeAfter o (ds ++ xs) = .ok (c, ds.length)) :
    unquotedFrom o 0 ('\\' :: ds ++ xs) =
      (c :: ·) <$> unquotedFrom (o + ('\\' :: ds).length) 0 xs := by
  rw [List.cons_append, unquotedFrom, if_neg (by decide), if_pos rfl, h]
  dsimp only
  rw [unquotedFrom_skip, List.length_cons]
  congr 2
  omega

theorem escapeAfter_of_ne (hu : e ≠ 'u') (he : escapedChar? e = some c) :
    escapeAfter o (e :: xs) = .ok (c, 1) := by
  rw [escapeAfter, he]
  · exact fun _ _ _ _ _ h _ => hu h
  · exact hu

/-- What is read of a unit that is no first half of a pair. -/
theorem escapeAfter_unit {a b c d : Char} {unit : Nat} (h : unitOf? a b c d = some unit)
    (hunit : ¬ (0xD800 ≤ unit ∧ unit < 0xDC00)) :
    escapeAfter o ('u' :: a :: b :: c :: d :: xs) = .ok (unitChar unit, 5) := by
  rw [escapeAfter, h]
  dsimp only
  split
  · rw [if_neg hunit]
  · rfl

/-- What is read of a pair of units. -/
theorem escapeAfter_pair {a b c d a' b' c' d' : Char} {high low : Nat}
    (h : unitOf? a b c d = some high) (hhigh : 0xD800 ≤ high ∧ high < 0xDC00)
    (h' : unitOf? a' b' c' d' = some low) (hlow : 0xDC00 ≤ low ∧ low < 0xE000) :
    escapeAfter o ('u' :: a :: b :: c :: d :: '\\' :: 'u' :: a' :: b' :: c' :: d' :: xs) =
      .ok (pairChar high low, 11) := by
  simp only [escapeAfter, h, h', if_pos hhigh, if_pos hlow]

/-- **A character is read as what it was written for.** -/
theorem unquotedFrom_quotedChar (o : Nat) (c : Char) (xs : List Char) :
    unquotedFrom o 0 (quotedChar c ++ xs) =
      (c :: ·) <$> unquotedFrom (o + (quotedChar c).length) 0 xs := by
  obtain ⟨h, hquote, hbackslash, hc⟩ | ⟨e, h, he, hu, -⟩ | ⟨h, hlt⟩ |
    ⟨high, low, h, hhigh, hhigh', hlow, hlow', hpair⟩ := quotedChar_cases c
  · rw [h]
    exact unquotedFrom_plain hquote hbackslash hc
  · rw [h]
    exact unquotedFrom_escape (escapeAfter_of_ne hu he)
  · -- The unit of a character is no half of a pair.
    have hvalid := toNat_cases c
    rw [h, unitEscape_eq hlt]
    refine unquotedFrom_escape ((escapeAfter_unit (unitOf?_digitChars hlt) (by omega)).trans ?_)
    rw [unitChar_toNat]
    rfl
  · rw [h, unitEscape_eq (by omega), unitEscape_eq (by omega)]
    refine unquotedFrom_escape ((escapeAfter_pair (unitOf?_digitChars (by omega)) ⟨hhigh, hhigh'⟩
      (unitOf?_digitChars (by omega)) ⟨hlow, hlow'⟩).trans ?_)
    rw [hpair]
    rfl

/-- **A text comes back from its quoted form.** -/
theorem unquoted_quoted (s : String) : unquoted (quoted s) = .ok s := by
  have hchars (cs : List Char) (o : Nat) :
      unquotedFrom o 0 (cs.flatMap quotedChar ++ ['"']) = .ok cs := by
    induction cs generalizing o with
    | nil => rfl
    | cons c cs ih =>
      rw [List.flatMap_cons, List.append_assoc, unquotedFrom_quotedChar, ih]
      rfl
  rw [unquoted, quoted, String.toList_ofList, List.cons_append, unquotedFrom, hchars]
  exact congrArg Except.ok String.ofList_toList

/-! ## Where a quoted text ends -/

theorem closingLength?_plain (hquote : c ≠ '"') (hbackslash : c ≠ '\\') :
    closingLength? (c :: xs) = (closingLength? xs).map (· + 1) := by
  rw [closingLength?]
  · exact hquote
  · rintro rfl
    exact absurd rfl hbackslash
  · rintro _ _ rfl
    exact absurd rfl hbackslash

theorem closingLength?_escape (h : c ≠ '\n') :
    closingLength? ('\\' :: c :: xs) = (closingLength? xs).map (· + 2) := by
  rw [closingLength?, if_neg h]

theorem digitChar_ne_quote : ∀ d < 16, d.digitChar ≠ '"' ∧ d.digitChar ≠ '\\' := by decide

theorem closingLength?_unitEscape (h : n < 65536) :
    closingLength? (unitEscape n ++ xs) = (closingLength? xs).map (· + (unitEscape n).length) := by
  have hdigit (d : Nat) (hd : d < 16) (ys : List Char) :
      closingLength? (d.digitChar :: ys) = (closingLength? ys).map (· + 1) :=
    closingLength?_plain (digitChar_ne_quote d hd).1 (digitChar_ne_quote d hd).2
  rw [unitEscape_eq h]
  simp only [List.cons_append, List.nil_append]
  rw [closingLength?_escape (by decide), hdigit _ (by omega), hdigit _ (by omega),
    hdigit _ (by omega), hdigit _ (by omega)]
  simp only [Option.map_map]
  rfl

/-- The quoted form of a character is passed over. -/
theorem closingLength?_quotedChar (c : Char) (xs : List Char) :
    closingLength? (quotedChar c ++ xs) =
      (closingLength? xs).map (· + (quotedChar c).length) := by
  obtain ⟨h, hquote, hbackslash, -⟩ | ⟨e, h, -, -, hbreak⟩ | ⟨h, hlt⟩ |
    ⟨high, low, h, -, hhigh, -, hlow, -⟩ := quotedChar_cases c
  · rw [h]
    exact closingLength?_plain hquote hbackslash
  · rw [h]
    exact closingLength?_escape hbreak
  · rw [h]
    exact closingLength?_unitEscape hlt
  · rw [h, List.append_assoc, closingLength?_unitEscape (by omega),
      closingLength?_unitEscape (by omega), Option.map_map, List.length_append]
    congr 1
    funext k
    exact Nat.add_assoc k _ _ |>.trans (by rw [Nat.add_comm (unitEscape low).length])

/-- The quoted form of a text ends at its closing quote. -/
theorem closingLength?_flatMap_quotedChar (cs xs : List Char) :
    closingLength? (cs.flatMap quotedChar ++ '"' :: xs) =
      some ((cs.flatMap quotedChar).length + 1) := by
  induction cs with
  | nil => rfl
  | cons c cs ih =>
    rw [List.flatMap_cons, List.append_assoc, closingLength?_quotedChar, ih, Option.map_some,
      List.length_append]
    congr 1
    omega

end RuleDiagram
