import Mathlib.Algebra.Group.Nat.Defs
import RuleDiagram.Proofs.Text.Quoted
import RuleDiagram.Text.Literal

/-!
# Literals are read as what they were written for

In a literal a character stands for itself or for one escape, whose letter says how many hexadecimal
digits belong to it. So the first character of a text is found again from its form, and the closing
quote is the first one that no backslash protects.

## Main definitions

* `hexNumber`, `spelled?`: the character that the front of a literal stands for

## Main results

* `spelled?_literalChar`: a character is read as what it was written for
* `eq_of_literal_append`: a literal settles its text, whatever follows it
-/

namespace RuleDiagram

variable {quote c d : Char} {cs ds xs ys : List Char} {n width : Nat}

/-! ## Hexadecimal digits -/

/-- The natural that hexadecimal digits stand for; other characters count as zero. -/
def hexNumber (digits : List Char) : Nat :=
  digits.foldl (fun n c => 16 * n + (hexValue? c).getD 0) 0

theorem hexNumber_append_singleton (digits : List Char) (hn : n < 16) :
    hexNumber (digits ++ [n.digitChar]) = 16 * hexNumber digits + n := by
  simp [hexNumber, hexValue?_digitChar n hn]

/-- A natural that fits the width has just so many digits, and they stand for it. -/
theorem hexNumber_hexadecimal (h : n < 16 ^ (width + 1)) :
    (hexadecimal (width + 1) n).length = width + 1 ∧ hexNumber (hexadecimal (width + 1) n) = n := by
  induction width generalizing n with
  | zero =>
    rw [hexadecimal_one h]
    exact ⟨rfl, (hexNumber_append_singleton [] h).trans (Nat.zero_add n)⟩
  | succ width ih =>
    have hquotient : n / 16 < 16 ^ (width + 1) := Nat.div_lt_of_lt_mul (Nat.pow_succ' ▸ h)
    obtain ⟨hlength, hnumber⟩ := ih hquotient
    rw [hexadecimal_succ (Nat.succ_pos _), List.length_append, hlength,
      hexNumber_append_singleton _ (Nat.mod_lt n (by decide)), hnumber]
    exact ⟨rfl, Nat.div_add_mod n 16⟩

/-! ## Characters -/

/-- What comes behind a backslash: the character that the escape stands for, and what comes behind
the escape. -/
def escape? : List Char → Option (Char × List Char)
  | [] => none
  | letter :: rest =>
    let unit (width : Nat) := some (Char.ofNat (hexNumber (rest.take width)), rest.drop width)
    if letter = 'n' then some ('\n', rest)
    else if letter = 'r' then some ('\r', rest)
    else if letter = 't' then some ('\t', rest)
    else if letter = 'x' then unit 2
    else if letter = 'u' then unit 4
    else if letter = 'U' then unit 8
    else some (letter, rest)

/-- The character that the front of a literal stands for, and what comes behind its form. -/
def spelled? : List Char → Option (Char × List Char)
  | [] => none
  | c :: rest => if c = '\\' then escape? rest else some (c, rest)

/-- A text is enclosed by single or by double quotes. -/
theorem literalQuote_cases (cs : List Char) :
    literalQuote cs = singleQuote ∨ literalQuote cs = '"' := by
  unfold literalQuote
  split
  · exact .inr rfl
  · exact .inl rfl

/-- The digits of a character are followed by whatever comes behind. -/
theorem hexNumber_take_drop (width : Nat) (xs : List Char) (h : c.toNat < 16 ^ (width + 1)) :
    Char.ofNat (hexNumber ((hexadecimal (width + 1) c.toNat ++ xs).take (width + 1))) = c ∧
      (hexadecimal (width + 1) c.toNat ++ xs).drop (width + 1) = xs := by
  obtain ⟨hlength, hnumber⟩ := hexNumber_hexadecimal h
  rw [List.take_left' hlength, List.drop_left' hlength, hnumber]
  exact ⟨Char.ofNat_toNat c, rfl⟩

/-- **A character is read as what it was written for.** -/
theorem spelled?_literalChar (hquote : quote = singleQuote ∨ quote = '"') (c : Char)
    (xs : List Char) : spelled? (literalChar quote c ++ xs) = some (c, xs) := by
  unfold literalChar
  dsimp only
  split
  · -- The quote and the backslash are no letters of other escapes.
    next h =>
    obtain rfl | rfl := h
    · obtain rfl | rfl := hquote <;> rfl
    · rfl
  next h =>
  have hbackslash : c ≠ '\\' := fun hc => h (.inr hc)
  split
  · next hc => rw [hc]; rfl
  split
  · next hc => rw [hc]; rfl
  split
  · next hc => rw [hc]; rfl
  split
  · exact if_neg hbackslash
  split
  · next hlt =>
    obtain ⟨hnumber, hrest⟩ := hexNumber_take_drop 1 xs hlt
    exact congrArg some (Prod.ext hnumber hrest)
  split
  · next hlt =>
    obtain ⟨hnumber, hrest⟩ := hexNumber_take_drop 3 xs hlt
    exact congrArg some (Prod.ext hnumber hrest)
  · have hlt : c.toNat < 16 ^ 8 := by
      have hvalid := toNat_cases c
      omega
    obtain ⟨hnumber, hrest⟩ := hexNumber_take_drop 7 xs hlt
    exact congrArg some (Prod.ext hnumber hrest)

/-- The form of a character does not begin with the quote. -/
theorem head?_literalChar_append (hquote : quote = singleQuote ∨ quote = '"') (c : Char)
    (xs : List Char) : (literalChar quote c ++ xs).head? ≠ some quote := by
  have hbackslash : quote ≠ '\\' := by
    obtain rfl | rfl := hquote <;> decide
  intro h
  -- Otherwise the character would be the quote, which is written behind a backslash.
  obtain ⟨ys, hys⟩ := List.head?_eq_some_iff.1 h
  have hread := spelled?_literalChar hquote c xs
  rw [hys, spelled?, if_neg hbackslash] at hread
  obtain ⟨rfl, -⟩ := Prod.mk.inj (Option.some.inj hread)
  have hform : literalChar quote quote = ['\\', quote] := if_pos (.inl rfl)
  rw [hform] at hys
  exact hbackslash (List.cons.inj hys).1.symm

/-! ## Literals -/

/-- Between the quotes, the forms of characters settle them. -/
theorem eq_of_flatMap_literalChar_append (hquote : quote = singleQuote ∨ quote = '"')
    (h : cs.flatMap (literalChar quote) ++ quote :: xs =
      ds.flatMap (literalChar quote) ++ quote :: ys) : cs = ds ∧ xs = ys := by
  have hends (c : Char) (cs zs : List Char) :
      (c :: cs).flatMap (literalChar quote) ++ zs ≠ quote :: ys ∧
        (c :: cs).flatMap (literalChar quote) ++ zs ≠ quote :: xs := by
    rw [List.flatMap_cons, List.append_assoc]
    constructor <;>
    · intro h
      exact head?_literalChar_append hquote c _ (congrArg List.head? h)
  induction cs generalizing ds with
  | nil =>
    cases ds with
    | nil => exact ⟨rfl, (List.cons.inj h).2⟩
    | cons d ds => exact absurd h.symm (hends d ds _).2
  | cons c cs ih =>
    cases ds with
    | nil => exact absurd h (hends c cs _).1
    | cons d ds =>
      have hread := congrArg spelled? h
      rw [List.flatMap_cons, List.flatMap_cons, List.append_assoc, List.append_assoc,
        spelled?_literalChar hquote, spelled?_literalChar hquote] at hread
      obtain ⟨rfl, hrest⟩ := Prod.mk.inj (Option.some.inj hread)
      obtain ⟨rfl, rfl⟩ := ih hrest
      exact ⟨rfl, rfl⟩

theorem toList_literal (s : String) : (literal s).toList = literalQuote s.toList ::
    (s.toList.flatMap (literalChar (literalQuote s.toList)) ++ [literalQuote s.toList]) := by
  rw [literal, String.toList_ofList]
  rfl

/-- **A literal settles its text**, whatever follows it. -/
theorem eq_of_literal_append {s t : String}
    (h : (literal s).toList ++ xs = (literal t).toList ++ ys) : s = t ∧ xs = ys := by
  simp only [toList_literal, List.cons_append, List.append_assoc, List.nil_append] at h
  obtain ⟨hquotes, hchars⟩ := List.cons.inj h
  rw [hquotes] at hchars
  obtain ⟨htext, hrest⟩ := eq_of_flatMap_literalChar_append (literalQuote_cases _) hchars
  exact ⟨String.ext htext, hrest⟩

end RuleDiagram
