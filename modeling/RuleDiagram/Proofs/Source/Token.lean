import RuleDiagram.Proofs.Text.Numeral
import RuleDiagram.Proofs.Text.Quoted

/-!
# Texts that spell tokens

Which lexeme stands at the front of a text depends on what follows it, but not on more than whether
one of a few delimiters does. So a text may be put together from the end, lexeme by lexeme and blank
by blank, along with the tokens that it is cut into.

## Main definitions

* `Token.face`: what of a token does not depend on its place
* `Delimited`: a text is empty or begins with a delimiter
* `Spells`: a text is cut into tokens with given faces

## Main results

* `Spells.mark`, `Spells.arrow`, `Spells.quote`, `Spells.word`, `Spells.numeral`: texts with one
  more lexeme at their front
* `exists_tokenize_of_spells`: a text that spells tokens is cut into them
-/

namespace RuleDiagram

/-- The kind and the text of a token. -/
abbrev Face := TokenKind × String

/-- What of a token does not depend on its place. -/
def Token.face (t : Token) : Face := (t.kind, t.text)

/-- A token that is a punctuation mark. -/
def markFace (mark : String) : Face := (.punctuation, mark)

variable {c : Char} {cs rest sign whole fraction exponent : List Char} {p : Char → Bool}
  {faces : List Face} {kind : TokenKind}

/-! ## Runs of characters -/

theorem runLength_append (h : ∀ c ∈ cs, p c) (hrest : ∀ c, rest.head? = some c → p c = false) :
    runLength p (cs ++ rest) = cs.length := by
  rw [runLength, takeWhile_append_of_stop h hrest]

theorem length_le_runLength (h : ∀ c ∈ cs, p c) (rest : List Char) :
    cs.length ≤ runLength p (cs ++ rest) := by
  rw [runLength, List.takeWhile_append_of_pos h, List.length_append]
  exact Nat.le_add_right _ _

theorem runLength_ne_zero (hne : cs ≠ []) (h : ∀ c ∈ cs, p c) (rest : List Char) :
    runLength p (cs ++ rest) ≠ 0 := by
  have hpos := List.length_pos_of_ne_nil hne
  have hrun := length_le_runLength h rest
  omega

/-- The characters one of which follows each word and number that is written. -/
def delimiters : List Char := [':', '(', ')', '\x7b', '\x7d', ',', ' ', '\n']

/-- A text is empty or begins with a delimiter. -/
def Delimited (rest : List Char) : Prop := ∀ c, rest.head? = some c → c ∈ delimiters

theorem delimited_cons (h : c ∈ delimiters) : Delimited (c :: rest) := by
  rintro _ ⟨⟩
  exact h

theorem delimiters_outside : ∀ c ∈ delimiters, isWordPart c = false ∧ isDigit c = false ∧
    c ≠ '.' ∧ c ≠ 'e' ∧ c ≠ 'E' := by
  rw [← List.forall_iff_forall_mem]
  decide

/-! ## Lexemes -/

theorem isBlank_eq_false (h : 33 ≤ c.toNat) (h' : c.toNat < 128) : isBlank c = false := by
  have hall : ∀ n < 128, 33 ≤ n → withinBounds blankBounds n = false := by decide
  exact hall c.toNat h' h

theorem lexeme?_mark (h : c ∈ punctuationMarks) :
    lexeme? (c :: rest) = some (some .punctuation, 1) := by
  have hother : ∀ c ∈ punctuationMarks, isBlank c = false ∧ c ≠ '#' ∧ c ≠ '<' ∧ c ≠ '"' ∧
      isWordStart c = false := by
    rw [← List.forall_iff_forall_mem]
    decide
  obtain ⟨hblank, hcomment, harrow, hquote, hword⟩ := hother c h
  simp [lexeme?, hblank, hcomment, harrow, hquote, hword, h]

theorem lexeme?_arrow : lexeme? ('<' :: '-' :: rest) = some (some .arrow, 2) := by
  have hblank : isBlank '<' = false := by decide
  simp [lexeme?, hblank]

theorem lexeme?_quoted (s : String) (rest : List Char) :
    lexeme? ((quoted s).toList ++ rest) = some (some .quote, (quoted s).toList.length) := by
  have hblank : isBlank '"' = false := by decide
  have hlength := closingLength?_flatMap_quotedChar s.toList rest
  rw [quoted, String.toList_ofList, List.cons_append, List.cons_append]
  simp [lexeme?, hblank, hlength, -List.length_flatMap]

theorem isWordPart_of_isWordStart (h : isWordStart c) : isWordPart c := by
  simp only [isWordStart, isWordPart, Char.isAlphanum, Bool.or_eq_true] at h ⊢
  exact h.imp_left .inl

theorem toNat_of_isWordPart (h : isWordPart c) : 33 ≤ c.toNat ∧ c.toNat < 128 := by
  simp only [isWordPart, Char.isAlphanum, Char.isAlpha, Char.isUpper, Char.isLower, Char.isDigit,
    Bool.or_eq_true, Bool.and_eq_true, decide_eq_true_eq, ge_iff_le, UInt32.le_iff_toNat_le,
    beq_iff_eq] at h
  have hnat : c.toNat = c.val.toNat := rfl
  obtain ((⟨hle, hge⟩ | ⟨hle, hge⟩) | ⟨hle, hge⟩) | rfl := h
  · change 65 ≤ _ at hle
    change _ ≤ 90 at hge
    omega
  · change 97 ≤ _ at hle
    change _ ≤ 122 at hge
    omega
  · change 48 ≤ _ at hle
    change _ ≤ 57 at hge
    omega
  · decide

theorem isBlank_of_isWordPart (h : isWordPart c) : isBlank c = false :=
  isBlank_eq_false (toNat_of_isWordPart h).1 (toNat_of_isWordPart h).2

theorem isBlank_of_isWordStart (h : isWordStart c) : isBlank c = false :=
  isBlank_of_isWordPart (isWordPart_of_isWordStart h)

theorem lexeme?_word {w : String} (h : isWord w) (hrest : Delimited rest) :
    lexeme? (w.toList ++ rest) = some (some .word, w.toList.length) := by
  unfold isWord at h
  cases hw : w.toList with
  | nil => rw [hw] at h; cases h
  | cons c cs =>
    simp only [hw, Bool.and_eq_true, List.all_eq_true] at h
    obtain ⟨hstart, hparts⟩ := h
    have hrun : runLength isWordPart (c :: cs ++ rest) = (c :: cs).length :=
      runLength_append (List.forall_mem_cons.2 ⟨isWordPart_of_isWordStart hstart, hparts⟩)
        fun d hd => (delimiters_outside d (hrest d hd)).1
    have hblank : isBlank c = false := isBlank_of_isWordStart hstart
    have hother : c ≠ '#' ∧ c ≠ '<' ∧ c ≠ '"' := by
      refine ⟨?_, ?_, ?_⟩ <;> (rintro rfl; exact absurd hstart (by decide))
    rw [List.cons_append] at hrun ⊢
    simp [lexeme?, hblank, hother, hstart, hrun]

/-! ## Numbers -/

theorem numberLexeme?_of_isDigit (h : c.isDigit ∨ c = '-') : lexeme? (c :: rest) =
    (numberLexeme? (c :: rest)).map fun (kind, n) => (some kind, n) := by
  have hother : isBlank c = false ∧ c ≠ '#' ∧ c ≠ '<' ∧ c ≠ '"' ∧ isWordStart c = false ∧
      c ∉ punctuationMarks := by
    obtain h | rfl := h
    · have hall : ∀ n < 58, 48 ≤ n → isBlank (Char.ofNat n) = false ∧ Char.ofNat n ≠ '#' ∧
          Char.ofNat n ≠ '<' ∧ Char.ofNat n ≠ '"' ∧ isWordStart (Char.ofNat n) = false ∧
          Char.ofNat n ∉ punctuationMarks := by
        decide
      obtain ⟨hle, hlt⟩ := toNat_of_isDigit h
      simpa using hall c.toNat hlt hle
    · decide
  obtain ⟨hblank, hcomment, harrow, hquote, hword, hmark⟩ := hother
  simp only [lexeme?, hblank, hcomment, harrow, hquote, hword, hmark, if_false, Bool.false_eq_true]

/-- A fraction: a point and digits, or nothing. -/
def IsFraction (cs : List Char) : Prop :=
  cs = [] ∨ ∃ ds, ds ≠ [] ∧ (∀ d ∈ ds, isDigit d) ∧ cs = '.' :: ds

/-- An exponent: a letter E, a sign or none, and digits, or nothing. -/
def IsExponent (cs : List Char) : Prop :=
  cs = [] ∨ ∃ c sign ds, (c = 'e' ∨ c = 'E') ∧ (sign = [] ∨ sign = ['+'] ∨ sign = ['-']) ∧
    ds ≠ [] ∧ (∀ d ∈ ds, isDigit d) ∧ cs = c :: (sign ++ ds)

/-- **The parts of a number**, in the digits of any script. -/
structure IsNumber (sign whole fraction exponent : List Char) : Prop where
  sign : sign = [] ∨ sign = ['-']
  whole_ne_nil : whole ≠ []
  whole : ∀ d ∈ whole, isDigit d
  fraction : IsFraction fraction
  exponent : IsExponent exponent

/-- A point and digits are a fraction, which goes on as long as digits do. -/
theorem fractionLength_eq {ds : List Char} (hne : ds ≠ []) (hds : ∀ d ∈ ds, isDigit d) :
    fractionLength ('.' :: (ds ++ rest)) = 1 + runLength isDigit (ds ++ rest) :=
  if_neg (runLength_ne_zero hne hds rest)

theorem fractionLength_append (h : IsFraction cs)
    (hrest : ∀ c, rest.head? = some c → isDigit c = false ∧ c ≠ '.') :
    fractionLength (cs ++ rest) = cs.length := by
  obtain rfl | ⟨ds, hne, hds, rfl⟩ := h
  · rw [List.nil_append]
    unfold fractionLength
    split
    · exact absurd rfl (hrest '.' rfl).2
    · rfl
  · rw [List.cons_append, fractionLength_eq hne hds,
      runLength_append hds fun c hc => (hrest c hc).1, List.length_cons, Nat.add_comm]

theorem ne_sign_of_isDigit (h : isDigit c) : c ≠ '+' ∧ c ≠ '-' := by
  constructor
  · rintro rfl
    exact absurd h (by decide)
  · rintro rfl
    exact absurd h (by decide)

/-- A letter, a sign and digits are an exponent, which goes on as long as digits do. -/
theorem exponentLength_eq {ds : List Char} (hc : c = 'e' ∨ c = 'E')
    (hsign : sign = [] ∨ sign = ['+'] ∨ sign = ['-']) (hne : ds ≠ []) (hds : ∀ d ∈ ds, isDigit d) :
    exponentLength (c :: (sign ++ (ds ++ rest))) =
      1 + sign.length + runLength isDigit (ds ++ rest) := by
  -- The digits begin where the sign ends.
  have hlength : (if (sign ++ (ds ++ rest)).head? = some '+' ∨
      (sign ++ (ds ++ rest)).head? = some '-' then 1 else 0) = sign.length := by
    obtain ⟨d, ds, rfl⟩ := List.exists_cons_of_ne_nil hne
    have hd := ne_sign_of_isDigit (hds d List.mem_cons_self)
    obtain rfl | rfl | rfl := hsign <;> simp [hd]
  rw [exponentLength, if_pos hc]
  simp only [hlength, List.drop_left, if_neg (runLength_ne_zero hne hds rest)]

theorem exponentLength_append (h : IsExponent cs) (hrest : Delimited rest) :
    exponentLength (cs ++ rest) = cs.length := by
  obtain rfl | ⟨c, sign, ds, hc, hsign, hne, hds, rfl⟩ := h
  · cases rest with
    | nil => rfl
    | cons c rest =>
      obtain ⟨-, -, -, hlower, hupper⟩ := delimiters_outside c (hrest c rfl)
      exact if_neg (not_or.2 ⟨hlower, hupper⟩)
  · have hrun : runLength isDigit (ds ++ rest) = ds.length :=
      runLength_append hds fun c hc => (delimiters_outside c (hrest c hc)).2.1
    rw [List.cons_append, List.append_assoc, exponentLength_eq hc hsign hne hds, hrun,
      List.length_cons, List.length_append]
    omega

/-- Neither a digit nor a point is at the front of an exponent. -/
theorem IsExponent.head? (h : IsExponent cs) (hne : cs ≠ []) :
    ∀ c, (cs ++ rest).head? = some c → isDigit c = false ∧ c ≠ '.' := by
  obtain rfl | ⟨letter, _, _, hletter, -, -, -, rfl⟩ := h
  · exact absurd rfl hne
  · rintro _ ⟨⟩
    obtain rfl | rfl := hletter <;> decide

/-- No digit follows the whole part if none follows a missing fraction. -/
theorem IsFraction.head? (h : IsFraction cs)
    (hrest : cs = [] → ∀ c, rest.head? = some c → isDigit c = false) :
    ∀ c, (cs ++ rest).head? = some c → isDigit c = false := by
  obtain rfl | ⟨_, -, -, rfl⟩ := h
  · exact hrest rfl
  · rintro _ ⟨⟩
    decide

/-- Nothing follows the whole part of a number if what follows has no length. -/
theorem tail_length_eq_zero_iff :
    fraction.length + exponent.length = 0 ↔ fraction = [] ∧ exponent = [] := by
  rw [Nat.add_eq_zero_iff, List.length_eq_zero_iff, List.length_eq_zero_iff]

namespace IsNumber

variable (h : IsNumber sign whole fraction exponent)

include h

/-- Neither a digit nor a point follows the fraction. -/
theorem head?_exponent (hrest : Delimited rest) :
    ∀ c, (exponent ++ rest).head? = some c → isDigit c = false ∧ c ≠ '.' := by
  by_cases hnil : exponent = []
  · subst hnil
    intro c hc
    obtain ⟨-, hdigit, hpoint, -⟩ := delimiters_outside c (hrest c hc)
    exact ⟨hdigit, hpoint⟩
  · exact h.exponent.head? hnil

/-- No digit follows the whole part. -/
theorem head?_fraction (hrest : Delimited rest) :
    ∀ c, (fraction ++ (exponent ++ rest)).head? = some c → isDigit c = false :=
  h.fraction.head? fun _ c hc => (h.head?_exponent hrest c hc).1

/-- A sign and digits are a number, of which each part goes on as long as it can. -/
theorem numberLexeme?_eq {n m : Nat} (hwhole : runLength isDigit (whole ++ rest) = n)
    (hfraction : fractionLength ((whole ++ rest).drop n) = m) :
    numberLexeme? (sign ++ (whole ++ rest)) =
      some (if m + exponentLength (((whole ++ rest).drop n).drop m) = 0 then .int else .float,
        sign.length + n + m + exponentLength (((whole ++ rest).drop n).drop m)) := by
  have hsign : (if (sign ++ (whole ++ rest)).head? = some '-' then 1 else 0) = sign.length := by
    obtain ⟨d, ds, rfl⟩ := List.exists_cons_of_ne_nil h.whole_ne_nil
    have hd := ne_sign_of_isDigit (h.whole d List.mem_cons_self)
    obtain rfl | rfl := h.sign <;> simp [hd]
  have hrun := runLength_ne_zero h.whole_ne_nil h.whole rest
  rw [hwhole] at hrun
  rw [numberLexeme?]
  simp only [hsign, List.drop_left, ← List.drop_drop, hwhole, hfraction, if_neg hrun]

/-- **The number at the front of a text** of which the parts are given. -/
theorem numberLexeme?_append (hrest : Delimited rest) :
    numberLexeme? (sign ++ (whole ++ (fraction ++ (exponent ++ rest)))) = some
      (if fraction = [] ∧ exponent = [] then .int else .float,
        (sign ++ (whole ++ (fraction ++ exponent))).length) := by
  have hwhole := runLength_append h.whole (h.head?_fraction hrest)
  have hfraction := fractionLength_append h.fraction (h.head?_exponent hrest)
  rw [h.numberLexeme?_eq hwhole (by rw [List.drop_left, hfraction]), List.drop_left,
    List.drop_left, exponentLength_append h.exponent hrest]
  simp only [tail_length_eq_zero_iff, List.length_append, Nat.add_assoc]

end IsNumber

theorem NumeralParts.Valid.isNumber {m : NumeralParts} (hm : m.Valid) :
    IsNumber m.signChars m.whole m.fractionChars m.exponentChars where
  sign := by cases h : m.negative <;> simp [NumeralParts.signChars, h]
  whole_ne_nil := hm.whole_ne_nil
  whole c hc := isDigit_of_isDigit (hm.whole c hc)
  fraction := by
    unfold NumeralParts.fractionChars
    split
    · exact .inl rfl
    · next hne =>
      exact .inr ⟨m.fraction, hne, fun c hc => isDigit_of_isDigit (hm.fraction c hc), rfl⟩
  exponent := by
    obtain ⟨-, he⟩ | ⟨negative, digits, h, he⟩ := m.exponentChars_cases
    · exact .inl he
    · obtain ⟨hne, hdigits⟩ := hm.exponent negative digits h
      refine .inr ⟨'e', [if negative then '-' else '+'], digits, .inl rfl, ?_, hne,
        fun c hc => isDigit_of_isDigit (hdigits c hc), he⟩
      cases negative <;> simp

theorem NumeralParts.tail_eq_nil_iff (m : NumeralParts) :
    m.fractionChars = [] ∧ m.exponentChars = [] ↔ m.fraction = [] ∧ m.exponent = none := by
  refine and_congr (by simp [fractionChars]) ?_
  obtain ⟨h, he⟩ | ⟨_, _, h, he⟩ := m.exponentChars_cases <;> simp [h, he]

theorem numberLexeme?_numeral {m : NumeralParts} (hm : m.Valid) (hrest : Delimited rest) :
    numberLexeme? (m.chars ++ rest) = some
      (if m.fraction = [] ∧ m.exponent = none then .int else .float, m.chars.length) := by
  have hassoc : m.chars ++ rest =
      m.signChars ++ (m.whole ++ (m.fractionChars ++ (m.exponentChars ++ rest))) := by
    simp only [NumeralParts.chars, List.append_assoc]
  simp only [hassoc, hm.isNumber.numberLexeme?_append hrest, m.tail_eq_nil_iff]
  rfl

/-- **The numeral at the front of a text.** -/
theorem lexeme?_numeral {m : NumeralParts} (hm : m.Valid) (hrest : Delimited rest) :
    lexeme? (m.chars ++ rest) = some
      (some (if m.fraction = [] ∧ m.exponent = none then .int else .float), m.chars.length) := by
  obtain ⟨d, ds, hwhole⟩ := List.exists_cons_of_ne_nil hm.whole_ne_nil
  obtain ⟨c, cs, hchars, hc⟩ : ∃ c cs, m.chars ++ rest = c :: cs ∧ (c.isDigit ∨ c = '-') := by
    cases hneg : m.negative with
    | true =>
      exact ⟨'-', _, by simp [NumeralParts.chars, NumeralParts.signChars, hneg]; rfl, .inr rfl⟩
    | false =>
      exact ⟨d, _, by simp [NumeralParts.chars, NumeralParts.signChars, hneg, hwhole]; rfl,
        .inl (hm.whole d (hwhole ▸ List.mem_cons_self))⟩
  rw [hchars, numberLexeme?_of_isDigit hc, ← hchars, numberLexeme?_numeral hm hrest]
  rfl

/-! ## Texts that spell tokens -/

/-- **A text spells tokens with given faces**: it consists of their texts and of blanks, and each
text is the lexeme at the front of what is left. -/
inductive Spells : List Char → List Face → Prop
  | nil : Spells [] []
  | blank {c : Char} {rest : List Char} {faces : List Face} (hc : isBlank c)
      (h : Spells rest faces) : Spells (c :: rest) faces
  | token {kind : TokenKind} {chunk rest : List Char} {faces : List Face} (hne : chunk ≠ [])
      (hlex : lexeme? (chunk ++ rest) = some (some kind, chunk.length)) (h : Spells rest faces) :
      Spells (chunk ++ rest) ((kind, String.ofList chunk) :: faces)

namespace Spells

theorem dropBlanks (h : Spells cs faces) : Spells (cs.dropWhile isBlank) faces := by
  induction h with
  | nil => exact .nil
  | blank hc _ ih => rwa [List.dropWhile_cons_of_pos hc]
  | @token kind chunk rest faces hne hlex h ih =>
    obtain ⟨c, ds, rfl⟩ := List.exists_cons_of_ne_nil hne
    have hc : isBlank c = false := by
      by_contra hblank
      rw [Bool.not_eq_false] at hblank
      simp [lexeme?, hblank] at hlex
    rw [List.cons_append, List.dropWhile_cons_of_neg (by simp [hc]), ← List.cons_append]
    exact .token hne hlex h

theorem faces_eq_nil (h : Spells [] faces) : faces = [] := by
  generalize hcs : [] = cs at h
  cases h with
  | nil => rfl
  | blank => cases hcs
  | token hne => exact absurd (List.append_eq_nil_iff.1 hcs.symm).1 hne

theorem drop_runLength (p : Char → Bool) (cs : List Char) :
    cs.drop (runLength p cs) = cs.dropWhile p := by
  conv_lhs =>
    arg 2
    rw [← List.takeWhile_append_dropWhile (p := p) (l := cs)]
  exact List.drop_left

/-- A text that spells tokens is cut into them, if the bound on their number suffices. -/
theorem exists_tokensFrom {bound : Nat} (h : Spells cs faces) (hbound : cs.length ≤ bound)
    (p : Position) : ∃ ts, tokensFrom bound p cs = .ok ts ∧ ts.tokens.map Token.face = faces := by
  -- Induction on the bound: each lexeme takes a character at least.
  induction bound generalizing cs faces p with
  | zero =>
    obtain rfl := List.eq_nil_of_length_eq_zero (Nat.le_zero.1 hbound)
    exact ⟨⟨[], p⟩, rfl, h.faces_eq_nil.symm⟩
  | succ bound ih =>
    cases h with
    | nil => exact ⟨⟨[], p⟩, rfl, rfl⟩
    | @blank c rest _ hc h =>
      -- All blanks at the front are one lexeme.
      have hdrop : (c :: rest).drop (runLength isBlank (c :: rest)) = rest.dropWhile isBlank := by
        rw [drop_runLength, List.dropWhile_cons_of_pos hc]
      have hlength : (rest.dropWhile isBlank).length ≤ bound :=
        Nat.le_trans (List.dropWhile_suffix _).length_le (Nat.le_of_succ_le_succ hbound)
      obtain ⟨ts, hts, hfaces⟩ := ih h.dropBlanks hlength
        (p.advance ((c :: rest).take (runLength isBlank (c :: rest))))
      refine ⟨ts, ?_, hfaces⟩
      have hlex : lexeme? (c :: rest) = some (none, runLength isBlank (c :: rest)) := if_pos hc
      simp only [tokensFrom, hlex, hdrop, hts]
      rfl
    | @token kind chunk rest faces hne hlex h =>
      -- The token is the lexeme in front, and the rest is cut from the place after it on.
      obtain ⟨c, ds, rfl⟩ := List.exists_cons_of_ne_nil hne
      have hlength : rest.length ≤ bound := by
        simp only [List.length_append, List.length_cons] at hbound
        omega
      obtain ⟨ts, hts, hfaces⟩ := ih h hlength (p.advance (c :: ds))
      refine ⟨{ ts with tokens := ⟨kind, String.ofList (c :: ds), p⟩ :: ts.tokens }, ?_, ?_⟩
      · have hdrop : (c :: (ds ++ rest)).drop (c :: ds).length = rest := List.drop_left
        have htake : (c :: (ds ++ rest)).take (c :: ds).length = c :: ds := List.take_left
        rw [List.cons_append] at hlex
        simp only [List.cons_append, tokensFrom, hlex, hdrop, htake, hts]
        rfl
      · rw [List.map_cons, hfaces]
        rfl

/-! ## One more lexeme -/

theorem mark (h : Spells rest faces) (hc : c ∈ punctuationMarks) :
    Spells (c :: rest) ((.punctuation, String.ofList [c]) :: faces) :=
  token (List.cons_ne_nil c []) (lexeme?_mark hc) h

theorem arrow (h : Spells rest faces) :
    Spells ('<' :: '-' :: rest) ((.arrow, "<-") :: faces) :=
  token (List.cons_ne_nil '<' ['-']) lexeme?_arrow h

theorem space (h : Spells rest faces) : Spells (' ' :: rest) faces := blank (by decide) h

theorem lineBreak (h : Spells rest faces) : Spells ('\n' :: rest) faces := blank (by decide) h

theorem quote (h : Spells rest faces) (s : String) :
    Spells ((quoted s).toList ++ rest) ((.quote, quoted s) :: faces) := by
  have hne : (quoted s).toList ≠ [] := by simp [quoted]
  simpa using token hne (lexeme?_quoted s rest) h

theorem word {w : String} (h : Spells rest faces) (hw : isWord w) (hrest : Delimited rest) :
    Spells (w.toList ++ rest) ((.word, w) :: faces) := by
  have hne : w.toList ≠ [] := by
    intro hnil
    simp [isWord, hnil] at hw
  simpa using token hne (lexeme?_word hw hrest) h

theorem numeral {m : NumeralParts} (h : Spells rest faces) (hm : m.Valid) (hrest : Delimited rest) :
    Spells (m.chars ++ rest)
      ((if m.fraction = [] ∧ m.exponent = none then .int else .float, String.ofList m.chars) ::
        faces) := by
  have hne : m.chars ≠ [] := fun hnil => hm.whole_ne_nil
    (List.append_eq_nil_iff.1 (List.append_eq_nil_iff.1 hnil).2).1
  exact token hne (lexeme?_numeral hm hrest) h

end Spells

/-- **A text that spells tokens is cut into them.** -/
theorem exists_tokenize_of_spells {text : String} (h : Spells text.toList faces) :
    ∃ ts, tokenize text = .ok ts ∧ ts.tokens.map Token.face = faces :=
  h.exists_tokensFrom (Nat.le_refl _) .start

/-! ## Tokens of a text -/

/-- A token is the lexeme at the front of a text. -/
def Token.IsLexeme (t : Token) : Prop :=
  ∃ cs length, lexeme? cs = some (some t.kind, length) ∧ t.text = String.ofList (cs.take length)

theorem isLexeme_of_tokensFrom {bound : Nat} {p : Position} {ts : TokenList}
    (h : tokensFrom bound p cs = .ok ts) : ∀ t ∈ ts.tokens, t.IsLexeme := by
  induction bound generalizing p cs ts with
  | zero =>
    cases h
    exact List.forall_mem_nil _
  | succ bound ih =>
    cases cs with
    | nil =>
      cases h
      exact List.forall_mem_nil _
    | cons c cs =>
      rw [tokensFrom] at h
      split at h
      · cases h
      · next kind? length hlex =>
        obtain ⟨rest, hrest, h⟩ := Except.bind_eq_ok_iff.1 h
        cases kind? with
        | none =>
          cases h
          exact ih hrest
        | some kind =>
          cases h
          exact List.forall_mem_cons.2 ⟨⟨_, _, hlex, rfl⟩, ih hrest⟩

theorem runLength_take (p : Char → Bool) (cs : List Char) :
    cs.take (runLength p cs) = cs.takeWhile p := by
  conv_lhs =>
    arg 2
    rw [← List.takeWhile_append_dropWhile (p := p) (l := cs)]
  exact List.take_left

theorem forall_takeWhile (p : Char → Bool) (cs : List Char) : ∀ c ∈ cs.takeWhile p, p c :=
  fun _ => List.mem_takeWhile_imp

theorem isFraction_take (cs : List Char) : IsFraction (cs.take (fractionLength cs)) := by
  unfold fractionLength
  split
  · next rest =>
    dsimp only
    split
    · exact .inl rfl
    · next hne =>
      refine .inr ⟨rest.takeWhile isDigit, ?_, forall_takeWhile isDigit rest, ?_⟩
      · exact fun hnil => hne (congrArg List.length hnil)
      · rw [Nat.add_comm, List.take_succ_cons, runLength_take]
  · exact .inl rfl

theorem isExponent_take (cs : List Char) : IsExponent (cs.take (exponentLength cs)) := by
  cases cs with
  | nil => exact .inl rfl
  | cons c rest =>
    rw [exponentLength]
    split
    · next hc =>
      extract_lets sign digits
      split
      · exact .inl rfl
      · next hne =>
        refine .inr ⟨c, rest.take sign, (rest.drop sign).takeWhile isDigit, hc, ?_, ?_,
          forall_takeWhile isDigit _, ?_⟩
        · simp only [sign]
          split
          · next hsign =>
            obtain h | h := hsign
            all_goals
              obtain ⟨tail, rfl⟩ := List.head?_eq_some_iff.1 h
              simp
          · exact .inl rfl
        · exact fun hnil => hne (congrArg List.length hnil)
        · rw [Nat.add_assoc, Nat.add_comm, List.take_succ_cons, List.take_add, runLength_take]
    · exact .inl rfl

theorem take_fractionLength_eq_nil_iff :
    cs.take (fractionLength cs) = [] ↔ fractionLength cs = 0 := by
  rw [List.take_eq_nil_iff, or_iff_left_iff_imp]
  rintro rfl
  rfl

theorem take_exponentLength_eq_nil_iff :
    cs.take (exponentLength cs) = [] ↔ exponentLength cs = 0 := by
  rw [List.take_eq_nil_iff, or_iff_left_iff_imp]
  rintro rfl
  rfl

/-- **A number that is read has parts.** -/
theorem exists_isNumber {length : Nat} (h : numberLexeme? cs = some (kind, length)) :
    ∃ sign whole fraction exponent, IsNumber sign whole fraction exponent ∧
      cs.take length = sign ++ (whole ++ (fraction ++ exponent)) ∧
      kind = if fraction = [] ∧ exponent = [] then .int else .float := by
  unfold numberLexeme? at h
  extract_lets sign whole fraction exponent at h
  split at h
  · cases h
  · next hne =>
    cases h
    refine ⟨cs.take sign, (cs.drop sign).takeWhile isDigit, (cs.drop (sign + whole)).take fraction,
      (cs.drop (sign + whole + fraction)).take exponent, ⟨?_, ?_, forall_takeWhile isDigit _,
        isFraction_take _, isExponent_take _⟩, ?_, ?_⟩
    · simp only [sign]
      split
      · next hsign =>
        obtain ⟨tail, rfl⟩ := List.head?_eq_some_iff.1 hsign
        exact .inr rfl
      · exact .inl rfl
    · exact fun hnil => hne (congrArg List.length hnil)
    · rw [List.take_add, List.take_add, List.take_add, runLength_take, List.append_assoc,
        List.append_assoc]
    · simp only [fraction, exponent, take_fractionLength_eq_nil_iff, take_exponentLength_eq_nil_iff,
        Nat.add_eq_zero_iff]

theorem numberLexeme?_kind {length : Nat} (h : numberLexeme? cs = some (kind, length)) :
    kind = .int ∨ kind = .float := by
  obtain ⟨_, _, _, _, -, -, rfl⟩ := exists_isNumber h
  split
  · exact .inl rfl
  · exact .inr rfl

/-- **The lexeme at the front of a text by its kind**: the arrow, a quoted text, a word, a
punctuation mark or a number. -/
theorem lexeme?_cases {length : Nat} (h : lexeme? cs = some (some kind, length)) :
    ∃ c rest, cs = c :: rest ∧
      (kind = .arrow ∧ c = '<' ∧ rest.head? = some '-' ∧ length = 2 ∨
        kind = .quote ∧ c = '"' ∧ (∃ n, closingLength? rest = some n ∧ length = n + 1) ∨
        kind = .word ∧ isWordStart c ∧ length = runLength isWordPart cs ∨
        kind = .punctuation ∧ c ∈ punctuationMarks ∧ length = 1 ∨
        (kind = .int ∨ kind = .float) ∧ numberLexeme? cs = some (kind, length) ∧
          ∀ rest, lexeme? (c :: rest) =
            (numberLexeme? (c :: rest)).map fun (kind, n) => (some kind, n)) := by
  cases cs with
  | nil => cases h
  | cons c rest =>
    refine ⟨c, rest, rfl, ?_⟩
    unfold lexeme? at h
    dsimp only at h
    split at h
    · cases h
    · next hblank =>
      split at h
      · cases h
      · next hcomment =>
        split at h
        · next harrow =>
          split at h
          · next hrest =>
            cases h
            exact .inl ⟨rfl, harrow, hrest, rfl⟩
          · cases h
        · next harrow =>
          split at h
          · next hquote =>
            obtain ⟨n, hn, heq⟩ := Option.map_eq_some_iff.1 h
            cases heq
            exact .inr (.inl ⟨rfl, hquote, n, hn, rfl⟩)
          · next hquote =>
            split at h
            · next hstart =>
              cases h
              exact .inr (.inr (.inl ⟨rfl, hstart, rfl⟩))
            · next hstart =>
              split at h
              · next hmark =>
                cases h
                exact .inr (.inr (.inr (.inl ⟨rfl, hmark, rfl⟩)))
              · next hmark =>
                obtain ⟨⟨number, n⟩, hnumber, heq⟩ := Option.map_eq_some_iff.1 h
                cases heq
                refine .inr (.inr (.inr (.inr ⟨numberLexeme?_kind hnumber, hnumber, ?_⟩)))
                intro rest'
                simp only [lexeme?, hblank, hcomment, harrow, hquote, hstart, hmark, if_false,
                  Bool.false_eq_true]

/-- A lexeme that is a word consists of the parts of a word after a letter or underscore. -/
theorem lexeme?_eq_word {length : Nat} (h : lexeme? cs = some (some .word, length)) :
    ∃ c rest, cs = c :: rest ∧ isWordStart c ∧ length = runLength isWordPart cs := by
  obtain ⟨c, rest, rfl, hcases⟩ := lexeme?_cases h
  simp only [reduceCtorEq, false_and, false_or, or_false, true_and] at hcases
  exact ⟨c, rest, rfl, hcases⟩

theorem isWord_of_isLexeme {t : Token} (h : t.IsLexeme) (hkind : t.kind = .word) :
    isWord t.text := by
  obtain ⟨cs, length, hlex, htext⟩ := h
  rw [hkind] at hlex
  obtain ⟨c, rest, rfl, hstart, rfl⟩ := lexeme?_eq_word hlex
  rw [runLength_take, List.takeWhile_cons_of_pos (isWordPart_of_isWordStart hstart)] at htext
  rw [isWord, htext, String.toList_ofList]
  simp [hstart]

/-- **A token that is a word is spelled as one.** -/
theorem isWord_of_tokenize {text : String} {ts : TokenList} {t : Token}
    (h : tokenize text = .ok ts) (ht : t ∈ ts.tokens) (hkind : t.kind = .word) : isWord t.text :=
  isWord_of_isLexeme (isLexeme_of_tokensFrom h t ht) hkind

end RuleDiagram
