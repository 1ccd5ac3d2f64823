import RuleDiagram.Proofs.Source.Layout

/-!
# The grammar of lexemes

Which texts are lexemes is said here without a word about how they are found. Several lexemes may
begin at one place, as a number and the same number with a fraction do: what is cut off is the
longest of them, and nothing is cut off exactly where none begins.

## Main definitions

* `Lexeme`: the texts that are blanks, comments or tokens of a kind
* `Longest`: the longest lexeme at the front of a text

## Main results

* `lexeme?_eq_some_iff`: what is cut off is the longest lexeme
* `lexeme?_eq_none_iff`: nothing is cut off where no lexeme begins
-/

namespace RuleDiagram

variable {c : Char} {cs chunk rest sign whole fraction exponent : List Char} {p : Char → Bool}
  {kind? : Option TokenKind} {n : Nat}

/-- **The grammar of lexemes**: blanks and comments, which have no kind, and tokens of each kind. -/
inductive Lexeme : Option TokenKind → List Char → Prop
  | blanks {cs : List Char} (hne : cs ≠ []) (h : ∀ c ∈ cs, isBlank c) : Lexeme none cs
  | comment {cs : List Char} (h : '\n' ∉ cs) : Lexeme none ('#' :: cs)
  | arrow : Lexeme (some .arrow) ['<', '-']
  | quote {cs : List Char} (h : IsQuotedBody cs) : Lexeme (some .quote) ('"' :: (cs ++ ['"']))
  | float {sign whole fraction exponent : List Char} (h : IsNumber sign whole fraction exponent)
      (hne : ¬(fraction = [] ∧ exponent = [])) :
      Lexeme (some .float) (sign ++ (whole ++ (fraction ++ exponent)))
  | int {sign whole : List Char} (h : IsNumber sign whole [] []) :
      Lexeme (some .int) (sign ++ whole)
  | word {c : Char} {cs : List Char} (hstart : isWordStart c) (h : ∀ d ∈ cs, isWordPart d) :
      Lexeme (some .word) (c :: cs)
  | mark {c : Char} (h : c ∈ punctuationMarks) : Lexeme (some .punctuation) [c]

/-- **The longest lexeme** at the front of a text. -/
structure Longest (kind? : Option TokenKind) (chunk rest : List Char) : Prop where
  lexeme : Lexeme kind? chunk
  length_le : ∀ other? other, Lexeme other? other → other <+: chunk ++ rest →
    other.length ≤ chunk.length

theorem IsNumber.lexeme (h : IsNumber sign whole fraction exponent) :
    Lexeme (some (if fraction = [] ∧ exponent = [] then .int else .float))
      (sign ++ (whole ++ (fraction ++ exponent))) := by
  split
  · next hnil =>
    obtain ⟨rfl, rfl⟩ := hnil
    rw [List.append_nil, List.append_nil]
    exact .int h
  · next hne => exact .float h hne

theorem Lexeme.ne_nil (h : Lexeme kind? chunk) : chunk ≠ [] := by
  cases h with
  | blanks hne => exact hne
  | comment | arrow | quote | word | mark => exact List.cons_ne_nil _ _
  | float h | int h => simp [h.whole_ne_nil]

/-! ## Runs reach at least as far as the lexemes -/

theorem runLength_le (p : Char → Bool) (cs : List Char) : runLength p cs ≤ cs.length :=
  (List.takeWhile_prefix p).length_le

theorem length_le_fractionLength (h : IsFraction cs) (rest : List Char) :
    cs.length ≤ fractionLength (cs ++ rest) := by
  obtain rfl | ⟨ds, hne, hds, rfl⟩ := h
  · exact Nat.zero_le _
  · have hlength := length_le_runLength hds rest
    rw [List.cons_append, fractionLength_eq hne hds, List.length_cons]
    omega

theorem length_le_exponentLength (h : IsExponent cs) (rest : List Char) :
    cs.length ≤ exponentLength (cs ++ rest) := by
  obtain rfl | ⟨c, sign, ds, hc, hsign, hne, hds, rfl⟩ := h
  · exact Nat.zero_le _
  · have hlength := length_le_runLength hds rest
    rw [List.cons_append, List.append_assoc, exponentLength_eq hc hsign hne hds, List.length_cons,
      List.length_append]
    omega

/-- **The number that is found is the longest**: it reaches as far as any other, and is of the same
kind if it reaches no further. -/
theorem IsNumber.exists_numberLexeme? (h : IsNumber sign whole fraction exponent)
    (rest : List Char) :
    ∃ kind n, numberLexeme? (sign ++ (whole ++ (fraction ++ (exponent ++ rest)))) = some (kind, n) ∧
      (sign ++ (whole ++ (fraction ++ exponent))).length ≤ n ∧
      (n = (sign ++ (whole ++ (fraction ++ exponent))).length →
        kind = if fraction = [] ∧ exponent = [] then .int else .float) := by
  have hrun := length_le_runLength h.whole (fraction ++ (exponent ++ rest))
  have hzero : fraction.length + exponent.length = 0 ↔ fraction = [] ∧ exponent = [] :=
    tail_length_eq_zero_iff
  rw [h.numberLexeme?_eq rfl rfl]
  simp only [List.length_append]
  refine ⟨_, _, rfl, ?_⟩
  obtain hlonger | hwhole := hrun.lt_or_eq
  · -- More digits follow, so the number given ends with its whole part.
    have hnil : fraction = [] ∧ exponent = [] := by
      by_contra hne
      have hstop : ∀ c, (fraction ++ (exponent ++ rest)).head? = some c → isDigit c = false :=
        h.fraction.head? fun hnil c hc =>
          (h.exponent.head? (fun hempty => hne ⟨hnil, hempty⟩) c hc).1
      rw [runLength_append h.whole hstop] at hlonger
      exact absurd hlonger (Nat.lt_irrefl _)
    have hlength := hzero.2 hnil
    exact ⟨by omega, fun _ => by omega⟩
  rw [← hwhole, List.drop_left]
  obtain hlonger | hfraction :=
    (length_le_fractionLength h.fraction (exponent ++ rest)).lt_or_eq
  · -- More digits follow, so the number given ends with its fraction.
    have hnil : exponent = [] := by
      by_contra hne
      rw [fractionLength_append h.fraction (h.exponent.head? hne)] at hlonger
      exact absurd hlonger (Nat.lt_irrefl _)
    have hlength : exponent.length = 0 := congrArg List.length hnil
    exact ⟨by omega, fun _ => by omega⟩
  · have hexponent := length_le_exponentLength h.exponent rest
    rw [← hfraction, List.drop_left]
    refine ⟨by omega, fun hlength => ?_⟩
    simp only [show exponentLength (exponent ++ rest) = exponent.length by omega, hzero]

/-! ## What is cut off reaches as far as any lexeme -/

theorem zeroDigits_cases : ∀ z ∈ zeroDigits, z = 48 ∨ 128 ≤ z ∧
    ∀ k < 10, withinBounds blankBounds (z + k) = false := by
  decide +kernel

theorem toNat_of_mem_punctuationMarks : ∀ c ∈ punctuationMarks, c.toNat < 128 := by
  rw [← List.forall_iff_forall_mem]
  decide

/-- **A text that begins with a digit or a minus sign** begins with no lexeme but a number. -/
theorem lexeme?_eq_map_numberLexeme? (h : isDigit c ∨ c = '-') : lexeme? (c :: rest) =
    (numberLexeme? (c :: rest)).map fun (kind, n) => (some kind, n) := by
  obtain h | rfl := h
  · obtain ⟨value, hvalue⟩ := Option.isSome_iff_exists.1 h
    obtain ⟨z, hz, -⟩ := Option.map_eq_some_iff.1 hvalue
    have hrange : z ≤ c.toNat ∧ c.toNat < z + 10 := by simpa using List.find?_some hz
    obtain rfl | ⟨hz, hblank⟩ := zeroDigits_cases z (List.mem_of_find?_eq_some hz)
    · refine numberLexeme?_of_isDigit (.inl ?_)
      simp only [Char.isDigit, Bool.and_eq_true, decide_eq_true_eq, ge_iff_le,
        UInt32.le_iff_toNat_le]
      change 48 ≤ c.toNat ∧ c.toNat ≤ 57
      omega
    · -- Digits of other scripts than the Latin one are beyond all other lexemes but blanks.
      have hclass : isBlank c = false := by
        have hoffset := hblank (c.toNat - z) (by omega)
        rwa [Nat.add_sub_cancel' hrange.1] at hoffset
      have hne : ∀ d : Char, d.toNat < 128 → c ≠ d := by
        rintro d hd rfl
        omega
      have hword : isWordStart c = false := by
        by_contra hstart
        rw [Bool.not_eq_false] at hstart
        exact hne c (toNat_of_isWordPart (isWordPart_of_isWordStart hstart)).2 rfl
      have hmark : c ∉ punctuationMarks := fun hmem =>
        hne c (toNat_of_mem_punctuationMarks c hmem) rfl
      simp only [lexeme?, hclass, hne '#' (by decide), hne '<' (by decide), hne '"' (by decide),
        hword, hmark, if_false, Bool.false_eq_true]
  · exact numberLexeme?_of_isDigit (.inr rfl)

/-- A number is what is cut off, or the beginning of it. -/
theorem IsNumber.exists_lexeme? (h : IsNumber sign whole fraction exponent) (rest : List Char) :
    ∃ kind n, lexeme? (sign ++ (whole ++ (fraction ++ exponent)) ++ rest) = some (some kind, n) ∧
      (sign ++ (whole ++ (fraction ++ exponent))).length ≤ n ∧
      (n = (sign ++ (whole ++ (fraction ++ exponent))).length →
        kind = if fraction = [] ∧ exponent = [] then .int else .float) := by
  obtain ⟨kind, n, hnumber, hlength⟩ := h.exists_numberLexeme? rest
  refine ⟨kind, n, ?_, hlength⟩
  obtain ⟨d, ds, hcons⟩ := List.exists_cons_of_ne_nil h.whole_ne_nil
  have hd : isDigit d := h.whole d (hcons ▸ List.mem_cons_self)
  simp only [List.append_assoc]
  obtain hsign | hsign := h.sign <;> subst hsign hcons
  · exact (lexeme?_eq_map_numberLexeme? (.inl hd)).trans (congrArg (Option.map _) hnumber)
  · exact (lexeme?_eq_map_numberLexeme? (.inr rfl)).trans (congrArg (Option.map _) hnumber)

/-- **What is cut off reaches as far as any lexeme**, and is of its kind if it goes no further. -/
theorem Lexeme.exists_lexeme? (h : Lexeme kind? chunk) (rest : List Char) :
    ∃ found? n, lexeme? (chunk ++ rest) = some (found?, n) ∧ chunk.length ≤ n ∧
      (n = chunk.length → found? = kind?) := by
  cases h with
  | blanks hne h =>
    obtain ⟨c, cs, rfl⟩ := List.exists_cons_of_ne_nil hne
    have hblank : isBlank c := h c List.mem_cons_self
    exact ⟨none, _, if_pos hblank, length_le_runLength h rest, fun _ => rfl⟩
  | @comment cs h =>
    have hblank : isBlank '#' = false := by decide
    have hrun : cs.length ≤ runLength (fun d => decide (d ≠ '\n')) (cs ++ rest) :=
      length_le_runLength (fun d hd => decide_eq_true (ne_of_mem_of_not_mem hd h)) rest
    refine ⟨none, 1 + runLength (fun d => decide (d ≠ '\n')) (cs ++ rest), ?_, ?_, fun _ => rfl⟩
    · simp [lexeme?, hblank]
    · rw [List.length_cons]
      omega
  | arrow => exact ⟨_, _, lexeme?_arrow, Nat.le_refl _, fun _ => rfl⟩
  | quote h => exact ⟨_, _, lexeme?_quote (h.closingLength? rest), Nat.le_refl _, fun _ => rfl⟩
  | float h hne =>
    obtain ⟨kind, n, hfound, hlength, hkind⟩ := h.exists_lexeme? rest
    refine ⟨some kind, n, hfound, hlength, fun heq => ?_⟩
    rw [hkind heq, if_neg hne]
  | int h =>
    obtain ⟨kind, n, hfound, hlength, hkind⟩ := h.exists_lexeme? rest
    simp only [List.append_nil, and_self, if_true] at hfound hlength hkind
    exact ⟨some kind, n, hfound, hlength, fun heq => congrArg some (hkind heq)⟩
  | @word c cs hstart h =>
    have hparts : ∀ d ∈ c :: cs, isWordPart d :=
      List.forall_mem_cons.2 ⟨isWordPart_of_isWordStart hstart, h⟩
    have hblank : isBlank c = false := isBlank_of_isWordStart hstart
    have hother : c ≠ '#' ∧ c ≠ '<' ∧ c ≠ '"' := by
      refine ⟨?_, ?_, ?_⟩ <;> (rintro rfl; exact absurd hstart (by decide))
    refine ⟨some .word, runLength isWordPart (c :: cs ++ rest), ?_, length_le_runLength hparts rest,
      fun _ => rfl⟩
    simp [lexeme?, hblank, hother, hstart]
  | mark h => exact ⟨_, _, lexeme?_mark h, Nat.le_refl _, fun _ => rfl⟩

/-! ## What is cut off is a lexeme -/

theorem fractionLength_le (cs : List Char) : fractionLength cs ≤ cs.length := by
  unfold fractionLength
  split
  · next rest =>
    have hrun := runLength_le isDigit rest
    dsimp only
    split
    · exact Nat.zero_le _
    · rw [List.length_cons]
      omega
  · exact Nat.zero_le _

theorem exponentLength_le (cs : List Char) : exponentLength cs ≤ cs.length := by
  cases cs with
  | nil => exact Nat.le_refl _
  | cons c rest =>
    rw [exponentLength]
    split
    · extract_lets sign digits
      have hrun : digits ≤ (rest.drop sign).length := runLength_le isDigit _
      rw [List.length_drop] at hrun
      split
      · exact Nat.zero_le _
      · rw [List.length_cons]
        omega
    · exact Nat.zero_le _

theorem numberLexeme?_le {kind : TokenKind} (h : numberLexeme? cs = some (kind, n)) :
    n ≤ cs.length := by
  unfold numberLexeme? at h
  extract_lets sign whole fraction exponent at h
  have hwhole : whole ≤ (cs.drop sign).length := runLength_le isDigit _
  have hfraction : fraction ≤ (cs.drop (sign + whole)).length := fractionLength_le _
  have hexponent : exponent ≤ (cs.drop (sign + whole + fraction)).length := exponentLength_le _
  simp only [List.length_drop] at hwhole hfraction hexponent
  split at h
  · cases h
  · cases h
    omega

/-- What is dropped is a run of blanks or a comment. -/
theorem exists_gap (h : lexeme? cs = some (none, n)) :
    ∃ chunk rest, cs = chunk ++ rest ∧ chunk.length = n ∧ Lexeme none chunk := by
  cases cs with
  | nil => cases h
  | cons c cs =>
    unfold lexeme? at h
    dsimp only at h
    split at h
    · next hblank =>
      cases h
      refine ⟨(c :: cs).takeWhile isBlank, (c :: cs).dropWhile isBlank,
        List.takeWhile_append_dropWhile.symm, rfl, .blanks ?_ (forall_takeWhile _ _)⟩
      rw [List.takeWhile_cons_of_pos hblank]
      exact List.cons_ne_nil _ _
    · split at h
      · next hcomment =>
        cases h
        subst hcomment
        refine ⟨'#' :: cs.takeWhile (fun d => decide (d ≠ '\n')),
          cs.dropWhile (fun d => decide (d ≠ '\n')), ?_, Nat.add_comm _ _, .comment ?_⟩
        · rw [List.cons_append, List.takeWhile_append_dropWhile]
        · exact fun hmem => of_decide_eq_true (forall_takeWhile _ cs _ hmem) rfl
      · exfalso
        repeat' split at h
        all_goals simp at h

/-- **What is cut off is a lexeme.** -/
theorem exists_of_lexeme?_eq_some (h : lexeme? cs = some (kind?, n)) :
    ∃ chunk rest, cs = chunk ++ rest ∧ chunk.length = n ∧ Lexeme kind? chunk := by
  cases kind? with
  | none => exact exists_gap h
  | some kind =>
    obtain ⟨c, rest, rfl, hcases⟩ := lexeme?_cases h
    obtain ⟨rfl, rfl, hrest, rfl⟩ | ⟨rfl, rfl, n, hn, rfl⟩ | ⟨rfl, hstart, rfl⟩ |
      ⟨rfl, hmark, rfl⟩ | ⟨-, hnumber, -⟩ := hcases
    · obtain ⟨rest, rfl⟩ := List.head?_eq_some_iff.1 hrest
      exact ⟨['<', '-'], rest, rfl, rfl, .arrow⟩
    · obtain ⟨body, rest, rfl, rfl, hbody⟩ := exists_isQuotedBody hn
      refine ⟨'"' :: (body ++ ['"']), rest, ?_, ?_, .quote hbody⟩
      · rw [List.cons_append, List.append_assoc]
        rfl
      · rw [List.length_cons, List.length_append]
        rfl
    · refine ⟨c :: rest.takeWhile isWordPart, rest.dropWhile isWordPart, ?_, ?_,
        .word hstart (forall_takeWhile _ _)⟩
      · rw [List.cons_append, List.takeWhile_append_dropWhile]
      · rw [runLength, List.takeWhile_cons_of_pos (isWordPart_of_isWordStart hstart)]
    · exact ⟨[c], rest, rfl, rfl, .mark hmark⟩
    · obtain ⟨sign, whole, fraction, exponent, hparts, htake, rfl⟩ := exists_isNumber hnumber
      refine ⟨(c :: rest).take n, (c :: rest).drop n, (List.take_append_drop _ _).symm,
        List.length_take_of_le (numberLexeme?_le hnumber), ?_⟩
      rw [htake]
      exact hparts.lexeme

/-! ## The longest lexeme -/

/-- **What is cut off is the longest lexeme** at the front of the text. -/
theorem lexeme?_eq_some_iff :
    lexeme? (chunk ++ rest) = some (kind?, chunk.length) ↔ Longest kind? chunk rest := by
  constructor
  · intro h
    obtain ⟨front, back, happend, hlength, hlexeme⟩ := exists_of_lexeme?_eq_some h
    obtain ⟨rfl, rfl⟩ := List.append_inj happend hlength.symm
    refine ⟨hlexeme, fun other? other hother hprefix => ?_⟩
    obtain ⟨more, hmore⟩ := hprefix
    obtain ⟨found?, n, hfound, hle, -⟩ := hother.exists_lexeme? more
    rw [hmore, h] at hfound
    cases hfound
    exact hle
  · intro h
    obtain ⟨found?, n, hfound, hle, hkind⟩ := h.lexeme.exists_lexeme? rest
    obtain ⟨front, back, happend, rfl, hlexeme⟩ := exists_of_lexeme?_eq_some hfound
    have hlength : front.length = chunk.length :=
      Nat.le_antisymm (h.length_le found? front hlexeme ⟨back, happend.symm⟩) hle
    rw [hfound, hkind hlength, hlength]

/-- **Nothing is cut off** exactly where no lexeme begins. -/
theorem lexeme?_eq_none_iff :
    lexeme? cs = none ↔ ∀ kind? chunk, Lexeme kind? chunk → ¬chunk <+: cs := by
  constructor
  · rintro h kind? chunk hlexeme ⟨rest, rfl⟩
    obtain ⟨found?, n, hfound, -⟩ := hlexeme.exists_lexeme? rest
    rw [h] at hfound
    cases hfound
  · intro h
    rw [Option.eq_none_iff_forall_not_mem]
    rintro ⟨kind?, n⟩ hmem
    obtain ⟨chunk, rest, rfl, -, hlexeme⟩ := exists_of_lexeme?_eq_some hmem
    exact h kind? chunk hlexeme (List.prefix_append chunk rest)

/-- The longest lexeme is cut off where any begins. -/
theorem exists_longest (h : lexeme? cs ≠ none) :
    ∃ kind? chunk rest, cs = chunk ++ rest ∧ Longest kind? chunk rest := by
  obtain ⟨⟨kind?, n⟩, hsome⟩ := Option.ne_none_iff_exists'.1 h
  obtain ⟨chunk, rest, rfl, rfl, -⟩ := exists_of_lexeme?_eq_some hsome
  exact ⟨kind?, chunk, rest, rfl, lexeme?_eq_some_iff.1 hsome⟩

end RuleDiagram
