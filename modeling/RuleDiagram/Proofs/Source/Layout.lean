import RuleDiagram.Proofs.Source.Token

/-!
# Tokens with blanks between them

How far a lexeme reaches depends on the text behind it, but a blank ends all of them. So a token of
one text keeps its kind and its text in any other in which a blank follows it, and tokens may be
taken from a text in any order and put into a new one.

## Main definitions

* `Stands`: a text is a lexeme of a kind wherever a blank follows
* `IsQuotedBody`: what stands between two quotes

## Main results

* `Token.IsLexeme.stands`: a token stands wherever a blank follows
* `exists_tokenize_of_stands`: the text of given tokens
-/

namespace RuleDiagram

variable {cs : List Char} {n : Nat} {t : Token} {f : Face} {faces : List Face}

/-- **A face stands**: its text is a lexeme of its kind wherever a blank follows. -/
def Stands (f : Face) : Prop :=
  f.2.toList ≠ [] ∧
    ∀ rest, lexeme? (f.2.toList ++ ' ' :: rest) = some (some f.1, f.2.toList.length)

/-! ## Lexemes in front of a blank -/

/-- What stands between two quotes: characters other than quotes and backslashes, and backslashes
each with a character behind it that is no line break. -/
inductive IsQuotedBody : List Char → Prop
  | nil : IsQuotedBody []
  | plain {c : Char} {cs : List Char} (hquote : c ≠ '"') (hbackslash : c ≠ '\\')
      (h : IsQuotedBody cs) : IsQuotedBody (c :: cs)
  | escape {c : Char} {cs : List Char} (hbreak : c ≠ '\n') (h : IsQuotedBody cs) :
      IsQuotedBody ('\\' :: c :: cs)

/-- The end of a quoted text does not depend on what follows. -/
theorem IsQuotedBody.closingLength? (h : IsQuotedBody cs) (rest : List Char) :
    closingLength? (cs ++ ['"'] ++ rest) = some (cs ++ ['"']).length := by
  induction h with
  | nil => rfl
  | plain hquote hbackslash _ ih =>
    rw [List.cons_append, List.cons_append, closingLength?_plain hquote hbackslash, ih]
    rfl
  | escape hbreak _ ih =>
    simp only [List.cons_append]
    rw [closingLength?_escape hbreak, ih]
    rfl

/-- A quoted text that is closed has a body. -/
theorem exists_isQuotedBody (h : closingLength? cs = some n) :
    ∃ body rest, cs = body ++ '"' :: rest ∧ body.length + 1 = n ∧ IsQuotedBody body := by
  -- Induction along the text; an escape takes two characters.
  induction cs using closingLength?.induct generalizing n with
  | case1 => cases h
  | case2 rest =>
    cases h
    exact ⟨[], rest, rfl, rfl, .nil⟩
  | case3 => cases h
  | case4 rest => simp [closingLength?] at h
  | case5 c rest hbreak ih =>
    rw [closingLength?_escape hbreak] at h
    obtain ⟨k, hk, rfl⟩ := Option.map_eq_some_iff.1 h
    obtain ⟨body, rest, rfl, rfl, hbody⟩ := ih hk
    exact ⟨'\\' :: c :: body, rest, rfl, rfl, .escape hbreak hbody⟩
  | case6 c rest hquote hend hescape ih =>
    have hbackslash : c ≠ '\\' := by
      rintro rfl
      cases rest with
      | nil => exact hend rfl rfl
      | cons d rest => exact hescape d rest rfl rfl
    rw [closingLength?_plain hquote hbackslash] at h
    obtain ⟨k, hk, rfl⟩ := Option.map_eq_some_iff.1 h
    obtain ⟨body, rest, rfl, rfl, hbody⟩ := ih hk
    exact ⟨c :: body, rest, rfl, rfl, .plain hquote hbackslash hbody⟩

theorem lexeme?_quote {front rest : List Char}
    (h : closingLength? (front ++ rest) = some front.length) :
    lexeme? ('"' :: (front ++ rest)) = some (some .quote, front.length + 1) := by
  have hblank : isBlank '"' = false := by decide
  simp [lexeme?, hblank, h]

theorem stands_of_lexeme {kind : TokenKind} {chunk : List Char} (hne : chunk ≠ [])
    (hlex : ∀ rest, lexeme? (chunk ++ ' ' :: rest) = some (some kind, chunk.length)) :
    Stands (kind, String.ofList chunk) := by
  rw [Stands, String.toList_ofList]
  exact ⟨hne, hlex⟩

theorem stands_mark {c : Char} (hc : c ∈ punctuationMarks) :
    Stands (markFace (String.ofList [c])) :=
  stands_of_lexeme (List.cons_ne_nil c []) fun _ => lexeme?_mark hc

theorem stands_word {w : String} (hw : isWord w) : Stands (.word, w) := by
  refine ⟨?_, fun rest => lexeme?_word hw (delimited_cons (by decide))⟩
  intro hnil
  rw [isWord, hnil] at hw
  cases hw

/-- **A token stands** wherever a blank follows. -/
theorem Token.IsLexeme.stands (h : t.IsLexeme) : Stands t.face := by
  have hword : t.kind = .word → isWord t.text := isWord_of_isLexeme h
  obtain ⟨kind, text, position⟩ := t
  obtain ⟨cs, length, hlex, rfl⟩ := h
  dsimp only at hlex hword
  obtain ⟨c, rest, rfl, hcases⟩ := lexeme?_cases hlex
  obtain ⟨rfl, rfl, hrest, rfl⟩ | ⟨rfl, rfl, n, hn, rfl⟩ | ⟨rfl, -, -⟩ | ⟨rfl, hmark, rfl⟩ |
    ⟨-, hnumber, hpath⟩ := hcases
  · -- The arrow.
    obtain ⟨rest, rfl⟩ := List.head?_eq_some_iff.1 hrest
    exact stands_of_lexeme (List.cons_ne_nil _ _) fun _ => lexeme?_arrow
  · -- A quoted text.
    obtain ⟨body, tail, rfl, rfl, hbody⟩ := exists_isQuotedBody hn
    have htake : (body ++ '"' :: tail).take (body.length + 1) = body ++ ['"'] := by
      rw [List.take_length_add_append, List.take_succ_cons, List.take_zero]
    refine stands_of_lexeme (List.cons_ne_nil _ _) fun rest => ?_
    rw [List.take_succ_cons, htake]
    exact lexeme?_quote (hbody.closingLength? _)
  · exact stands_word (hword rfl)
  · exact stands_mark hmark
  · -- A number, which begins with the character that makes it one.
    obtain ⟨sign, whole, fraction, exponent, hparts, htake, rfl⟩ := exists_isNumber hnumber
    have hne : (c :: rest).take length ≠ [] := by
      rw [htake]
      simp [hparts.whole_ne_nil]
    refine stands_of_lexeme hne fun more => ?_
    obtain ⟨k, rfl⟩ : ∃ k, length = k + 1 :=
      Nat.exists_eq_succ_of_ne_zero fun hzero => hne (by rw [hzero, List.take_zero])
    have hblank : Delimited (' ' :: more) := delimited_cons (by decide)
    have happend := hparts.numberLexeme?_append hblank
    rw [List.take_succ_cons, List.cons_append, hpath, ← List.cons_append, ← List.take_succ_cons,
      htake]
    simp only [List.append_assoc] at happend ⊢
    rw [happend]
    rfl

/-- **Tokens that stand are those of some text**: the one with a blank behind each of them. -/
theorem exists_tokenize_of_stands (h : ∀ f ∈ faces, Stands f) :
    ∃ text ts, tokenize text = .ok ts ∧ ts.tokens.map Token.face = faces := by
  have hspells : Spells (faces.flatMap fun f => f.2.toList ++ [' ']) faces := by
    induction faces with
    | nil => exact .nil
    | cons f faces ih =>
      obtain ⟨⟨hne, hlex⟩, hrest⟩ := List.forall_mem_cons.1 h
      have hspells := (ih hrest).space.token hne (hlex _)
      rw [String.ofList_toList] at hspells
      rwa [List.flatMap_cons, List.append_assoc]
  exact ⟨String.ofList _, exists_tokenize_of_spells (by rwa [String.toList_ofList])⟩

end RuleDiagram
