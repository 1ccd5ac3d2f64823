import RuleDiagram.Proofs.Source.Lexeme

/-!
# The scan of a text

A text is scanned from its beginning: the longest lexeme of what is left is taken over, as a gap or
as a token with the place at which it begins, until nothing is left or no lexeme begins there. The
place of a character is told by the text in front of it alone, by its line breaks and by how far the
last of them lies back, whatever lexemes these characters belong to.

## Main definitions

* `Position.IsAfter`: a place is that of the character behind a given text
* `Scanned`: what has been taken over from a text, what is left, and the tokens so far

## Main results

* `Position.isAfter_iff`: places are counted forward character by character
* `Scanned.exists_tokensFrom_eq`: the tokens of a text are those so far and those of what is left
* `tokenize_exact`: the tokens of a text that is cut up, and the fault of one that is not
-/

namespace RuleDiagram

variable {p q : Position} {c : Char} {before chunk rest text : List Char} {kind? : Option TokenKind}
  {tokens : List Token} {bound : Nat}

/-! ## Places -/

/-- **The place of the character behind a text**: its line is one more than the line breaks in the
text, and its column counts from the character behind the last of them, or from the beginning. -/
structure Position.IsAfter (p : Position) (before : List Char) : Prop where
  line : p.line = 1 + before.count '\n'
  column : ∃ front line, before = front ++ line ∧ (front = [] ∨ front.getLast? = some '\n') ∧
    '\n' ∉ line ∧ p.column = before.length - front.length + 1

namespace Position

theorem advance_append (cs ds : List Char) : p.advance (cs ++ ds) = (p.advance cs).advance ds :=
  List.foldl_append

/-- One more character moves the place by one. -/
theorem IsAfter.next (h : p.IsAfter before) (c : Char) : (p.next c).IsAfter (before ++ [c]) := by
  obtain ⟨hline, front, line, rfl, hfront, hbreak, hcolumn⟩ := h
  unfold Position.next
  split
  · next hc =>
    subst hc
    refine ⟨?_, front ++ line ++ ['\n'], [], ?_, ?_, List.not_mem_nil, ?_⟩
    · simp [hline, Nat.add_assoc]
    · rw [List.append_nil]
    · exact .inr List.getLast?_concat
    · simp
  · next hc =>
    refine ⟨?_, front, line ++ [c], List.append_assoc _ _ _, hfront, ?_, ?_⟩
    · simp [hline, hc]
    · simp [hbreak, Ne.symm hc]
    · simp [hcolumn]

theorem isAfter_advance (before : List Char) : (start.advance before).IsAfter before := by
  induction before using List.reverseRecOn with
  | nil => exact ⟨rfl, [], [], rfl, .inl rfl, List.not_mem_nil, rfl⟩
  | append_singleton before c ih =>
    rw [advance_append]
    exact ih.next c

/-- A text has one last line. -/
theorem lastLine_eq {front line : List Char}
    (hfront : front = [] ∨ front.getLast? = some '\n') (hline : '\n' ∉ line) :
    (front ++ line).reverse.takeWhile (fun c => decide (c ≠ '\n')) = line.reverse := by
  rw [List.reverse_append]
  refine takeWhile_append_of_stop (fun c hc => decide_eq_true ?_) fun c hc => ?_
  · rintro rfl
    exact hline (List.mem_reverse.1 hc)
  · rw [List.head?_reverse] at hc
    obtain rfl | hlast := hfront
    · cases hc
    · rw [hlast] at hc
      cases hc
      rfl

/-- **There is one place behind a text.** -/
theorem IsAfter.unique (hp : p.IsAfter before) (hq : q.IsAfter before) : p = q := by
  obtain ⟨hline, front, line, hbefore, hfront, hbreak, hcolumn⟩ := hp
  obtain ⟨hline', front', line', hbefore', hfront', hbreak', hcolumn'⟩ := hq
  have hlast : line.reverse = line'.reverse := by
    rw [← lastLine_eq hfront hbreak, ← lastLine_eq hfront' hbreak', ← hbefore, ← hbefore']
  have hlength : front.length + line.length = front'.length + line'.length := by
    rw [← List.length_append, ← List.length_append, ← hbefore, ← hbefore']
  rw [List.reverse_injective hlast] at hlength
  have hfrontLength : front.length = front'.length := by omega
  have hsameLine : p.line = q.line := hline.trans hline'.symm
  have hsameColumn : p.column = q.column := by rw [hcolumn, hcolumn', hfrontLength]
  cases p
  cases q
  exact congrArg₂ Position.mk hsameLine hsameColumn

/-- **Places are counted forward** character by character. -/
theorem isAfter_iff : p.IsAfter before ↔ p = start.advance before :=
  ⟨fun h => h.unique (isAfter_advance before), fun h => h ▸ isAfter_advance before⟩

end Position

/-! ## Runs of the scan -/

/-- **The scan of a text**: what has been taken over, what is left, and the tokens so far. At each
step the longest lexeme is taken over: as a gap if it is a run of blanks or a comment, and otherwise
as a token that carries its kind, its text and its place. -/
inductive Scanned (text : List Char) : List Char → List Char → List Token → Prop
  | start : Scanned text [] text []
  | gap {before chunk rest : List Char} {tokens : List Token}
      (h : Scanned text before (chunk ++ rest) tokens) (hchunk : Longest none chunk rest) :
      Scanned text (before ++ chunk) rest tokens
  | token {before chunk rest : List Char} {tokens : List Token} {kind : TokenKind} {p : Position}
      (h : Scanned text before (chunk ++ rest) tokens) (hchunk : Longest (some kind) chunk rest)
      (hp : p.IsAfter before) :
      Scanned text (before ++ chunk) rest (tokens ++ [⟨kind, String.ofList chunk, p⟩])

namespace Scanned

/-- Nothing of the text is lost. -/
theorem append_eq (h : Scanned text before rest tokens) : before ++ rest = text := by
  induction h with
  | start => rfl
  | gap _ _ ih | token _ _ _ ih => rwa [List.append_assoc]

/-- One more lexeme. -/
theorem step (h : Scanned text before (chunk ++ rest) tokens) (hchunk : Longest kind? chunk rest) :
    ∃ tokens, Scanned text (before ++ chunk) rest tokens := by
  cases kind? with
  | none => exact ⟨_, h.gap hchunk⟩
  | some kind => exact ⟨_, h.token hchunk (Position.isAfter_advance before)⟩

/-- **The scan goes on** until nothing is left or no lexeme begins. -/
theorem exists_end (h : Scanned text before rest tokens) :
    (∃ tokens, Scanned text text [] tokens) ∨
      ∃ before c rest tokens, Scanned text before (c :: rest) tokens ∧
        lexeme? (c :: rest) = none := by
  -- Induction on what is left, of which each lexeme takes a character at least.
  induction hlength : rest.length using Nat.strong_induction_on generalizing before rest tokens with
  | _ n ih =>
    cases rest with
    | nil =>
      have happend := h.append_eq
      rw [List.append_nil] at happend
      exact .inl ⟨tokens, happend ▸ h⟩
    | cons c rest =>
      by_cases hnone : lexeme? (c :: rest) = none
      · exact .inr ⟨before, c, rest, tokens, h, hnone⟩
      · obtain ⟨kind?, chunk, left, heq, hchunk⟩ := exists_longest hnone
        rw [heq] at h hlength
        obtain ⟨tokens, hstep⟩ := h.step hchunk
        have hpos := List.length_pos_of_ne_nil hchunk.lexeme.ne_nil
        rw [List.length_append] at hlength
        exact ih left.length (by omega) hstep rfl

end Scanned

/-- Tokens in front of those of a text. -/
def TokenList.behind (tokens : List Token) (ts : TokenList) : TokenList :=
  ⟨tokens ++ ts.tokens, ts.stop⟩

/-- The token that a lexeme is, if it is one. -/
def tokenOf (kind? : Option TokenKind) (chunk : List Char) (p : Position) : List Token :=
  match kind? with
  | some kind => [⟨kind, String.ofList chunk, p⟩]
  | none => []

/-- The longest lexeme is cut off. -/
theorem tokensFrom_append (hchunk : Longest kind? chunk rest) (p : Position) (bound : Nat) :
    tokensFrom (bound + 1) p (chunk ++ rest) =
      (tokensFrom bound (p.advance chunk) rest).map (·.behind (tokenOf kind? chunk p)) := by
  have hlex := lexeme?_eq_some_iff.2 hchunk
  have htake : (chunk ++ rest).take chunk.length = chunk := List.take_left
  have hdrop : (chunk ++ rest).drop chunk.length = rest := List.drop_left
  obtain ⟨c, cs, rfl⟩ := List.exists_cons_of_ne_nil hchunk.lexeme.ne_nil
  rw [List.cons_append] at hlex htake hdrop ⊢
  simp only [tokensFrom, hlex, htake, hdrop]
  cases tokensFrom bound (p.advance (c :: cs)) rest <;> cases kind? <;> rfl

theorem behind_behind (front middle : List Token) (result : Except ProgramFault TokenList) :
    (result.map (·.behind middle)).map (·.behind front) =
      result.map (·.behind (front ++ middle)) := by
  cases result with
  | error => rfl
  | ok ts => simp [Except.map, TokenList.behind]

/-- **The tokens of a text** are those so far and those of what is left. -/
theorem Scanned.exists_tokensFrom_eq (h : Scanned text before rest tokens) :
    ∃ bound, rest.length ≤ bound ∧ tokensFrom text.length .start text =
      (tokensFrom bound (Position.start.advance before) rest).map (·.behind tokens) := by
  -- Induction along the scan: each lexeme takes one from the bound and a character at least.
  have hcut : ∀ {before chunk rest tokens kind?}, Longest kind? chunk rest →
      (∃ bound, (chunk ++ rest).length ≤ bound ∧ tokensFrom text.length .start text =
        (tokensFrom bound (Position.start.advance before) (chunk ++ rest)).map (·.behind tokens)) →
      ∃ bound, rest.length ≤ bound ∧ tokensFrom text.length .start text =
        (tokensFrom bound (Position.start.advance (before ++ chunk)) rest).map
          (·.behind (tokens ++ tokenOf kind? chunk (Position.start.advance before))) := by
    rintro before chunk rest tokens kind? hchunk ⟨bound, hbound, heq⟩
    have hpos := List.length_pos_of_ne_nil hchunk.lexeme.ne_nil
    rw [List.length_append] at hbound
    obtain ⟨bound, rfl⟩ := Nat.exists_eq_succ_of_ne_zero (show bound ≠ 0 by omega)
    refine ⟨bound, by omega, ?_⟩
    rw [heq, tokensFrom_append hchunk, behind_behind, Position.advance_append]
  induction h with
  | start =>
    refine ⟨text.length, Nat.le_refl _, ?_⟩
    have hid : (fun ts => TokenList.behind [] ts) = id := rfl
    rw [hid]
    exact (congrFun Except.map_id _).symm
  | gap _ hchunk ih => simpa [tokenOf] using hcut hchunk ih
  | token _ hchunk hp ih =>
    rw [Position.isAfter_iff.1 hp]
    exact hcut hchunk ih

/-- A text of which nothing is left is cut into the tokens so far. -/
theorem Scanned.tokensFrom_eq_ok (h : Scanned text before [] tokens) :
    tokensFrom text.length .start text = .ok ⟨tokens, Position.start.advance text⟩ := by
  obtain ⟨bound, -, heq⟩ := h.exists_tokensFrom_eq
  have happend := h.append_eq
  rw [List.append_nil] at happend
  rw [heq, happend]
  cases bound <;> simp [tokensFrom, Except.map, TokenList.behind]

/-- The fault is where no lexeme begins. -/
theorem Scanned.tokensFrom_eq_error (h : Scanned text before (c :: rest) tokens)
    (hnone : lexeme? (c :: rest) = none) : tokensFrom text.length .start text =
      .error ⟨.unexpectedCharacter c, Position.start.advance before⟩ := by
  obtain ⟨bound, hbound, heq⟩ := h.exists_tokensFrom_eq
  obtain ⟨bound, rfl⟩ := Nat.exists_eq_succ_of_ne_zero (Nat.ne_zero_of_lt hbound)
  rw [heq]
  simp only [tokensFrom, hnone]
  rfl

/-- **The tokens of a text that is cut up, and the fault of one that is not.** A text is cut into
the tokens of a scan that takes over all of it, and ends at the place behind it. Otherwise the fault
is where the scan gets stuck: no lexeme begins there. -/
theorem tokenize_exact (text : String) :
    (∀ ts, tokenize text = .ok ts ↔
      Scanned text.toList text.toList [] ts.tokens ∧ ts.stopToken.position.IsAfter text.toList) ∧
    (∀ f, tokenize text = .error f ↔
      ∃ before c rest tokens, Scanned text.toList before (c :: rest) tokens ∧
        (∀ kind? chunk, Lexeme kind? chunk → ¬chunk <+: c :: rest) ∧
        f.cause = .unexpectedCharacter c ∧ f.position.IsAfter before) := by
  simp only [← lexeme?_eq_none_iff, Position.isAfter_iff]
  refine ⟨fun ts => ⟨fun h => ?_, ?_⟩, fun f => ⟨fun h => ?_, ?_⟩⟩
  · obtain ⟨tokens, hend⟩ | ⟨before, c, rest, tokens, hstuck, hnone⟩ :=
      (@Scanned.start text.toList).exists_end
    · obtain rfl := Except.ok.inj (h.symm.trans hend.tokensFrom_eq_ok)
      exact ⟨hend, rfl⟩
    · cases h.symm.trans (hstuck.tokensFrom_eq_error hnone)
  · rintro ⟨hend, hstop⟩
    obtain ⟨tokens, stop⟩ := ts
    rw [show stop = _ from hstop]
    exact hend.tokensFrom_eq_ok
  · obtain ⟨tokens, hend⟩ | ⟨before, c, rest, tokens, hstuck, hnone⟩ :=
      (@Scanned.start text.toList).exists_end
    · cases h.symm.trans hend.tokensFrom_eq_ok
    · obtain rfl := Except.error.inj (h.symm.trans (hstuck.tokensFrom_eq_error hnone))
      exact ⟨before, c, rest, tokens, hstuck, hnone, rfl, rfl⟩
  · rintro ⟨before, c, rest, tokens, hstuck, hnone, hcause, hposition⟩
    obtain ⟨cause, position⟩ := f
    rw [show cause = _ from hcause, show position = _ from hposition]
    exact hstuck.tokensFrom_eq_error hnone

end RuleDiagram
