import RuleDiagram.Proofs.Source.Phrase

/-!
# What a parse accepts is derived

A step of a parse passes tokens from the front of those ahead. Whenever it gives something, this is
what a phrase stands for, and the tokens passed are those of the phrase; otherwise it reports a
fault of the program at a token that it has seen, or one of the tokens is at fault itself.

## Main definitions

* `Located`: what a step over a list of tokens comes to
* `TokenList.Marked`: what a text makes of arrows and punctuation marks
* `ParseState.Passes`: the tokens passed and the labels defined from one state to another

## Main results

* `located_parseTerm`, `located_parsePattern`, `located_parseBody_and_parseArm`: terms, patterns,
  bodies and arms
* `Program.located_ofTokens`: a program of a token list is read from a phrase that derives it
-/

namespace RuleDiagram

variable {α β : Type} {ts : TokenList} {s s' s'' : ParseState} {t : Token} {kind : TokenKind}
  {mark what : String} {P : α → Prop} {Q : β → Prop} {faces faces' : List Face}
  {labels labels' : List String} {registry : Registry}

/-! ## What a step comes to -/

/-- **What a step over a list of tokens comes to**: a result with a property, a fault of the program
at a token of the list or at its end, or the fault of one of its tokens. -/
inductive Located (ts : TokenList) (P : α → Prop) : Except ParseFault α → Prop
  | result {a : α} (h : P a) : Located ts P (.ok a)
  | program {t : Token} (ht : t ∈ ts.tokens ++ [ts.stopToken]) (cause : ProgramCause) :
    Located ts P (.error (.program ⟨cause, t.position⟩))
  | token {t : Token} {f : ParseFault} (ht : t ∈ ts.tokens) (hf : t.fault? = some f) :
    Located ts P (.error f)

namespace Located

theorem bind {x : Except ParseFault α} {f : α → Except ParseFault β} (hx : Located ts P x)
    (hf : ∀ a, P a → Located ts Q (f a)) : Located ts Q (x >>= f) := by
  cases hx with
  | result h => exact hf _ h
  | program ht cause => exact .program ht cause
  | token ht hf => exact .token ht hf

theorem map {x : Except ParseFault α} {f : α → β} (hx : Located ts P x)
    (hf : ∀ a, P a → Q (f a)) : Located ts Q (f <$> x) := by
  cases hx with
  | result h => exact .result (hf _ h)
  | program ht cause => exact .program ht cause
  | token ht hf => exact .token ht hf

theorem imp {x : Except ParseFault α} {R : α → Prop} (hx : Located ts P x)
    (h : ∀ a, P a → R a) : Located ts R x := by
  cases hx with
  | result ha => exact .result (h _ ha)
  | program ht cause => exact .program ht cause
  | token ht hf => exact .token ht hf

theorem of_eq_ok {x : Except ParseFault α} {a : α} (hx : Located ts P x) (h : x = .ok a) : P a := by
  subst h
  cases hx with
  | result h => exact h

/-- The integer of a token is read, or the token is at fault. -/
theorem integerOf (ht : t ∈ ts.tokens) (hkind : t.kind = .int) :
    Located ts (fun z => RuleDiagram.integerOf t.text = .ok z) (RuleDiagram.integerOf t.text) := by
  cases h : RuleDiagram.integerOf t.text with
  | ok z => exact .result rfl
  | error f =>
    have hfault : t.fault? = some f := by rw [Token.fault?, hkind]; simp only [h]
    exact .token ht hfault

end Located

/-- The tokens of the kind of arrows are arrows, and no punctuation mark looks like one. -/
structure TokenList.Marked (ts : TokenList) : Prop where
  arrow : ∀ t ∈ ts.tokens, t.kind = .arrow → t.text = "<-"
  mark : ∀ t ∈ ts.tokens, t.kind = .punctuation → t.text ≠ "<-"

/-- A text is cut into tokens with arrows and punctuation marks as they should be. -/
theorem marked_of_tokenize {text : String} (h : tokenize text = .ok ts) : ts.Marked where
  arrow t ht hkind := by
    obtain ⟨cs, length, hlex, htext⟩ := isLexeme_of_tokensFrom h t ht
    rw [hkind] at hlex
    obtain ⟨c, rest, rfl, hcases⟩ := lexeme?_cases hlex
    simp only [reduceCtorEq, false_and, or_false, true_and] at hcases
    obtain ⟨rfl, hrest, rfl⟩ := hcases
    obtain ⟨rest, rfl⟩ := List.head?_eq_some_iff.1 hrest
    exact htext
  mark t ht hkind := by
    obtain ⟨cs, length, hlex, htext⟩ := isLexeme_of_tokensFrom h t ht
    rw [hkind] at hlex
    obtain ⟨c, rest, rfl, hcases⟩ := lexeme?_cases hlex
    simp only [reduceCtorEq, false_and, false_or, or_false, true_and] at hcases
    obtain ⟨-, rfl⟩ := hcases
    -- A punctuation mark is a single character.
    intro harrow
    have hlist := congrArg String.toList (htext.symm.trans harrow)
    rw [String.toList_ofList] at hlist
    cases hlist

namespace ParseState

/-- A parse of a list of tokens is under way. -/
structure Within (s : ParseState) (ts : TokenList) : Prop where
  ahead : s.ahead ⊆ ts.tokens
  stop : s.stop = ts.stop

/-- **From one state of a parse to a later one** tokens with given faces are passed and given labels
are defined, none of them twice. -/
structure Passes (s : ParseState) (faces : List Face) (labels : List String) (s' : ParseState) :
    Prop where
  ahead : s.ahead.map Token.face = faces ++ s'.ahead.map Token.face
  suffix : s'.ahead <:+ s.ahead
  stop : s'.stop = s.stop
  labels : s'.labels = labels.reverse ++ s.labels
  nodup : s.labels.Nodup → s'.labels.Nodup

theorem Passes.within (h : s.Passes faces labels s') (hs : s.Within ts) : s'.Within ts :=
  ⟨List.Subset.trans h.suffix.subset hs.ahead, h.stop.trans hs.stop⟩

theorem Passes.trans (h : s.Passes faces labels s') (h' : s'.Passes faces' labels' s'') :
    s.Passes (faces ++ faces') (labels ++ labels') s'' where
  ahead := by rw [h.ahead, h'.ahead, List.append_assoc]
  suffix := h'.suffix.trans h.suffix
  stop := h'.stop.trans h.stop
  labels := by rw [h'.labels, h.labels, List.reverse_append, List.append_assoc]
  nodup hnodup := h'.nodup (h.nodup hnodup)

theorem next_mem (h : s.next.kind ≠ .stop) : s.next ∈ s.ahead := by
  unfold next at h ⊢
  cases hs : s.ahead with
  | nil =>
    rw [hs] at h
    exact absurd rfl h
  | cons t rest => exact List.mem_cons_self

theorem next_mem_or_stop (hs : s.Within ts) : s.next ∈ ts.tokens ++ [ts.stopToken] := by
  unfold next
  cases h : s.ahead with
  | nil => simp [TokenList.stopToken, hs.stop]
  | cons t rest =>
    have ht : t ∈ s.ahead := h ▸ List.mem_cons_self
    exact List.mem_append_left _ (hs.ahead ht)

theorem next_mem_tokens (hs : s.Within ts) (h : s.next.kind = kind) (hkind : kind ≠ .stop) :
    s.next ∈ ts.tokens :=
  hs.ahead (next_mem (h.symm ▸ hkind))

theorem passes_next (h : s.next.kind ≠ .stop) : s.Passes [s.next.face] [] (s.skip 1) := by
  unfold next at h ⊢
  cases hs : s.ahead with
  | nil =>
    rw [hs] at h
    exact absurd rfl h
  | cons t rest =>
    exact ⟨by simp [skip, hs], List.drop_suffix 1 _, rfl, rfl, id⟩

theorem passes_of_kind (h : s.next.kind = kind) (hkind : kind ≠ .stop) :
    s.Passes [(kind, s.next.text)] [] (s.skip 1) := by
  have hpasses := passes_next (h.symm ▸ hkind)
  rwa [Token.face, h] at hpasses

theorem passes_of_word {w : String} (h : s.next.kind = .word) (hw : s.next.text = w) :
    s.Passes [(.word, w)] [] (s.skip 1) :=
  hw ▸ passes_of_kind h (by decide)

theorem located_fault (hs : s.Within ts) (cause : ProgramCause) :
    Located ts P (fault s.next cause) :=
  .program (next_mem_or_stop hs) cause

theorem passes_of_isAt (hts : ts.Marked) (hs : s.Within ts) (h : s.isAt mark)
    (hmark : mark ≠ "<-") : s.Passes [markFace mark] [] (s.skip 1) := by
  rw [isAt, Bool.and_eq_true, Bool.or_eq_true, decide_eq_true_eq, decide_eq_true_eq,
    decide_eq_true_eq] at h
  obtain ⟨hkind | hkind, rfl⟩ := h
  · exact passes_of_kind hkind (by decide)
  · exact absurd (hts.arrow _ (next_mem_tokens hs hkind (by decide)) hkind) hmark

theorem passes_of_isAt_arrow (hts : ts.Marked) (hs : s.Within ts) (h : s.isAt "<-") :
    s.Passes [(.arrow, "<-")] [] (s.skip 1) := by
  rw [isAt, Bool.and_eq_true, Bool.or_eq_true, decide_eq_true_eq, decide_eq_true_eq,
    decide_eq_true_eq] at h
  obtain ⟨hkind | hkind, htext⟩ := h
  · exact absurd htext (hts.mark _ (next_mem_tokens hs hkind (by decide)) hkind)
  · exact htext ▸ passes_of_kind hkind (by decide)

theorem isWordThen_iff : s.isWordThen mark ↔
    s.next.kind = .word ∧ s.second.kind = .punctuation ∧ s.second.text = mark := by
  rw [isWordThen, Bool.and_eq_true, Bool.and_eq_true, decide_eq_true_eq, decide_eq_true_eq,
    decide_eq_true_eq, and_assoc]

theorem passes_of_isWordThen (h : s.isWordThen mark) :
    s.Passes [(.word, s.next.text), markFace mark] [] (s.skip 2) := by
  obtain ⟨hword, hkind, hmark⟩ := isWordThen_iff.1 h
  -- The second token is the next one of the state after the first.
  have hsecond : (s.skip 1).next = s.second := rfl
  have h₁ : s.Passes [(.word, s.next.text)] [] (s.skip 1) := passes_of_kind hword (by decide)
  have h₂ : (s.skip 1).Passes [markFace mark] [] ((s.skip 1).skip 1) := by
    rw [markFace, ← hmark, ← hsecond]
    exact passes_of_kind (hsecond ▸ hkind) (by decide)
  have hskip : (s.skip 1).skip 1 = s.skip 2 := by simp [skip]
  exact hskip ▸ h₁.trans h₂

theorem located_expect (hts : ts.Marked) (hs : s.Within ts) (hmark : mark ≠ "<-") :
    Located ts (fun s' => s.Passes [markFace mark] [] s') (s.expect mark) := by
  unfold expect
  split
  · next h => exact .result (passes_of_isAt hts hs h hmark)
  · exact located_fault hs _

theorem located_expectKind (hs : s.Within ts) (hkind : kind ≠ .stop) :
    Located ts (fun x => x.1 ∈ ts.tokens ∧ x.1.kind = kind ∧ s.Passes [(kind, x.1.text)] [] x.2)
      (expectKind kind what s) := by
  unfold expectKind
  split
  · next h => exact .result ⟨next_mem_tokens hs h hkind, h, passes_of_kind h hkind⟩
  · exact located_fault hs _

end ParseState

open ParseState

theorem located_defineLabel (ht : t ∈ ts.tokens) :
    Located ts (fun s' => s.Passes [] [t.text] s') (defineLabel t s) := by
  unfold defineLabel
  split
  · exact .program (List.mem_append_left _ ht) _
  · next h => exact .result ⟨rfl, List.suffix_refl _, rfl, rfl, List.nodup_cons.2 ∘ .intro h⟩

/-! ## Terms and patterns -/

/-- A constant after a colon. -/
theorem located_parseConstant (hs : s.Within ts) :
    Located ts (fun x => ∃ f u, TermPhrase.read? u = some x.1 ∧ u.faces = [markFace ":", f] ∧
      s.Passes [f] [] x.2) (parseConstant s) := by
  unfold parseConstant
  dsimp only
  split
  · next h =>
    refine (Located.integerOf (next_mem_tokens hs h (by decide)) h).bind fun z hz => ?_
    refine .result ⟨_, .int s.next.text, ?_, rfl, passes_of_kind h (by decide)⟩
    rw [TermPhrase.read?, Except.toOption_eq_some_iff.2 hz]
    rfl
  · next h => exact .result ⟨_, .float s.next.text, rfl, rfl, passes_of_kind h (by decide)⟩
  · next h => exact .result ⟨_, .word s.next.text, rfl, rfl, passes_of_kind h (by decide)⟩
  · exact located_fault hs _

/-- A register after a percent sign. -/
theorem located_parseRegister (hts : ts.Marked) (hs : s.Within ts) :
    Located ts (fun x => ∃ faces u, TermPhrase.read? u = some x.1 ∧
      u.faces = markFace "%" :: faces ∧ s.Passes faces [] x.2) (parseRegister s) := by
  refine (located_expectKind hs (by decide)).bind ?_
  rintro ⟨register, s₁⟩ ⟨hmem, hkind, h₁⟩
  have hs₁ := h₁.within hs
  dsimp only at hmem hkind h₁ hs₁ ⊢
  split
  · exact .program (List.mem_append_left _ hmem) _
  · next hsign =>
    -- An arrow behind the register makes the term free; then only a hole may follow.
    split
    · next harrow =>
      have h₂ := passes_of_isAt_arrow hts hs₁ harrow
      refine (located_expectKind (h₂.within hs₁) (by decide)).bind ?_
      rintro ⟨hole, s₃⟩ ⟨hhole, -, h₃⟩
      dsimp only at hhole h₃ ⊢
      split
      · exact .program (List.mem_append_left _ hhole) _
      · next htext =>
        rw [not_not] at htext
        rw [htext] at h₃
        refine (Located.integerOf hmem hkind).bind fun z hz => ?_
        refine .result ⟨_, .free register.text hsign, ?_, rfl, (h₁.trans h₂).trans h₃⟩
        rw [TermPhrase.read?, Except.toOption_eq_some_iff.2 hz]
        rfl
    · refine (Located.integerOf hmem hkind).bind fun z hz => ?_
      refine .result ⟨_, .reference register.text hsign, ?_, rfl, h₁⟩
      rw [TermPhrase.read?, Except.toOption_eq_some_iff.2 hz]
      rfl

/-- **A parsed term is read from a phrase** that derives the tokens passed. -/
theorem located_parseTerm (hts : ts.Marked) (hs : s.Within ts) :
    Located ts (fun x => ∃ u, TermPhrase.read? u = some x.1 ∧ s.Passes u.faces [] x.2)
      (parseTerm s) := by
  unfold parseTerm
  dsimp only
  split
  · next h =>
    split
    · next text htext =>
      refine .result ⟨.quote s.next.text, ?_, passes_of_kind h (by decide)⟩
      rw [TermPhrase.read?, Except.toOption_eq_some_iff.2 htext]
      rfl
    · next f hf =>
      have hfault : s.next.fault? = some (.quote f) := by rw [Token.fault?, h]; simp only [hf]
      exact .token (next_mem_tokens hs h (by decide)) hfault
  · split
    · next h => exact .result ⟨.truth true, rfl, passes_of_word h.1 h.2⟩
    · split
      · next h => exact .result ⟨.truth false, rfl, passes_of_word h.1 h.2⟩
      · split
        · next h =>
          have h₁ := passes_of_isAt hts hs h (by decide)
          refine (located_parseConstant (h₁.within hs)).imp ?_
          rintro ⟨t, s₂⟩ ⟨f, u, hread, hfaces, h₂⟩
          exact ⟨u, hread, hfaces ▸ h₁.trans h₂⟩
        · split
          · next h =>
            have h₁ := passes_of_isAt hts hs h (by decide)
            refine (located_parseRegister hts (h₁.within hs)).imp ?_
            rintro ⟨t, s₂⟩ ⟨faces, u, hread, hfaces, h₂⟩
            exact ⟨u, hread, hfaces ▸ h₁.trans h₂⟩
          · exact located_fault hs _

/-- Parsed terms are read from phrases with commas between them. -/
theorem located_parseTerms (hts : ts.Marked) (bound : Nat) (hs : s.Within ts) :
    Located ts (fun x => ∃ us, us ≠ [] ∧ us.mapM TermPhrase.read? = some x.1 ∧
      s.Passes (TermPhrase.listFaces us) [] x.2) (parseTerms bound s) := by
  have hsingle {u : TermPhrase} {t : Term} (h : u.read? = some t) :
      [u].mapM TermPhrase.read? = some [t] := by
    simp [h]
  induction bound generalizing s with
  | zero =>
    refine (located_parseTerm hts hs).bind ?_
    rintro ⟨t, s₁⟩ ⟨u, hread, h₁⟩
    exact .result ⟨[u], List.cons_ne_nil _ _, hsingle hread, h₁⟩
  | succ bound ih =>
    refine (located_parseTerm hts hs).bind ?_
    rintro ⟨t, s₁⟩ ⟨u, hread, h₁⟩
    have hs₁ := h₁.within hs
    dsimp only at hread h₁ hs₁ ⊢
    split
    · next hcomma =>
      have h₂ := passes_of_isAt hts hs₁ hcomma (by decide)
      refine (ih (h₂.within hs₁)).bind ?_
      rintro ⟨rest, s₃⟩ ⟨us, hne, hrest, h₃⟩
      obtain ⟨v, us, rfl⟩ := List.exists_cons_of_ne_nil hne
      refine .result ⟨u :: v :: us, List.cons_ne_nil _ _, ?_, ?_⟩
      · rw [List.mapM_cons, hread, hrest]
        rfl
      · have hpasses := (h₁.trans h₂).trans h₃
        rwa [List.append_assoc] at hpasses
    · exact .result ⟨[u], List.cons_ne_nil _ _, hsingle hread, h₁⟩

/-- **A parsed pattern is read from a phrase** that derives the tokens passed. -/
theorem located_parsePattern (registry : Registry) (hts : ts.Marked) (hs : s.Within ts) :
    Located ts (fun x => ∃ u, PatternPhrase.read? registry u = some x.1 ∧ s.Passes u.faces [] x.2)
      (parsePattern registry s) := by
  refine (located_expectKind hs (by decide)).bind ?_
  rintro ⟨name, s₁⟩ ⟨hname, -, h₁⟩
  have hs₁ := h₁.within hs
  dsimp only at hname h₁ hs₁ ⊢
  split
  · exact .program (List.mem_append_left _ hname) _
  · next q hq =>
    refine (located_expect hts hs₁ (by decide)).bind fun s₂ h₂ => ?_
    have hs₂ := h₂.within hs₁
    split
    · next hclose =>
      have h₃ := passes_of_isAt hts hs₂ hclose (by decide)
      refine .result ⟨⟨name.text, []⟩, ?_, (h₁.trans h₂).trans h₃⟩
      rw [PatternPhrase.read?, hq]
      rfl
    · refine (located_parseTerms hts _ hs₂).bind ?_
      rintro ⟨terms, s₃⟩ ⟨us, -, hterms, h₃⟩
      refine (located_expect hts (h₃.within hs₂) (by decide)).bind fun s₄ h₄ => ?_
      refine .result ⟨⟨name.text, us⟩, ?_, ((h₁.trans h₂).trans (h₃.trans h₄))⟩
      dsimp only at hterms
      rw [PatternPhrase.read?, hq, hterms]
      rfl

/-! ## Bodies and programs -/

/-- **A parsed body or arm is read from a phrase** that derives the tokens passed and has the labels
defined. -/
theorem located_parseBody_and_parseArm (registry : Registry) (hts : ts.Marked) (bound : Nat) :
    (∀ s : ParseState, s.Within ts → Located ts (fun x => ∃ u, BodyPhrase.read? registry u =
      some x.1 ∧ s.Passes u.faces u.labels x.2) (parseBody registry bound s)) ∧
    ∀ s : ParseState, s.Within ts → Located ts (fun x => ∃ u, ArmPhrase.read? registry u =
      some x.1 ∧ s.Passes u.faces u.labels x.2) (parseArm registry bound s) := by
  -- Bodies hold arms and arms hold bodies, so one induction is on the bound of both.
  induction bound with
  | zero => exact ⟨fun s hs => located_fault hs _, fun s hs => located_fault hs _⟩
  | succ bound ih =>
    obtain ⟨hbody, harm⟩ := ih
    constructor
    · -- The pass-through pattern, a leaf, or a branch on a predicate.
      intro s hs
      unfold parseBody
      split
      · next hstar =>
        have h₁ := passes_of_isAt hts hs hstar (by decide)
        have hs₁ := h₁.within hs
        refine (harm _ hs₁).bind ?_
        rintro ⟨m, s₂⟩ ⟨u, hm, h₂⟩
        refine (harm _ (h₂.within hs₁)).bind ?_
        rintro ⟨r, s₃⟩ ⟨v, hr, h₃⟩
        refine .result ⟨.passThrough u v, ?_, h₁.trans (h₂.trans h₃)⟩
        dsimp only at hm hr
        rw [BodyPhrase.read?, hm, hr]
        rfl
      · split
        · next houtput =>
          have h₁ := passes_of_word houtput.1 houtput.2.1
          refine (located_parsePattern registry hts (h₁.within hs)).bind ?_
          rintro ⟨p, s₂⟩ ⟨u, hp, h₂⟩
          refine .result ⟨.leaf u, ?_, h₁.trans h₂⟩
          dsimp only at hp
          rw [BodyPhrase.read?, hp]
          rfl
        · refine (located_parsePattern registry hts hs).bind ?_
          rintro ⟨p, s₁⟩ ⟨u, hp, h₁⟩
          have hs₁ := h₁.within hs
          refine (harm _ hs₁).bind ?_
          rintro ⟨m, s₂⟩ ⟨v, hm, h₂⟩
          refine (harm _ (h₂.within hs₁)).bind ?_
          rintro ⟨r, s₃⟩ ⟨w, hr, h₃⟩
          refine .result ⟨.branch u v w, ?_, h₁.trans (h₂.trans h₃)⟩
          dsimp only at hp hm hr
          rw [BodyPhrase.read?, hp, hm, hr]
          rfl
    · -- Nothing, a label, or a body with or without one.
      intro s hs
      unfold parseArm
      refine (located_expect hts hs (by decide)).bind fun s₁ h₁ => ?_
      have hs₁ := h₁.within hs
      split
      · next hclose =>
        exact .result ⟨.empty, rfl, h₁.trans (passes_of_isAt hts hs₁ hclose (by decide))⟩
      · split
        · next hlabel =>
          exact .result ⟨.label s₁.next.text, rfl, h₁.trans (passes_of_isWordThen hlabel)⟩
        · split
          · next hcolon =>
            have h₂ := passes_of_isWordThen hcolon
            have hs₂ := h₂.within hs₁
            have hmem := next_mem_tokens hs₁ (isWordThen_iff.1 hcolon).1 (by decide)
            refine (located_defineLabel hmem).bind fun s₃ h₃ => ?_
            have hs₃ := h₃.within hs₂
            refine (hbody _ hs₃).bind ?_
            rintro ⟨b, s₄⟩ ⟨u, hb, h₄⟩
            refine (located_expect hts (h₄.within hs₃) (by decide)).bind fun s₅ h₅ => ?_
            refine .result ⟨.body (some s₁.next.text) u, ?_, ?_⟩
            · dsimp only at hb
              rw [ArmPhrase.read?, hb]
              rfl
            · have hpasses := h₁.trans ((h₂.trans h₃).trans (h₄.trans h₅))
              simpa [ArmPhrase.faces, ArmPhrase.labels, labelFaces] using hpasses
          · refine (hbody _ hs₁).bind ?_
            rintro ⟨b, s₂⟩ ⟨u, hb, h₂⟩
            refine (located_expect hts (h₂.within hs₁) (by decide)).bind fun s₃ h₃ => ?_
            refine .result ⟨.body none u, ?_, ?_⟩
            · dsimp only at hb
              rw [ArmPhrase.read?, hb]
              rfl
            · simpa [ArmPhrase.faces, ArmPhrase.labels] using h₁.trans (h₂.trans h₃)

/-- **Parsed definitions are read from a phrase** that derives all tokens ahead. -/
theorem located_parseDefinitions (registry : Registry) (hts : ts.Marked) {bound : Nat}
    (hs : s.Within ts) (hbound : s.ahead.length ≤ bound) :
    Located ts (fun x => ∃ source, ProgramPhrase.read? registry source = some x.1 ∧
      s.Passes source.faces source.labels x.2 ∧ x.2.ahead = [])
      (parseDefinitions registry bound s) := by
  have hend {s : ParseState} (hnil : s.ahead = []) : ∃ source,
      ProgramPhrase.read? registry source = some [] ∧ s.Passes source.faces source.labels s ∧
        s.ahead = [] :=
    ⟨[], rfl, ⟨rfl, List.suffix_refl _, rfl, rfl, id⟩, hnil⟩
  -- Each definition takes a token at least, so the bound is not met before the end.
  induction bound generalizing s with
  | zero => exact .result (hend (List.eq_nil_of_length_eq_zero (Nat.le_zero.1 hbound)))
  | succ bound ih =>
    unfold parseDefinitions
    split
    · next hnil => exact .result (hend hnil)
    · refine (located_expectKind hs (by decide)).bind ?_
      rintro ⟨label, s₁⟩ ⟨hlabel, -, h₁⟩
      have hs₁ := h₁.within hs
      dsimp only at hlabel h₁ hs₁ ⊢
      refine (located_expect hts hs₁ (by decide)).bind fun s₂ h₂ => ?_
      have hs₂ := h₂.within hs₁
      refine (located_defineLabel hlabel).bind fun s₃ h₃ => ?_
      have hs₃ := h₃.within hs₂
      refine ((located_parseBody_and_parseArm registry hts _).1 _ hs₃).bind ?_
      rintro ⟨b, s₄⟩ ⟨u, hb, h₄⟩
      have hs₄ := h₄.within hs₃
      have hpasses := ((h₁.trans h₂).trans h₃).trans h₄
      dsimp only at hb hpasses hs₄ ⊢
      have hlength : s₄.ahead.length ≤ bound := by
        have hahead := congrArg List.length hpasses.ahead
        simp only [List.length_map, List.length_append, List.length_cons] at hahead
        omega
      refine (ih hs₄ hlength).bind ?_
      rintro ⟨rest, s₅⟩ ⟨source, hrest, h₅, hnil⟩
      refine .result ⟨(label.text, u) :: source, ?_, ?_, hnil⟩
      · dsimp only at hrest
        rw [ProgramPhrase.read?, hb, hrest]
        rfl
      · simpa [ProgramPhrase.faces_cons, ProgramPhrase.labels_cons] using hpasses.trans h₅

/-- **A program of a token list is read from a phrase** that derives the list and defines no label
twice; otherwise there is a fault of the program at a token or the fault of a token. -/
theorem Program.located_ofTokens (registry : Registry) (hts : ts.Marked) :
    Located ts (fun program => ∃ source : ProgramPhrase, source ≠ [] ∧
      source.read? registry = some program ∧ source.faces = ts.tokens.map Token.face ∧
      source.labels.Nodup) (ofTokens registry ts) := by
  unfold ofTokens
  split
  · exact .program (List.mem_append_right _ List.mem_cons_self) _
  · next hne =>
    have hstart : ParseState.Within ⟨ts.tokens, ts.stop, []⟩ ts := ⟨List.Subset.refl _, rfl⟩
    refine (located_parseDefinitions registry hts hstart (Nat.le_refl _)).map ?_
    rintro ⟨program, s⟩ ⟨source, hread, hpasses, hnil⟩
    dsimp only at hread hpasses hnil
    have hfaces : ts.tokens.map Token.face = source.faces := by
      have hahead := hpasses.ahead
      rwa [hnil, List.map_nil, List.append_nil] at hahead
    refine ⟨source, ?_, hread, hfaces.symm, ?_⟩
    · rintro rfl
      exact hne (List.map_eq_nil_iff.1 hfaces)
    · have hnodup := hpasses.nodup List.nodup_nil
      rwa [hpasses.labels, List.append_nil, List.nodup_reverse] at hnodup

end RuleDiagram
