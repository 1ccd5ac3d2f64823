import RuleDiagram.Proofs.Source.Derivation

/-!
# What is derived is accepted

Where the tokens ahead are those of a phrase, a parse gives what the phrase stands for and leaves
the tokens that follow. Two tokens settle which alternative a body or an arm is: no other alternative
shows the same two, whatever words are used as names and labels. Together with the converse this
makes the parser a decision procedure for its grammar.

## Main definitions

* `ParseState.Shows`: the tokens ahead have given faces

## Main results

* `TermPhrase.exists_parse`, `PatternPhrase.exists_parse`, `BodyPhrase.exists_parse`,
  `ArmPhrase.exists_parse`: what a phrase stands for is parsed from its tokens
* `Program.ofTokens_of_phrase`: the program of a token list that a phrase derives
* `accepts_iff_derives`: the parser accepts exactly its grammar
-/

namespace RuleDiagram

variable {ts : TokenList} {s : ParseState} {f g : Face} {more : List Face} {labels : List String}
  {mark text : String} {kind : TokenKind} {t : Term} {u : TermPhrase} {b : BodyPhrase}
  {registry : Registry}

/-! ## The tokens ahead -/

/-- **The tokens ahead have given faces**, and the labels defined so far are given. -/
structure ParseState.Shows (s : ParseState) (faces : List Face) (labels : List String) : Prop where
  ahead : s.ahead.map Token.face = faces
  labels : s.labels = labels

namespace ParseState

theorem Shows.next (h : s.Shows (f :: more) labels) : s.next.kind = f.1 ∧ s.next.text = f.2 := by
  obtain ⟨t, ts, ht, rfl, -⟩ := List.map_eq_cons_iff.1 h.ahead
  simp [ParseState.next, ht, Token.face]

theorem Shows.second (h : s.Shows (f :: g :: more) labels) :
    s.second.kind = g.1 ∧ s.second.text = g.2 := by
  obtain ⟨t, ts, ht, -, hts⟩ := List.map_eq_cons_iff.1 h.ahead
  obtain ⟨u, us, rfl, rfl, -⟩ := List.map_eq_cons_iff.1 hts
  simp [ParseState.second, ht, Token.face]

theorem Shows.skip (h : s.Shows (f :: more) labels) : (s.skip 1).Shows more labels := by
  obtain ⟨t, ts, ht, -, hts⟩ := List.map_eq_cons_iff.1 h.ahead
  exact ⟨by simp [ParseState.skip, ht, hts], h.labels⟩

theorem Shows.isAt (h : s.Shows (f :: more) labels) :
    s.isAt mark = ((f.1 = .punctuation || f.1 = .arrow) && f.2 = mark) := by
  rw [ParseState.isAt, h.next.1, h.next.2]

theorem Shows.isAt_markFace (h : s.Shows (markFace mark :: more) labels) : s.isAt mark := by
  rw [h.isAt]
  simp [markFace]

theorem Shows.isAt_eq_false (h : s.Shows more labels)
    (hmark : ∀ f, more.head? = some f → f.2 ≠ mark) : s.isAt mark = false := by
  cases more with
  | nil =>
    have hnil := List.map_eq_nil_iff.1 h.ahead
    simp [ParseState.isAt, ParseState.next, hnil]
  | cons f more => simp [h.isAt, hmark f rfl]

theorem Shows.exists_expect (h : s.Shows (markFace mark :: more) labels) :
    ∃ s', s.expect mark = .ok s' ∧ s'.Shows more labels :=
  ⟨_, if_pos h.isAt_markFace, h.skip⟩

theorem Shows.exists_expectKind (h : s.Shows ((kind, text) :: more) labels) (what : String) :
    ∃ t s', expectKind kind what s = .ok (t, s') ∧ t.text = text ∧ s'.Shows more labels :=
  ⟨s.next, _, if_pos h.next.1, h.next.2, h.skip⟩

theorem Shows.skip_two (h : s.Shows (f :: g :: more) labels) : (s.skip 2).Shows more labels := by
  have hskip : (s.skip 1).skip 1 = s.skip 2 := by simp [ParseState.skip]
  exact hskip ▸ h.skip.skip

end ParseState

open ParseState

/-! ## Terms and patterns -/

theorem parseTerm_of_colon (h : s.Shows (markFace ":" :: more) labels) :
    parseTerm s = parseConstant (s.skip 1) := by
  have hkind : s.next.kind = .punctuation := h.next.1
  simp [parseTerm, hkind, h.isAt_markFace]

theorem parseTerm_of_percent (h : s.Shows (markFace "%" :: more) labels) :
    parseTerm s = parseRegister (s.skip 1) := by
  have hcolon : s.isAt ":" = false := h.isAt
  have hkind : s.next.kind = .punctuation := h.next.1
  simp [parseTerm, hkind, hcolon, h.isAt_markFace]

/-- A register is read. -/
theorem exists_parseRegister_reference {digits : String} {z : Int}
    (hunsigned : digits.toList.head? ≠ some '-') (hz : integerOf digits = .ok z)
    (h : s.Shows ((.int, digits) :: more) labels)
    (hmore : ∀ f, more.head? = some f → f.2 ≠ "<-") :
    ∃ s', parseRegister s = .ok (.reference z, s') ∧ s'.Shows more labels := by
  obtain ⟨register, s₁, hregister, rfl, h₁⟩ := h.exists_expectKind "a register number"
  have harrow : s₁.isAt "<-" = false := h₁.isAt_eq_false hmore
  refine ⟨s₁, Except.bind_eq_ok_iff.2 ⟨_, hregister, ?_⟩, h₁⟩
  dsimp only
  rw [if_neg hunsigned, harrow]
  exact Except.bind_eq_ok_iff.2 ⟨z, hz, rfl⟩

/-- A register with an arrow and a hole behind it is read. -/
theorem exists_parseRegister_free {digits : String} {z : Int}
    (hunsigned : digits.toList.head? ≠ some '-') (hz : integerOf digits = .ok z)
    (h : s.Shows ((.int, digits) :: (.arrow, "<-") :: (.word, "_") :: more) labels) :
    ∃ s', parseRegister s = .ok (.free z, s') ∧ s'.Shows more labels := by
  obtain ⟨register, s₁, hregister, rfl, h₁⟩ := h.exists_expectKind "a register number"
  have harrow : s₁.isAt "<-" := by
    rw [h₁.isAt]
    rfl
  obtain ⟨hole, s₂, hhole, htext, h₂⟩ := h₁.skip.exists_expectKind "'_'"
  refine ⟨s₂, Except.bind_eq_ok_iff.2 ⟨_, hregister, ?_⟩, h₂⟩
  dsimp only
  rw [if_neg hunsigned, if_pos harrow]
  refine Except.bind_eq_ok_iff.2 ⟨_, hhole, ?_⟩
  dsimp only
  rw [if_neg (not_not_intro htext)]
  exact Except.bind_eq_ok_iff.2 ⟨z, hz, rfl⟩

/-- **The term that a phrase stands for is parsed** from its tokens, unless an arrow follows. -/
theorem TermPhrase.exists_parse (hread : u.read? = some t)
    (h : s.Shows (u.faces ++ more) labels) (hmore : ∀ f, more.head? = some f → f.2 ≠ "<-") :
    ∃ s', parseTerm s = .ok (t, s') ∧ s'.Shows more labels := by
  cases u with
  | quote text =>
    obtain ⟨w, hw, rfl⟩ := Option.map_eq_some_iff.1 hread
    rw [Except.toOption_eq_some_iff] at hw
    obtain ⟨hkind, htext⟩ := h.next
    refine ⟨_, ?_, h.skip⟩
    simp [parseTerm, hkind, htext, hw]
  | truth b =>
    cases hread
    obtain ⟨hkind, htext⟩ := h.next
    refine ⟨_, ?_, h.skip⟩
    cases b <;> simp [parseTerm, hkind, htext]
  | int text =>
    obtain ⟨z, hz, rfl⟩ := Option.map_eq_some_iff.1 hread
    rw [Except.toOption_eq_some_iff] at hz
    obtain ⟨hkind, htext⟩ := h.skip.next
    refine ⟨_, ?_, h.skip.skip⟩
    rw [parseTerm_of_colon h, parseConstant]
    simp only [hkind, htext, hz]
    rfl
  | float text =>
    cases hread
    obtain ⟨hkind, htext⟩ := h.skip.next
    refine ⟨_, ?_, h.skip.skip⟩
    rw [parseTerm_of_colon h, parseConstant]
    simp only [hkind, htext]
  | word text =>
    cases hread
    obtain ⟨hkind, htext⟩ := h.skip.next
    refine ⟨_, ?_, h.skip.skip⟩
    rw [parseTerm_of_colon h, parseConstant]
    simp only [hkind, htext]
  | reference digits hunsigned =>
    obtain ⟨z, hz, rfl⟩ := Option.map_eq_some_iff.1 hread
    rw [Except.toOption_eq_some_iff] at hz
    rw [parseTerm_of_percent h]
    exact exists_parseRegister_reference hunsigned hz h.skip hmore
  | free digits hunsigned =>
    obtain ⟨z, hz, rfl⟩ := Option.map_eq_some_iff.1 hread
    rw [Except.toOption_eq_some_iff] at hz
    rw [parseTerm_of_percent h]
    exact exists_parseRegister_free hunsigned hz h.skip

/-- The terms of a list of phrases are parsed up to the bracket that closes them. -/
theorem TermPhrase.exists_parse_list {us : List TermPhrase} {terms : List Term} {bound : Nat}
    (hne : us ≠ []) (hread : us.mapM read? = some terms)
    (h : s.Shows (listFaces us ++ markFace ")" :: more) labels) (hbound : us.length ≤ bound + 1) :
    ∃ s', parseTerms bound s = .ok (terms, s') ∧ s'.Shows (markFace ")" :: more) labels := by
  -- Induction on the phrases: a comma follows each but the last, where the parser stops.
  induction us generalizing s bound terms with
  | nil => exact absurd rfl hne
  | cons u rest ih =>
    rw [List.mapM_cons] at hread
    obtain ⟨t, ht, hread⟩ := Option.bind_eq_some_iff.1 hread
    obtain ⟨ts, hrest, hterms⟩ := Option.bind_eq_some_iff.1 hread
    cases hterms
    cases rest with
    | nil =>
      cases hrest
      obtain ⟨s₁, hparse, h₁⟩ := u.exists_parse ht h (by rintro _ ⟨⟩; decide)
      have hcomma : s₁.isAt "," = false := h₁.isAt_eq_false (by rintro _ ⟨⟩; decide)
      refine ⟨s₁, ?_, h₁⟩
      cases bound with
      | zero => exact Except.bind_eq_ok_iff.2 ⟨_, hparse, rfl⟩
      | succ bound =>
        refine Except.bind_eq_ok_iff.2 ⟨_, hparse, ?_⟩
        dsimp only
        rw [hcomma]
        rfl
    | cons v rest =>
      rw [listFaces_cons_cons, List.append_assoc, List.cons_append] at h
      obtain ⟨s₁, hparse, h₁⟩ := u.exists_parse ht h (by rintro _ ⟨⟩; decide)
      obtain ⟨bound, rfl⟩ : ∃ b, bound = b + 1 :=
        Nat.exists_eq_succ_of_ne_zero (by rintro rfl; simp at hbound)
      obtain ⟨s₂, hparse', h₂⟩ := ih (List.cons_ne_nil v rest) hrest h₁.skip
        (Nat.le_of_succ_le_succ hbound)
      refine ⟨s₂, Except.bind_eq_ok_iff.2 ⟨_, hparse, ?_⟩, h₂⟩
      dsimp only
      rw [if_pos h₁.isAt_markFace]
      exact Except.bind_eq_ok_iff.2 ⟨_, hparse', rfl⟩

/-- A term begins with no closing bracket. -/
theorem TermPhrase.isAt_bracket (h : s.Shows (u.faces ++ more) labels) : s.isAt ")" = false := by
  cases u <;> exact h.isAt.trans rfl

theorem TermPhrase.isAt_bracket_of_list {us : List TermPhrase}
    (h : s.Shows (listFaces (u :: us) ++ more) labels) : s.isAt ")" = false := by
  cases us with
  | nil => exact isAt_bracket h
  | cons v us =>
    rw [listFaces_cons_cons, List.append_assoc] at h
    exact isAt_bracket h

theorem TermPhrase.length_le_length_listFaces (us : List TermPhrase) :
    us.length ≤ (listFaces us).length := by
  have hpos (u : TermPhrase) : 0 < u.faces.length := by
    cases u <;> exact Nat.succ_pos _
  induction us with
  | nil => exact Nat.le_refl _
  | cons u rest ih =>
    have hu := hpos u
    cases rest with
    | nil => exact hu
    | cons v rest =>
      simp only [listFaces_cons_cons, List.length_append, List.length_cons] at ih ⊢
      omega

/-- **The pattern that a phrase stands for is parsed** from its tokens. -/
theorem PatternPhrase.exists_parse {p : PatternPhrase} {pattern : Pattern}
    (hread : p.read? registry = some pattern) (h : s.Shows (p.faces ++ more) labels) :
    ∃ s', parsePattern registry s = .ok (pattern, s') ∧ s'.Shows more labels := by
  obtain ⟨q, hq, hread⟩ := Option.bind_eq_some_iff.1 hread
  obtain ⟨terms, hterms, hpattern⟩ := Option.bind_eq_some_iff.1 hread
  cases hpattern
  obtain ⟨name, us⟩ := p
  rw [faces, List.cons_append, List.cons_append, List.append_assoc] at h
  obtain ⟨t, s₁, hname, rfl, h₁⟩ := h.exists_expectKind "a predicate name"
  obtain ⟨s₂, hopen, h₂⟩ := h₁.exists_expect
  have hstart {x : Pattern × ParseState} (hx : (if s₂.isAt ")" then .ok (⟨some q, []⟩, s₂.skip 1)
      else parseTerms s₂.ahead.length s₂ >>= fun read => read.2.expect ")" >>= fun s =>
        .ok (⟨some q, read.1⟩, s)) = Except.ok x) : parsePattern registry s = .ok x := by
    refine Except.bind_eq_ok_iff.2 ⟨_, hname, ?_⟩
    dsimp only at hq ⊢
    rw [hq]
    exact Except.bind_eq_ok_iff.2 ⟨_, hopen, hx⟩
  cases us with
  | nil =>
    cases hterms
    exact ⟨_, hstart (if_pos h₂.isAt_markFace), h₂.skip⟩
  | cons u rest =>
    have hclose : s₂.isAt ")" = false := TermPhrase.isAt_bracket_of_list h₂
    have hbound : (u :: rest).length ≤ s₂.ahead.length + 1 := by
      have hfaces := congrArg List.length h₂.ahead
      have hlength := TermPhrase.length_le_length_listFaces (u :: rest)
      simp only [List.length_map, List.length_append] at hfaces
      omega
    obtain ⟨s₃, hparse, h₃⟩ :=
      TermPhrase.exists_parse_list (List.cons_ne_nil u rest) hterms h₂ hbound
    obtain ⟨s₄, hexpect, h₄⟩ := h₃.exists_expect
    refine ⟨s₄, hstart ?_, h₄⟩
    rw [hclose]
    exact Except.bind_eq_ok_iff.2 ⟨_, hparse, Except.bind_eq_ok_iff.2 ⟨_, hexpect, rfl⟩⟩

/-! ## Bodies and programs -/

/-- A body is neither a closing brace nor a word that one or a colon follows. -/
theorem BodyPhrase.not_label (h : s.Shows (b.faces ++ more) labels) :
    s.isAt "\x7d" = false ∧ s.isWordThen "\x7d" = false ∧ s.isWordThen ":" = false := by
  obtain ⟨rest, hfaces⟩ | ⟨name, g, rest, hfaces, hg⟩ := b.faces_cases
  · rw [hfaces] at h
    refine ⟨h.isAt, ?_, ?_⟩
    all_goals
      rw [isWordThen, h.next.1]
      rfl
  · rw [hfaces] at h
    refine ⟨h.isAt, ?_, ?_⟩
    all_goals
      rw [isWordThen, h.next.1, h.second.1, h.second.2]
      obtain hg | rfl := hg
      · rw [hg]
        rfl
      · rfl

theorem exists_defineLabel {t : Token} {name : String} (ht : t.text = name)
    (hs : s.Shows more labels) (hname : name ∉ labels) :
    ∃ s', defineLabel t s = .ok s' ∧ s'.Shows more (name :: labels) := by
  subst ht
  refine ⟨{ s with labels := t.text :: s.labels }, ?_, hs.ahead, ?_⟩
  · rw [defineLabel, if_neg (hs.labels ▸ hname)]
  · exact congrArg (t.text :: ·) hs.labels

theorem BodyPhrase.length_faces_pos (b : BodyPhrase) : 0 < b.faces.length := by
  obtain ⟨rest, hfaces⟩ | ⟨name, g, rest, hfaces, -⟩ := b.faces_cases
  all_goals
    rw [hfaces]
    exact Nat.succ_pos _

theorem ArmPhrase.length_faces_pos (a : ArmPhrase) : 0 < a.faces.length := by
  cases a with
  | empty => rw [faces]; exact Nat.succ_pos _
  | label name => rw [faces]; exact Nat.succ_pos _
  | body name b => cases name <;> rw [faces] <;> exact Nat.succ_pos _

mutual

/-- **The body that a phrase stands for is parsed** from its tokens, if none of its labels is
defined twice. -/
theorem BodyPhrase.exists_parse {s : ParseState} {more : List Face} {labels : List String}
    {body : Body} (b : BodyPhrase) (bound : Nat)
    (hread : b.read? registry = some body) (h : s.Shows (b.faces ++ more) labels)
    (hlabels : (b.labels.reverse ++ labels).Nodup) (hbound : b.faces.length ≤ bound) :
    ∃ s', parseBody registry bound s = .ok (body, s') ∧
      s'.Shows more (b.labels.reverse ++ labels) := by
  obtain ⟨bound, rfl⟩ : ∃ k, bound = k + 1 :=
    Nat.exists_eq_succ_of_ne_zero (Nat.ne_of_gt (Nat.lt_of_lt_of_le b.length_faces_pos hbound))
  cases b with
  | passThrough m r =>
    rw [BodyPhrase.read?] at hread
    obtain ⟨onMatch, hm, hread⟩ := Option.bind_eq_some_iff.1 hread
    obtain ⟨onRefute, hr, hbody⟩ := Option.bind_eq_some_iff.1 hread
    cases hbody
    rw [BodyPhrase.faces] at h hbound
    rw [List.cons_append, List.append_assoc] at h
    rw [List.length_cons, List.length_append] at hbound
    rw [BodyPhrase.labels, List.reverse_append, List.append_assoc] at hlabels ⊢
    obtain ⟨s₁, hmatch, h₁⟩ := m.exists_parse bound hm h.skip hlabels.of_append_right (by omega)
    obtain ⟨s₂, hrefute, h₂⟩ := r.exists_parse bound hr h₁ hlabels (by omega)
    refine ⟨s₂, ?_, h₂⟩
    rw [parseBody, if_pos h.isAt_markFace]
    exact Except.bind_eq_ok_iff.2 ⟨_, hmatch, Except.bind_eq_ok_iff.2 ⟨_, hrefute, rfl⟩⟩
  | leaf p =>
    rw [BodyPhrase.read?] at hread
    obtain ⟨pattern, hp, hbody⟩ := Option.bind_eq_some_iff.1 hread
    cases hbody
    rw [BodyPhrase.faces] at h
    have hstar : s.isAt "*" = false := h.isAt
    have houtput : s.next.kind = .word ∧ s.next.text = "output" ∧ s.second.kind = .word :=
      ⟨h.next.1, h.next.2, h.second.1⟩
    obtain ⟨s₁, hpattern, h₁⟩ := p.exists_parse hp h.skip
    refine ⟨s₁, ?_, h₁⟩
    rw [parseBody, hstar, if_neg Bool.false_ne_true, if_pos houtput]
    exact Except.bind_eq_ok_iff.2 ⟨_, hpattern, rfl⟩
  | branch p m r =>
    rw [BodyPhrase.read?] at hread
    obtain ⟨pattern, hp, hread⟩ := Option.bind_eq_some_iff.1 hread
    obtain ⟨onMatch, hm, hread⟩ := Option.bind_eq_some_iff.1 hread
    obtain ⟨onRefute, hr, hbody⟩ := Option.bind_eq_some_iff.1 hread
    cases hbody
    rw [BodyPhrase.faces] at h hbound
    rw [List.append_assoc, List.append_assoc] at h
    have hpos : 0 < p.faces.length := Nat.succ_pos _
    rw [List.length_append, List.length_append] at hbound
    rw [BodyPhrase.labels, List.reverse_append, List.append_assoc] at hlabels ⊢
    -- A bracket follows the name of the predicate, so this is no leaf.
    have hstar : s.isAt "*" = false := h.isAt
    have houtput : ¬ (s.next.kind = .word ∧ s.next.text = "output" ∧ s.second.kind = .word) := by
      rintro ⟨-, -, hsecond⟩
      cases h.second.1.symm.trans hsecond
    obtain ⟨s₁, hpattern, h₁⟩ := p.exists_parse hp h
    obtain ⟨s₂, hmatch, h₂⟩ := m.exists_parse bound hm h₁ hlabels.of_append_right (by omega)
    obtain ⟨s₃, hrefute, h₃⟩ := r.exists_parse bound hr h₂ hlabels (by omega)
    refine ⟨s₃, ?_, h₃⟩
    rw [parseBody, hstar, if_neg Bool.false_ne_true, if_neg houtput]
    exact Except.bind_eq_ok_iff.2 ⟨_, hpattern, Except.bind_eq_ok_iff.2 ⟨_, hmatch,
      Except.bind_eq_ok_iff.2 ⟨_, hrefute, rfl⟩⟩⟩

/-- **The arm that a phrase stands for is parsed** from its tokens, if none of its labels is
defined twice. -/
theorem ArmPhrase.exists_parse {s : ParseState} {more : List Face} {labels : List String}
    {arm : Arm} (a : ArmPhrase) (bound : Nat)
    (hread : a.read? registry = some arm) (h : s.Shows (a.faces ++ more) labels)
    (hlabels : (a.labels.reverse ++ labels).Nodup) (hbound : a.faces.length ≤ bound) :
    ∃ s', parseArm registry bound s = .ok (arm, s') ∧
      s'.Shows more (a.labels.reverse ++ labels) := by
  obtain ⟨bound, rfl⟩ : ∃ k, bound = k + 1 :=
    Nat.exists_eq_succ_of_ne_zero (Nat.ne_of_gt (Nat.lt_of_lt_of_le a.length_faces_pos hbound))
  cases a with
  | empty =>
    rw [ArmPhrase.read?] at hread
    cases hread
    rw [ArmPhrase.faces] at h
    obtain ⟨s₁, hopen, h₁⟩ := h.exists_expect
    refine ⟨_, Except.bind_eq_ok_iff.2 ⟨_, hopen, if_pos h₁.isAt_markFace⟩, ?_⟩
    rw [ArmPhrase.labels]
    exact h₁.skip
  | label name =>
    rw [ArmPhrase.read?] at hread
    cases hread
    rw [ArmPhrase.faces] at h
    obtain ⟨s₁, hopen, h₁⟩ := h.exists_expect
    have hclose : s₁.isAt "\x7d" = false := h₁.isAt
    have hword : s₁.isWordThen "\x7d" := isWordThen_iff.2 ⟨h₁.next.1, h₁.second⟩
    refine ⟨s₁.skip 2, Except.bind_eq_ok_iff.2 ⟨_, hopen, ?_⟩, ?_⟩
    · rw [hclose, if_neg Bool.false_ne_true, if_pos hword, h₁.next.2]
      rfl
    · rw [ArmPhrase.labels]
      exact h₁.skip_two
  | body name b =>
    rw [ArmPhrase.read?] at hread
    obtain ⟨body, hb, harm⟩ := Option.bind_eq_some_iff.1 hread
    cases harm
    cases name with
    | none =>
      rw [ArmPhrase.faces, List.cons_append, List.append_assoc] at h
      rw [ArmPhrase.faces, List.length_cons, List.length_append] at hbound
      rw [ArmPhrase.labels] at hlabels ⊢
      obtain ⟨s₁, hopen, h₁⟩ := h.exists_expect
      obtain ⟨hclose, hlabel, hcolon⟩ := BodyPhrase.not_label h₁
      obtain ⟨s₂, hbody, h₂⟩ := b.exists_parse bound hb h₁ hlabels (by omega)
      obtain ⟨s₃, hexpect, h₃⟩ := h₂.exists_expect
      refine ⟨s₃, Except.bind_eq_ok_iff.2 ⟨_, hopen, ?_⟩, h₃⟩
      rw [hclose, hlabel, hcolon]
      exact Except.bind_eq_ok_iff.2 ⟨(body, s₂), hbody, Except.bind_eq_ok_iff.2 ⟨s₃, hexpect, rfl⟩⟩
    | some name => 
      rw [ArmPhrase.faces, labelFaces, List.cons_append, List.append_assoc, List.append_assoc] at h
      rw [ArmPhrase.faces, List.length_cons, List.length_append, List.length_append] at hbound
      rw [ArmPhrase.labels, Option.toList_some, List.reverse_append, List.append_assoc] at hlabels ⊢
      obtain ⟨s₁, hopen, h₁⟩ := h.exists_expect
      have hclose : s₁.isAt "\x7d" = false := h₁.isAt
      have hlabel : s₁.isWordThen "\x7d" = false := by
        rw [isWordThen, h₁.next.1, h₁.second.1, h₁.second.2]
        rfl
      have hcolon : s₁.isWordThen ":" := isWordThen_iff.2 ⟨h₁.next.1, h₁.second⟩
      have hfresh : name ∉ labels := (List.nodup_cons.1 hlabels.of_append_right).1
      obtain ⟨s₂, hdefine, h₂⟩ := exists_defineLabel h₁.next.2 h₁.skip_two hfresh
      obtain ⟨s₃, hbody, h₃⟩ := b.exists_parse bound hb h₂ hlabels (by omega)
      obtain ⟨s₄, hexpect, h₄⟩ := h₃.exists_expect
      refine ⟨s₄, Except.bind_eq_ok_iff.2 ⟨_, hopen, ?_⟩, h₄⟩
      rw [hclose, hlabel, if_neg Bool.false_ne_true, if_neg Bool.false_ne_true, if_pos hcolon]
      refine Except.bind_eq_ok_iff.2 ⟨s₂, hdefine, Except.bind_eq_ok_iff.2 ⟨(body, s₃), hbody,
        Except.bind_eq_ok_iff.2 ⟨s₄, hexpect, ?_⟩⟩⟩
      rw [h₁.next.2]
      rfl

end

/-- **The program that a phrase stands for is parsed** from its tokens, if none of its labels is
defined twice. -/
theorem ProgramPhrase.exists_parse {source : ProgramPhrase} {program : Program} {bound : Nat}
    (hread : ProgramPhrase.read? registry source = some program)
    (h : s.Shows source.faces labels) (hlabels : (source.labels.reverse ++ labels).Nodup)
    (hbound : source.length ≤ bound) :
    ∃ s', parseDefinitions registry bound s = .ok (program, s') := by
  -- Induction on the definitions; the labels of those that are read already may not come again.
  induction source generalizing s labels bound program with
  | nil =>
    cases hread
    have hnil : s.ahead = [] := List.map_eq_nil_iff.1 h.ahead
    refine ⟨s, ?_⟩
    cases bound with
    | zero => rfl
    | succ bound => exact if_pos hnil
  | cons definition rest ih =>
    obtain ⟨name, b⟩ := definition
    obtain ⟨bound, rfl⟩ : ∃ k, bound = k + 1 :=
      Nat.exists_eq_succ_of_ne_zero (by rintro rfl; simp at hbound)
    rw [ProgramPhrase.read?] at hread
    obtain ⟨body, hb, hread⟩ := Option.bind_eq_some_iff.1 hread
    obtain ⟨others, hrest, hprogram⟩ := Option.bind_eq_some_iff.1 hread
    cases hprogram
    have hne : s.ahead ≠ [] := by
      intro hnil
      have hahead := h.ahead
      rw [hnil] at hahead
      cases hahead
    rw [faces_cons] at h
    rw [labels_cons, List.reverse_cons, List.reverse_append, List.append_assoc,
      List.append_assoc] at hlabels
    have hfresh : name ∉ labels :=
      (List.nodup_cons.1 hlabels.of_append_right.of_append_right).1
    obtain ⟨label, s₁, hlabel, htext, h₁⟩ := h.exists_expectKind "a node label"
    obtain ⟨s₂, hcolon, h₂⟩ := h₁.exists_expect
    obtain ⟨s₃, hdefine, h₃⟩ := exists_defineLabel htext h₂ hfresh
    have hlength : b.faces.length ≤ s₃.ahead.length + 1 := by
      have hahead := congrArg List.length h₃.ahead
      simp only [List.length_map, List.length_append] at hahead
      omega
    obtain ⟨s₄, hbody, h₄⟩ := b.exists_parse _ hb h₃ hlabels.of_append_right hlength
    obtain ⟨s₅, hdefinitions⟩ := ih hrest h₄ hlabels (Nat.le_of_succ_le_succ hbound)
    refine ⟨s₅, ?_⟩
    rw [parseDefinitions, if_neg hne]
    refine Except.bind_eq_ok_iff.2 ⟨_, hlabel, Except.bind_eq_ok_iff.2 ⟨s₂, hcolon,
      Except.bind_eq_ok_iff.2 ⟨s₃, hdefine, Except.bind_eq_ok_iff.2 ⟨(body, s₄), hbody,
        Except.bind_eq_ok_iff.2 ⟨(others, s₅), hdefinitions, ?_⟩⟩⟩⟩⟩
    rw [htext]
    rfl

theorem ProgramPhrase.length_le_length_faces (source : ProgramPhrase) :
    source.length ≤ (ProgramPhrase.faces source).length := by
  induction source with
  | nil => exact Nat.le_refl _
  | cons definition rest ih =>
    rw [faces_cons, List.length_cons, List.length_cons, List.length_cons, List.length_append]
    omega

/-- **The program that a phrase stands for is the program of its tokens**, if the phrase has a
definition and defines no label twice. -/
theorem Program.ofTokens_of_phrase {source : ProgramPhrase} {program : Program} (hne : source ≠ [])
    (hread : source.read? registry = some program)
    (hfaces : ts.tokens.map Token.face = source.faces) (hlabels : source.labels.Nodup) :
    ofTokens registry ts = .ok program := by
  have hbound : source.length ≤ ts.tokens.length := by
    rw [← List.length_map Token.face, hfaces]
    exact source.length_le_length_faces
  have hpos : 0 < source.length := List.length_pos_iff.2 hne
  have hshows : ParseState.Shows ⟨ts.tokens, ts.stop, []⟩ source.faces [] := ⟨hfaces, rfl⟩
  have hnodup : (source.labels.reverse ++ []).Nodup := by
    rwa [List.append_nil, List.nodup_reverse]
  obtain ⟨s, hs⟩ := ProgramPhrase.exists_parse hread hshows hnodup hbound
  rw [ofTokens, if_neg (List.length_pos_iff.1 (Nat.lt_of_lt_of_le hpos hbound)), hs]
  rfl

/-! ## The language of the parser -/

/-- **A phrase is admissible**: it has a definition, names registered predicates, and defines no
label twice. -/
structure ProgramPhrase.Admissible (registry : Registry) (source : ProgramPhrase) : Prop where
  ne_nil : source ≠ []
  names : Registered registry source.names
  labels : source.labels.Nodup

/-- **The parser accepts exactly its grammar.** Where no token of a text is at fault, the text is
read as a program, which is then built, just if its tokens are those of an admissible phrase;
otherwise it is rejected with a fault of the program at one of its tokens or at its end. -/
theorem accepts_iff_derives {text : String} (htokens : tokenize text = .ok ts)
    (hdecode : ∀ t ∈ ts.tokens, t.fault? = none) :
    ((∃ program, Program.ofTokens registry ts = .ok program) ↔
      ∃ source : ProgramPhrase, source.Admissible registry ∧
        source.faces = ts.tokens.map Token.face) ∧
    (∀ program, Program.ofTokens registry ts = .ok program →
      parse registry text = (program.builder registry).build.mapError .builder) ∧
    ((∀ program, Program.ofTokens registry ts ≠ .ok program) →
      ∃ f, parse registry text = .error (.program f) ∧
        ∃ t ∈ ts.tokens ++ [ts.stopToken], f.position = t.position) := by
  have hlocated := Program.located_ofTokens registry (marked_of_tokenize htokens)
  have hparse : parse registry text = Program.ofTokens registry ts >>= fun program =>
      (program.builder registry).build.mapError .builder := by
    rw [parse, htokens]
    rfl
  refine ⟨⟨?_, ?_⟩, ?_, ?_⟩
  · rintro ⟨program, hprogram⟩
    obtain ⟨source, hne, hread, hfaces, hlabels⟩ := hlocated.of_eq_ok hprogram
    have hsource : Decodes source.faces := hfaces ▸ decodes_of_forall hdecode
    have hnames := (ProgramPhrase.exists_read?_iff hsource).1 ⟨program, hread⟩
    exact ⟨source, ⟨hne, hnames, hlabels⟩, hfaces⟩
  · rintro ⟨source, hadmissible, hfaces⟩
    have hsource : Decodes source.faces := hfaces ▸ decodes_of_forall hdecode
    obtain ⟨program, hread⟩ := (ProgramPhrase.exists_read?_iff hsource).2 hadmissible.names
    exact ⟨program, Program.ofTokens_of_phrase hadmissible.ne_nil hread hfaces.symm
      hadmissible.labels⟩
  · intro program hprogram
    rw [hparse, hprogram]
    rfl
  · intro hnone
    cases h : Program.ofTokens registry ts with
    | ok program => exact absurd h (hnone program)
    | error f =>
      rw [h] at hlocated
      rw [hparse, h]
      -- No token is at fault, so the fault is one of the program.
      cases hlocated with
      | @program t ht cause => exact ⟨⟨cause, t.position⟩, rfl, t, ht, rfl⟩
      | @token t _ ht hf =>
        rw [hdecode t ht] at hf
        cases hf

namespace Unreserved

def vocabulary : Registry := ⟨[⟨"output", 1⟩], by decide⟩

/-- Words of the language as labels, as names of predicates and as constants. -/
def source : String := "true: output(:output) \x7bfalse: output output(true)\x7d \x7btrue\x7d"

/-- The tokens of the source are those of an admissible phrase. -/
theorem derives_source : ∃ ts, tokenize source = .ok ts ∧ (∀ t ∈ ts.tokens, t.fault? = none) ∧
    ∃ phrase : ProgramPhrase, phrase.Admissible vocabulary ∧
      phrase.faces = ts.tokens.map Token.face := by
  have htokens : (tokenize source).toOption.any fun ts =>
      decide (∀ t ∈ ts.tokens, t.fault? = none) &&
        (Program.ofTokens vocabulary ts).toOption.isSome := by
    decide +kernel
  obtain ⟨ts, hts, h⟩ := Except.exists_of_any_toOption htokens
  rw [Bool.and_eq_true, decide_eq_true_eq, Option.isSome_iff_exists] at h
  obtain ⟨hdecode, program, hprogram⟩ := h
  exact ⟨ts, hts, hdecode, (accepts_iff_derives hts hdecode).1.1
    ⟨program, Except.toOption_eq_some_iff.1 hprogram⟩⟩

end Unreserved

end RuleDiagram
