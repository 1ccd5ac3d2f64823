import RuleDiagram.Proofs.Source.Phrase

/-!
# The grammar is unambiguous

No two phrases derive the same tokens. The tokens of a phrase settle it together with where it ends,
whatever follows it; only behind a term this takes that no arrow follows, which the brackets and
commas around terms ensure.

## Main results

* `BodyPhrase.eq_of_faces_append`, `ArmPhrase.eq_of_faces_append`: bodies and arms with anything
  behind them
* `ProgramPhrase.eq_of_faces`: the phrase of a token list
-/

namespace RuleDiagram

variable {more more' : List Face}

theorem TermPhrase.eq_of_faces_append {u u' : TermPhrase} (h : u.faces ++ more = u'.faces ++ more')
    (hmore : ∀ f, more.head? = some f → f.1 ≠ .arrow)
    (hmore' : ∀ f, more'.head? = some f → f.1 ≠ .arrow) : u = u' ∧ more = more' := by
  -- Terms of different kinds differ in the first two tokens, unless one of them is a free term.
  cases u with
  | truth b =>
    cases u' with
    | truth b' => cases b <;> cases b' <;> simp_all [faces]
    | _ => simp [faces, markFace] at h
  | reference digits hdigits =>
    cases u' with
    | free digits' hdigits' =>
      simp only [faces, List.cons_append, List.nil_append, List.cons.injEq] at h
      exact absurd rfl (hmore (.arrow, "<-") (by rw [h.2.2]; rfl))
    | _ => simp_all [faces, markFace]
  | free digits hdigits =>
    cases u' with
    | reference digits' hdigits' =>
      simp only [faces, List.cons_append, List.nil_append, List.cons.injEq] at h
      exact absurd rfl (hmore' (.arrow, "<-") (by rw [← h.2.2]; rfl))
    | _ => simp_all [faces, markFace]
  | _ => cases u' <;> simp_all [faces, markFace]

/-- What follows the first of some terms: a comma and the others, or the closing bracket. -/
theorem TermPhrase.exists_listFaces_append (u : TermPhrase) (us : List TermPhrase)
    (more : List Face) : ∃ mark rest, listFaces (u :: us) ++ markFace ")" :: more =
      u.faces ++ markFace mark :: rest ∧ (us = [] ∧ mark = ")" ∧ rest = more ∨
        us ≠ [] ∧ mark = "," ∧ rest = listFaces us ++ markFace ")" :: more) := by
  cases us with
  | nil => exact ⟨")", more, rfl, .inl ⟨rfl, rfl, rfl⟩⟩
  | cons v us =>
    refine ⟨",", _, ?_, .inr ⟨List.cons_ne_nil v us, rfl, rfl⟩⟩
    rw [listFaces_cons_cons, List.append_assoc, List.cons_append]

theorem TermPhrase.eq_of_listFaces_append {us us' : List TermPhrase}
    (h : listFaces us ++ markFace ")" :: more = listFaces us' ++ markFace ")" :: more') :
    us = us' ∧ more = more' := by
  have hclose (u : TermPhrase) (us : List TermPhrase) (more more' : List Face) :
      markFace ")" :: more ≠ listFaces (u :: us) ++ markFace ")" :: more' := by
    intro h
    obtain ⟨mark, rest, hfaces, -⟩ := u.exists_listFaces_append us more'
    rw [hfaces] at h
    cases u <;> simp [faces, markFace] at h
  induction us generalizing us' with
  | nil =>
    cases us' with
    | nil => exact ⟨rfl, (List.cons.inj h).2⟩
    | cons u' us' => exact absurd h (hclose u' us' more more')
  | cons u us ih =>
    cases us' with
    | nil => exact absurd h.symm (hclose u us more' more)
    | cons u' us' =>
      obtain ⟨mark, rest, hfaces, hrest⟩ := u.exists_listFaces_append us more
      obtain ⟨mark', rest', hfaces', hrest'⟩ := u'.exists_listFaces_append us' more'
      rw [hfaces, hfaces'] at h
      obtain ⟨rfl, hmarks⟩ := eq_of_faces_append h (by rintro _ ⟨⟩; simp [markFace])
        (by rintro _ ⟨⟩; simp [markFace])
      obtain ⟨hmark, rfl⟩ := List.cons.inj hmarks
      obtain rfl : mark = mark' := (Prod.mk.inj hmark).2
      obtain ⟨rfl, rfl, rfl⟩ | ⟨-, rfl, hothers⟩ := hrest
      · obtain ⟨rfl, -, rfl⟩ | ⟨-, hcomma, -⟩ := hrest'
        · exact ⟨rfl, rfl⟩
        · exact absurd hcomma (by decide)
      · obtain ⟨-, hcomma, -⟩ | ⟨-, -, hothers'⟩ := hrest'
        · exact absurd hcomma (by decide)
        · obtain ⟨rfl, rfl⟩ := ih (hothers.symm.trans hothers')
          exact ⟨rfl, rfl⟩

theorem PatternPhrase.eq_of_faces_append {p p' : PatternPhrase}
    (h : p.faces ++ more = p'.faces ++ more') : p = p' ∧ more = more' := by
  obtain ⟨name, us⟩ := p
  obtain ⟨name', us'⟩ := p'
  simp only [faces, List.cons_append, List.append_assoc, List.nil_append] at h
  obtain ⟨hname, h⟩ := List.cons.inj h
  obtain ⟨-, h⟩ := List.cons.inj h
  obtain ⟨rfl, rfl⟩ := TermPhrase.eq_of_listFaces_append h
  obtain rfl : name = name' := (Prod.mk.inj hname).2
  exact ⟨rfl, rfl⟩

/-- A body begins neither with a closing brace nor with a word that one or a colon follows. -/
theorem BodyPhrase.faces_append_ne (b : BodyPhrase) (more more' : List Face) (name : String) :
    b.faces ++ more ≠ markFace "\x7d" :: more' ∧
      b.faces ++ more ≠ (.word, name) :: markFace "\x7d" :: more' ∧
      b.faces ++ more ≠ (.word, name) :: markFace ":" :: more' := by
  obtain ⟨rest, hfaces⟩ | ⟨word, g, rest, hfaces, hg | rfl⟩ := b.faces_cases
  · simp [hfaces, markFace]
  · rw [hfaces]
    refine ⟨by simp [markFace], ?_, ?_⟩
    all_goals
      intro h
      obtain ⟨-, h⟩ := List.cons.inj h
      rw [(List.cons.inj h).1] at hg
      cases hg
  · simp [hfaces, markFace]

mutual

/-- **The tokens of a body settle the body**, whatever follows them. -/
theorem BodyPhrase.eq_of_faces_append {more more' : List Face} (b b' : BodyPhrase)
    (h : b.faces ++ more = b'.faces ++ more') : b = b' ∧ more = more' := by
  cases b with
  | passThrough m r =>
    cases b' with
    | passThrough m' r' =>
      rw [BodyPhrase.faces, BodyPhrase.faces, List.cons_append, List.cons_append,
        List.append_assoc, List.append_assoc] at h
      obtain ⟨rfl, hrefute⟩ := m.eq_of_faces_append m' (List.cons.inj h).2
      obtain ⟨rfl, rfl⟩ := r.eq_of_faces_append r' hrefute
      exact ⟨rfl, rfl⟩
    | leaf p' => simp [BodyPhrase.faces, markFace] at h
    | branch p' m' r' => simp [BodyPhrase.faces, PatternPhrase.faces, markFace] at h
  | leaf p =>
    cases b' with
    | passThrough m' r' => simp [BodyPhrase.faces, markFace] at h
    | leaf p' =>
      rw [BodyPhrase.faces, BodyPhrase.faces] at h
      obtain ⟨rfl, rfl⟩ := PatternPhrase.eq_of_faces_append (List.cons.inj h).2
      exact ⟨rfl, rfl⟩
    | branch p' m' r' => simp [BodyPhrase.faces, PatternPhrase.faces, markFace] at h
  | branch p m r =>
    cases b' with
    | passThrough m' r' => simp [BodyPhrase.faces, PatternPhrase.faces, markFace] at h
    | leaf p' => simp [BodyPhrase.faces, PatternPhrase.faces, markFace] at h
    | branch p' m' r' =>
      rw [BodyPhrase.faces, BodyPhrase.faces] at h
      simp only [List.append_assoc] at h
      obtain ⟨rfl, hmatch⟩ := PatternPhrase.eq_of_faces_append h
      obtain ⟨rfl, hrefute⟩ := m.eq_of_faces_append m' hmatch
      obtain ⟨rfl, rfl⟩ := r.eq_of_faces_append r' hrefute
      exact ⟨rfl, rfl⟩

/-- **The tokens of an arm settle the arm**, whatever follows them. -/
theorem ArmPhrase.eq_of_faces_append {more more' : List Face} (a a' : ArmPhrase)
    (h : a.faces ++ more = a'.faces ++ more') : a = a' ∧ more = more' := by
  -- What follows the opening brace tells the alternatives apart.
  cases a with
  | empty =>
    cases a' with
    | empty =>
      simp only [ArmPhrase.faces, List.cons_append, List.nil_append, List.cons.injEq] at h
      exact ⟨rfl, h.2.2⟩
    | label name' => simp [ArmPhrase.faces, markFace] at h
    | body name' b' =>
      cases name' with
      | none =>
        simp only [ArmPhrase.faces, List.cons_append, List.nil_append, List.append_assoc,
          List.cons.injEq] at h
        exact absurd h.2.symm (b'.faces_append_ne _ _ "").1
      | some name' => simp [ArmPhrase.faces, labelFaces, markFace] at h
  | label name =>
    cases a' with
    | empty => simp [ArmPhrase.faces, markFace] at h
    | label name' =>
      simp only [ArmPhrase.faces, List.cons_append, List.nil_append, List.cons.injEq,
        Prod.mk.injEq] at h
      obtain ⟨-, ⟨-, rfl⟩, -, rfl⟩ := h
      exact ⟨rfl, rfl⟩
    | body name' b' =>
      cases name' with
      | none =>
        simp only [ArmPhrase.faces, List.cons_append, List.nil_append, List.append_assoc,
          List.cons.injEq] at h
        exact absurd h.2.symm (b'.faces_append_ne _ _ name).2.1
      | some name' => simp [ArmPhrase.faces, labelFaces, markFace] at h
  | body name b =>
    cases a' with
    | empty =>
      cases name with
      | none =>
        simp only [ArmPhrase.faces, List.cons_append, List.nil_append, List.append_assoc,
          List.cons.injEq] at h
        exact absurd h.2 (b.faces_append_ne _ _ "").1
      | some name => simp [ArmPhrase.faces, labelFaces, markFace] at h
    | label name' =>
      cases name with
      | none =>
        simp only [ArmPhrase.faces, List.cons_append, List.nil_append, List.append_assoc,
          List.cons.injEq] at h
        exact absurd h.2 (b.faces_append_ne _ _ name').2.1
      | some name => simp [ArmPhrase.faces, labelFaces, markFace] at h
    | body name' b' =>
      cases name with
      | none =>
        cases name' with
        | none =>
          simp only [ArmPhrase.faces, List.cons_append, List.nil_append, List.append_assoc,
            List.cons.injEq] at h
          obtain ⟨rfl, hclose⟩ := b.eq_of_faces_append b' h.2
          exact ⟨rfl, (List.cons.inj hclose).2⟩
        | some name' =>
          simp only [ArmPhrase.faces, labelFaces, List.cons_append, List.nil_append,
            List.append_assoc, List.cons.injEq] at h
          exact absurd h.2 (b.faces_append_ne _ _ name').2.2
      | some name =>
        cases name' with
        | none =>
          simp only [ArmPhrase.faces, labelFaces, List.cons_append, List.nil_append,
            List.append_assoc, List.cons.injEq] at h
          exact absurd h.2.symm (b'.faces_append_ne _ _ name).2.2
        | some name' =>
          simp only [ArmPhrase.faces, labelFaces, List.cons_append, List.nil_append,
            List.append_assoc, List.cons.injEq, Prod.mk.injEq] at h
          obtain ⟨-, ⟨-, rfl⟩, -, h⟩ := h
          obtain ⟨rfl, hclose⟩ := b.eq_of_faces_append b' h
          exact ⟨rfl, (List.cons.inj hclose).2⟩

end

/-- **The tokens of a program settle its phrase.** -/
theorem ProgramPhrase.eq_of_faces {source source' : ProgramPhrase}
    (h : source.faces = source'.faces) : source = source' := by
  induction source generalizing source' with
  | nil =>
    cases source' with
    | nil => rfl
    | cons definition rest => cases h
  | cons definition rest ih =>
    cases source' with
    | nil => cases h
    | cons definition' rest' =>
      obtain ⟨name, b⟩ := definition
      obtain ⟨name', b'⟩ := definition'
      rw [faces_cons, faces_cons] at h
      obtain ⟨hname, h⟩ := List.cons.inj h
      obtain ⟨rfl, hrest⟩ := b.eq_of_faces_append b' (List.cons.inj h).2
      obtain rfl : name = name' := (Prod.mk.inj hname).2
      rw [ih hrest]

end RuleDiagram
