import RuleDiagram.Proofs.Diagram.Nodes
import RuleDiagram.Proofs.Source.Written
import RuleDiagram.Source.Printer

/-!
# Written source is cut into the tokens it was written with

Each part of a diagram is written as a text that spells its tokens wherever a delimiter or nothing
follows. So the texts of terms make up those of patterns, these make up lines, and lines make up the
source of a diagram, without another look at characters.

## Main definitions

* `Spelled`: a text spells tokens in front of every delimiter

## Main results

* `Value.exists_written`, `Term.exists_written`, `Pattern.exists_written`: constants, terms and
  patterns
* `Diagram.exists_nodeText`: lines
* `spells_unlines`: lines below each other
-/

namespace RuleDiagram

/-- **A text spells tokens wherever a delimiter or nothing follows it.** -/
def Spelled (text : String) (faces : List Face) : Prop :=
  ∀ rest more, Delimited rest → Spells rest more → Spells (text.toList ++ rest) (faces ++ more)

variable {v : Value} {t : Term} {ts : List Term} {p : Pattern} {n : Node} {registry : Registry}

theorem spelled_word {w : String} (h : isWord w) : Spelled w [(.word, w)] :=
  fun _ _ hrest hspells => hspells.word h hrest

theorem spelled_integer (z : Int) : Spelled (integerText z) [(.int, integerText z)] := by
  intro rest more hrest hspells
  have h := hspells.numeral (NumeralParts.valid_ofInt z) hrest
  rw [if_pos ⟨rfl, rfl⟩, NumeralParts.ofList_chars_ofInt] at h
  rw [← NumeralParts.ofList_chars_ofInt, String.toList_ofList, NumeralParts.ofList_chars_ofInt]
  exact h

/-! ## Terms and patterns -/

/-- **A constant with a written form is spelled.** -/
theorem Value.exists_written (hv : v.Writable) :
    ∃ text, v.written = .ok text ∧ Spelled text v.faces := by
  cases v with
  | text s =>
    refine ⟨_, rfl, fun rest more hrest hspells => ?_⟩
    -- Words follow a colon, other texts are quoted.
    by_cases hs : isWord s
    · rw [if_pos hs, Value.faces, if_pos hs]
      simpa [markFace] using (hspells.word hs hrest).mark (c := ':') (by decide)
    · rw [if_neg hs, Value.faces, if_neg hs]
      exact hspells.quote s
  | bool b =>
    refine ⟨_, rfl, spelled_word ?_⟩
    cases b <;> decide
  | int n =>
    refine ⟨":" ++ integerText n, ?_, fun rest more hrest hspells => ?_⟩
    · rw [Value.written, writtenInteger_eq_ok_iff.2 ⟨hv, rfl⟩]
      rfl
    · simpa [markFace, Value.faces] using
        (spelled_integer n rest more hrest hspells).mark (c := ':') (by decide)
  | float x =>
    obtain ⟨m, hm, hreal, htext, -⟩ := x.exists_numeral hv
    refine ⟨":" ++ x.text, if_pos hv, fun rest more hrest hspells => ?_⟩
    have h := hspells.numeral hm hrest
    rw [if_neg hreal] at h
    simpa [markFace, Value.faces, htext] using h.mark (c := ':') (by decide)
  | absent => exact hv.elim

/-- **A term with a written form is spelled.** -/
theorem Term.exists_written (ht : t.Writable) :
    ∃ text, t.written = .ok text ∧ Spelled text t.faces := by
  cases t with
  | constant v => exact v.exists_written ht
  | reference r =>
    refine ⟨"%" ++ integerText r, ?_, fun rest more hrest hspells => ?_⟩
    · rw [Term.written, writtenInteger_eq_ok_iff.2 ⟨ht.2, rfl⟩]
      rfl
    · simpa [markFace, Term.faces] using
        (spelled_integer r rest more hrest hspells).mark (c := '%') (by decide)
  | free r =>
    refine ⟨"%" ++ integerText r ++ " <- _", ?_, fun rest more hrest hspells => ?_⟩
    · rw [Term.written, writtenInteger_eq_ok_iff.2 ⟨ht.2, rfl⟩]
      rfl
    · have hword : isWord "_" := by decide
      have hhole := spelled_word hword rest more hrest hspells
      have h := spelled_integer r _ _ (delimited_cons (by decide)) hhole.space.arrow.space
      simpa [markFace, Term.faces] using h.mark (c := '%') (by decide)

/-- Terms separated by commas are spelled. -/
theorem spelled_intercalate {texts : List String}
    (h : List.Forall₂ (fun t text => Spelled text t.faces) ts texts) :
    Spelled (", ".intercalate texts) (termsFaces ts) := by
  induction h with
  | nil => exact fun rest more _ hspells => by simpa [termsFaces] using hspells
  | @cons t text ts texts ht hts ih =>
    cases hts with
    | nil => simpa [termsFaces] using ht
    | @cons u text' ts texts hu hts =>
      intro rest more hrest hspells
      have hcomma := (ih rest more hrest hspells).space.mark (c := ',') (by decide)
      have h := ht _ _ (delimited_cons (by decide)) hcomma
      simpa [termsFaces_cons_cons, markFace, String.intercalate_cons_cons] using h

/-- **A pattern whose terms have a written form is spelled.** -/
theorem Pattern.exists_written (hword : ∀ q, p.predicate = some q → isWord q.name)
    (hts : ∀ t ∈ p.terms, t.Writable) : ∃ text, p.written = .ok text ∧ Spelled text p.faces := by
  cases hp : p.predicate with
  | none =>
    refine ⟨"*", by rw [Pattern.written, hp], fun rest more hrest hspells => ?_⟩
    simpa [Pattern.faces, hp, markFace] using hspells.mark (c := '*') (by decide)
  | some q =>
    obtain ⟨texts, htexts⟩ := List.exists_forall₂ fun t ht => Term.exists_written (hts t ht)
    refine ⟨q.name ++ "(" ++ ", ".intercalate texts ++ ")", ?_, fun rest more hrest hspells => ?_⟩
    · have hwritten := List.mapM_eq_ok_iff.2 (htexts.imp fun t text h => h.1)
      simp only [Pattern.written, hp, hwritten]
      rfl
    · -- From the closing bracket to the name.
      have hclose := hspells.mark (c := ')') (by decide)
      have hterms := spelled_intercalate (htexts.imp fun t text h => h.2) _ _
        (delimited_cons (by decide)) hclose
      have h := hterms.mark (c := '(') (by decide)
      have hname := spelled_word (hword q hp) _ _ (delimited_cons (by decide)) h
      simpa [Pattern.faces, hp, markFace] using hname

/-! ## Lines -/

theorem spelled_armText {target : Option String} (h : ∀ w, target = some w → isWord w) :
    Spelled (armText (target.getD "")) (armFaces target) := by
  intro rest more hrest hspells
  have hclose := hspells.mark (c := '\x7d') (by decide)
  cases target with
  | none => simpa [armText, armFaces, markFace] using hclose.mark (c := '\x7b') (by decide)
  | some w =>
    have hword := spelled_word (h w rfl) _ _ (delimited_cons (by decide)) hclose
    simpa [armText, armFaces, markFace] using hword.mark (c := '\x7b') (by decide)

/-- **A labelled node is spelled.** -/
theorem Diagram.exists_nodeText {d : Diagram} {i : Nat} (hn : n.Writable registry)
    (hword : ∀ q, n.pattern.predicate = some q → isWord q.name) (hlabel : isWord (d.label i))
    (htargets : ∀ t ∈ n.targets, isWord (d.label t)) : ∃ text, d.nodeText i n = .ok text ∧
      Spelled text ((.word, d.label i) :: markFace ":" :: n.faces d.label) := by
  obtain ⟨text, hwritten, hspelled⟩ := n.pattern.exists_written hword hn.terms
  cases n with
  | leaf p =>
    have hnode : d.nodeText i (.leaf p) = .ok (bodyText (d.label i) text none) := by
      rw [Node.pattern] at hwritten
      simp only [Diagram.nodeText, Node.pattern, hwritten]
      rfl
    refine ⟨_, hnode, fun rest more hrest hspells => ?_⟩
    -- From the end of the line to its front: the pattern, the word, the label.
    have hword : isWord "output" := by decide
    have hpattern := hspelled rest more hrest hspells
    have houtput := spelled_word hword _ _ (delimited_cons (by decide)) hpattern.space
    have h := spelled_word hlabel _ _ (delimited_cons (by decide))
      (houtput.space.mark (c := ':') (by decide))
    simpa [bodyText, Node.faces, Node.pattern, markFace] using h
  | branch p m r =>
    have hnode : d.nodeText i (.branch p m r) =
        .ok (bodyText (d.label i) text (some (d.targetLabel m, d.targetLabel r))) := by
      rw [Node.pattern] at hwritten
      simp only [Diagram.nodeText, Node.pattern, hwritten]
      rfl
    refine ⟨_, hnode, fun rest more hrest hspells => ?_⟩
    have harm (target : Option Int) (h : ∀ t, target = some t → isWord (d.label t)) :
        Spelled (armText (d.targetLabel target)) (armFaces (target.map d.label)) := by
      refine spelled_armText fun w hw => ?_
      obtain ⟨t, rfl, rfl⟩ := Option.map_eq_some_iff.1 hw
      exact h t rfl
    -- From the end of the line to its front: both arms, the pattern, the label.
    obtain ⟨hmatch, hrefute⟩ := Node.forall_mem_targets_branch.1 htargets
    have hr := harm r hrefute rest more hrest hspells
    have hm := harm m hmatch _ _ (delimited_cons (by decide)) hr.space
    have hpattern := hspelled _ _ (delimited_cons (by decide)) hm.space
    have h := spelled_word hlabel _ _ (delimited_cons (by decide))
      (hpattern.space.mark (c := ':') (by decide))
    simpa [bodyText, Node.faces, Node.pattern, markFace] using h

/-- Lines below each other spell all their tokens. -/
theorem spells_unlines {texts : List String} {lines : List (List Face)}
    (h : List.Forall₂ (fun line text => Spelled text line) lines texts) :
    Spells (unlines texts).toList lines.flatten := by
  have hstop : Spells ['\n'] [] := Spells.nil.lineBreak
  induction h with
  | nil => simpa [unlines] using hstop
  | @cons line text lines texts hline hlines ih =>
    cases hlines with
    | nil => simpa [unlines] using hline _ _ (delimited_cons (by decide)) hstop
    | @cons line' text' lines texts hline' hlines =>
      have h := hline _ _ (delimited_cons (by decide)) ih.lineBreak
      simpa [unlines, String.intercalate_cons_cons] using h

end RuleDiagram
