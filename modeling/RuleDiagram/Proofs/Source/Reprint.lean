import RuleDiagram.Proofs.Source.Reading
import RuleDiagram.Proofs.Source.RoundTrip

/-!
# A parsed diagram is printed and read back

The tokens that a parse accepts stand for texts, truth values, integers and registers without more
digits than are written, and floating-point numbers. All of these have a written form, except for
the infinities, which numerals beyond the largest finite number are rounded to. So the source of a
parsed diagram is made and read back, or the diagram holds an infinity that its text had a numeral
for.

## Main results

* `Term.ReadFrom.cases_writable`: a term that is read can be written or is an infinity
* `Diagram.exists_unwritten`: a diagram is not written for the sake of one of its terms
* `reprint_of_parse`: a parsed diagram comes back from its source or holds an infinity
* `Overflow.not_forall_reprint`: a parsed diagram without a source
-/

namespace RuleDiagram

variable {d : Diagram} {registry : Registry} {text : String} {ts : List Token} {t : Term}
  {p : Pattern} {u : Untextual}

/-- **A term that is read can be written, or is an infinity** that one of the tokens stands for. -/
theorem Term.ReadFrom.cases_writable (h : t.ReadFrom ts) : t.Writable ∨
    ∃ negative, t = .constant (.float (.infinity negative)) ∧
      ∃ x ∈ ts, x.kind = .float ∧ floatOf x.text = .infinity negative := by
  cases h with
  | quote _ _ _ => exact .inl trivial
  | word _ _ => exact .inl trivial
  | truth b => exact .inl trivial
  | int _ _ h => exact .inl (bounds_of_integerOf h).1
  | reference _ _ hsign h =>
    obtain ⟨hbound, hnonneg⟩ := bounds_of_integerOf h
    exact .inl ⟨hnonneg hsign, hbound⟩
  | free _ _ hsign h =>
    obtain ⟨hbound, hnonneg⟩ := bounds_of_integerOf h
    exact .inl ⟨hnonneg hsign, hbound⟩
  | @float x hx hkind =>
    obtain hfinite | ⟨negative, hinfinite⟩ := isFinite_or_eq_infinity_of_floatOf x.text
    · exact .inl hfinite
    · exact .inr ⟨negative, by rw [hinfinite], x, hx, hkind, hinfinite⟩

theorem Term.written_infinity (negative : Bool) :
    Term.written (.constant (.float (.infinity negative))) =
      .error ⟨.float (.infinity negative)⟩ := by
  have hfinite : (Binary64.infinity negative).isFinite = false :=
    decide_eq_false (Nat.lt_irrefl _)
  simp [Term.written, Value.written, hfinite]

/-! ## What the source of a diagram depends on -/

theorem Pattern.exists_unwritten (h : p.written = .error u) :
    ∃ t ∈ p.terms, t.written = .error u := by
  unfold written at h
  split at h
  · cases h
  · obtain h | ⟨texts, -, h⟩ := Except.bind_eq_error_iff.1 h
    · exact List.exists_of_mapM_eq_error h
    · cases h

/-- **A diagram is not written for the sake of one of its terms.** -/
theorem Diagram.exists_unwritten (h : d.written = .error u) :
    ∃ n ∈ d.nodes, ∃ t ∈ n.pattern.terms, t.written = .error u := by
  obtain ⟨⟨n, i⟩, hn, hline⟩ := List.exists_of_mapM_eq_error (Except.map_eq_error_iff.1 h)
  refine ⟨n, List.fst_mem_of_mem_zipIdx hn, ?_⟩
  obtain hpattern | ⟨pattern, -, h⟩ := Except.bind_eq_error_iff.1 hline
  · exact Pattern.exists_unwritten hpattern
  · cases h

theorem Pattern.exists_term_written {q : Predicate} (hq : p.predicate = some q)
    (h : p.written = .ok text) (ht : t ∈ p.terms) : ∃ part, t.written = .ok part := by
  simp only [written, hq] at h
  obtain ⟨parts, hparts, -⟩ := Except.bind_eq_ok_iff.1 h
  obtain ⟨part, -, hpart⟩ := List.exists_right_of_forall₂ (List.mapM_eq_ok_iff.1 hparts) ht
  exact ⟨part, hpart⟩

/-- A diagram is not written without its nodes. -/
theorem Diagram.exists_pattern_written {n : Node} (h : d.written = .ok text) (hn : n ∈ d.nodes) :
    ∃ part, n.pattern.written = .ok part := by
  obtain ⟨lines, hlines, -⟩ := Except.map_eq_ok_iff.1 h
  obtain ⟨i, hi⟩ := List.getElem?_of_mem hn
  have hmem : (n, i) ∈ d.nodes.zipIdx := List.mem_zipIdx_iff_getElem?.2 hi
  obtain ⟨line, -, hline⟩ := List.exists_right_of_forall₂ (List.mapM_eq_ok_iff.1 hlines) hmem
  obtain ⟨part, hpart, -⟩ := Except.bind_eq_ok_iff.1 hline
  exact ⟨part, hpart⟩

/-! ## Reading, writing, reading -/

/-- The nodes of a written diagram that is made of tokens can be written and read again. -/
theorem writable_of_readFrom (hd : d.validate (some registry) = .ok d)
    (hread : ∀ n ∈ d.nodes, n.pattern.ReadFrom registry ts) (h : d.written = .ok text) :
    ∀ n ∈ d.nodes, n.Writable registry := by
  intro n hn
  obtain ⟨-, -, hnodes, -⟩ := Diagram.fault?_eq_none_iff.1 (Diagram.validate_eq_ok_iff.1 hd).1
  refine Node.writable_of_fault?_eq_none (hnodes n hn) fun t ht => ?_
  obtain ht' | ⟨negative, rfl, -⟩ := ((hread n hn).terms t ht).cases_writable
  · exact ht'
  · -- An infinity is a term of a pattern with a predicate, which would not have been written.
    obtain ⟨q, hq⟩ : ∃ q, n.pattern.predicate = some q := by
      have hfits := Node.fits_of_shapeFault? (Node.fault?_eq_none_iff.1 (hnodes n hn)).2.2
      cases hp : n.pattern.predicate with
      | none =>
        rw [Pattern.Fits, hp] at hfits
        rw [hfits] at ht
        cases ht
      | some q => exact ⟨q, rfl⟩
    obtain ⟨part, hpart⟩ := Diagram.exists_pattern_written h hn
    obtain ⟨_, hterm⟩ := Pattern.exists_term_written hq hpart ht
    rw [Term.written_infinity] at hterm
    cases hterm

/-- **A parsed diagram comes back from its source**, or it has no source because it holds an
infinity that its text has a numeral for. -/
theorem reprint_of_parse (h : parse registry text = .ok d) :
    (∃ text', d.written = .ok text' ∧ parse registry text' = .ok d) ∨
      ∃ negative tokens x n, tokenize text = .ok tokens ∧ x ∈ tokens.tokens ∧ x.kind = .float ∧
        floatOf x.text = .infinity negative ∧ n ∈ d.nodes ∧
        .float (.infinity negative) ∈ n.pattern.constants ∧
        d.written = .error ⟨.float (.infinity negative)⟩ := by
  obtain ⟨hd, tokens, htokens, hread⟩ := exists_readFrom_of_parse h
  cases hwritten : d.written with
  | ok text' =>
    obtain ⟨text'', htext'', hparse⟩ :=
      exists_written_parse hd (isWord_of_parse h) (writable_of_readFrom hd hread hwritten)
    exact .inl ⟨text'', hwritten ▸ htext'', hparse⟩
  | error u =>
    -- The term that the source fails for has been read, so it is an infinity.
    obtain ⟨n, hn, t, ht, herror⟩ := Diagram.exists_unwritten hwritten
    obtain hwritable | ⟨negative, rfl, x, hx, hkind, hfloat⟩ :=
      ((hread n hn).terms t ht).cases_writable
    · obtain ⟨part, hpart, -⟩ := Term.exists_written hwritable
      rw [herror] at hpart
      cases hpart
    · rw [Term.written_infinity] at herror
      cases herror
      exact .inr ⟨negative, tokens, x, n, htokens, hx, hkind, hfloat, hn,
        List.mem_filterMap.2 ⟨_, ht, rfl⟩, rfl⟩

namespace Nested

/-- A body in an arm of another, and numbers that are not written as they are read. -/
def source : String := "x: * \x7broot: p(%٣ <- _) \x7boutput p(:-007)\x7d \x7b\x7d\x7d \x7bx\x7d"

def diagram : Diagram :=
  ⟨[.branch .passThrough (some 1) (some 0),
    .branch ⟨some Overlong.predicate, [.free 3]⟩ (some 2) none,
    .leaf ⟨some Overlong.predicate, [.constant (.int (-7))]⟩], 1⟩

/-- The diagram of the source comes back from its own source. -/
theorem reprint_diagram : parse Overlong.vocabulary source = .ok diagram ∧
    ∃ text, diagram.written = .ok text ∧ parse Overlong.vocabulary text = .ok diagram := by
  have hparse : parse Overlong.vocabulary source = .ok diagram := by decide +kernel
  refine ⟨hparse, ?_⟩
  obtain h | ⟨negative, -, -, n, -, -, -, -, hn, hmem, -⟩ := reprint_of_parse hparse
  · exact h
  · have hconstants : ∀ n ∈ diagram.nodes, ∀ b, .float (.infinity b) ∉ n.pattern.constants := by
      decide
    exact absurd hmem (hconstants n hn negative)

end Nested

/-! ## Infinities -/

namespace Overflow

/-- A leaf on a number beyond the largest finite one. -/
def source : String := "root: output p(:1e999)"

def diagram : Diagram :=
  ⟨[.leaf ⟨some Overlong.predicate, [.constant (.float (.infinity false))]⟩], 0⟩

theorem parse_source : parse Overlong.vocabulary source = .ok diagram := by
  decide +kernel

theorem written_diagram : diagram.written = .error ⟨.float (.infinity false)⟩ := rfl

/-- Not every parsed diagram comes back from its source. -/
theorem not_forall_reprint : ¬ ∀ (registry : Registry) (text : String) (d : Diagram),
    parse registry text = .ok d →
      ∃ text', d.written = .ok text' ∧ parse registry text' = .ok d := by
  intro h
  obtain ⟨text', hwritten, -⟩ := h Overlong.vocabulary source diagram parse_source
  rw [written_diagram] at hwritten
  cases hwritten

end Overflow

end RuleDiagram
