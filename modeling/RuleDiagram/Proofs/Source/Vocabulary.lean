import RuleDiagram.Proofs.Source.Reading
import RuleDiagram.Proofs.Source.RoundTrip

/-!
# Which predicates a source can name

Two notions of a name meet in a source. Registration asks for an identifier in the letters of any
script, looks at the name without the blanks at its ends, and keeps it with them; a source names a
predicate by a word, which is an identifier in ASCII. They agree on names in ASCII without blanks at
the ends: exactly the predicates with such names come back from the source of a branch on them.

## Main definitions

* `Diagram.branchOn`: the diagram of one branch on a predicate, with free terms and empty arms

## Main results

* `isWord_iff_of_registrable`: the names that registration and sources agree on
* `Diagram.validate_branchOn`: a branch on a registered predicate is well formed
* `exists_parse_branchOn_iff`: the predicates whose branch comes back from its source
* `Spaced.not_forall_exists_parse_branchOn`: a registered predicate that no source names
-/

namespace RuleDiagram

variable {p : Predicate} {ps : List Predicate} {registry : Registry} {rs : List Int} {w : String}
  {bounds : List Nat} {n : Nat}

/-! ## Names -/

theorem withinBounds_eq_false (h : ∀ bound ∈ bounds, n < bound) :
    withinBounds bounds n = false := by
  have hcount : bounds.countP (fun bound => decide (bound ≤ n)) = 0 := by
    rw [List.countP_eq_zero]
    intro bound hbound
    simpa using h bound hbound
  rw [withinBounds, hcount]
  rfl

/-- In ASCII an identifier has no characters but those of a word. -/
theorem withinBounds_identifier_eq_false (h : n < 128) :
    withinBounds identifierStartBounds n = false ∧ withinBounds identifierPartBounds n = false := by
  have hstart : ∀ bound ∈ identifierStartBounds, 128 ≤ bound := by decide +kernel
  have hpart : ∀ bound ∈ identifierPartBounds, 128 ≤ bound := by decide +kernel
  exact ⟨withinBounds_eq_false fun bound hbound => Nat.lt_of_lt_of_le h (hstart bound hbound),
    withinBounds_eq_false fun bound hbound => Nat.lt_of_lt_of_le h (hpart bound hbound)⟩

theorem isWordPart_of_isWord (h : isWord w) : ∀ c ∈ w.toList, isWordPart c := by
  unfold isWord at h
  split at h
  · cases h
  · next c rest hw =>
    rw [Bool.and_eq_true, List.all_eq_true] at h
    rw [hw]
    exact List.forall_mem_cons.2 ⟨isWordPart_of_isWordStart h.1, h.2⟩

/-- **Words are the ASCII identifiers.** -/
theorem isWord_iff : isWord w ↔ isIdentifier w ∧ ∀ c ∈ w.toList, c.toNat < 128 := by
  constructor
  · intro h
    refine ⟨?_, fun c hc => (toNat_of_isWordPart (isWordPart_of_isWord h c hc)).2⟩
    unfold isWord at h
    unfold isIdentifier
    split at h
    · cases h
    · rw [Bool.and_eq_true, List.all_eq_true] at h
      rw [Bool.and_eq_true, List.all_eq_true]
      exact ⟨by rw [h.1, Bool.true_or], fun c hc => by rw [h.2 c hc, Bool.true_or]⟩
  · rintro ⟨h, hascii⟩
    unfold isIdentifier at h
    unfold isWord
    split at h
    · cases h
    · next c rest hw =>
      rw [hw] at hascii
      obtain ⟨hc, hrest⟩ := List.forall_mem_cons.1 hascii
      rw [Bool.and_eq_true, List.all_eq_true, (withinBounds_identifier_eq_false hc).1,
        Bool.or_false] at h
      rw [Bool.and_eq_true, List.all_eq_true]
      refine ⟨h.1, fun d hd => ?_⟩
      have hpart := h.2 d hd
      rwa [(withinBounds_identifier_eq_false (hrest d hd)).2, Bool.or_false] at hpart

theorem trimBlanks_of_isWord (h : isWord w) : trimBlanks w = w := by
  have hdrop (cs : List Char) (hcs : ∀ c ∈ cs, isBlank c = false) : cs.dropWhile isBlank = cs := by
    rw [List.dropWhile_eq_self_iff]
    intro hlength hblank
    rw [hcs _ (List.getElem_mem hlength)] at hblank
    cases hblank
  have hblank (c : Char) (hc : c ∈ w.toList) : isBlank c = false :=
    isBlank_of_isWordPart (isWordPart_of_isWord h c hc)
  rw [trimBlanks, trimmed, hdrop _ hblank, hdrop _ fun c hc => hblank c (List.mem_reverse.1 hc),
    List.reverse_reverse, String.ofList_toList]

/-- **The names that registration and sources agree on** are those in ASCII without blanks at the
ends. -/
theorem isWord_iff_of_registrable (hp : p.Registrable) :
    isWord p.name ↔ trimBlanks p.name = p.name ∧ ∀ c ∈ p.name.toList, c.toNat < 128 := by
  constructor
  · intro h
    exact ⟨trimBlanks_of_isWord h, (isWord_iff.1 h).2⟩
  · rintro ⟨htrim, hascii⟩
    exact isWord_iff.2 ⟨htrim ▸ hp.name, hascii⟩

/-! ## A branch on a predicate -/

namespace Diagram

/-- The diagram of one branch on a predicate, with free terms and empty arms. -/
def branchOn (p : Predicate) (rs : List Int) : Diagram :=
  ⟨[.branch ⟨some p, rs.map .free⟩ none none], 0⟩

theorem firstUnbound_map_free (live : List Int) : firstUnbound live (rs.map .free) = none := by
  induction rs generalizing live with
  | nil => rfl
  | cons r rs ih => exact ih (r :: live)

/-- **A branch on a registered predicate is well formed.** -/
theorem validate_branchOn (hp : p ∈ registry.predicates) (hlength : (rs.length : Int) = p.arity)
    (hrs : ∀ r ∈ rs, 0 ≤ r) :
    (branchOn p rs).validate (some registry) = .ok (branchOn p rs) := by
  refine validate_eq_ok_iff.2 ⟨fault?_eq_none_iff.2 ⟨List.cons_ne_nil _ _, rfl, ?_, ?_⟩, rfl⟩
  · refine List.forall_mem_singleton.2 (Node.fault?_eq_none_iff.2 ⟨?_, ?_, ?_⟩)
    · intro t ht
      cases ht
    · intro t ht
      obtain ⟨r, hr, rfl⟩ := List.mem_map.1 ht
      exact if_neg (Int.not_lt.2 (hrs r hr))
    · have hhas : registry.has p := Registry.has_iff_mem.2 hp
      simp [Node.shapeFault?, Node.pattern, Node.isBranch, hlength, hhas]
  · -- None of the terms is a reference, so none reads an unbound register.
    intro T _
    refine List.findSome?_eq_none_iff.2 ?_
    rintro ⟨i, live⟩ -
    cases hn : (branchOn p rs).node? i with
    | none => simp [hn]
    | some n =>
      obtain rfl := List.mem_singleton.1 (mem_nodes_of_node? hn)
      simp [hn, Node.pattern, firstUnbound_map_free]

end Diagram

/-- **The predicates whose branch comes back from its source** are the registered ones with a name
in ASCII and without blanks at the ends. -/
theorem exists_parse_branchOn_iff (hregistry : Registry.ofList ps = .ok registry)
    (hp : p ∈ registry.predicates) (hlength : (rs.length : Int) = p.arity)
    (hrs : ∀ r ∈ rs, 0 ≤ r ∧ r.natAbs < 10 ^ digitLimit) :
    (∃ text, (Diagram.branchOn p rs).written = .ok text ∧
      parse registry text = .ok (Diagram.branchOn p rs)) ↔
    trimBlanks p.name = p.name ∧ ∀ c ∈ p.name.toList, c.toNat < 128 := by
  rw [← isWord_iff_of_registrable (Registry.registrable_of_ofList hregistry p hp)]
  constructor
  · -- Whatever the text, the names that a parse gives are words.
    rintro ⟨text, -, hparse⟩
    exact isWord_of_parse hparse _ List.mem_cons_self p rfl
  · intro hword
    have hvalid := Diagram.validate_branchOn hp hlength fun r hr => (hrs r hr).1
    obtain ⟨-, -, hnodes, -⟩ := Diagram.fault?_eq_none_iff.1 (Diagram.validate_eq_ok_iff.1 hvalid).1
    refine exists_written_parse hvalid ?_ fun n hn => ?_
    · rw [Diagram.branchOn, List.forall_mem_singleton]
      rintro _ ⟨⟩
      exact hword
    · refine Node.writable_of_fault?_eq_none (hnodes n hn) fun t ht => ?_
      obtain rfl := List.mem_singleton.1 hn
      obtain ⟨r, hr, rfl⟩ := List.mem_map.1 ht
      exact hrs r hr

namespace Plain

def move : Predicate := ⟨"move", 2⟩

def vocabulary : Registry := ⟨[move], by decide⟩

/-- The branch on a predicate with a plain name comes back from its source. -/
theorem exists_parse_branchOn_move : Registry.ofList [move] = .ok vocabulary ∧
    ∃ text, (Diagram.branchOn move [0, 7]).written = .ok text ∧
      parse vocabulary text = .ok (Diagram.branchOn move [0, 7]) := by
  have hregistry : Registry.ofList [move] = .ok vocabulary := rfl
  have hsmall (k : Int) (h : k.natAbs < 10 ^ 1) : k.natAbs < 10 ^ digitLimit :=
    Nat.lt_of_lt_of_le h (Nat.pow_le_pow_right (by decide) (by decide))
  have hregisters : ∀ r ∈ [(0 : Int), 7], 0 ≤ r ∧ r.natAbs < 10 ^ digitLimit := by
    rw [List.forall_mem_cons, List.forall_mem_singleton]
    exact ⟨⟨by decide, hsmall 0 (by decide)⟩, by decide, hsmall 7 (by decide)⟩
  have hword : isWord move.name := by decide
  exact ⟨hregistry, (exists_parse_branchOn_iff hregistry List.mem_cons_self rfl hregisters).2
    ⟨trimBlanks_of_isWord hword, (isWord_iff.1 hword).2⟩⟩

end Plain

namespace Spaced

/-- A predicate with a blank in front of its name. -/
def predicate : Predicate := ⟨" p", 0⟩

def vocabulary : Registry := ⟨[predicate], by decide⟩

theorem ofList_predicate : Registry.ofList [predicate] = .ok vocabulary := rfl

/-- Not every registered predicate can be named in a source. -/
theorem not_forall_exists_parse_branchOn : ¬ ∀ (ps : List Predicate) (registry : Registry)
    (p : Predicate) (rs : List Int), Registry.ofList ps = .ok registry →
    p ∈ registry.predicates → (rs.length : Int) = p.arity →
    (∀ r ∈ rs, 0 ≤ r ∧ r.natAbs < 10 ^ digitLimit) →
    ∃ text, (Diagram.branchOn p rs).written = .ok text ∧
      parse registry text = .ok (Diagram.branchOn p rs) := by
  intro h
  obtain ⟨text, -, hparse⟩ := h [predicate] vocabulary predicate [] ofList_predicate
    List.mem_cons_self rfl (List.forall_mem_nil _)
  have hword : isWord predicate.name := isWord_of_parse hparse _ List.mem_cons_self predicate rfl
  exact absurd hword (by decide)

end Spaced

end RuleDiagram
