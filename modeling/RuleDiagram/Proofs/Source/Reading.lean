import RuleDiagram.Proofs.Predicate
import RuleDiagram.Proofs.Source.Bodies

/-!
# What a parse takes from its tokens

A parsed diagram is described by a phrase of its tokens. So the terms that it holds are made of
tokens of the text, its predicates are looked up by words of the text, and a fault is one of the
program or one in the text of a token. The labels of a program are resolved afterwards, where
nothing but a label without a body or a fault of the diagram can come up.

## Main definitions

* `Term.ReadFrom`, `Pattern.ReadFrom`: a term or pattern is made of given tokens
* `ParseFault.IsMalformed`: a fault of the program or of the diagram

## Main results

* `ProgramPhrase.Describes.readFrom`: the patterns of a diagram are made of the tokens of its phrase
* `exists_readFrom_of_parse`: a parsed diagram is well formed and made of the tokens of its text
* `Program.fault_of_build`: the faults that are left once a program is read
* `parse_outcomes`: what becomes of a text
* `UnknownEscape.not_forall_parse_or_malformed`: a text with another fault
-/

namespace RuleDiagram

variable {registry : Registry} {ts : List Token} {text : String}

/-- A term is made of a token among given ones. -/
inductive Term.ReadFrom (ts : List Token) : Term → Prop
  | quote {t : Token} {text : String} (ht : t ∈ ts) (hkind : t.kind = .quote)
    (h : unquoted t.text = .ok text) : ReadFrom ts (.constant (.text text))
  | word {t : Token} (ht : t ∈ ts) (hkind : t.kind = .word) :
    ReadFrom ts (.constant (.text t.text))
  | truth (b : Bool) : ReadFrom ts (.constant (.bool b))
  | int {t : Token} {z : Int} (ht : t ∈ ts) (hkind : t.kind = .int)
    (h : integerOf t.text = .ok z) : ReadFrom ts (.constant (.int z))
  | float {t : Token} (ht : t ∈ ts) (hkind : t.kind = .float) :
    ReadFrom ts (.constant (.float (floatOf t.text)))
  | reference {t : Token} {r : Int} (ht : t ∈ ts) (hkind : t.kind = .int)
    (hsign : t.text.toList.head? ≠ some '-') (h : integerOf t.text = .ok r) :
    ReadFrom ts (.reference r)
  | free {t : Token} {r : Int} (ht : t ∈ ts) (hkind : t.kind = .int)
    (hsign : t.text.toList.head? ≠ some '-') (h : integerOf t.text = .ok r) :
    ReadFrom ts (.free r)

/-- A pattern is made of given tokens: its terms are, and its predicate is registered under the name
that one of them is. -/
structure Pattern.ReadFrom (registry : Registry) (ts : List Token) (p : Pattern) : Prop where
  terms : ∀ t ∈ p.terms, t.ReadFrom ts
  predicate : ∀ q, p.predicate = some q →
    ∃ t ∈ ts, t.kind = .word ∧ registry.find? t.text = some q

theorem Pattern.readFrom_passThrough : passThrough.ReadFrom registry ts where
  terms := by simp [passThrough]
  predicate := by simp [passThrough]

/-! ## Terms and patterns -/

variable {u : TermPhrase} {term : Term} {us : List TermPhrase} {terms : List Term}

/-- The term that a phrase stands for is made of the tokens of the phrase. -/
theorem TermPhrase.readFrom (h : u.read? = some term) (hfaces : u.faces ⊆ ts.map Token.face) :
    term.ReadFrom ts := by
  have hmem {kind : TokenKind} {text : String} (hf : (kind, text) ∈ u.faces) :
      ∃ t ∈ ts, t.kind = kind ∧ t.text = text := by
    obtain ⟨t, ht, hface⟩ := List.mem_map.1 (hfaces hf)
    exact ⟨t, ht, Prod.mk.inj hface⟩
  cases u with
  | quote text =>
    obtain ⟨w, hw, rfl⟩ := Option.map_eq_some_iff.1 h
    obtain ⟨t, ht, hkind, rfl⟩ := hmem List.mem_cons_self
    exact .quote ht hkind (Except.toOption_eq_some_iff.1 hw)
  | truth b =>
    cases h
    exact .truth b
  | int text =>
    obtain ⟨z, hz, rfl⟩ := Option.map_eq_some_iff.1 h
    obtain ⟨t, ht, hkind, rfl⟩ := hmem (List.mem_cons_of_mem _ List.mem_cons_self)
    exact .int ht hkind (Except.toOption_eq_some_iff.1 hz)
  | float text =>
    cases h
    obtain ⟨t, ht, hkind, rfl⟩ := hmem (List.mem_cons_of_mem _ List.mem_cons_self)
    exact .float ht hkind
  | word text =>
    cases h
    obtain ⟨t, ht, hkind, rfl⟩ := hmem (List.mem_cons_of_mem _ List.mem_cons_self)
    exact .word ht hkind
  | reference digits hsign =>
    obtain ⟨z, hz, rfl⟩ := Option.map_eq_some_iff.1 h
    obtain ⟨t, ht, hkind, rfl⟩ := hmem (List.mem_cons_of_mem _ List.mem_cons_self)
    exact .reference ht hkind hsign (Except.toOption_eq_some_iff.1 hz)
  | free digits hsign =>
    obtain ⟨z, hz, rfl⟩ := Option.map_eq_some_iff.1 h
    obtain ⟨t, ht, hkind, rfl⟩ := hmem (List.mem_cons_of_mem _ List.mem_cons_self)
    exact .free ht hkind hsign (Except.toOption_eq_some_iff.1 hz)

theorem TermPhrase.readFrom_list (h : us.mapM read? = some terms)
    (hfaces : listFaces us ⊆ ts.map Token.face) : ∀ t ∈ terms, t.ReadFrom ts := by
  induction us generalizing terms with
  | nil =>
    cases h
    exact List.forall_mem_nil _
  | cons u rest ih =>
    rw [List.mapM_cons] at h
    obtain ⟨t, ht, h⟩ := Option.bind_eq_some_iff.1 h
    obtain ⟨others, hothers, heq⟩ := Option.bind_eq_some_iff.1 h
    cases heq
    have hparts : u.faces ⊆ ts.map Token.face ∧ listFaces rest ⊆ ts.map Token.face := by
      cases rest with
      | nil => exact ⟨hfaces, List.nil_subset _⟩
      | cons v rest =>
        rw [listFaces_cons_cons, List.append_subset, List.cons_subset] at hfaces
        exact ⟨hfaces.1, hfaces.2.2⟩
    exact List.forall_mem_cons.2 ⟨u.readFrom ht hparts.1, ih hothers hparts.2⟩

/-- **The pattern that a phrase stands for is made of the tokens of the phrase.** -/
theorem PatternPhrase.readFrom {u : PatternPhrase} {p : Pattern} (h : u.read? registry = some p)
    (hfaces : u.faces ⊆ ts.map Token.face) : p.ReadFrom registry ts := by
  obtain ⟨q, hq, h⟩ := Option.bind_eq_some_iff.1 h
  obtain ⟨terms, hterms, heq⟩ := Option.bind_eq_some_iff.1 h
  cases heq
  rw [faces, List.cons_subset, List.cons_subset, List.append_subset] at hfaces
  obtain ⟨hname, -, hlist, -⟩ := hfaces
  obtain ⟨t, ht, hface⟩ := List.mem_map.1 hname
  obtain ⟨hkind, htext⟩ := Prod.mk.inj hface
  refine ⟨TermPhrase.readFrom_list hterms hlist, ?_⟩
  rintro _ ⟨⟩
  exact ⟨t, ht, hkind, htext ▸ hq⟩

/-! ## Nodes -/

variable {d : Diagram}

theorem BodyPhrase.Describes.readFrom {source : ProgramPhrase} {b : BodyPhrase} {index : Nat}
    {n : Node} (h : b.Describes registry source index n) (hfaces : b.faces ⊆ ts.map Token.face) :
    n.pattern.ReadFrom registry ts := by
  cases b with
  | passThrough m r =>
    obtain ⟨onMatch, onRefute, rfl, -, -⟩ := h
    exact Pattern.readFrom_passThrough
  | leaf p =>
    obtain ⟨pattern, hp, rfl⟩ := h
    rw [faces, List.cons_subset] at hfaces
    exact p.readFrom hp hfaces.2
  | branch p m r =>
    obtain ⟨pattern, onMatch, onRefute, hp, rfl, -, -⟩ := h
    rw [faces, List.append_subset] at hfaces
    exact p.readFrom hp hfaces.1

/-- **The patterns of the diagram that a phrase describes are made of the tokens of the phrase.** -/
theorem ProgramPhrase.Describes.readFrom {source : ProgramPhrase}
    (h : source.Describes registry d) (hfaces : source.faces ⊆ ts.map Token.face) :
    ∀ n ∈ d.nodes, n.pattern.ReadFrom registry ts := by
  intro n hn
  obtain ⟨x, hx, hdescribes⟩ := List.exists_left_of_forall₂ h.nodes hn
  have hbody := source.faces_subset x.1 (List.fst_mem_of_mem_zipIdx hx)
  exact BodyPhrase.Describes.readFrom hdescribes (List.Subset.trans hbody hfaces)

/-- **A parsed diagram is well formed and made of the tokens of its text.** -/
theorem exists_readFrom_of_parse (h : parse registry text = .ok d) :
    d.validate (some registry) = .ok d ∧ ∃ tokens, tokenize text = .ok tokens ∧
      ∀ n ∈ d.nodes, n.pattern.ReadFrom registry tokens.tokens := by
  obtain ⟨ts, htokens, source, hfaces, -, hdescribes, hvalid⟩ := parse_eq_ok_iff.1 h
  exact ⟨hvalid, ts, htokens, hdescribes.readFrom (hfaces ▸ List.Subset.refl source.faces)⟩

/-- **The names of the predicates of a parsed diagram are words.** -/
theorem isWord_of_parse (h : parse registry text = .ok d) :
    ∀ n ∈ d.nodes, ∀ q, n.pattern.predicate = some q → isWord q.name := by
  intro n hn q hq
  obtain ⟨-, tokens, htokens, hread⟩ := exists_readFrom_of_parse h
  obtain ⟨t, ht, hkind, hfind⟩ := (hread n hn).predicate q hq
  exact (Registry.find?_eq_some_iff.1 hfind).2 ▸ isWord_of_tokenize htokens ht hkind

/-! ## Building -/

variable {program : Program} {f : BuilderFault}

namespace Builder

variable {builder : Builder Pattern Int}

theorem undefinedLabel_of_resolve {ref : NodeRef Int} (h : builder.resolve ref = .error f) :
    ∃ name, f = .undefinedLabel name := by
  cases ref with
  | index i => cases h
  | label name =>
    refine ⟨name, ?_⟩
    rw [resolve] at h
    cases hlookup : builder.labels.lookup name with
    | some slot =>
      rw [hlookup] at h
      cases h
    | none =>
      rw [hlookup] at h
      cases h
      rfl

theorem undefinedLabel_of_mapM_resolve {target : Option (NodeRef Int)}
    (h : target.mapM builder.resolve = .error f) : ∃ name, f = .undefinedLabel name := by
  cases target with
  | none => cases h
  | some ref =>
    rw [Option.mapM_some] at h
    obtain h | ⟨i, -, h⟩ := Except.bind_eq_error_iff.1 h
    · exact undefinedLabel_of_resolve h
    · cases h

/-- The node of a defined slot fails by a label only. -/
theorem undefinedLabel_of_node {slot : Slot Pattern Int} {index : Nat}
    (h : builder.node Node.branch Node.leaf (some slot) index = .error f) :
    ∃ name, f = .undefinedLabel name := by
  cases slot with
  | leaf p => cases h
  | branch p m r =>
    obtain h | ⟨m, -, h⟩ := Except.bind_eq_error_iff.1 h
    · exact undefinedLabel_of_mapM_resolve h
    · obtain h | ⟨r, -, h⟩ := Except.bind_eq_error_iff.1 h
      · exact undefinedLabel_of_mapM_resolve h
      · cases h

end Builder

namespace Program

theorem mem_slots_builder {slot : Option (Slot Pattern Int)} :
    slot ∈ (program.builder registry).slots ↔ ∃ x ∈ program.slots 0, some x.2 = slot := by
  simp only [builder, List.mem_map]

/-- **The faults that are left once a program is read** are a label without a body and a fault of
the diagram: every slot is defined, and the root is the first body if none is labelled so. -/
theorem fault_of_build (h : (program.builder registry).build = .error f) :
    (∃ name, f = .undefinedLabel name) ∨ ∃ g, f = .diagram g := by
  obtain hassemble | ⟨d, -, hvalidate⟩ := Except.bind_eq_error_iff.1 h
  · -- Before validation only the targets of branches are looked up.
    refine .inl ?_
    obtain hnodes | ⟨nodes, -, h⟩ := Except.bind_eq_error_iff.1 hassemble
    · obtain ⟨⟨slot, index⟩, hx, hnode⟩ := List.exists_of_mapM_eq_error hnodes
      obtain ⟨y, -, rfl⟩ := mem_slots_builder.1 (List.fst_mem_of_mem_zipIdx hx)
      exact Builder.undefinedLabel_of_node hnode
    · obtain h | ⟨root, -, h⟩ := Except.bind_eq_error_iff.1 h
      · cases h
      · cases h
  · obtain ⟨g, -, rfl⟩ := Except.mapError_eq_error_iff.1 hvalidate
    exact .inr ⟨g, rfl⟩

end Program

/-! ## What becomes of a text -/

/-- A fault is one of the program or of the diagram. -/
inductive ParseFault.IsMalformed : ParseFault → Prop
  | program (f : ProgramFault) : IsMalformed (.program f)
  | undefinedLabel (name : String) : IsMalformed (.builder (.undefinedLabel name))
  | diagram (f : Fault) : IsMalformed (.builder (.diagram f))

/-- **Every text becomes a well-formed diagram, a malformed program or diagram, or the fault of one
of its tokens.** -/
theorem parse_outcomes (registry : Registry) (text : String) :
    (∃ d, parse registry text = .ok d ∧ d.validate (some registry) = .ok d) ∨
      (∃ f, parse registry text = .error f ∧ f.IsMalformed) ∨
      ∃ tokens t f, tokenize text = .ok tokens ∧ t ∈ tokens.tokens ∧ t.fault? = some f ∧
        parse registry text = .error f := by
  cases h : parse registry text with
  | ok d => exact .inl ⟨d, rfl, (exists_readFrom_of_parse h).1⟩
  | error f =>
    -- Either the text is not cut into tokens, or they are no program, or it builds no diagram.
    refine .inr ?_
    obtain htokens | ⟨tokens, htokens, h⟩ := Except.bind_eq_error_iff.1 h
    · obtain ⟨g, -, rfl⟩ := Except.mapError_eq_error_iff.1 htokens
      exact .inl ⟨_, rfl, .program g⟩
    · have htokens := Except.mapError_eq_ok_iff.1 htokens
      have hlocated := Program.located_ofTokens registry (marked_of_tokenize htokens)
      obtain hprogram | ⟨program, -, h⟩ := Except.bind_eq_error_iff.1 h
      · rw [hprogram] at hlocated
        cases hlocated with
        | program ht cause => exact .inl ⟨_, rfl, .program _⟩
        | token ht hf => exact .inr ⟨tokens, _, f, htokens, ht, hf, rfl⟩
      · obtain ⟨g, hbuild, rfl⟩ := Except.mapError_eq_error_iff.1 h
        obtain ⟨name, rfl⟩ | ⟨g, rfl⟩ := Program.fault_of_build hbuild
        · exact .inl ⟨_, rfl, .undefinedLabel name⟩
        · exact .inl ⟨_, rfl, .diagram g⟩

namespace UnknownEscape

def vocabulary : Registry := ⟨[⟨"p", 1⟩], by decide⟩

/-- A leaf on a text with an escape that stands for nothing. -/
def source : String := "root: output p(\"\\q\")"

theorem parse_source : parse vocabulary source = .error (.quote (.unknownEscape 1)) := by
  decide +kernel

/-- Not every text becomes a well-formed diagram or a malformed program or diagram. -/
theorem not_forall_parse_or_malformed : ¬ ∀ (registry : Registry) (text : String),
    (∃ d, parse registry text = .ok d ∧ d.validate (some registry) = .ok d) ∨
      ∃ f, parse registry text = .error f ∧ f.IsMalformed := by
  intro h
  obtain ⟨d, hd, -⟩ | ⟨f, hf, hmalformed⟩ := h vocabulary source
  · rw [parse_source] at hd
    cases hd
  · rw [parse_source] at hf
    cases hf
    cases hmalformed

end UnknownEscape

end RuleDiagram
