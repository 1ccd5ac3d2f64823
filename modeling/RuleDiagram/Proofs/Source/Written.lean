import RuleDiagram.Proofs.Diagram.Nodes
import RuleDiagram.Proofs.Number.Text
import RuleDiagram.Proofs.Source.Bodies

/-!
# Written parts of a diagram as phrases

A diagram is written part by part: terms, patterns, nodes with their targets by label, and lines.
A term or a pattern is written as the tokens of a phrase that stands for it, a node as those of a
body that describes it where the labels of its targets lead to them.

## Main definitions

* `Value.Writable`, `Term.Writable`, `Node.Writable`: what has a written form
* `Value.faces`, `Term.faces`, `Pattern.faces`, `Node.faces`: the tokens that it is written with

## Main results

* `Term.exists_phrase`, `Pattern.exists_phrase`, `Node.exists_phrase`: what is written is a phrase
* `exists_phrase_of_lines`: lines are written as a phrase whose bodies describe their nodes
-/

namespace RuleDiagram

/-- A value has a written form that is read again. -/
def Value.Writable : Value → Prop
  | .text _ => True
  | .bool _ => True
  | .int n => n.natAbs < 10 ^ digitLimit
  | .float x => x.isFinite
  | .absent => False

/-- A term has a written form that is read again. -/
def Term.Writable : Term → Prop
  | .constant v => v.Writable
  | .reference r => 0 ≤ r ∧ r.natAbs < 10 ^ digitLimit
  | .free r => 0 ≤ r ∧ r.natAbs < 10 ^ digitLimit

/-- The tokens that a value is written with. -/
def Value.faces : Value → List Face
  | .text s => if isWord s then [markFace ":", (.word, s)] else [(.quote, quoted s)]
  | .bool b => [(.word, if b then "true" else "false")]
  | .int n => [markFace ":", (.int, integerText n)]
  | .float x => [markFace ":", (.float, x.text)]
  | .absent => []

/-- The tokens that a term is written with. -/
def Term.faces : Term → List Face
  | .constant v => v.faces
  | .reference r => [markFace "%", (.int, integerText r)]
  | .free r => [markFace "%", (.int, integerText r), (.arrow, "<-"), (.word, "_")]

/-- The tokens that terms separated by commas are written with. -/
def termsFaces : List Term → List Face
  | [] => []
  | [t] => t.faces
  | t :: rest => t.faces ++ markFace "," :: termsFaces rest

theorem termsFaces_cons_cons (t u : Term) (ts : List Term) :
    termsFaces (t :: u :: ts) = t.faces ++ markFace "," :: termsFaces (u :: ts) := rfl

/-- The tokens that a pattern is written with. -/
def Pattern.faces (p : Pattern) : List Face :=
  match p.predicate with
  | none => [markFace "*"]
  | some q => (.word, q.name) :: markFace "(" :: (termsFaces p.terms ++ [markFace ")"])

variable {label : Int → String} {n : Node} {p : Pattern} {t : Term} {ts : List Term} {v : Value}
  {r : Int} {target : Option String} {lines : List (String × Node)} {registry : Registry}

/-! ## Terms and patterns -/

theorem head?_integerText (hr : 0 ≤ r) : (integerText r).toList.head? ≠ some '-' := by
  rw [toList_integerText, if_neg (Int.not_lt.2 hr)]
  exact head?_toDigits_ne_minus

theorem Value.exists_phrase (hv : v.Writable) :
    ∃ u : TermPhrase, u.faces = v.faces ∧ u.read? = some (.constant v) := by
  cases v with
  | text w =>
    -- Words follow a colon, other texts are quoted.
    by_cases hw : isWord w
    · exact ⟨.word w, (if_pos hw).symm, rfl⟩
    · refine ⟨.quote (quoted w), (if_neg hw).symm, ?_⟩
      rw [TermPhrase.read?, unquoted_quoted]
      rfl
  | bool b => exact ⟨.truth b, rfl, rfl⟩
  | int n =>
    refine ⟨.int (integerText n), rfl, ?_⟩
    rw [TermPhrase.read?, integerOf_integerText hv]
    rfl
  | float x =>
    refine ⟨.float x.text, rfl, ?_⟩
    rw [TermPhrase.read?, floatOf_text hv]
  | absent => exact hv.elim

/-- **A term is written as a phrase** that stands for it. -/
theorem Term.exists_phrase (ht : t.Writable) :
    ∃ u : TermPhrase, u.faces = t.faces ∧ u.read? = some t := by
  cases t with
  | constant v => exact Value.exists_phrase ht
  | reference r =>
    refine ⟨.reference (integerText r) (head?_integerText ht.1), rfl, ?_⟩
    rw [TermPhrase.read?, integerOf_integerText ht.2]
    rfl
  | free r =>
    refine ⟨.free (integerText r) (head?_integerText ht.1), rfl, ?_⟩
    rw [TermPhrase.read?, integerOf_integerText ht.2]
    rfl

theorem exists_phrases (hts : ∀ t ∈ ts, t.Writable) :
    ∃ us, TermPhrase.listFaces us = termsFaces ts ∧ us.mapM TermPhrase.read? = some ts := by
  induction ts with
  | nil => exact ⟨[], rfl, rfl⟩
  | cons t rest ih =>
    obtain ⟨ht, hrest⟩ := List.forall_mem_cons.1 hts
    obtain ⟨u, hfaces, hread⟩ := t.exists_phrase ht
    obtain ⟨us, hrestFaces, hrestRead⟩ := ih hrest
    refine ⟨u :: us, ?_, by simp [List.mapM_cons, hread, hrestRead]⟩
    -- A comma follows the term just if there is another one.
    cases rest with
    | nil =>
      obtain rfl : us = [] := by
        cases us with
        | nil => rfl
        | cons v us =>
          rw [List.mapM_cons] at hrestRead
          obtain ⟨_, -, hrestRead⟩ := Option.bind_eq_some_iff.1 hrestRead
          obtain ⟨_, -, hnil⟩ := Option.bind_eq_some_iff.1 hrestRead
          cases hnil
      exact hfaces
    | cons t' rest =>
      cases us with
      | nil => cases hrestRead
      | cons v us =>
        rw [TermPhrase.listFaces_cons_cons, hfaces, hrestFaces]
        rfl

/-- **A pattern on a registered predicate is written as a phrase** that stands for it. -/
theorem Pattern.exists_phrase {q : Predicate} (hp : p.predicate = some q) (hq : registry.has q)
    (hts : ∀ t ∈ p.terms, t.Writable) :
    ∃ u : PatternPhrase, u.faces = p.faces ∧ u.read? registry = some p := by
  obtain ⟨_, terms⟩ := p
  obtain rfl : _ = some q := hp
  have hfind : registry.find? q.name = some q := of_decide_eq_true hq
  obtain ⟨us, hfaces, hread⟩ := exists_phrases hts
  refine ⟨⟨q.name, us⟩, ?_, ?_⟩
  · simp [PatternPhrase.faces, Pattern.faces, hfaces]
  · rw [PatternPhrase.read?, hfind, hread]
    rfl

/-! ## Nodes and lines -/

/-- The tokens of an arm that holds a label or nothing. -/
def armFaces (target : Option String) : List Face :=
  markFace "\x7b" :: ((target.map fun w => (TokenKind.word, w)).toList ++ [markFace "\x7d"])

/-- The tokens that a node is written with, its targets by their labels. -/
def Node.faces (label : Int → String) : Node → List Face
  | .leaf p => (.word, "output") :: p.faces
  | .branch p m r => p.faces ++ (armFaces (m.map label) ++ armFaces (r.map label))

/-- A node has a written form that is read again where the given predicates are registered. -/
structure Node.Writable (registry : Registry) (n : Node) : Prop where
  terms : ∀ t ∈ n.pattern.terms, t.Writable
  has : ∀ q, n.pattern.predicate = some q → registry.has q
  passThrough : n.pattern.predicate = none → n.isBranch ∧ n.pattern.terms = []

/-- The phrase of an arm that holds a label or nothing. -/
def ArmPhrase.ofTarget : Option String → ArmPhrase
  | none => .empty
  | some name => .label name

theorem ArmPhrase.faces_ofTarget : (ofTarget target).faces = armFaces target := by
  cases target <;> rw [ofTarget, faces] <;> rfl

theorem ArmPhrase.bodies_ofTarget : (ofTarget target).bodies = [] := by
  cases target <;> rw [ofTarget, bodies]

theorem ArmPhrase.leads_ofTarget {source : ProgramPhrase} {index : Nat} {target : Option Int}
    (h : ∀ t, target = some t → (ArmPhrase.label (label t)).Leads source index (some t)) :
    (ofTarget (target.map label)).Leads source index target := by
  cases target with
  | none => rfl
  | some t => exact h t rfl

/-- **A node is written as a phrase** with no bodies in its arms, which describes the node wherever
the labels of its targets lead to them. -/
theorem Node.exists_phrase (hn : n.Writable registry) (label : Int → String) : ∃ b : BodyPhrase,
    b.faces = n.faces label ∧ (∀ name, b.bodies name = [(name, b)]) ∧
      ∀ source index,
        (∀ t ∈ n.targets, ∀ i, (ArmPhrase.label (label t)).Leads source i (some t)) →
          b.Describes registry source index n := by
  cases n with
  | leaf p =>
    obtain ⟨q, hq⟩ : ∃ q, p.predicate = some q := by
      cases hp : p.predicate with
      | none => exact absurd (hn.passThrough hp).1 Bool.false_ne_true
      | some q => exact ⟨q, rfl⟩
    obtain ⟨u, hfaces, hread⟩ := p.exists_phrase hq (hn.has q hq) hn.terms
    refine ⟨.leaf u, ?_, fun name => by rw [BodyPhrase.bodies], fun _ _ _ => ⟨p, hread, rfl⟩⟩
    rw [BodyPhrase.faces, hfaces, Node.faces]
  | branch p m r =>
    cases hp : p.predicate with
    | none =>
      -- The pass-through pattern has no terms, so an asterisk is all of it.
      obtain rfl : p = .passThrough := by
        obtain ⟨_, _⟩ := p
        rw [Pattern.passThrough, Pattern.mk.injEq]
        exact ⟨hp, (hn.passThrough hp).2⟩
      refine ⟨.passThrough (.ofTarget (m.map label)) (.ofTarget (r.map label)), ?_, fun name => ?_,
        fun source index h => ?_⟩
      · rw [BodyPhrase.faces, ArmPhrase.faces_ofTarget, ArmPhrase.faces_ofTarget]
        rfl
      · rw [BodyPhrase.bodies, ArmPhrase.bodies_ofTarget, ArmPhrase.bodies_ofTarget]
        rfl
      · obtain ⟨hmatch, hrefute⟩ := forall_mem_targets_branch.1 h
        exact ⟨m, r, rfl, ArmPhrase.leads_ofTarget fun t ht => hmatch t ht _,
          ArmPhrase.leads_ofTarget fun t ht => hrefute t ht _⟩
    | some q =>
      obtain ⟨u, hfaces, hread⟩ := p.exists_phrase hp (hn.has q hp) hn.terms
      refine ⟨.branch u (.ofTarget (m.map label)) (.ofTarget (r.map label)), ?_, fun name => ?_,
        fun source index h => ?_⟩
      · rw [BodyPhrase.faces, hfaces, ArmPhrase.faces_ofTarget, ArmPhrase.faces_ofTarget]
        rfl
      · rw [BodyPhrase.bodies, ArmPhrase.bodies_ofTarget, ArmPhrase.bodies_ofTarget]
        rfl
      · obtain ⟨hmatch, hrefute⟩ := forall_mem_targets_branch.1 h
        exact ⟨p, m, r, hread, rfl, ArmPhrase.leads_ofTarget fun t ht => hmatch t ht _,
          ArmPhrase.leads_ofTarget fun t ht => hrefute t ht _⟩

/-- The tokens that labelled nodes are written with. -/
def linesFaces (label : Int → String) (lines : List (String × Node)) : List Face :=
  lines.flatMap fun (name, n) => (.word, name) :: markFace ":" :: n.faces label

/-- **Lines are written as a phrase** that defines their labels, and its bodies describe their nodes
wherever the labels of the targets lead to them. -/
theorem exists_phrase_of_lines (label : Int → String)
    (hlines : ∀ l ∈ lines, l.2.Writable registry) :
    ∃ source : ProgramPhrase, source.faces = linesFaces label lines ∧
      source.given = lines.map (fun l => some l.1) ∧
      ∀ whole : ProgramPhrase,
        (∀ l ∈ lines, ∀ t ∈ l.2.targets, ∀ i, (ArmPhrase.label (label t)).Leads whole i (some t)) →
          List.Forall₂ (fun x l => ∀ index, x.2.Describes registry whole index l.2) source.bodies
            lines := by
  induction lines with
  | nil => exact ⟨[], rfl, rfl, fun _ _ => .nil⟩
  | cons l lines ih =>
    obtain ⟨hl, hrest⟩ := List.forall_mem_cons.1 hlines
    obtain ⟨b, hbFaces, hbBodies, hb⟩ := l.2.exists_phrase hl label
    obtain ⟨source, hfaces, hgiven, hbodies⟩ := ih hrest
    have hcons : ProgramPhrase.bodies ((l.1, b) :: source) = (some l.1, b) :: source.bodies := by
      rw [ProgramPhrase.bodies_cons, hbBodies]
      rfl
    refine ⟨(l.1, b) :: source, ?_, ?_, fun whole h => ?_⟩
    · rw [ProgramPhrase.faces_cons, hbFaces, hfaces]
      rfl
    · rw [ProgramPhrase.given, hcons, List.map_cons, List.map_cons, ← hgiven]
      rfl
    · obtain ⟨hleads, hothers⟩ := List.forall_mem_cons.1 h
      rw [hcons]
      exact .cons (fun index => hb whole index hleads) (hbodies whole hothers)

end RuleDiagram
