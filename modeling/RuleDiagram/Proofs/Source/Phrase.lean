import RuleDiagram.Proofs.Outcome
import RuleDiagram.Proofs.Source.Token
import RuleDiagram.Source.Parser

/-!
# The grammar of diagram source

A phrase is a derivation in the grammar of diagram source, one constructor for each alternative:

    program     =  definition definition*
    definition  =  word ":" body
    body        =  "*" arm arm  |  "output" pattern  |  pattern arm arm
    arm         =  "{" "}"  |  "{" word "}"  |  "{" definition "}"  |  "{" body "}"
    pattern     =  word "(" [term ("," term)*] ")"
    term        =  quote  |  "true"  |  "false"  |  ":" (int | float | word)  |
                   "%" int-without-minus ["<-" "_"]

No word is reserved: `output`, `true` and `false` are names of predicates and labels as well.

## Main definitions

* `TermPhrase`, `PatternPhrase`, `BodyPhrase`, `ArmPhrase`, `ProgramPhrase`: phrases
* `ProgramPhrase.faces`: the tokens that a phrase derives
* `ProgramPhrase.names`, `ProgramPhrase.labels`: the predicates that it names and the labels that it
  defines
* `ProgramPhrase.read?`: the program that it stands for
* `Token.fault?`: what is wrong with the text of a token

## Main results

* `ProgramPhrase.exists_read?_iff`: a phrase without a faulty token stands for a program just if its
  predicates are registered
-/

namespace RuleDiagram

/-! ## Phrases -/

/-- A term as it is written. -/
inductive TermPhrase where
  | quote (text : String)
  | truth (b : Bool)
  | int (text : String)
  | float (text : String)
  | word (text : String)
  | reference (digits : String) (unsigned : digits.toList.head? ≠ some '-')
  | free (digits : String) (unsigned : digits.toList.head? ≠ some '-')

/-- A pattern as it is written. -/
structure PatternPhrase where
  name : String
  terms : List TermPhrase

mutual

/-- A body as it is written. -/
inductive BodyPhrase where
  | passThrough (onMatch onRefute : ArmPhrase)
  | leaf (pattern : PatternPhrase)
  | branch (pattern : PatternPhrase) (onMatch onRefute : ArmPhrase)

/-- An arm as it is written; the body in it may be labelled. -/
inductive ArmPhrase where
  | empty
  | label (name : String)
  | body (name : Option String) (body : BodyPhrase)

end

/-- Definitions as they are written. -/
abbrev ProgramPhrase := List (String × BodyPhrase)

/-! ## The tokens of a phrase -/

def TermPhrase.faces : TermPhrase → List Face
  | quote text => [(.quote, text)]
  | truth b => [(.word, if b then "true" else "false")]
  | int text => [markFace ":", (.int, text)]
  | float text => [markFace ":", (.float, text)]
  | word text => [markFace ":", (.word, text)]
  | reference digits _ => [markFace "%", (.int, digits)]
  | free digits _ => [markFace "%", (.int, digits), (.arrow, "<-"), (.word, "_")]

/-- The tokens of terms with commas between them. -/
def TermPhrase.listFaces : List TermPhrase → List Face
  | [] => []
  | [u] => u.faces
  | u :: rest => u.faces ++ markFace "," :: listFaces rest

def PatternPhrase.faces (u : PatternPhrase) : List Face :=
  (.word, u.name) :: markFace "(" :: (TermPhrase.listFaces u.terms ++ [markFace ")"])

/-- The tokens of a label in front of a body. -/
def labelFaces (name : String) : List Face := [(.word, name), markFace ":"]

mutual

def BodyPhrase.faces : BodyPhrase → List Face
  | .passThrough m r => markFace "*" :: (m.faces ++ r.faces)
  | .leaf p => (.word, "output") :: p.faces
  | .branch p m r => p.faces ++ (m.faces ++ r.faces)

def ArmPhrase.faces : ArmPhrase → List Face
  | .empty => [markFace "\x7b", markFace "\x7d"]
  | .label name => [markFace "\x7b", (.word, name), markFace "\x7d"]
  | .body (some name) b => markFace "\x7b" :: (labelFaces name ++ (b.faces ++ [markFace "\x7d"]))
  | .body none b => markFace "\x7b" :: (b.faces ++ [markFace "\x7d"])

end

def ProgramPhrase.faces (source : ProgramPhrase) : List Face :=
  source.flatMap fun (name, b) => labelFaces name ++ b.faces

/-! ## The predicates that a phrase names -/

mutual

def BodyPhrase.names : BodyPhrase → List String
  | .passThrough m r => m.names ++ r.names
  | .leaf p => [p.name]
  | .branch p m r => [p.name] ++ (m.names ++ r.names)

def ArmPhrase.names : ArmPhrase → List String
  | .empty => []
  | .label _ => []
  | .body _ b => b.names

end

def ProgramPhrase.names (source : ProgramPhrase) : List String :=
  source.flatMap fun (_, b) => b.names

/-! ## The labels that a phrase defines -/

mutual

def BodyPhrase.labels : BodyPhrase → List String
  | .passThrough m r => m.labels ++ r.labels
  | .leaf _ => []
  | .branch _ m r => m.labels ++ r.labels

def ArmPhrase.labels : ArmPhrase → List String
  | .empty => []
  | .label _ => []
  | .body name b => name.toList ++ b.labels

end

def ProgramPhrase.labels (source : ProgramPhrase) : List String :=
  source.flatMap fun (name, b) => name :: b.labels

/-! ## What a phrase stands for -/

def TermPhrase.read? : TermPhrase → Option Term
  | quote text => (unquoted text).toOption.map fun s => .constant (.text s)
  | truth b => some (.constant (.bool b))
  | int text => (integerOf text).toOption.map fun z => .constant (.int z)
  | float text => some (.constant (.float (floatOf text)))
  | word text => some (.constant (.text text))
  | reference digits _ => (integerOf digits).toOption.map .reference
  | free digits _ => (integerOf digits).toOption.map .free

def PatternPhrase.read? (registry : Registry) (u : PatternPhrase) : Option Pattern := do
  let q ← registry.find? u.name
  return ⟨some q, ← u.terms.mapM TermPhrase.read?⟩

mutual

def BodyPhrase.read? (registry : Registry) : BodyPhrase → Option Body
  | .passThrough m r => do
    return .branch .passThrough (← m.read? registry) (← r.read? registry)
  | .leaf p => do return .leaf (← p.read? registry)
  | .branch p m r => do
    return .branch (← p.read? registry) (← m.read? registry) (← r.read? registry)

def ArmPhrase.read? (registry : Registry) : ArmPhrase → Option Arm
  | .empty => some .empty
  | .label name => some (.label name)
  | .body name b => do return .body name (← b.read? registry)

end

def ProgramPhrase.read? (registry : Registry) : ProgramPhrase → Option Program
  | [] => some []
  | (name, b) :: rest => do
    return (name, ← b.read? registry) :: (← ProgramPhrase.read? registry rest)

variable {registry : Registry} {source : ProgramPhrase}

theorem TermPhrase.listFaces_cons_cons (u v : TermPhrase) (us : List TermPhrase) :
    listFaces (u :: v :: us) = u.faces ++ markFace "," :: listFaces (v :: us) := rfl

/-- A body begins with an asterisk, or with a word that a word or an opening bracket follows. -/
theorem BodyPhrase.faces_cases (b : BodyPhrase) : (∃ rest, b.faces = markFace "*" :: rest) ∨
    ∃ name g rest, b.faces = (.word, name) :: g :: rest ∧ (g.1 = .word ∨ g = markFace "(") := by
  cases b with
  | passThrough m r => exact .inl ⟨_, by rw [faces]⟩
  | leaf p => exact .inr ⟨_, _, _, by rw [faces, PatternPhrase.faces], .inl rfl⟩
  | branch p m r =>
    have hfaces : (branch p m r).faces = p.faces ++ (m.faces ++ r.faces) := by rw [faces]
    exact .inr ⟨p.name, markFace "(", _, hfaces, .inr rfl⟩

namespace ProgramPhrase

variable {name : String} {b : BodyPhrase}

theorem faces_cons : faces ((name, b) :: source) =
    (.word, name) :: markFace ":" :: (b.faces ++ source.faces) := rfl

theorem names_cons : names ((name, b) :: source) = b.names ++ source.names := rfl

theorem labels_cons : labels ((name, b) :: source) = name :: (b.labels ++ source.labels) := rfl

end ProgramPhrase

mutual

/-- The labels that a body defines are among its tokens. -/
theorem BodyPhrase.mem_faces_of_mem_labels {w : String} (b : BodyPhrase) (hw : w ∈ b.labels) :
    (.word, w) ∈ b.faces := by
  cases b with
  | passThrough m r =>
    rw [BodyPhrase.labels, List.mem_append] at hw
    rw [BodyPhrase.faces, List.mem_cons, List.mem_append]
    exact .inr (hw.imp m.mem_faces_of_mem_labels r.mem_faces_of_mem_labels)
  | leaf p =>
    rw [BodyPhrase.labels] at hw
    cases hw
  | branch p m r =>
    rw [BodyPhrase.labels, List.mem_append] at hw
    rw [BodyPhrase.faces, List.mem_append, List.mem_append]
    exact .inr (hw.imp m.mem_faces_of_mem_labels r.mem_faces_of_mem_labels)

theorem ArmPhrase.mem_faces_of_mem_labels {w : String} (a : ArmPhrase) (hw : w ∈ a.labels) :
    (.word, w) ∈ a.faces := by
  cases a with
  | empty =>
    rw [ArmPhrase.labels] at hw
    cases hw
  | label name =>
    rw [ArmPhrase.labels] at hw
    cases hw
  | body name b =>
    rw [ArmPhrase.labels, List.mem_append] at hw
    cases name with
    | none =>
      rw [ArmPhrase.faces, List.mem_cons, List.mem_append]
      obtain hw | hw := hw
      · cases hw
      · exact .inr (.inl (b.mem_faces_of_mem_labels hw))
    | some name =>
      rw [ArmPhrase.faces, List.mem_cons, List.mem_append, List.mem_append]
      obtain hw | hw := hw
      · obtain rfl := List.mem_singleton.1 hw
        exact .inr (.inl List.mem_cons_self)
      · exact .inr (.inr (.inl (b.mem_faces_of_mem_labels hw)))

end

theorem ProgramPhrase.mem_faces_of_mem_labels {w : String} (hw : w ∈ source.labels) :
    (.word, w) ∈ source.faces := by
  obtain ⟨⟨name, b⟩, hb, hw⟩ := List.mem_flatMap.1 hw
  refine List.mem_flatMap.2 ⟨(name, b), hb, ?_⟩
  obtain rfl | hw := List.mem_cons.1 hw
  · exact List.mem_append_left _ List.mem_cons_self
  · exact List.mem_append_right _ (b.mem_faces_of_mem_labels hw)

/-! ## Phrases that stand for programs -/

/-- **What is wrong with the text of a token**: a quoted text may hold a control character or a
faulty escape, and an integer may have too many digits. -/
def Token.fault? (t : Token) : Option ParseFault :=
  match t.kind with
  | .quote =>
    match unquoted t.text with
    | .ok _ => none
    | .error f => some (.quote f)
  | .int =>
    match integerOf t.text with
    | .ok _ => none
    | .error f => some f
  | _ => none

/-- **None of the tokens with given faces is at fault.** -/
def Decodes (faces : List Face) : Prop := ∀ t : Token, t.face ∈ faces → t.fault? = none

theorem decodes_of_forall {ts : List Token} (h : ∀ t ∈ ts, t.fault? = none) :
    Decodes (ts.map Token.face) := by
  intro t ht
  obtain ⟨t', ht', hface⟩ := List.mem_map.1 ht
  obtain ⟨hkind, htext⟩ := Prod.mk.inj hface
  rw [Token.fault?, ← hkind, ← htext]
  exact h t' ht'

theorem decodes_append {faces faces' : List Face} :
    Decodes (faces ++ faces') ↔ Decodes faces ∧ Decodes faces' := by
  simp only [Decodes, List.mem_append, or_imp, forall_and]

theorem decodes_cons {f : Face} {faces : List Face} (h : Decodes (f :: faces)) : Decodes faces :=
  fun t ht => h t (List.mem_cons_of_mem f ht)

theorem Decodes.exists_integerOf {faces : List Face} {text : String} (h : Decodes faces)
    (hmem : (.int, text) ∈ faces) : ∃ z, integerOf text = .ok z := by
  have hfault := h ⟨.int, text, .start⟩ hmem
  cases hz : integerOf text with
  | ok z => exact ⟨z, rfl⟩
  | error f => simp [Token.fault?, hz] at hfault

theorem Decodes.exists_unquoted {faces : List Face} {text : String} (h : Decodes faces)
    (hmem : (.quote, text) ∈ faces) : ∃ w, unquoted text = .ok w := by
  have hfault := h ⟨.quote, text, .start⟩ hmem
  cases hw : unquoted text with
  | ok w => exact ⟨w, rfl⟩
  | error f => simp [Token.fault?, hw] at hfault

theorem TermPhrase.exists_read? {u : TermPhrase} (h : Decodes u.faces) : ∃ t, u.read? = some t := by
  cases u with
  | quote text =>
    obtain ⟨w, hw⟩ := h.exists_unquoted List.mem_cons_self
    exact ⟨_, Option.map_eq_some_iff.2 ⟨_, Except.toOption_eq_some_iff.2 hw, rfl⟩⟩
  | int text =>
    obtain ⟨z, hz⟩ := h.exists_integerOf (List.mem_cons_of_mem _ List.mem_cons_self)
    exact ⟨_, Option.map_eq_some_iff.2 ⟨_, Except.toOption_eq_some_iff.2 hz, rfl⟩⟩
  | reference digits _ =>
    obtain ⟨z, hz⟩ := h.exists_integerOf (List.mem_cons_of_mem _ List.mem_cons_self)
    exact ⟨_, Option.map_eq_some_iff.2 ⟨_, Except.toOption_eq_some_iff.2 hz, rfl⟩⟩
  | free digits _ =>
    obtain ⟨z, hz⟩ := h.exists_integerOf (List.mem_cons_of_mem _ List.mem_cons_self)
    exact ⟨_, Option.map_eq_some_iff.2 ⟨_, Except.toOption_eq_some_iff.2 hz, rfl⟩⟩
  | _ => exact ⟨_, rfl⟩

theorem TermPhrase.exists_read?_list {us : List TermPhrase} (h : Decodes (listFaces us)) :
    ∃ ts, us.mapM read? = some ts := by
  induction us with
  | nil => exact ⟨[], rfl⟩
  | cons u rest ih =>
    have hparts : Decodes u.faces ∧ Decodes (listFaces rest) := by
      cases rest with
      | nil => exact ⟨h, fun t ht => by cases ht⟩
      | cons v rest =>
        rw [listFaces_cons_cons, decodes_append] at h
        exact ⟨h.1, decodes_cons h.2⟩
    obtain ⟨t, ht⟩ := exists_read? hparts.1
    obtain ⟨ts, hts⟩ := ih hparts.2
    exact ⟨t :: ts, by simp [List.mapM_cons, ht, hts]⟩

/-- All of given names are names of registered predicates. -/
def Registered (registry : Registry) (names : List String) : Prop :=
  ∀ name ∈ names, ∃ q, registry.find? name = some q

theorem registered_append {names names' : List String} : Registered registry (names ++ names') ↔
    Registered registry names ∧ Registered registry names' :=
  List.forall_mem_append

theorem PatternPhrase.exists_read?_iff {u : PatternPhrase} (h : Decodes u.faces) :
    (∃ p, u.read? registry = some p) ↔ Registered registry [u.name] := by
  obtain ⟨terms, hterms⟩ :=
    TermPhrase.exists_read?_list (decodes_append.1 (decodes_cons (decodes_cons h))).1
  rw [Registered, List.forall_mem_singleton, read?]
  cases registry.find? u.name <;> simp [hterms]

mutual

theorem BodyPhrase.exists_read?_iff (b : BodyPhrase) (h : Decodes b.faces) :
    (∃ body, b.read? registry = some body) ↔ Registered registry b.names := by
  cases b with
  | passThrough m r =>
    rw [BodyPhrase.faces] at h
    obtain ⟨hm, hr⟩ := decodes_append.1 (decodes_cons h)
    rw [BodyPhrase.names, registered_append, ← m.exists_read?_iff hm, ← r.exists_read?_iff hr,
      BodyPhrase.read?]
    cases m.read? registry <;> cases r.read? registry <;> simp
  | leaf p =>
    rw [BodyPhrase.faces] at h
    rw [BodyPhrase.names, ← p.exists_read?_iff (decodes_cons h), BodyPhrase.read?]
    cases p.read? registry <;> simp
  | branch p m r =>
    rw [BodyPhrase.faces, decodes_append, decodes_append] at h
    obtain ⟨hp, hm, hr⟩ := h
    rw [BodyPhrase.names, registered_append, registered_append,
      ← p.exists_read?_iff hp, ← m.exists_read?_iff hm, ← r.exists_read?_iff hr, BodyPhrase.read?]
    cases p.read? registry <;> cases m.read? registry <;> cases r.read? registry <;> simp

theorem ArmPhrase.exists_read?_iff (a : ArmPhrase) (h : Decodes a.faces) :
    (∃ arm, a.read? registry = some arm) ↔ Registered registry a.names := by
  cases a with
  | empty =>
    rw [ArmPhrase.read?, ArmPhrase.names]
    exact ⟨fun _ => List.forall_mem_nil _, fun _ => ⟨_, rfl⟩⟩
  | label name =>
    rw [ArmPhrase.read?, ArmPhrase.names]
    exact ⟨fun _ => List.forall_mem_nil _, fun _ => ⟨_, rfl⟩⟩
  | body name b =>
    have hb : Decodes b.faces := by
      cases name with
      | none =>
        rw [ArmPhrase.faces] at h
        exact (decodes_append.1 (decodes_cons h)).1
      | some name =>
        rw [ArmPhrase.faces] at h
        exact (decodes_append.1 (decodes_append.1 (decodes_cons h)).2).1
    rw [ArmPhrase.names, ← b.exists_read?_iff hb, ArmPhrase.read?]
    cases b.read? registry <;> simp

end

/-- **A phrase stands for a program just if its predicates are registered**, where none of its
tokens is at fault. -/
theorem ProgramPhrase.exists_read?_iff (h : Decodes source.faces) :
    (∃ program, source.read? registry = some program) ↔ Registered registry source.names := by
  induction source with
  | nil => exact ⟨fun _ => List.forall_mem_nil _, fun _ => ⟨_, rfl⟩⟩
  | cons definition rest ih =>
    obtain ⟨name, b⟩ := definition
    obtain ⟨hb, hrest⟩ := decodes_append.1 (decodes_cons (decodes_cons (faces_cons ▸ h)))
    rw [names_cons, registered_append, ← b.exists_read?_iff hb, ← ih hrest, read?]
    cases b.read? registry <;> cases ProgramPhrase.read? registry rest <;> simp

end RuleDiagram
