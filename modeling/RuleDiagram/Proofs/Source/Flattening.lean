import RuleDiagram.Proofs.Source.Bodies
import RuleDiagram.Proofs.Source.Layout
import RuleDiagram.Proofs.Source.Unambiguous

/-!
# Nesting is a way of writing

A body in an arm may as well stand on its own, under a label that takes its place in the arm. If all
bodies do, in the order of the text, none of them changes its index. A label leads to the same body
as before, and so does the new label of a body that stood in an arm.

## Main definitions

* `ProgramPhrase.flat`: all bodies of a program as definitions
* `ProgramPhrase.Labelling`: labels for all bodies of a program

## Main results

* `ProgramPhrase.labelling_someLabel`: a program has labels for all its bodies
* `ProgramPhrase.Describes.flat`: the flat program describes the same diagram
* `ProgramPhrase.stands_flat`: the flat program can be written
* `parse_flat`: the flat program of a text is parsed to the same diagram
-/

namespace RuleDiagram

/-! ## Labels in place of bodies -/

/-- An arm with the label of an index in place of a body. -/
def ArmPhrase.flat (label : Nat → String) (index : Nat) : ArmPhrase → ArmPhrase
  | .empty => .empty
  | .label name => .label name
  | .body _ _ => .label (label index)

/-- The body of an index with labels in place of the bodies in its arms. -/
def BodyPhrase.flat (label : Nat → String) (index : Nat) : BodyPhrase → BodyPhrase
  | .passThrough m r =>
    .passThrough (m.flat label (index + 1)) (r.flat label (index + 1 + m.bodies.length))
  | .leaf p => .leaf p
  | .branch p m r =>
    .branch p (m.flat label (index + 1)) (r.flat label (index + 1 + m.bodies.length))

/-- **The flat program**: all bodies in text order as labelled definitions, with labels in place of
the bodies in arms. -/
def ProgramPhrase.flat (label : Nat → String) (source : ProgramPhrase) : ProgramPhrase :=
  source.bodies.zipIdx.map fun (x, i) => (label i, x.2.flat label i)

/-- **Labels for all bodies of a program**: words, each for one body only, that keep the labels
given in the program and name no other body as the root. -/
structure ProgramPhrase.Labelling (source : ProgramPhrase) (label : Nat → String) : Prop where
  word : ∀ i < source.bodies.length, isWord (label i)
  injective : ∀ i < source.bodies.length, ∀ j < source.bodies.length, label i = label j → i = j
  keeps : ∀ i name, source.given[i]? = some (some name) → label i = name
  root : ∀ i, source.given[i]? = some none → label i ≠ "root"

variable {registry : Registry} {source : ProgramPhrase} {d : Diagram} {label : Nat → String}
  {index k : Nat} {w : String}

/-! ## Bodies of the flat program -/

theorem ArmPhrase.bodies_flat (a : ArmPhrase) : (a.flat label index).bodies = [] := by
  cases a <;> rw [flat, bodies]

theorem BodyPhrase.bodies_flat (b : BodyPhrase) (name : Option String) :
    (b.flat label index).bodies name = [(name, b.flat label index)] := by
  cases b <;> rw [flat, bodies]
  · rw [ArmPhrase.bodies_flat, ArmPhrase.bodies_flat]
    rfl
  · rw [ArmPhrase.bodies_flat, ArmPhrase.bodies_flat]
    rfl

namespace ProgramPhrase

/-- **The flat program has the bodies of the program**, in the same order. -/
theorem bodies_flat (label : Nat → String) (source : ProgramPhrase) :
    (source.flat label).bodies =
      source.bodies.zipIdx.map fun x => (some (label x.2), x.1.2.flat label x.2) := by
  rw [bodies, flat, List.flatMap_map, List.map_eq_flatMap]
  simp only [BodyPhrase.bodies_flat]

theorem zipIdx_bodies_flat (label : Nat → String) (source : ProgramPhrase) :
    (source.flat label).bodies.zipIdx =
      source.bodies.zipIdx.map fun x => ((some (label x.2), x.1.2.flat label x.2), x.2) := by
  -- The bodies are numbered already, and numbering them again gives the same numbers.
  refine List.ext_getElem ?_ fun i hi hi' => ?_
  · rw [bodies_flat, List.length_zipIdx, List.length_map, List.length_map]
  · simp only [bodies_flat, List.getElem_zipIdx, List.getElem_map, Nat.zero_add]

theorem length_given (source : ProgramPhrase) : source.given.length = source.bodies.length :=
  List.length_map _

theorem given_flat (label : Nat → String) (source : ProgramPhrase) :
    (source.flat label).given = (List.range source.bodies.length).map fun i => some (label i) := by
  have hmap : (source.flat label).given =
      (source.bodies.zipIdx.map Prod.snd).map fun i => some (label i) := by
    rw [given, bodies_flat, List.map_map, List.map_map]
    rfl
  rw [hmap, List.zipIdx_map_snd, List.range_eq_range']

theorem getElem?_given_flat : (source.flat label).given[k]? = some (some w) ↔
    k < source.bodies.length ∧ label k = w := by
  simp only [given_flat, List.getElem?_map, Option.map_eq_some_iff, Option.some_inj,
    List.getElem?_eq_some_iff, List.length_range, List.getElem_range]
  constructor
  · rintro ⟨_, ⟨hk, rfl⟩, heq⟩
    exact ⟨hk, heq⟩
  · rintro ⟨hk, heq⟩
    exact ⟨k, ⟨hk, rfl⟩, heq⟩

/-- The flat program defines the labels of all bodies. -/
theorem labels_flat (label : Nat → String) (source : ProgramPhrase) :
    (source.flat label).labels = (List.range source.bodies.length).map label := by
  rw [← filterMap_given, given_flat, List.filterMap_map]
  exact congrFun List.filterMap_eq_map _

theorem Labelling.nodup_labels (h : source.Labelling label) : (source.flat label).labels.Nodup := by
  rw [labels_flat]
  refine List.Nodup.map_on (fun i hi j hj heq => ?_) List.nodup_range
  exact h.injective i (List.mem_range.1 hi) j (List.mem_range.1 hj) heq

/-! ## Labels for all bodies -/

/-- A label longer than all of a program, made for an index. -/
def freshLabel (source : ProgramPhrase) (index : Nat) : String :=
  String.ofList (List.replicate ((source.labels.map String.length).sum + index + 1) '_')

/-- The labels that the bodies of a program are given, and fresh ones for the others. -/
def someLabel (source : ProgramPhrase) (index : Nat) : String :=
  ((source.given[index]?).bind id).getD (source.freshLabel index)

theorem toList_freshLabel (source : ProgramPhrase) (index : Nat) :
    (source.freshLabel index).toList =
      '_' :: List.replicate ((source.labels.map String.length).sum + index) '_' := by
  rw [freshLabel, String.toList_ofList, List.replicate_succ]

theorem length_freshLabel (source : ProgramPhrase) (index : Nat) :
    (source.freshLabel index).length = (source.labels.map String.length).sum + index + 1 := by
  rw [freshLabel, String.length_ofList, List.length_replicate]

theorem freshLabel_notMem (source : ProgramPhrase) (index : Nat) :
    source.freshLabel index ∉ source.labels := by
  intro hmem
  have hle := List.le_sum_of_mem (List.mem_map_of_mem (f := String.length) hmem)
  rw [length_freshLabel] at hle
  omega

theorem isWord_freshLabel (source : ProgramPhrase) (index : Nat) :
    isWord (source.freshLabel index) := by
  have hstart : isWordStart '_' := by decide
  have hpart : isWordPart '_' := by decide
  rw [isWord, toList_freshLabel]
  simp [hstart, hpart]

theorem freshLabel_ne_root (source : ProgramPhrase) (index : Nat) :
    source.freshLabel index ≠ "root" := by
  intro h
  have hlist := congrArg String.toList h
  rw [toList_freshLabel] at hlist
  cases hlist

theorem someLabel_cases (source : ProgramPhrase) (index : Nat) :
    (∃ w, source.given[index]? = some (some w) ∧ source.someLabel index = w) ∨
      (∀ w, source.given[index]? ≠ some (some w)) ∧
        source.someLabel index = source.freshLabel index := by
  unfold someLabel
  cases h : source.given[index]? with
  | none => exact .inr ⟨by simp, rfl⟩
  | some name =>
    cases name with
    | none => exact .inr ⟨by simp, rfl⟩
    | some w => exact .inl ⟨w, rfl, rfl⟩

/-- **A program has labels for all its bodies.** -/
theorem labelling_someLabel (hnodup : source.labels.Nodup)
    (hwords : ∀ w ∈ source.labels, isWord w) : source.Labelling source.someLabel where
  word i _ := by
    obtain ⟨w, hw, h⟩ | ⟨-, h⟩ := source.someLabel_cases i
    · exact h ▸ hwords w (mem_labels_of_given hw)
    · exact h ▸ isWord_freshLabel source i
  injective i _ j _ heq := by
    obtain ⟨w, hw, hi⟩ | ⟨-, hi⟩ := source.someLabel_cases i
    · obtain ⟨w', hw', hj⟩ | ⟨-, hj⟩ := source.someLabel_cases j
      · obtain rfl : w = w' := hi.symm.trans (heq.trans hj)
        exact eq_of_given hnodup hw hw'
      · have hmem := mem_labels_of_given hw
        rw [← hi, heq, hj] at hmem
        exact absurd hmem (source.freshLabel_notMem j)
    · obtain ⟨w', hw', hj⟩ | ⟨-, hj⟩ := source.someLabel_cases j
      · have hmem := mem_labels_of_given hw'
        rw [← hj, ← heq, hi] at hmem
        exact absurd hmem (source.freshLabel_notMem i)
      · -- Fresh labels differ by their lengths.
        have hlength := congrArg String.length (hi.symm.trans (heq.trans hj))
        rw [length_freshLabel, length_freshLabel] at hlength
        omega
  keeps i name hname := by
    obtain ⟨w, hw, h⟩ | ⟨hnone, -⟩ := source.someLabel_cases i
    · rw [hw] at hname
      cases hname
      exact h
    · exact absurd hname (hnone name)
  root i hi := by
    obtain ⟨w, hw, -⟩ | ⟨-, h⟩ := source.someLabel_cases i
    · rw [hi] at hw
      cases hw
    · exact h ▸ source.freshLabel_ne_root i

end ProgramPhrase

/-! ## The diagram of the flat program -/

/-- **An arm leads to the same node** if a label takes the place of a body in it. -/
theorem ArmPhrase.Leads.flat {a : ArmPhrase} {target : Option Int} (hlabel : source.Labelling label)
    (h : a.Leads source index target) (hrange : ∀ t, target = some t → t < source.bodies.length)
    (i : Nat) : (a.flat label index).Leads (source.flat label) i target := by
  cases a with
  | empty => exact h
  | label name =>
    -- The body with the label keeps it, and its place.
    obtain ⟨k, hk, rfl⟩ := h
    obtain ⟨hlt, -⟩ := List.getElem?_eq_some_iff.1 hk
    rw [ProgramPhrase.length_given] at hlt
    exact ⟨k, ProgramPhrase.getElem?_given_flat.2 ⟨hlt, hlabel.keeps k name hk⟩, rfl⟩
  | body name b =>
    -- The body has moved out of the arm under the label that the arm holds now.
    obtain rfl : target = some (index : Int) := h
    have hlt : index < source.bodies.length := Int.ofNat_lt.1 (hrange _ rfl)
    exact ⟨index, ProgramPhrase.getElem?_given_flat.2 ⟨hlt, rfl⟩, rfl⟩

/-- **A body describes the same node** if labels take the place of the bodies in its arms. -/
theorem BodyPhrase.Describes.flat {b : BodyPhrase} {n : Node} (hlabel : source.Labelling label)
    (h : b.Describes registry source index n)
    (hrange : ∀ t ∈ n.targets, t < source.bodies.length) :
    (b.flat label index).Describes registry (source.flat label) index n := by
  cases b with
  | passThrough m r =>
    obtain ⟨onMatch, onRefute, rfl, hm, hr⟩ := h
    obtain ⟨hmatch, hrefute⟩ := Node.forall_mem_targets_branch.1 hrange
    exact ⟨onMatch, onRefute, rfl, hm.flat hlabel hmatch _, hr.flat hlabel hrefute _⟩
  | leaf p => exact h
  | branch p m r =>
    obtain ⟨pattern, onMatch, onRefute, hp, rfl, hm, hr⟩ := h
    obtain ⟨hmatch, hrefute⟩ := Node.forall_mem_targets_branch.1 hrange
    exact ⟨pattern, onMatch, onRefute, hp, rfl, hm.flat hlabel hmatch _,
      hr.flat hlabel hrefute _⟩

theorem ProgramPhrase.Describes.targets_lt (h : source.Describes registry d)
    (htargets : ∀ n ∈ d.nodes, ∀ t ∈ n.targets, inRange d.size t) :
    ∀ n ∈ d.nodes, ∀ t ∈ n.targets, t < source.bodies.length := by
  intro n hn t ht
  have hlength : source.bodies.length = d.nodes.length := by
    rw [← h.nodes.length_eq, List.length_zipIdx]
  rw [hlength]
  exact (inRange_iff.1 (htargets n hn t ht)).2

/-- **The flat program describes the same diagram**, if the targets of the diagram are in range. -/
theorem ProgramPhrase.Describes.flat (hlabel : source.Labelling label)
    (h : source.Describes registry d)
    (htargets : ∀ n ∈ d.nodes, ∀ t ∈ n.targets, inRange d.size t) :
    (source.flat label).Describes registry d where
  nodes := by
    rw [zipIdx_bodies_flat, List.forall₂_map_left_iff]
    have hnodes := (List.forall₂_and_left _ _).2 ⟨h.targets_lt htargets, h.nodes.flip⟩
    exact hnodes.flip.imp fun x n hn =>
      BodyPhrase.Describes.flat hlabel hn.2 hn.1
  root := by
    obtain ⟨k, hk, hroot⟩ | ⟨hnone, hroot⟩ := h.root
    · obtain ⟨hlt, -⟩ := List.getElem?_eq_some_iff.1 hk
      rw [length_given] at hlt
      exact .inl ⟨k, getElem?_given_flat.2 ⟨hlt, hlabel.keeps k "root" hk⟩, hroot⟩
    · refine .inr ⟨fun hmem => ?_, hroot⟩
      obtain ⟨k, hk⟩ := List.getElem?_of_mem hmem
      obtain ⟨hlt, hrootLabel⟩ := getElem?_given_flat.1 hk
      -- A body labelled as the root has that label in the program already.
      have hlt : k < source.given.length := source.length_given ▸ hlt
      cases hgiven : source.given[k] with
      | none => exact hlabel.root k (List.getElem?_eq_some_iff.2 ⟨hlt, hgiven⟩) hrootLabel
      | some w =>
        have hsome : source.given[k]? = some (some w) := List.getElem?_eq_some_iff.2 ⟨hlt, hgiven⟩
        obtain rfl : w = "root" := (hlabel.keeps k w hsome).symm.trans hrootLabel
        exact hnone (List.mem_of_getElem? hsome)

/-! ## The text of the flat program -/

/-- A label takes the place of a body in writing too. -/
theorem ArmPhrase.stands_flat {a : ArmPhrase} {target : Option Int}
    (hlabel : source.Labelling label) (h : a.Leads source index target)
    (hrange : ∀ t, target = some t → t < source.bodies.length) (hfaces : ∀ f ∈ a.faces, Stands f) :
    ∀ f ∈ (a.flat label index).faces, Stands f := by
  cases a with
  | empty => exact hfaces
  | label name => exact hfaces
  | body name b =>
    obtain rfl : target = some (index : Int) := h
    have hword := hlabel.word index (Int.ofNat_lt.1 (hrange _ rfl))
    rw [flat, faces]
    exact List.forall_mem_cons.2 ⟨stands_mark (by decide), List.forall_mem_cons.2
      ⟨stands_word hword, List.forall_mem_singleton.2 (stands_mark (by decide))⟩⟩

theorem BodyPhrase.stands_flat {b : BodyPhrase} {n : Node} (hlabel : source.Labelling label)
    (h : b.Describes registry source index n)
    (hrange : ∀ t ∈ n.targets, t < source.bodies.length) (hfaces : ∀ f ∈ b.faces, Stands f) :
    ∀ f ∈ (b.flat label index).faces, Stands f := by
  cases b with
  | passThrough m r =>
    obtain ⟨onMatch, onRefute, rfl, hm, hr⟩ := h
    obtain ⟨hmatch, hrefute⟩ := Node.forall_mem_targets_branch.1 hrange
    rw [faces, List.forall_mem_cons, List.forall_mem_append] at hfaces
    rw [flat, faces, List.forall_mem_cons, List.forall_mem_append]
    exact ⟨hfaces.1, m.stands_flat hlabel hm hmatch hfaces.2.1,
      r.stands_flat hlabel hr hrefute hfaces.2.2⟩
  | leaf p => exact hfaces
  | branch p m r =>
    obtain ⟨pattern, onMatch, onRefute, -, rfl, hm, hr⟩ := h
    obtain ⟨hmatch, hrefute⟩ := Node.forall_mem_targets_branch.1 hrange
    rw [faces, List.forall_mem_append, List.forall_mem_append] at hfaces
    rw [flat, faces, List.forall_mem_append, List.forall_mem_append]
    exact ⟨hfaces.1, m.stands_flat hlabel hm hmatch hfaces.2.1,
      r.stands_flat hlabel hr hrefute hfaces.2.2⟩

/-- **The flat program can be written**, if the program is. -/
theorem ProgramPhrase.stands_flat (hlabel : source.Labelling label)
    (h : source.Describes registry d)
    (htargets : ∀ n ∈ d.nodes, ∀ t ∈ n.targets, inRange d.size t)
    (hfaces : ∀ f ∈ source.faces, Stands f) : ∀ f ∈ (source.flat label).faces, Stands f := by
  intro f hf
  obtain ⟨definition, hdefinition, hf⟩ := List.mem_flatMap.1 hf
  obtain ⟨⟨x, i⟩, hx, rfl⟩ := List.mem_map.1 hdefinition
  obtain ⟨n, hn, hdescribes⟩ := List.exists_right_of_forall₂ h.nodes hx
  have hi := List.mem_zipIdx_iff_getElem?.1 hx
  obtain hf | hf := List.mem_append.1 hf
  · -- A definition begins with its label and a colon.
    obtain ⟨hlt, -⟩ := List.getElem?_eq_some_iff.1 hi
    exact List.forall_mem_cons.2 ⟨stands_word (hlabel.word i hlt),
      List.forall_mem_singleton.2 (stands_mark (by decide))⟩ f hf
  · have hbody : ∀ f ∈ x.2.faces, Stands f := fun f hf =>
      hfaces f (source.faces_subset x (List.mem_of_getElem? hi) hf)
    exact BodyPhrase.stands_flat hlabel hdescribes (h.targets_lt htargets n hn) hbody f hf

/-! ## Nesting -/

/-- **Nesting is only a way of writing.** A text that is parsed has one phrase. The phrase describes
the diagram: the body of each index in text order is the node of that index. There are labels for
all its bodies; whichever are taken, the flat program has a text, and each of its texts is parsed to
the same diagram. -/
theorem parse_flat {text : String} (h : parse registry text = .ok d) :
    ∃ ts, tokenize text = .ok ts ∧ ∃ source : ProgramPhrase,
      (∀ source' : ProgramPhrase,
        source'.faces = ts.tokens.map Token.face ↔ source' = source) ∧
      source.Describes registry d ∧ (∃ label, source.Labelling label) ∧
      ∀ label, source.Labelling label →
        (∃ text' ts', tokenize text' = .ok ts' ∧
          ts'.tokens.map Token.face = (source.flat label).faces) ∧
        ∀ text' ts', tokenize text' = .ok ts' →
          ts'.tokens.map Token.face = (source.flat label).faces →
          parse registry text' = .ok d := by
  obtain ⟨ts, htokens, source, hfaces, hnodup, hdescribes, hvalid⟩ := parse_eq_ok_iff.1 h
  have htargets := (Diagram.wellFormed_of_fault?_eq_none
    (Diagram.validate_eq_ok_iff.1 hvalid).1).targets
  have hstands : ∀ f ∈ source.faces, Stands f := by
    rw [hfaces]
    exact List.forall_mem_map.2 fun t ht => (isLexeme_of_tokensFrom htokens t ht).stands
  have hwords : ∀ w ∈ source.labels, isWord w := by
    intro w hw
    have hmem := hfaces ▸ ProgramPhrase.mem_faces_of_mem_labels hw
    obtain ⟨t, ht, hface⟩ := List.mem_map.1 hmem
    obtain ⟨hkind, rfl⟩ := Prod.mk.inj hface
    exact isWord_of_tokenize htokens ht hkind
  refine ⟨ts, htokens, source, fun source' => ⟨fun h => ?_, fun h => h ▸ hfaces⟩, hdescribes,
    ⟨_, ProgramPhrase.labelling_someLabel hnodup hwords⟩, fun label hlabel => ⟨?_, ?_⟩⟩
  · exact ProgramPhrase.eq_of_faces (h.trans hfaces.symm)
  · exact exists_tokenize_of_stands (ProgramPhrase.stands_flat hlabel hdescribes htargets hstands)
  · intro text' ts' htokens' hflat
    exact parse_eq_ok_iff.2 ⟨ts', htokens', source.flat label, hflat.symm, hlabel.nodup_labels,
      hdescribes.flat hlabel htargets, hvalid⟩

namespace Nest

def predicate : Predicate := ⟨"p", 1⟩

def vocabulary : Registry := ⟨[predicate], by decide⟩

/-- Three bodies in arms, two of them labelled, of which one is the root and the other is named in
front of its definition. -/
def text : String :=
  "x: * \x7by\x7d \x7bp(:1) \x7broot: * \x7bx\x7d \x7b\x7d\x7d \x7by: output p(:2)\x7d\x7d"

def diagram : Diagram :=
  ⟨[.branch .passThrough (some 3) (some 1),
    .branch ⟨some predicate, [.constant (.int 1)]⟩ (some 2) (some 3),
    .branch .passThrough (some 0) none,
    .leaf ⟨some predicate, [.constant (.int 2)]⟩], 2⟩

/-- The text is parsed to the diagram, and so is a text of its flat program. -/
theorem parse_flat_text : parse vocabulary text = .ok diagram ∧
    ∃ ts, tokenize text = .ok ts ∧ ∃ source : ProgramPhrase,
      source.faces = ts.tokens.map Token.face ∧ source.Describes vocabulary diagram ∧
      ∃ label, source.Labelling label ∧ ∃ text' ts', tokenize text' = .ok ts' ∧
        ts'.tokens.map Token.face = (source.flat label).faces ∧
        parse vocabulary text' = .ok diagram := by
  have hparse : parse vocabulary text = .ok diagram := by decide +kernel
  obtain ⟨ts, hts, source, hsource, hdescribes, ⟨label, hlabel⟩, hflat⟩ := parse_flat hparse
  obtain ⟨⟨text', ts', hts', hfaces⟩, hparsed⟩ := hflat label hlabel
  exact ⟨hparse, ts, hts, source, (hsource source).2 rfl, hdescribes, label, hlabel, text', ts',
    hts', hfaces, hparsed text' ts' hts' hfaces⟩

end Nest

end RuleDiagram
