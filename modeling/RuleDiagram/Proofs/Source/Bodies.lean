import RuleDiagram.Proofs.Diagram.WellFormed
import RuleDiagram.Proofs.Source.Acceptance

/-!
# The diagram that a phrase describes

The bodies of a program stand in its text one after another, each in front of those in its arms. The
place of a body in this order is the index of its node. So what a diagram has to do with a phrase
can be told without a parser and a builder: an arm leads to the body in it, or to the one that is
given its label, and the root is the body with that label.

## Main definitions

* `ProgramPhrase.bodies`: the bodies of a program in text order
* `ProgramPhrase.given`: the labels that they are given
* `ProgramPhrase.Describes`: a program describes a diagram

## Main results

* `ProgramPhrase.filterMap_given`: the labels that a program defines are those that its bodies are
  given
* `ProgramPhrase.assemble_eq_ok_iff`: the builder of a program assembles the diagram that it
  describes
* `parse_eq_ok_iff`: a text is parsed to the well-formed diagram that a phrase of its tokens
  describes
-/

namespace RuleDiagram

/-! ## Bodies in text order -/

mutual

/-- The bodies of a body in text order, itself first, with their labels. -/
def BodyPhrase.bodies (name : Option String) : BodyPhrase → List (Option String × BodyPhrase)
  | .passThrough m r => (name, .passThrough m r) :: (m.bodies ++ r.bodies)
  | .leaf p => [(name, .leaf p)]
  | .branch p m r => (name, .branch p m r) :: (m.bodies ++ r.bodies)

/-- The bodies in an arm in text order with their labels. -/
def ArmPhrase.bodies : ArmPhrase → List (Option String × BodyPhrase)
  | .empty => []
  | .label _ => []
  | .body name b => b.bodies name

end

/-- **The bodies of a program in text order** with their labels, at any depth. -/
def ProgramPhrase.bodies (source : ProgramPhrase) : List (Option String × BodyPhrase) :=
  source.flatMap fun (name, b) => b.bodies (some name)

/-- The labels that the bodies of a program are given, in text order. -/
def ProgramPhrase.given (source : ProgramPhrase) : List (Option String) :=
  source.bodies.map Prod.fst

/-! ## Descriptions -/

/-- **An arm leads to a node**, if a body in it has the given index: an empty arm to none, a label
to the index of the body that is given it, and a body to its own index. -/
def ArmPhrase.Leads (source : ProgramPhrase) (index : Nat) : ArmPhrase → Option Int → Prop
  | .empty, target => target = none
  | .label name, target => ∃ k : Nat, source.given[k]? = some (some name) ∧ target = some (k : Int)
  | .body _ _, target => target = some (index : Int)

/-- **A body describes a node**, if it has the given index. The bodies in its arms follow it, those
on a match first. -/
def BodyPhrase.Describes (registry : Registry) (source : ProgramPhrase) (index : Nat) :
    BodyPhrase → Node → Prop
  | .passThrough m r, n => ∃ onMatch onRefute, n = .branch .passThrough onMatch onRefute ∧
      m.Leads source (index + 1) onMatch ∧ r.Leads source (index + 1 + m.bodies.length) onRefute
  | .leaf p, n => ∃ pattern, p.read? registry = some pattern ∧ n = .leaf pattern
  | .branch p m r, n => ∃ pattern onMatch onRefute, p.read? registry = some pattern ∧
      n = .branch pattern onMatch onRefute ∧ m.Leads source (index + 1) onMatch ∧
        r.Leads source (index + 1 + m.bodies.length) onRefute

/-- **A program describes a diagram**: the bodies in text order describe the nodes in the order of
their indices, and the root is the body labelled as such, or the first if there is none. -/
structure ProgramPhrase.Describes (registry : Registry) (source : ProgramPhrase) (d : Diagram) :
    Prop where
  nodes : List.Forall₂ (fun x n => x.1.2.Describes registry source x.2 n) source.bodies.zipIdx
    d.nodes
  root : (∃ k : Nat, source.given[k]? = some (some "root") ∧ d.root = k) ∨
    some "root" ∉ source.given ∧ d.root = 0

variable {registry : Registry} {source : ProgramPhrase} {program : Program} {d : Diagram}

theorem ProgramPhrase.bodies_cons {name : String} {b : BodyPhrase} :
    bodies ((name, b) :: source) = b.bodies (some name) ++ source.bodies := rfl

/-! ## Bodies and slots -/

/-- The name of the node that an arm leads to, if a body in it has the given index. -/
def ArmPhrase.ref (index : Nat) : ArmPhrase → Option (NodeRef Int)
  | .empty => none
  | .label name => some (.label name)
  | .body _ _ => some (.index index)

/-- The slot of a body, if it has the given index. -/
def BodyPhrase.slot? (registry : Registry) (index : Nat) : BodyPhrase → Option (Slot Pattern Int)
  | .passThrough m r =>
    some (.branch .passThrough (m.ref (index + 1)) (r.ref (index + 1 + m.bodies.length)))
  | .leaf p => do return .leaf (← p.read? registry)
  | .branch p m r => do
    return .branch (← p.read? registry) (m.ref (index + 1)) (r.ref (index + 1 + m.bodies.length))

theorem ArmPhrase.ref_of_read? {a : ArmPhrase} {arm : Arm} (h : a.read? registry = some arm)
    (index : Nat) : arm.ref index = a.ref index := by
  cases a with
  | empty =>
    rw [read?] at h
    cases h
    rfl
  | label name =>
    rw [read?] at h
    cases h
    rfl
  | body name b =>
    rw [read?] at h
    obtain ⟨body, -, heq⟩ := Option.bind_eq_some_iff.1 h
    cases heq
    rfl

/-- A body of a program and a slot belong together. -/
def Slotted (registry : Registry) (x : (Option String × BodyPhrase) × Nat)
    (y : Option String × Slot Pattern Int) : Prop :=
  x.1.1 = y.1 ∧ x.1.2.slot? registry x.2 = some y.2

mutual

/-- **The bodies of a body belong to its slots**, one by one. -/
theorem BodyPhrase.forall₂_slotted {body : Body} (b : BodyPhrase) (index : Nat)
    (h : b.read? registry = some body) (name : Option String) :
    List.Forall₂ (Slotted registry) ((b.bodies name).zipIdx index) (body.slots index name) := by
  cases b with
  | passThrough m r =>
    rw [BodyPhrase.read?] at h
    obtain ⟨onMatch, hm, h⟩ := Option.bind_eq_some_iff.1 h
    obtain ⟨onRefute, hr, heq⟩ := Option.bind_eq_some_iff.1 h
    cases heq
    -- The bodies on a refutation are numbered behind those on a match, and so are their slots.
    have hmatch := m.forall₂_slotted (index + 1) hm
    have hlength : m.bodies.length = (onMatch.slots (index + 1)).length := by
      rw [← hmatch.length_eq, List.length_zipIdx]
    have hrefute := r.forall₂_slotted (index + 1 + m.bodies.length) hr
    rw [BodyPhrase.bodies, Body.slots, List.zipIdx_cons, List.zipIdx_append, ← hlength,
      ArmPhrase.ref_of_read? hm, ArmPhrase.ref_of_read? hr]
    exact .cons ⟨rfl, rfl⟩ (List.rel_append hmatch hrefute)
  | leaf p =>
    rw [BodyPhrase.read?] at h
    obtain ⟨pattern, hp, heq⟩ := Option.bind_eq_some_iff.1 h
    cases heq
    rw [BodyPhrase.bodies, Body.slots]
    exact .cons ⟨rfl, Option.bind_eq_some_iff.2 ⟨pattern, hp, rfl⟩⟩ .nil
  | branch p m r =>
    rw [BodyPhrase.read?] at h
    obtain ⟨pattern, hp, h⟩ := Option.bind_eq_some_iff.1 h
    obtain ⟨onMatch, hm, h⟩ := Option.bind_eq_some_iff.1 h
    obtain ⟨onRefute, hr, heq⟩ := Option.bind_eq_some_iff.1 h
    cases heq
    have hmatch := m.forall₂_slotted (index + 1) hm
    have hlength : m.bodies.length = (onMatch.slots (index + 1)).length := by
      rw [← hmatch.length_eq, List.length_zipIdx]
    have hrefute := r.forall₂_slotted (index + 1 + m.bodies.length) hr
    rw [BodyPhrase.bodies, Body.slots, List.zipIdx_cons, List.zipIdx_append, ← hlength,
      ArmPhrase.ref_of_read? hm, ArmPhrase.ref_of_read? hr]
    exact .cons ⟨rfl, Option.bind_eq_some_iff.2 ⟨pattern, hp, rfl⟩⟩
      (List.rel_append hmatch hrefute)

theorem ArmPhrase.forall₂_slotted {arm : Arm} (a : ArmPhrase) (index : Nat)
    (h : a.read? registry = some arm) :
    List.Forall₂ (Slotted registry) (a.bodies.zipIdx index) (arm.slots index) := by
  cases a with
  | empty =>
    rw [ArmPhrase.read?] at h
    cases h
    rw [ArmPhrase.bodies, Arm.slots]
    exact .nil
  | label name =>
    rw [ArmPhrase.read?] at h
    cases h
    rw [ArmPhrase.bodies, Arm.slots]
    exact .nil
  | body name b =>
    rw [ArmPhrase.read?] at h
    obtain ⟨body, hb, heq⟩ := Option.bind_eq_some_iff.1 h
    cases heq
    rw [ArmPhrase.bodies, Arm.slots]
    exact b.forall₂_slotted index hb name

end

/-- **The bodies of a program belong to its slots**, one by one. -/
theorem ProgramPhrase.forall₂_slotted (h : source.read? registry = some program) (index : Nat) :
    List.Forall₂ (Slotted registry) (source.bodies.zipIdx index) (program.slots index) := by
  induction source generalizing program index with
  | nil =>
    cases h
    exact .nil
  | cons definition rest ih =>
    obtain ⟨name, b⟩ := definition
    rw [read?] at h
    obtain ⟨body, hb, h⟩ := Option.bind_eq_some_iff.1 h
    obtain ⟨others, hrest, heq⟩ := Option.bind_eq_some_iff.1 h
    cases heq
    have hbody := b.forall₂_slotted index hb (some name)
    have hlength : (b.bodies (some name)).length = (body.slots index (some name)).length := by
      rw [← hbody.length_eq, List.length_zipIdx]
    have hothers := ih hrest (index + (b.bodies (some name)).length)
    rw [Program.slots, ← hlength, bodies_cons, List.zipIdx_append]
    exact List.rel_append hbody hothers

theorem ProgramPhrase.map_fst_slots (h : source.read? registry = some program) :
    (program.slots 0).map Prod.fst = source.given := by
  have hnames : List.Forall₂ Eq (source.bodies.zipIdx.map fun x => x.1.1)
      ((program.slots 0).map Prod.fst) :=
    List.forall₂_map_left_iff.2 (List.forall₂_map_right_iff.2
      ((source.forall₂_slotted h 0).imp fun _ _ h => h.1))
  rw [List.forall₂_eq_eq_eq] at hnames
  have hgiven : source.bodies.zipIdx.map (fun x => x.1.1) =
      (source.bodies.zipIdx.map Prod.fst).map Prod.fst := by
    rw [List.map_map]
    rfl
  rw [← hnames, hgiven, List.zipIdx_map_fst, given]

/-! ## Tokens -/

mutual

/-- The bodies of a body are written with its tokens. -/
theorem BodyPhrase.faces_subset (b : BodyPhrase) (name : Option String) :
    ∀ x ∈ b.bodies name, x.2.faces ⊆ b.faces := by
  intro x hx
  cases b with
  | passThrough m r =>
    rw [BodyPhrase.bodies, List.mem_cons, List.mem_append] at hx
    rw [BodyPhrase.faces]
    obtain rfl | hx | hx := hx
    · rw [BodyPhrase.faces]
      exact List.Subset.refl _
    · exact List.subset_cons_of_subset _ (List.subset_append_of_subset_left _ (m.faces_subset x hx))
    · exact List.subset_cons_of_subset _
        (List.subset_append_of_subset_right _ (r.faces_subset x hx))
  | leaf p =>
    rw [BodyPhrase.bodies, List.mem_singleton] at hx
    rw [hx]
    exact List.Subset.refl _
  | branch p m r =>
    rw [BodyPhrase.bodies, List.mem_cons, List.mem_append] at hx
    rw [BodyPhrase.faces]
    obtain rfl | hx | hx := hx
    · rw [BodyPhrase.faces]
      exact List.Subset.refl _
    · exact List.subset_append_of_subset_right _
        (List.subset_append_of_subset_left _ (m.faces_subset x hx))
    · exact List.subset_append_of_subset_right _
        (List.subset_append_of_subset_right _ (r.faces_subset x hx))

theorem ArmPhrase.faces_subset (a : ArmPhrase) : ∀ x ∈ a.bodies, x.2.faces ⊆ a.faces := by
  intro x hx
  cases a with
  | empty =>
    rw [ArmPhrase.bodies] at hx
    cases hx
  | label name =>
    rw [ArmPhrase.bodies] at hx
    cases hx
  | body name b =>
    rw [ArmPhrase.bodies] at hx
    have hb := b.faces_subset name x hx
    cases name with
    | none =>
      rw [ArmPhrase.faces]
      exact List.subset_cons_of_subset _ (List.subset_append_of_subset_left _ hb)
    | some name =>
      rw [ArmPhrase.faces]
      exact List.subset_cons_of_subset _ (List.subset_append_of_subset_right _
        (List.subset_append_of_subset_left _ hb))

end

theorem ProgramPhrase.faces_subset (source : ProgramPhrase) :
    ∀ x ∈ source.bodies, x.2.faces ⊆ source.faces := by
  intro x hx
  obtain ⟨⟨name, b⟩, hb, hx⟩ := List.mem_flatMap.1 hx
  intro f hf
  exact List.mem_flatMap.2 ⟨(name, b), hb, List.mem_append_right _ (b.faces_subset _ x hx hf)⟩

/-! ## Labels -/

mutual

/-- The labels that a body defines are those that its bodies are given, without its own. -/
theorem BodyPhrase.filterMap_bodies (b : BodyPhrase) (name : Option String) :
    (b.bodies name).filterMap Prod.fst = name.toList ++ b.labels := by
  cases b with
  | passThrough m r =>
    rw [BodyPhrase.bodies, BodyPhrase.labels, List.filterMap_cons, List.filterMap_append,
      m.filterMap_bodies, r.filterMap_bodies]
    cases name <;> rfl
  | leaf p =>
    rw [BodyPhrase.bodies, BodyPhrase.labels]
    cases name <;> rfl
  | branch p m r =>
    rw [BodyPhrase.bodies, BodyPhrase.labels, List.filterMap_cons, List.filterMap_append,
      m.filterMap_bodies, r.filterMap_bodies]
    cases name <;> rfl

theorem ArmPhrase.filterMap_bodies (a : ArmPhrase) : a.bodies.filterMap Prod.fst = a.labels := by
  cases a with
  | empty =>
    rw [ArmPhrase.bodies, ArmPhrase.labels]
    rfl
  | label name =>
    rw [ArmPhrase.bodies, ArmPhrase.labels]
    rfl
  | body name b => rw [ArmPhrase.bodies, ArmPhrase.labels, b.filterMap_bodies]

end

namespace ProgramPhrase

variable {w : String} {i j k : Nat}

/-- **The labels that a program defines are those that its bodies are given**, in text order. -/
theorem filterMap_given (source : ProgramPhrase) : source.given.filterMap id = source.labels := by
  induction source with
  | nil => rfl
  | cons definition rest ih =>
    obtain ⟨name, b⟩ := definition
    rw [given, List.filterMap_map] at ih ⊢
    rw [bodies_cons, List.filterMap_append, ih, labels_cons]
    exact congrArg (· ++ _) (b.filterMap_bodies (some name))

theorem mem_labels_of_given (h : source.given[i]? = some (some w)) : w ∈ source.labels := by
  rw [← filterMap_given]
  exact List.mem_filterMap.2 ⟨some w, List.mem_of_getElem? h, rfl⟩

/-- No two bodies are given the same label, if none is defined twice. -/
theorem eq_of_given (hnodup : source.labels.Nodup) (hi : source.given[i]? = some (some w))
    (hj : source.given[j]? = some (some w)) : i = j := by
  have hpairwise : source.given.Pairwise
      fun x y => ∀ w, x = some w → ∀ w', y = some w' → w ≠ w' := by
    rw [← filterMap_given, List.Nodup, List.pairwise_filterMap] at hnodup
    exact hnodup
  by_contra hne
  obtain ⟨hilt, hi⟩ := List.getElem?_eq_some_iff.1 hi
  obtain ⟨hjlt, hj⟩ := List.getElem?_eq_some_iff.1 hj
  obtain hlt | hlt := Nat.lt_or_gt_of_ne hne
  · exact List.pairwise_iff_getElem.1 hpairwise i j hilt hjlt hlt w hi w hj rfl
  · exact List.pairwise_iff_getElem.1 hpairwise j i hjlt hilt hlt w hj w hi rfl

/-- A label stands for an index just if the body of that index is given it. -/
theorem mem_labels_builder_iff (h : source.read? registry = some program) :
    (w, k) ∈ (program.builder registry).labels ↔ source.given[k]? = some (some w) := by
  rw [← map_fst_slots h, List.getElem?_map, Option.map_eq_some_iff]
  simp only [Program.builder, List.mem_filterMap, List.mem_zipIdx_iff_getElem?,
    Option.map_eq_some_iff]
  constructor
  · rintro ⟨⟨x, i⟩, hx, w', hw, heq⟩
    cases heq
    exact ⟨x, hx, hw⟩
  · rintro ⟨x, hx, hw⟩
    exact ⟨(x, k), hx, w, hw, rfl⟩

/-- **A label is looked up among those that the bodies are given.** -/
theorem lookup_eq_some_iff (h : source.read? registry = some program)
    (hnodup : source.labels.Nodup) :
    (program.builder registry).labels.lookup w = some k ↔ source.given[k]? = some (some w) := by
  rw [← mem_labels_builder_iff h]
  refine ⟨List.mem_of_lookup_eq_some, fun hmem => ?_⟩
  -- Something is found, and no other body is given the label.
  have hsome := List.isSome_lookup_iff_mem.2 (List.mem_map_of_mem hmem)
  obtain ⟨j, hj⟩ := Option.isSome_iff_exists.1 hsome
  have hgiven := (mem_labels_builder_iff h).1 (List.mem_of_lookup_eq_some hj)
  rwa [eq_of_given hnodup ((mem_labels_builder_iff h).1 hmem) hgiven]

end ProgramPhrase

/-! ## Nodes -/

/-- **The node that an arm leads to** is the one that the builder finds under its name. -/
theorem ArmPhrase.mapM_resolve_eq_ok_iff (h : source.read? registry = some program)
    (hnodup : source.labels.Nodup) (a : ArmPhrase) {index : Nat} {target : Option Int} :
    (a.ref index).mapM (program.builder registry).resolve = .ok target ↔
      a.Leads source index target := by
  cases a with
  | empty =>
    rw [ref, Leads, Option.mapM_none, Except.pure_eq_ok_iff]
    exact eq_comm
  | label name =>
    have hlookup {k : Nat} := ProgramPhrase.lookup_eq_some_iff (w := name) (k := k) h hnodup
    rw [ref, Leads, Option.mapM_some, Builder.resolve]
    cases hname : (program.builder registry).labels.lookup name with
    | none =>
      rw [hname] at hlookup
      constructor
      · intro h
        cases h
      · rintro ⟨k, hk, -⟩
        cases hlookup.2 hk
    | some j =>
      rw [hname] at hlookup
      constructor
      · intro h
        cases h
        exact ⟨j, hlookup.1 rfl, rfl⟩
      · rintro ⟨k, hk, rfl⟩
        cases hlookup.2 hk
        rfl
  | body name b =>
    rw [ref, Leads, Option.mapM_some]
    exact Except.pure_eq_ok_iff.trans eq_comm

/-- **The node that a body describes** is the one that the builder makes of its slot. -/
theorem BodyPhrase.node_eq_ok_iff (h : source.read? registry = some program)
    (hnodup : source.labels.Nodup) {b : BodyPhrase} {index i : Nat} {slot : Slot Pattern Int}
    (hslot : b.slot? registry index = some slot) {n : Node} :
    (program.builder registry).node .branch .leaf (some slot) i = .ok n ↔
      b.Describes registry source index n := by
  have hresolve (a : ArmPhrase) {index : Nat} {target : Option Int} :
      (a.ref index).mapM (program.builder registry).resolve = .ok target ↔
        a.Leads source index target := a.mapM_resolve_eq_ok_iff h hnodup
  cases b with
  | passThrough m r =>
    cases hslot
    simp only [Builder.node, Except.bind_eq_ok_iff, Except.pure_eq_ok_iff, hresolve, Describes]
    constructor
    · rintro ⟨onMatch, hm, onRefute, hr, rfl⟩
      exact ⟨onMatch, onRefute, rfl, hm, hr⟩
    · rintro ⟨onMatch, onRefute, rfl, hm, hr⟩
      exact ⟨onMatch, hm, onRefute, hr, rfl⟩
  | leaf p =>
    obtain ⟨pattern, hp, heq⟩ := Option.bind_eq_some_iff.1 hslot
    cases heq
    rw [Builder.node, Describes, hp]
    constructor
    · intro h
      cases h
      exact ⟨pattern, rfl, rfl⟩
    · rintro ⟨_, ⟨⟩, rfl⟩
      rfl
  | branch p m r =>
    obtain ⟨pattern, hp, heq⟩ := Option.bind_eq_some_iff.1 hslot
    cases heq
    simp only [Builder.node, Except.bind_eq_ok_iff, Except.pure_eq_ok_iff, hresolve, Describes, hp]
    constructor
    · rintro ⟨onMatch, hm, onRefute, hr, rfl⟩
      exact ⟨pattern, onMatch, onRefute, rfl, rfl, hm, hr⟩
    · rintro ⟨_, onMatch, onRefute, ⟨⟩, rfl, hm, hr⟩
      exact ⟨onMatch, hm, onRefute, hr, rfl⟩

/-! ## Diagrams -/

namespace ProgramPhrase

theorem nodes_eq_ok_iff (h : source.read? registry = some program) (hnodup : source.labels.Nodup)
    {nodes : List Node} : (program.builder registry).nodes .branch .leaf = .ok nodes ↔
      List.Forall₂ (fun x n => x.1.2.Describes registry source x.2 n) source.bodies.zipIdx
        nodes := by
  -- The index of a slot matters only for a slot that was never defined.
  have hindex (slot : Slot Pattern Int) (i : Nat) :
      (program.builder registry).node Node.branch .leaf (some slot) i =
        (program.builder registry).node .branch .leaf (some slot) 0 := by
    cases slot <;> rfl
  have hslots : (program.builder registry).slots.zipIdx =
      ((program.slots 0).zipIdx.map fun y => (some y.1.2, y.2)) := List.zipIdx_map
  rw [Builder.nodes, hslots, List.mapM_eq_ok_iff, List.forall₂_map_left_iff]
  simp only [hindex]
  -- What remains goes from slots to bodies, one by one.
  refine Iff.trans ?_ (List.forall₂_iff_of_forall₂ (source.forall₂_slotted h 0) fun x y n hxy =>
    BodyPhrase.node_eq_ok_iff h hnodup hxy.2 (i := 0))
  conv => rhs; rw [← List.zipIdx_map_fst 0 (program.slots 0)]
  rw [List.forall₂_map_left_iff]

theorem rootIndex_eq_ok_iff (h : source.read? registry = some program)
    (hnodup : source.labels.Nodup) {root : Int} :
    (program.builder registry).rootIndex = .ok root ↔
      (∃ k : Nat, source.given[k]? = some (some "root") ∧ root = k) ∨
        some "root" ∉ source.given ∧ root = 0 := by
  have hlookup {k : Nat} := lookup_eq_some_iff (w := "root") (k := k) h hnodup
  -- The builder of a program has no chosen root.
  have hrootIndex : (program.builder registry).rootIndex =
      .ok (((program.builder registry).labels.lookup "root").getD 0 : Nat) := rfl
  rw [hrootIndex, Except.ok.injEq]
  cases hroot : (program.builder registry).labels.lookup "root" with
  | none =>
    rw [hroot] at hlookup
    have hgiven : some "root" ∉ source.given := by
      intro hmem
      obtain ⟨k, hk⟩ := List.getElem?_of_mem hmem
      cases hlookup.2 hk
    constructor
    · rintro rfl
      exact .inr ⟨hgiven, rfl⟩
    · rintro (⟨k, hk, -⟩ | ⟨-, rfl⟩)
      · cases hlookup.2 hk
      · rfl
  | some j =>
    rw [hroot] at hlookup
    have hgiven := hlookup.1 rfl
    constructor
    · rintro rfl
      exact .inl ⟨j, hgiven, rfl⟩
    · rintro (⟨k, hk, rfl⟩ | ⟨hnone, -⟩)
      · cases hlookup.2 hk
        rfl
      · exact absurd (List.mem_of_getElem? hgiven) hnone

/-- **The builder of a program assembles the diagram that the program describes.** -/
theorem assemble_eq_ok_iff (h : source.read? registry = some program)
    (hnodup : source.labels.Nodup) :
    (program.builder registry).assemble = .ok d ↔ source.Describes registry d := by
  simp only [Builder.assemble, Except.bind_eq_ok_iff, Except.pure_eq_ok_iff,
    nodes_eq_ok_iff h hnodup, rootIndex_eq_ok_iff h hnodup]
  constructor
  · rintro ⟨nodes, hnodes, root, hroot, rfl⟩
    exact ⟨hnodes, hroot⟩
  · rintro ⟨hnodes, hroot⟩
    exact ⟨d.nodes, hnodes, d.root, hroot, rfl⟩

end ProgramPhrase

mutual

/-- A body stands for something if each body in it does. -/
theorem BodyPhrase.exists_read?_of_describes (b : BodyPhrase) (name : Option String)
    (h : ∀ x ∈ b.bodies name, ∃ i n, x.2.Describes registry source i n) :
    ∃ body, b.read? registry = some body := by
  cases b with
  | passThrough m r =>
    rw [BodyPhrase.bodies, List.forall_mem_cons, List.forall_mem_append] at h
    obtain ⟨onMatch, hm⟩ := m.exists_read?_of_describes h.2.1
    obtain ⟨onRefute, hr⟩ := r.exists_read?_of_describes h.2.2
    rw [BodyPhrase.read?, hm, hr]
    exact ⟨_, rfl⟩
  | leaf p =>
    rw [BodyPhrase.bodies, List.forall_mem_singleton] at h
    obtain ⟨i, n, pattern, hp, -⟩ := h
    rw [BodyPhrase.read?, hp]
    exact ⟨_, rfl⟩
  | branch p m r =>
    rw [BodyPhrase.bodies, List.forall_mem_cons, List.forall_mem_append] at h
    obtain ⟨⟨i, n, pattern, onMatch, onRefute, hp, -⟩, hmatch, hrefute⟩ := h
    obtain ⟨onMatch, hm⟩ := m.exists_read?_of_describes hmatch
    obtain ⟨onRefute, hr⟩ := r.exists_read?_of_describes hrefute
    rw [BodyPhrase.read?, hp, hm, hr]
    exact ⟨_, rfl⟩

theorem ArmPhrase.exists_read?_of_describes (a : ArmPhrase)
    (h : ∀ x ∈ a.bodies, ∃ i n, x.2.Describes registry source i n) :
    ∃ arm, a.read? registry = some arm := by
  cases a with
  | empty =>
    rw [ArmPhrase.read?]
    exact ⟨_, rfl⟩
  | label name =>
    rw [ArmPhrase.read?]
    exact ⟨_, rfl⟩
  | body name b =>
    rw [ArmPhrase.bodies] at h
    obtain ⟨body, hb⟩ := b.exists_read?_of_describes name h
    rw [ArmPhrase.read?, hb]
    exact ⟨_, rfl⟩

end

theorem ProgramPhrase.exists_read?_of_describes {whole : ProgramPhrase}
    (h : ∀ x ∈ source.bodies, ∃ i n, x.2.Describes registry whole i n) :
    ∃ program, source.read? registry = some program := by
  induction source with
  | nil => exact ⟨[], rfl⟩
  | cons definition rest ih =>
    obtain ⟨name, b⟩ := definition
    rw [bodies_cons, List.forall_mem_append] at h
    obtain ⟨body, hb⟩ := b.exists_read?_of_describes (some name) h.1
    obtain ⟨program, hrest⟩ := ih h.2
    rw [read?, hb, hrest]
    exact ⟨_, rfl⟩

/-- A program that describes a diagram stands for something. -/
theorem ProgramPhrase.Describes.exists_read? (h : source.Describes registry d) :
    ∃ program, source.read? registry = some program := by
  have hbodies : ∀ x ∈ source.bodies, ∃ i n, x.2.Describes registry source i n := by
    intro x hx
    obtain ⟨i, hi⟩ := List.getElem?_of_mem hx
    have hmem : (x, i) ∈ source.bodies.zipIdx := List.mem_zipIdx_iff_getElem?.2 hi
    obtain ⟨n, -, hn⟩ := List.exists_right_of_forall₂ h.nodes hmem
    exact ⟨i, n, hn⟩
  exact exists_read?_of_describes hbodies

/-- **A text is parsed to a diagram just if its tokens are those of a phrase** that defines no label
twice and describes the diagram, and the diagram is well formed. -/
theorem parse_eq_ok_iff {text : String} : parse registry text = .ok d ↔
    ∃ ts, tokenize text = .ok ts ∧ ∃ source : ProgramPhrase,
      source.faces = ts.tokens.map Token.face ∧ source.labels.Nodup ∧
        source.Describes registry d ∧ d.validate (some registry) = .ok d := by
  constructor
  · intro h
    obtain ⟨ts, htokens, h⟩ := Except.bind_eq_ok_iff.1 h
    have htokens := Except.mapError_eq_ok_iff.1 htokens
    obtain ⟨program, hprogram, h⟩ := Except.bind_eq_ok_iff.1 h
    obtain ⟨d', hbuild, hvalidate⟩ := Except.bind_eq_ok_iff.1 (Except.mapError_eq_ok_iff.1 h)
    have hvalidate := Except.mapError_eq_ok_iff.1 hvalidate
    obtain rfl := (Diagram.validate_eq_ok_iff.1 hvalidate).2
    obtain ⟨source, -, hread, hfaces, hnodup⟩ :=
      (Program.located_ofTokens registry (marked_of_tokenize htokens)).of_eq_ok hprogram
    exact ⟨ts, htokens, source, hfaces, hnodup,
      (ProgramPhrase.assemble_eq_ok_iff hread hnodup).1 hbuild, hvalidate⟩
  · rintro ⟨ts, htokens, source, hfaces, hnodup, hdescribes, hvalid⟩
    obtain ⟨program, hread⟩ := hdescribes.exists_read?
    -- A well-formed diagram has a node, so the phrase has a body.
    have hne : source ≠ [] := by
      rintro rfl
      have hnodes : d.nodes = [] := List.forall₂_nil_left_iff.1 hdescribes.nodes
      exact (Diagram.fault?_eq_none_iff.1 (Diagram.validate_eq_ok_iff.1 hvalid).1).1 (hnodes ▸ rfl)
    have hprogram := Program.ofTokens_of_phrase hne hread hfaces.symm hnodup
    have hbuild : (program.builder registry).build = .ok d :=
      Except.bind_eq_ok_iff.2 ⟨d, (ProgramPhrase.assemble_eq_ok_iff hread hnodup).2 hdescribes,
        Except.mapError_eq_ok_iff.2 hvalid⟩
    exact Except.bind_eq_ok_iff.2 ⟨ts, Except.mapError_eq_ok_iff.2 htokens,
      Except.bind_eq_ok_iff.2 ⟨program, hprogram, Except.mapError_eq_ok_iff.2 hbuild⟩⟩

end RuleDiagram
