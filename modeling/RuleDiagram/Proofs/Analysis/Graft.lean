import RuleDiagram.Proofs.Analysis.Parts

/-!
# Grafts

A graft consists of a gate for the example to be mended, the ways into the old root and a fan-out to
both. Its nodes test and emit facts of the examples and pass snapshots through, and their edges lead
to each other or to the old root. What comes of the entry of a graft is what its parts say.

## Main definitions

* `GraftParts`: the parts of a graft
* `Node.Built`: nodes that grafts are built of
* `Example.Textual`: the values of an example have written forms
* `Example.graftFacts`: the facts that a graft puts in order

## Main results

* `writes_graftFor`, `exists_graftFor`: when there is a graft
* `Diagram.serves_of_graftParts`: what a graft gives
* `built_of_graftParts`: what the nodes of a graft are
-/

namespace RuleDiagram

open ListSet

variable {base next oldIndex root : Int} {direct : Bool} {mended x : Example} {kept : List Example}
  {m : Mutation} {part : Part}

/-! ## The parts of a graft -/

theorem eq_nil_of_fanOut_entry {targets : List Int} (h : (fanOut next targets).entry = none) :
    targets = [] := by
  cases targets with
  | nil => rfl
  | cons target rest =>
    cases rest with
    | nil => cases h
    | cons t rest =>
      rw [fanOut] at h
      · cases h
      · exact List.cons_ne_nil t rest

/-- **The parts of a graft**: a gate, the way into the old root, and a fan-out to both, or a branch
that leads nowhere if neither has an entry. -/
structure GraftParts (base oldIndex : Int) (direct : Bool) (mended : Example) (kept : List Example)
    (front back tail : Part) : Prop where
  front_eq : gate base mended = .ok front
  back_eq : oldRoot (base + front.nodes.length) oldIndex direct mended kept = .ok back
  tail_eq :
    let next := base + (front.nodes ++ back.nodes).length
    let targets := front.entry.toList ++ back.entry.toList
    tail = fanOut next targets ∧ tail.entry ≠ none ∨
      targets = [] ∧ tail = ⟨[.branch .passThrough none none], some next⟩

theorem exists_graftParts (h : graftFor base oldIndex direct mended kept = .ok m) :
    ∃ front back tail root, GraftParts base oldIndex direct mended kept front back tail ∧
      tail.entry = some root ∧ m = .graft base (front.nodes ++ back.nodes ++ tail.nodes) root := by
  simp only [graftFor, Except.bind_eq_ok_iff] at h
  obtain ⟨front, hfront, back, hback, h⟩ := h
  split at h
  · next root hroot =>
    obtain rfl := Except.pure_eq_ok_iff.1 h
    refine ⟨front, back, _, root, ⟨hfront, hback, .inl ⟨rfl, ?_⟩⟩, hroot, rfl⟩
    exact hroot ▸ Option.some_ne_none root
  · next hnone =>
    obtain rfl := Except.pure_eq_ok_iff.1 h
    have hnil := eq_nil_of_fanOut_entry hnone
    refine ⟨front, back, ⟨[.branch .passThrough none none], some _⟩, _,
      ⟨hfront, hback, .inr ⟨hnil, rfl⟩⟩, rfl, ?_⟩
    rw [hnil, fanOut, List.append_nil]

/-! ## What a graft puts in order -/

namespace Example

/-- All values of an example have written forms. -/
def Textual (x : Example) : Prop := (∀ f ∈ x.inputs, f.Textual) ∧ ∀ f ∈ x.outputs, f.Textual

/-- The facts that the gate of an example puts in order: all of them, or none if the example has no
outputs. -/
def gateFacts (x : Example) : Set Fact :=
  {f | x.outputs ≠ [] ∧ (f ∈ x.outputs ∨ f ∈ x.inputs)}

/-- The facts that the way kept open for an example puts in order: those that the example to be
mended lacks, or those of a gate if it lacks none. -/
def routeFacts (x mended : Example) : Set Fact :=
  {f | f ∈ ListSet.diff x.inputs mended.inputs} ∪
    {f | ListSet.diff x.inputs mended.inputs = [] ∧ f ∈ x.gateFacts}

/-- **The facts that the graft for an example puts in order**: those of its gate and, unless the old
root is entered directly, those of the ways that are kept open. -/
def graftFacts (mended : Example) (kept : List Example) (direct : Bool) : Set Fact :=
  mended.gateFacts ∪ {f | direct = false ∧ ∃ x ∈ kept, f ∈ x.routeFacts mended}

end Example

theorem writes_gate (next : Int) (x : Example) : Writes x.gateFacts (gate next x) := by
  by_cases houtputs : x.outputs = []
  · have hnone : x.gateFacts = ∅ := Set.eq_empty_iff_forall_notMem.2 fun f hf => hf.1 houtputs
    rw [gate, if_pos houtputs, hnone]
    exact .ok _
  · have hall : x.gateFacts = {f | f ∈ x.outputs} ∪ {f | f ∈ x.inputs} :=
      Set.ext fun f => and_iff_right houtputs
    rw [gate, if_neg houtputs, hall]
    exact (writes_sortFacts x.outputs).bind fun outputs _ =>
      (writes_sortFacts x.inputs).bind_ok fun inputs => ⟨_, rfl⟩

theorem writes_route (next root : Int) (x mended : Example) :
    Writes (x.routeFacts mended) (route next root mended x) := by
  refine (writes_sortFacts _).bind fun missing hmissing => ?_
  have hnil : ListSet.diff x.inputs mended.inputs = [] ↔ missing = [] := by
    rw [← toSet_eq_empty, ← toSet_of_sortFacts hmissing, toSet_eq_empty]
  cases missing with
  | nil =>
    have hgate : {f | ListSet.diff x.inputs mended.inputs = [] ∧ f ∈ x.gateFacts} = x.gateFacts :=
      Set.ext fun f => and_iff_right (hnil.2 rfl)
    rw [hgate]
    exact writes_gate next x
  | cons witness rest =>
    have hnone : {f | ListSet.diff x.inputs mended.inputs = [] ∧ f ∈ x.gateFacts} = ∅ :=
      Set.eq_empty_iff_forall_notMem.2 fun f hf => List.cons_ne_nil _ _ (hnil.1 hf.1)
    rw [hnone]
    exact .ok _

theorem writes_routes (next root : Int) (mended : Example) (kept : List Example) :
    Writes {f | ∃ x ∈ kept, f ∈ x.routeFacts mended} (routes next root mended kept) := by
  induction kept generalizing next with
  | nil =>
    have hnone : {f | ∃ x ∈ ([] : List Example), f ∈ x.routeFacts mended} = ∅ := by simp
    rw [hnone]
    exact .ok _
  | cons x rest ih =>
    have hall : {f | ∃ y ∈ x :: rest, f ∈ y.routeFacts mended} =
        x.routeFacts mended ∪ {f | ∃ y ∈ rest, f ∈ y.routeFacts mended} := by
      ext f
      simp
    rw [hall]
    exact (writes_route next root x mended).bind fun part _ =>
      (ih (next + part.nodes.length)).bind_ok fun parts => ⟨_, rfl⟩

theorem writes_oldRoot (next root : Int) (direct : Bool) (mended : Example)
    (kept : List Example) :
    Writes {f | direct = false ∧ ∃ x ∈ kept, f ∈ x.routeFacts mended}
      (oldRoot next root direct mended kept) := by
  cases direct with
  | true =>
    have hnone : {f | true = false ∧ ∃ x ∈ kept, f ∈ x.routeFacts mended} = ∅ := by simp
    rw [hnone]
    exact .ok _
  | false =>
    have hall : {f | false = false ∧ ∃ x ∈ kept, f ∈ x.routeFacts mended} =
        {f | ∃ x ∈ kept, f ∈ x.routeFacts mended} := by simp
    rw [hall]
    exact (writes_routes next root mended kept).bind_ok fun parts => ⟨_, rfl⟩

/-- **A graft is built if and only if all facts that it puts in order have a written form.** -/
theorem writes_graftFor (base oldIndex : Int) (direct : Bool) (mended : Example)
    (kept : List Example) :
    Writes (mended.graftFacts kept direct) (graftFor base oldIndex direct mended kept) := by
  refine (writes_gate base mended).bind fun front _ => ?_
  refine (writes_oldRoot _ oldIndex direct mended kept).bind_ok fun back => ?_
  dsimp only
  split <;> exact ⟨_, rfl⟩

/-- For textual examples there is a graft. -/
theorem exists_graftFor (hmended : mended.Textual) (hkept : ∀ x ∈ kept, x.Textual)
    (base oldIndex : Int) (direct : Bool) :
    ∃ m, graftFor base oldIndex direct mended kept = .ok m := by
  have hgate {x : Example} (hx : x.Textual) : ∀ f ∈ x.gateFacts, f.Textual := fun f hf =>
    hf.2.elim (hx.2 f) (hx.1 f)
  refine (writes_graftFor base oldIndex direct mended kept).exists_ok ?_
  rintro f (hf | ⟨-, x, hx, hf | ⟨-, hf⟩⟩)
  · exact hgate hmended f hf
  · exact (hkept x hx).1 f (List.mem_of_mem_filter hf)
  · exact hgate (hkept x hx) f hf

/-! ## What a graft gives -/

namespace Diagram

variable {d : Diagram} {front back tail : Part}

/-- **What a graft gives**, in a diagram that holds its nodes. -/
theorem serves_of_graftParts
    (h : GraftParts base oldIndex direct mended kept front back tail)
    (hd : d.Holds base (front.nodes ++ back.nodes ++ tail.nodes)) (facts : List Fact)
    (s : Snapshot) :
    Serves mended kept direct facts (d.produced facts (some oldIndex) s)
      (d.produced facts tail.entry s) := by
  have hgate : d.produced facts front.entry s = _ := produced_gate h.front_eq hd.left.left
  obtain ⟨hkeeps, honly⟩ := opens_oldRoot facts s h.back_eq hd.left.right
  -- From the entry of the whole comes what comes from the entries of the gate and the way back.
  have htail : d.produced facts tail.entry s =
      d.produced facts front.entry s ∪ d.produced facts back.entry s := by
    obtain ⟨hfan, -⟩ | ⟨hnil, hlast⟩ := h.tail_eq
    · rw [hfan, produced_fanOut (hfan ▸ hd.right)]
      ext f
      cases front.entry <;> cases back.entry <;> simp
    · obtain ⟨hfront, hback⟩ := List.append_eq_nil_iff.1 hnil
      have hn := (hlast ▸ hd.right).head
      rw [hlast, produced_passThrough hn rfl, Option.toList_eq_nil_iff.1 hfront,
        Option.toList_eq_nil_iff.1 hback]
  rw [htail, hgate]
  exact ⟨fun hfacts f hf => .inl ⟨hfacts, hf⟩,
    fun x hx hfacts f hf => .inr (hkeeps x hx hfacts hf), fun f hf => hf.imp_right (honly f)⟩

end Diagram

/-! ## What the nodes of a graft are -/

/-- **Nodes that grafts are built of**: pass-through branches, and branches and leaves with the
pattern of a known fact, whose edges lead to allowed indices. -/
def Node.Built (n : Node) (known : Fact → Prop) (A : Int → Prop) : Prop :=
  (∀ t ∈ n.targets, A t) ∧ ((∃ a b, n = .branch .passThrough a b) ∨
    ∃ f, known f ∧ (n = .leaf f.asPattern ∨ ∃ a, n = .branch f.asPattern a none))

/-- Parts of such nodes, with an allowed entry. -/
structure Part.Built (part : Part) (known : Fact → Prop) (A : Int → Prop) : Prop where
  nodes : ∀ n ∈ part.nodes, n.Built known A
  entry : ∀ t, part.entry = some t → A t

variable {known : Fact → Prop} {A : Int → Prop} {a b entry : Option Int} {f : Fact}

theorem built_passThrough (ha : ∀ t, a = some t → A t) (hb : ∀ t, b = some t → A t) :
    (Node.branch .passThrough a b).Built known A := by
  refine ⟨fun t ht => ?_, .inl ⟨a, b, rfl⟩⟩
  exact (Node.mem_targets_branch.1 ht).elim (ha t) (hb t)

theorem built_test (hf : known f) (ha : ∀ t, a = some t → A t) :
    (Node.branch f.asPattern a none).Built known A := by
  refine ⟨fun t ht => ?_, .inr ⟨f, hf, .inr ⟨a, rfl⟩⟩⟩
  exact (Node.mem_targets_branch.1 ht).elim (ha t) fun h => by cases h

theorem built_emit (hf : known f) : (Node.leaf f.asPattern).Built known A :=
  ⟨fun _ ht => absurd ht List.not_mem_nil, .inr ⟨f, hf, .inl rfl⟩⟩

/-- A fan-out leads to its targets and to branches of its own. -/
theorem built_fanOut {targets : List Int} (htargets : ∀ t ∈ targets, A t)
    (hA : ∀ i, next ≤ i → i < next + (fanOut next targets).nodes.length → A i) :
    (fanOut next targets).Built known A := by
  induction targets with
  | nil => exact ⟨fun n hn => absurd hn List.not_mem_nil, fun t ht => by cases ht⟩
  | cons target rest ih =>
    cases rest with
    | nil =>
      refine ⟨fun n hn => absurd hn List.not_mem_nil, ?_⟩
      rintro _ ⟨⟩
      exact htargets target List.mem_cons_self
    | cons second rest =>
      -- One more branch, to the first target and to the fan-out to the rest.
      rw [fanOut] at hA ⊢
      · simp only [List.length_append, List.length_singleton] at hA
        have hbuilt := ih (fun t ht => htargets t (List.mem_cons_of_mem target ht))
          fun i hi hlt => hA i hi (by omega)
        refine ⟨fun n hn => ?_, ?_⟩
        · rcases List.mem_append.1 hn with hn | hn
          · exact hbuilt.nodes n hn
          · obtain rfl := List.mem_singleton.1 hn
            refine built_passThrough ?_ hbuilt.entry
            rintro t ⟨⟩
            exact htargets target List.mem_cons_self
        · rintro t ⟨⟩
          exact hA _ (by omega) (by omega)
      · exact List.cons_ne_nil second rest
      · exact List.cons_ne_nil second rest

theorem built_testAll {fs : List Fact} (hfs : ∀ f ∈ fs, known f)
    (hentry : ∀ t, entry = some t → A t)
    (hA : ∀ i, next ≤ i → i < next + (testAll next fs entry).nodes.length → A i) :
    (testAll next fs entry).Built known A := by
  induction fs with
  | nil => exact ⟨fun n hn => absurd hn List.not_mem_nil, hentry⟩
  | cons f rest ih =>
    rw [testAll] at hA ⊢
    simp only [List.length_append, List.length_singleton] at hA
    have hbuilt := ih (fun g hg => hfs g (List.mem_cons_of_mem f hg))
      fun i hi hlt => hA i hi (by omega)
    refine ⟨fun n hn => ?_, ?_⟩
    · rcases List.mem_append.1 hn with hn | hn
      · exact hbuilt.nodes n hn
      · obtain rfl := List.mem_singleton.1 hn
        exact built_test (hfs f List.mem_cons_self) hbuilt.entry
    · rintro t ⟨⟩
      exact hA _ (by omega) (by omega)

/-- All facts of an example are known. -/
def Example.Known (x : Example) (known : Fact → Prop) : Prop :=
  (∀ f ∈ x.inputs, known f) ∧ ∀ f ∈ x.outputs, known f

theorem built_gate (hpart : gate next x = .ok part) (hx : x.Known known)
    (hA : ∀ i, next ≤ i → i < next + part.nodes.length → A i) : part.Built known A := by
  rw [gate] at hpart
  split at hpart
  · cases hpart
    exact ⟨fun n hn => absurd hn List.not_mem_nil, fun t ht => by cases ht⟩
  · simp only [Except.bind_eq_ok_iff, Except.pure_eq_ok_iff] at hpart
    obtain ⟨outputs, houtputs, inputs, hinputs, rfl⟩ := hpart
    -- The leaves come first, then the fan-out to them, and the tests that lead to it.
    generalize hleaves : outputs.map (fun f => Node.leaf f.asPattern) = leaves at hA ⊢
    generalize hfan : fanOut (next + leaves.length) (integersFrom next leaves.length) = fan at hA ⊢
    generalize hlast : next + ((leaves ++ fan.nodes).length : Int) = last at hA ⊢
    simp only [List.length_append] at hA
    rw [List.length_append] at hlast
    have hfanBuilt : fan.Built known A := by
      rw [← hfan]
      refine built_fanOut (fun t ht => ?_) fun i hi hlt => ?_
      · obtain ⟨k, hk, rfl⟩ := Diagram.mem_integersFrom.1 ht
        exact hA _ (by omega) (by omega)
      · rw [hfan] at hlt
        exact hA i (by omega) (by omega)
    have htests : (testAll last inputs fan.entry).Built known A :=
      built_testAll (fun f hf => hx.1 f ((perm_of_sortFacts hinputs).mem_iff.1 hf))
        hfanBuilt.entry fun i hi hlt => hA i (by omega) (by omega)
    refine ⟨fun n hn => ?_, htests.entry⟩
    rcases List.mem_append.1 hn with hn | hn
    · rcases List.mem_append.1 hn with hn | hn
      · rw [← hleaves] at hn
        obtain ⟨f, hf, rfl⟩ := List.mem_map.1 hn
        exact built_emit (hx.2 f ((perm_of_sortFacts houtputs).mem_iff.1 hf))
      · exact hfanBuilt.nodes n hn
    · exact htests.nodes n hn

theorem built_route (hpart : route next root mended x = .ok part) (hx : x.Known known)
    (hroot : A root) (hA : ∀ i, next ≤ i → i < next + part.nodes.length → A i) :
    part.Built known A := by
  rw [route, Except.bind_eq_ok_iff] at hpart
  obtain ⟨missing, hmissing, hpart⟩ := hpart
  cases missing with
  | nil => exact built_gate hpart hx hA
  | cons witness rest =>
    obtain rfl := Except.pure_eq_ok_iff.1 hpart
    have hwitness : witness ∈ x.inputs := List.mem_of_mem_filter
      ((perm_of_sortFacts hmissing).mem_iff.1 List.mem_cons_self)
    refine ⟨fun n hn => ?_, ?_⟩
    · obtain rfl := List.mem_singleton.1 hn
      refine built_test (hx.1 _ hwitness) ?_
      rintro t ⟨⟩
      exact hroot
    · rintro t ⟨⟩
      exact hA _ le_rfl (by simp)

theorem built_routes {nodes : List Node} {entries : List Int}
    (hparts : routes next root mended kept = .ok (nodes, entries))
    (hkept : ∀ x ∈ kept, x.Known known) (hroot : A root)
    (hA : ∀ i, next ≤ i → i < next + nodes.length → A i) :
    (∀ n ∈ nodes, n.Built known A) ∧ ∀ t ∈ entries, A t := by
  induction kept generalizing next nodes entries with
  | nil =>
    obtain ⟨rfl, rfl⟩ := Prod.mk.inj (Except.ok.inj hparts)
    exact ⟨fun n hn => absurd hn List.not_mem_nil, fun t ht => absurd ht List.not_mem_nil⟩
  | cons x rest ih =>
    simp only [routes, Except.bind_eq_ok_iff, Prod.exists, Except.pure_eq_ok_iff,
      Prod.mk.injEq] at hparts
    obtain ⟨part, hpart, nodes', entries', hrest, rfl, rfl⟩ := hparts
    simp only [List.length_append] at hA
    have hbuilt := built_route hpart (hkept x List.mem_cons_self) hroot
      fun i hi hlt => hA i hi (by omega)
    obtain ⟨hnodes, hentries⟩ := ih hrest (fun y hy => hkept y (List.mem_cons_of_mem x hy))
      fun i hi hlt => hA i (by omega) (by omega)
    refine ⟨fun n hn => ?_, fun t ht => ?_⟩
    · exact (List.mem_append.1 hn).elim (hbuilt.nodes n) (hnodes n)
    · refine (List.mem_append.1 ht).elim (fun ht => hbuilt.entry t ?_) (hentries t)
      exact Option.mem_toList.1 ht

theorem built_oldRoot (hpart : oldRoot next root direct mended kept = .ok part)
    (hkept : ∀ x ∈ kept, x.Known known) (hroot : A root)
    (hA : ∀ i, next ≤ i → i < next + part.nodes.length → A i) : part.Built known A := by
  cases direct with
  | true =>
    obtain rfl := Except.ok.inj hpart
    refine ⟨fun n hn => absurd hn List.not_mem_nil, ?_⟩
    rintro t ⟨⟩
    exact hroot
  | false =>
    simp only [oldRoot, Bool.false_eq_true, if_false, Except.bind_eq_ok_iff, Prod.exists,
      Except.pure_eq_ok_iff] at hpart
    obtain ⟨nodes, entries, hroutes, rfl⟩ := hpart
    simp only [List.length_append] at hA
    obtain ⟨hnodes, hentries⟩ := built_routes hroutes hkept hroot
      fun i hi hlt => hA i hi (by omega)
    have hfan : (fanOut (next + nodes.length) entries).Built known A :=
      built_fanOut hentries fun i hi hlt => hA i (by omega) (by omega)
    exact ⟨fun n hn => (List.mem_append.1 hn).elim (hnodes n) (hfan.nodes n), hfan.entry⟩

/-- **The nodes of a graft are built of known facts**, and lead to each other or to the old root. -/
theorem built_of_graftParts {front back tail : Part}
    (h : GraftParts base oldIndex direct mended kept front back tail) (hmended : mended.Known known)
    (hkept : ∀ x ∈ kept, x.Known known) (hroot : A oldIndex)
    (hA : ∀ i, base ≤ i →
      i < base + (front.nodes ++ back.nodes ++ tail.nodes).length → A i) :
    (∀ n ∈ front.nodes ++ back.nodes ++ tail.nodes, n.Built known A) ∧
      ∀ t, tail.entry = some t → A t := by
  simp only [List.length_append] at hA
  have hfront := built_gate h.front_eq hmended fun i hi hlt => hA i hi (by omega)
  have hback := built_oldRoot h.back_eq hkept hroot fun i hi hlt => hA i (by omega) (by omega)
  -- The tail leads to the entries of the other two parts, or nowhere.
  have htail : tail.Built known A := by
    obtain ⟨hfan, -⟩ | ⟨-, hlast⟩ := h.tail_eq
    · rw [hfan] at hA ⊢
      simp only [List.length_append] at hA ⊢
      refine built_fanOut (fun t ht => ?_) fun i hi hlt => hA i (by omega) (by omega)
      rcases List.mem_append.1 ht with ht | ht
      · exact hfront.entry t (Option.mem_toList.1 ht)
      · exact hback.entry t (Option.mem_toList.1 ht)
    · rw [hlast] at hA ⊢
      refine ⟨fun n hn => ?_, ?_⟩
      · obtain rfl := List.mem_singleton.1 hn
        exact built_passThrough (fun t ht => by cases ht) fun t ht => by cases ht
      · rintro t ⟨⟩
        simp only [List.length_append, List.length_singleton] at hA ⊢
        exact hA _ (by omega) (by omega)
  refine ⟨fun n hn => ?_, htail.entry⟩
  rcases List.mem_append.1 hn with hn | hn
  · exact (List.mem_append.1 hn).elim (hfront.nodes n) (hback.nodes n)
  · exact htail.nodes n hn

end RuleDiagram
