import Mathlib.Data.List.Induction
import RuleDiagram.Proofs.Builder.History
import RuleDiagram.Proofs.Lookup

/-!
# A builder records its history

## Main definitions

* `Call.Records`: what a builder holds is what the calls so far say

## Main results

* `Call.Records.step`: each call adds to the builder what it adds to the history
* `Call.records_of_runs`: a builder records the calls that it comes from
* `Call.assemble_eq_ok_iff`: a builder assembles the diagram that its calls describe
-/

namespace List

variable {α : Type} {l : List α}

theorem getElem?_append_singleton (l : List α) (x : α) (k : Nat) :
    (l ++ [x])[k]? = if k = l.length then some x else l[k]? := by
  rw [getElem?_append, getElem?_singleton]
  grind

theorem getElem?_set_of_getElem? {i : Nat} {y : α} (h : l[i]? = some y) (x : α) (k : Nat) :
    (l.set i x)[k]? = if k = i then some x else l[k]? := by
  rw [getElem?_set, if_pos (getElem?_eq_some_iff.1 h).1]
  simp only [eq_comm]

theorem forall₂_iff_getElem? {β : Type} {R : α → β → Prop} {ys : List β} :
    Forall₂ R l ys ↔ ys.length = l.length ∧
      ∀ (i : Nat) (y : β), ys[i]? = some y → ∃ x, l[i]? = some x ∧ R x y := by
  rw [forall₂_iff_get]
  constructor
  · rintro ⟨hlength, h⟩
    refine ⟨hlength.symm, fun i y hy => ?_⟩
    obtain ⟨hi, rfl⟩ := getElem?_eq_some_iff.1 hy
    have hi' : i < l.length := hlength ▸ hi
    exact ⟨l[i], getElem?_eq_getElem hi', h i hi' hi⟩
  · rintro ⟨hlength, h⟩
    refine ⟨hlength.symm, fun i hi hi' => ?_⟩
    obtain ⟨x, hx, hR⟩ := h i _ (getElem?_eq_getElem hi')
    obtain ⟨_, rfl⟩ := getElem?_eq_some_iff.1 hx
    exact hR

end List

namespace RuleDiagram

theorem place?_natCast {length i : Nat} (h : i < length) : place? length (i : Int) = some i := by
  unfold place?
  simp [h, Int.not_lt.2 (Int.natCast_nonneg i)]

namespace Builder

variable {π ι : Type} {b : Builder π ι} {name : Option String} {labels : List (String × Nat)}
  {slot : Nat}

/-- What the labels stand for once a slot has been given one. -/
theorem lookup_of_labelled (h : b.labelled slot name = .ok labels) (word : String) (k : Nat) :
    labels.lookup word = some k ↔
      b.labels.lookup word = some k ∨ name = some word ∧ some slot = some k := by
  cases name with
  | none =>
    cases h
    simp
  | some given =>
    rw [labelled] at h
    split at h
    · next other hother =>
      split at h
      · next heq =>
        cases h
        subst heq
        refine ⟨.inl, ?_⟩
        rintro (h | ⟨⟨⟩, ⟨⟩⟩)
        · exact h
        · exact hother
      · cases h
    · next hnone =>
      cases h
      rw [List.lookup_append]
      by_cases hword : word = given
      · subst hword
        simp [hnone]
      · rw [List.lookup_cons_ite, if_neg hword, List.lookup_nil, Option.or_none]
        simp [Ne.symm hword]

end Builder

namespace Call

variable {registry : Option Registry} {calls earlier : List (Call Pattern Int)}
  {c : Call Pattern Int} {b b' : Builder Pattern Int} {slot : Nat} {name : String}

/-! ## Steps -/

theorem Step.registry_eq (h : c.Step b b') : b'.registry = b.registry := by
  cases h <;> rfl

theorem Step.root_eq (h : c.Step b b') : b'.root = c.root?.getD b.root := by
  cases h with
  | reserve => rfl
  | next => rfl
  | fill => rfl
  | @link source e target place p m r he hplace hslot =>
    cases e with
    | root => exact absurd rfl he
    | onMatch => rfl
    | onRefute => rfl
  | linkRoot => rfl
  | setRoot => rfl

theorem slot?_of_vacant {node : Definition Pattern Int} {word : Option String} {i : Int}
    (h : b.Vacant i slot) (count : Nat) : (define node word (some i)).slot? count = some slot :=
  h.2.1

theorem Step.lookup_labels (h : c.Step b b') (word : String) (k : Nat) :
    b'.labels.lookup word = some k ↔ b.labels.lookup word = some k ∨
      c.label? = some word ∧ c.slot? b.slots.length = some k := by
  cases h with
  | reserve hlabels => exact Builder.lookup_of_labelled hlabels word k
  | next _ hlabels => exact Builder.lookup_of_labelled hlabels word k
  | fill _ hplace hlabels =>
    rw [slot?_of_vacant hplace]
    exact Builder.lookup_of_labelled hlabels word k
  | link => simp [label?]
  | linkRoot => simp [label?]
  | setRoot => simp [label?]

theorem Step.slot?_lt (h : c.Step b b') (hslot : c.slot? b.slots.length = some slot) :
    slot < b'.slots.length := by
  cases h with
  | reserve =>
    cases hslot
    simp
  | next =>
    cases hslot
    simp
  | fill _ hplace _ =>
    rw [slot?_of_vacant hplace] at hslot
    cases hslot
    rw [List.length_set]
    exact (List.getElem?_eq_some_iff.1 hplace.2.2).1
  | link => cases hslot
  | linkRoot => cases hslot
  | setRoot => cases hslot

/-! ## Records -/

/-- A builder holds what the calls so far say. -/
structure Records (registry : Option Registry) (calls : List (Call Pattern Int))
    (b : Builder Pattern Int) : Prop where
  registry_eq : b.registry = registry
  length_slots : b.slots.length = slotCount calls
  labels : ∀ name slot, b.labels.lookup name = some slot ↔ Labels calls name slot
  lt_of_labels : ∀ name slot, Labels calls name slot → slot < slotCount calls
  root : ∀ target, b.root = some target ↔ Latest Chooses calls (some target)
  contents : ∀ slot content, b.slots[slot]? = some (some content) ↔
    Holds registry calls slot content
  defined : ∀ slot node, Defines calls slot node → ∃ content, b.slots[slot]? = some (some content)

namespace Records

theorem empty : Records registry [] (Builder.empty registry) where
  registry_eq := rfl
  length_slots := rfl
  labels _ _ := iff_of_false (fun h => by cases h) not_sometime_nil
  lt_of_labels _ _ h := absurd h not_sometime_nil
  root _ := iff_of_false (fun h => by cases h) not_latest_nil
  contents slot content := by
    refine iff_of_false (fun h => by cases h) ?_
    rintro (⟨hnode, -⟩ | ⟨hnode, -⟩) <;> exact not_sometime_nil hnode
  defined _ _ h := absurd h not_sometime_nil

theorem slotOf?_eq_some_iff (h : Records registry calls b) {source : NodeRef Int} :
    b.slotOf? source = some slot ↔ Starts calls source slot := by
  cases source with
  | index i =>
    have hslotOf : b.slotOf? (.index i) = place? (slotCount calls) i := by
      rw [← h.length_slots]
      rfl
    rw [hslotOf]
    exact ⟨.index, fun (.index hplace) => hplace⟩
  | label name =>
    have hplace (k : Nat) (hk : b.labels.lookup name = some k) :
        b.slotOf? (.label name) = some k := by
      have hlt := h.lt_of_labels name k ((h.labels name k).1 hk)
      rw [← h.length_slots] at hlt
      simp only [Builder.slotOf?, Builder.resolve, hk, Except.toOption, Option.bind_some]
      exact place?_natCast hlt
    constructor
    · intro hslot
      cases hk : b.labels.lookup name with
      | none => simp [Builder.slotOf?, Builder.resolve, hk, Except.toOption] at hslot
      | some k =>
        obtain rfl := Option.some_inj.1 ((hplace k hk).symm.trans hslot)
        exact .label ((h.labels name k).1 hk)
    · rintro (_ | hlabel)
      exact hplace slot ((h.labels name slot).2 hlabel)

/-- What the slots hold after a call that neither defines a node nor links from a branch. -/
theorem contents_of_silent (h : Records registry calls b)
    (hsilent : ∀ k, (∀ node, ¬ Places k calls c node) ∧ ∀ e target, ¬ Gives e k calls c target)
    (hslots : ∀ (k : Nat) (x : Slot Pattern Int),
      b'.slots[k]? = some (some x) ↔ b.slots[k]? = some (some x)) :
    (∀ k x, b'.slots[k]? = some (some x) ↔ Holds registry (calls ++ [c]) k x) ∧
      ∀ (k : Nat) node, Defines (calls ++ [c]) k node → ∃ x, b'.slots[k]? = some (some x) := by
  constructor
  · intro k x
    obtain ⟨hplaces, hgives⟩ := hsilent k
    rw [hslots, h.contents, holds_append_singleton_of_silent hplaces hgives]
  · intro k node hnode
    rw [defines_append_singleton, or_iff_left ((hsilent k).1 node)] at hnode
    obtain ⟨x, hx⟩ := h.defined k node hnode
    exact ⟨x, (hslots k x).2 hx⟩

/-- What the slots hold after a call that changes one of them. -/
theorem contents_of_update (h : Records registry calls b) {content : Slot Pattern Int}
    (hslots : ∀ k, b'.slots[k]? = if k = slot then some (some content) else b.slots[k]?)
    (hsilent : ∀ k ≠ slot,
      (∀ node, ¬ Places k calls c node) ∧ ∀ e target, ¬ Gives e k calls c target)
    (hholds : ∀ x, Holds registry (calls ++ [c]) slot x ↔ x = content) :
    (∀ k x, b'.slots[k]? = some (some x) ↔ Holds registry (calls ++ [c]) k x) ∧
      ∀ (k : Nat) node, Defines (calls ++ [c]) k node → ∃ x, b'.slots[k]? = some (some x) := by
  constructor
  · intro k x
    rw [hslots]
    split
    · next heq =>
      rw [heq, hholds, Option.some_inj, Option.some_inj, eq_comm]
    · next hne =>
      obtain ⟨hplaces, hgives⟩ := hsilent k hne
      rw [h.contents, holds_append_singleton_of_silent hplaces hgives]
  · intro k node hnode
    rw [hslots]
    split
    · exact ⟨content, rfl⟩
    · next hne =>
      rw [defines_append_singleton, or_iff_left ((hsilent k hne).1 node)] at hnode
      exact h.defined k node hnode

/-- What the slots hold after a definition. -/
theorem contents_of_define (h : Records registry calls b) {node : Definition Pattern Int}
    {word : Option String} {at? : Option Int} {content : Slot Pattern Int}
    (hslot : (Call.define node word at?).slot? (slotCount calls) = some slot)
    (hcontent : node.content registry = .ok content)
    (hnew : ∀ x, b.slots[slot]? ≠ some (some x))
    (hslots : ∀ k, b'.slots[k]? = if k = slot then some (some content) else b.slots[k]?) :
    (∀ k x, b'.slots[k]? = some (some x) ↔
      Holds registry (calls ++ [define node word at?]) k x) ∧
      ∀ k node', Defines (calls ++ [define node word at?]) k node' →
        ∃ x, b'.slots[k]? = some (some x) := by
  refine h.contents_of_update hslots (fun k hne => ⟨?_, ?_⟩) fun x => ?_
  · rintro node' ⟨hplace, -⟩
    exact hne (Option.some_inj.1 (hplace.symm.trans hslot))
  · intro e target hgives
    exact hne (Option.some_inj.1 ((gives_define_iff.1 hgives).1.symm.trans hslot))
  · refine holds_append_singleton_of_define ⟨hslot, word, at?, rfl⟩ hcontent fun node' hnode => ?_
    obtain ⟨x, hx⟩ := h.defined slot node' hnode
    exact hnew x hx

/-- What the slots hold after a link. -/
theorem contents_of_link (h : Records registry calls b) {source : NodeRef Int} {e : Edge}
    {target m r : Option (NodeRef Int)} {pattern : Pattern} (he : e ≠ .root)
    (hplace : b.slotOf? source = some slot)
    (hslot : b.slots[slot]? = some (some (.branch pattern m r)))
    (hslots : ∀ k, b'.slots[k]? =
      if k = slot then some (some (Slot.aim e target (.branch pattern m r))) else b.slots[k]?) :
    (∀ k x, b'.slots[k]? = some (some x) ↔
      Holds registry (calls ++ [link (some source) e target]) k x) ∧
      ∀ (k : Nat) node, Defines (calls ++ [link (some source) e target]) k node →
        ∃ x, b'.slots[k]? = some (some x) := by
  have hsource := h.slotOf?_eq_some_iff.1 hplace
  refine h.contents_of_update hslots (fun k hne => ⟨?_, ?_⟩) fun x => ?_
  · rintro node ⟨hnone, -⟩
    cases hnone
  · intro e' target' hgives
    obtain ⟨-, -, -, hstarts⟩ := gives_link_iff.1 hgives
    have hk := h.slotOf?_eq_some_iff.2 hstarts
    exact hne (Option.some_inj.1 (hk.symm.trans hplace))
  · refine holds_append_singleton_of_link he hsource fun x => ?_
    rw [← h.contents, hslot, Option.some_inj, Option.some_inj, eq_comm]

theorem contents_step (h : Records registry calls b) (hstep : c.Step b b') :
    (∀ k x, b'.slots[k]? = some (some x) ↔ Holds registry (calls ++ [c]) k x) ∧
      ∀ (k : Nat) node, Defines (calls ++ [c]) k node → ∃ x, b'.slots[k]? = some (some x) := by
  cases hstep with
  | reserve =>
    refine h.contents_of_silent (fun k => ⟨?_, ?_⟩) fun k x => ?_
    · rintro node ⟨-, _, _, ⟨⟩⟩
    · rintro e target ⟨⟩
    · -- The new slot is there, but it holds nothing yet.
      rw [List.getElem?_append]
      split
      · rfl
      · next hle =>
        rw [List.getElem?_eq_none (Nat.not_lt.1 hle), List.getElem?_singleton]
        split <;> simp
  | next hcontent =>
    refine h.contents_of_define (congrArg some h.length_slots.symm) (h.registry_eq ▸ hcontent) ?_ ?_
    · intro x
      rw [List.getElem?_eq_none (Nat.le_refl _)]
      rintro ⟨⟩
    · exact List.getElem?_append_singleton _ _
  | fill hcontent hplace =>
    have hnone := hplace.2.2
    refine h.contents_of_define (slot?_of_vacant hplace _) (h.registry_eq ▸ hcontent) ?_ ?_
    · intro x
      rw [hnone]
      rintro ⟨⟩
    · exact List.getElem?_set_of_getElem? hnone _
  | link he hplace hslot =>
    exact h.contents_of_link he hplace hslot (List.getElem?_set_of_getElem? hslot _)
  | linkRoot =>
    refine h.contents_of_silent (fun k => ⟨?_, ?_⟩) fun k x => Iff.rfl
    · rintro node ⟨-, _, _, ⟨⟩⟩
    · rintro e target (_ | ⟨he, -⟩)
      exact he rfl
  | setRoot =>
    refine h.contents_of_silent (fun k => ⟨?_, ?_⟩) fun k x => Iff.rfl
    · rintro node ⟨-, _, _, ⟨⟩⟩
    · rintro e target ⟨⟩

/-- **Each call adds to the builder what it adds to the history.** -/
theorem step (h : Records registry calls b) (hstep : c.Step b b') :
    Records registry (calls ++ [c]) b' where
  registry_eq := hstep.registry_eq.trans h.registry_eq
  length_slots := by rw [hstep.length_slots, h.length_slots, slotCount_append_singleton]
  labels name slot := by
    rw [hstep.lookup_labels, h.labels, h.length_slots, labels_append_singleton]
  lt_of_labels name slot hlabels := by
    rw [labels_append_singleton] at hlabels
    rw [slotCount_append_singleton]
    obtain hlabels | ⟨-, hslot⟩ := hlabels
    · exact Nat.lt_add_right _ (h.lt_of_labels name slot hlabels)
    · have hlt := hstep.slot?_lt (h.length_slots ▸ hslot)
      rwa [hstep.length_slots, h.length_slots] at hlt
  root target := by
    rw [hstep.root_eq, latest_append_singleton]
    simp only [Chooses]
    cases c.root? with
    | none => simp [h.root]
    | some chosen => simp
  contents := (h.contents_step hstep).1
  defined := (h.contents_step hstep).2

end Records

namespace Records

theorem resolve_eq_ok_iff (h : Records registry calls b) {ref : NodeRef Int} {i : Int} :
    b.resolve ref = .ok i ↔ Names calls ref i := by
  cases ref with
  | index j =>
    rw [Builder.resolve, Except.ok.injEq]
    constructor
    · rintro rfl
      exact .index j
    · rintro ⟨⟩
      rfl
  | label name =>
    have hlabels := h.labels name
    rw [Builder.resolve]
    cases hk : b.labels.lookup name with
    | none =>
      rw [hk] at hlabels
      refine iff_of_false (fun h => by cases h) ?_
      rintro (_ | hlabel)
      cases (hlabels _).2 hlabel
    | some k =>
      rw [hk] at hlabels
      constructor
      · rintro ⟨⟩
        exact .label ((hlabels k).1 rfl)
      · rintro (_ | hlabel)
        cases (hlabels _).2 hlabel
        rfl

theorem mapM_resolve_eq_ok_iff (h : Records registry calls b) {target : Option (NodeRef Int)}
    {i? : Option Int} : target.mapM b.resolve = .ok i? ↔ Option.Rel (Names calls) target i? := by
  cases target with
  | none =>
    rw [Option.mapM_none, Except.pure_eq_ok_iff]
    constructor
    · rintro rfl
      exact .none
    · rintro ⟨⟩
      rfl
  | some ref =>
    rw [Option.mapM_some]
    constructor
    · intro hi
      obtain ⟨i, hi, heq⟩ := Except.map_eq_ok_iff.1 hi
      exact heq ▸ .some (h.resolve_eq_ok_iff.1 hi)
    · rintro ⟨hname⟩
      exact Except.map_eq_ok_iff.2 ⟨_, h.resolve_eq_ok_iff.2 hname, rfl⟩

theorem node_eq_ok_iff (h : Records registry calls b) {content : Slot Pattern Int} {n : Node}
    {index : Nat} : b.node .branch .leaf (some content) index = .ok n ↔
      Becomes calls content n := by
  cases content with
  | leaf p =>
    rw [Builder.node, Except.ok.injEq]
    constructor
    · rintro rfl
      exact .leaf p
    · rintro ⟨⟩
      rfl
  | branch p m r =>
    simp only [Builder.node, Except.bind_eq_ok_iff, Except.pure_eq_ok_iff,
      h.mapM_resolve_eq_ok_iff]
    constructor
    · rintro ⟨onMatch, hm, onRefute, hr, rfl⟩
      exact .branch hm hr
    · rintro (_ | ⟨hm, hr⟩)
      exact ⟨_, hm, _, hr, rfl⟩

theorem nodes_eq_ok_iff (h : Records registry calls b) {nodes : List Node} :
    b.nodes .branch .leaf = .ok nodes ↔ nodes.length = slotCount calls ∧
      ∀ (slot : Nat) (n : Node), nodes[slot]? = some n →
        ∃ content, Holds registry calls slot content ∧ Becomes calls content n := by
  rw [Builder.nodes, List.mapM_eq_ok_iff, List.forall₂_iff_getElem?, List.length_zipIdx,
    h.length_slots]
  refine and_congr_right fun _ => forall₃_congr fun slot n _ => ?_
  simp only [List.getElem?_zipIdx, Option.map_eq_some_iff, ← h.contents]
  constructor
  · rintro ⟨_, ⟨content?, hslot, rfl⟩, hnode⟩
    cases content? with
    | none => cases hnode
    | some content => exact ⟨content, hslot, h.node_eq_ok_iff.1 hnode⟩
  · rintro ⟨content, hslot, hbecomes⟩
    exact ⟨_, ⟨some content, hslot, rfl⟩, h.node_eq_ok_iff.2 hbecomes⟩

theorem rootIndex_eq_ok_iff (h : Records registry calls b) {root : Int} :
    b.rootIndex = .ok root ↔ Roots calls root := by
  have hchosen := h.root
  have hlabels := h.labels "root"
  rw [Builder.rootIndex]
  cases hroot : b.root with
  | some target =>
    rw [hroot] at hchosen
    simp only [h.resolve_eq_ok_iff]
    constructor
    · exact .chosen ((hchosen target).1 rfl)
    · rintro (⟨hlatest, hname⟩ | ⟨hnot, -⟩ | ⟨hnot, -⟩)
      · cases (hchosen _).2 hlatest
        exact hname
      · exact absurd ((hchosen target).1 rfl) (hnot target)
      · exact absurd ((hchosen target).1 rfl) (hnot target)
  | none =>
    rw [hroot] at hchosen
    have hnot (target : NodeRef Int) : ¬ Latest Chooses calls (some target) := fun hlatest => by
      cases (hchosen target).2 hlatest
    rw [Except.ok.injEq]
    cases hlookup : b.labels.lookup "root" with
    | some slot =>
      rw [hlookup] at hlabels
      constructor
      · rintro rfl
        exact .labelled hnot ((hlabels slot).1 rfl)
      · rintro (⟨hlatest, -⟩ | ⟨-, hlabel⟩ | ⟨-, hnone⟩)
        · exact absurd hlatest (hnot _)
        · cases (hlabels _).2 hlabel
          rfl
        · exact absurd ((hlabels slot).1 rfl) (hnone slot)
    | none =>
      rw [hlookup] at hlabels
      constructor
      · rintro rfl
        refine .first hnot fun slot hlabel => ?_
        cases (hlabels slot).2 hlabel
      · rintro (⟨hlatest, -⟩ | ⟨-, hlabel⟩ | -)
        · exact absurd hlatest (hnot _)
        · cases (hlabels _).2 hlabel
        · rfl

/-- **A builder assembles the diagram that its calls describe.** -/
theorem assemble_eq_ok_iff (h : Records registry calls b) {d : Diagram} :
    b.assemble = .ok d ↔ Describes registry calls d := by
  simp only [Builder.assemble, Except.bind_eq_ok_iff, Except.pure_eq_ok_iff, h.nodes_eq_ok_iff,
    h.rootIndex_eq_ok_iff]
  constructor
  · rintro ⟨nodes, ⟨hlength, hnodes⟩, root, hroot, rfl⟩
    exact ⟨hlength, hnodes, hroot⟩
  · intro hd
    exact ⟨d.nodes, ⟨hd.length_nodes, hd.nodes⟩, d.root, hd.root, rfl⟩

end Records

end Call

end RuleDiagram
