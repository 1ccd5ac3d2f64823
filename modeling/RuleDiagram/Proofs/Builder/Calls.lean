import RuleDiagram.Diagram.Call
import RuleDiagram.Proofs.Outcome

/-!
# What a call does to a builder

A call either succeeds, and then it puts a slot behind the others or fills one, or moves an edge or
the root; or it fails. All checks but one come before anything is changed. The exception is the
label of a node that asks for the next slot: it is refused when the slot is there already, and the
slot stays behind, reserved and without a label.

## Main definitions

* `Call.Step`: what a call does when it succeeds
* `Call.leavesSlot`: a call fails and leaves a slot behind
* `Call.Runs`: calls succeed in turn

## Main results

* `Call.outcome_eq_ok_iff`: when a call succeeds, and with which builder
* `Call.eq_of_outcome_eq_error`: which builder a call leaves when it fails
* `Call.runs_cons_iff`: calls succeed one by one
-/

namespace RuleDiagram

variable {π ι α β : Type} {b b' : Builder π ι}

/-! ## Outcomes of sequences -/

namespace Building

theorem outcome_bind (x : Building π ι α) (f : α → Building π ι β) (b : Builder π ι) :
    (x >>= f).outcome b =
      match x.outcome b with
      | (.ok a, b') => (f a).outcome b'
      | (.error fault, b') => (.error fault, b') := by
  show (ExceptT.bindCont f (x b).1 : StateT _ Id _) (x b).2 = _
  unfold outcome
  show _ = match x b with
      | (.ok a, b') => (f a).run.run b'
      | (.error fault, b') => (.error fault, b')
  rcases x b with ⟨_ | a, b'⟩ <;> rfl

@[simp]
theorem outcome_pure (a : α) : (pure a : Building π ι α).outcome b = (.ok a, b) := rfl

@[simp]
theorem outcome_throw (f : BuilderFault) :
    (throw f : Building π ι α).outcome b = (.error f, b) := rfl

@[simp]
theorem outcome_modify (f : Builder π ι → Builder π ι) :
    (modify f : Building π ι Unit).outcome b = (.ok (), f b) := rfl

@[simp]
theorem outcome_get : (get : Building π ι (Builder π ι)).outcome b = (.ok b, b) := rfl

end Building

/-! ## Patterns -/

/-- The pattern that is meant, with the predicates of a registry. -/
def PatternRef.pattern (registry : Option Registry) : PatternRef π → Except BuilderFault π
  | given pattern => .ok pattern
  | named name make =>
    match registry.bind fun r => r.find? name with
    | some p => .ok (make p)
    | none => .error (.unknownPredicate name)

/-- The content of the slot of a node, with the predicates of a registry. -/
def Definition.content (registry : Option Registry) :
    Definition π ι → Except BuilderFault (Slot π ι)
  | branch pattern m r => return .branch (← pattern.pattern registry) m r
  | leaf pattern => return .leaf (← pattern.pattern registry)

theorem PatternRef.outcome_find (p : PatternRef π) (b : Builder π ι) :
    (p.find : Building π ι π).outcome b = (p.pattern b.registry, b) := by
  cases p with
  | given pattern => rfl
  | named name make =>
    simp only [find, Builder.predicate, pattern, Building.outcome_bind, Building.outcome_get]
    cases b.registry.bind fun r => r.find? name <;> rfl

/-- Looking a predicate up changes nothing. -/
theorem Definition.outcome_slot (node : Definition π ι) (b : Builder π ι) :
    node.slot.outcome b = (node.content b.registry, b) := by
  cases node with
  | branch pattern m r =>
    rw [slot, content, Building.outcome_bind, PatternRef.outcome_find]
    cases pattern.pattern b.registry <;> rfl
  | leaf pattern =>
    rw [slot, content, Building.outcome_bind, PatternRef.outcome_find]
    cases pattern.pattern b.registry <;> rfl

/-! ## Labels and slots -/

/-- A slot with another target of an edge; leaves have none. -/
def Slot.aim (e : Edge) (target : Option (NodeRef ι)) : Slot π ι → Slot π ι
  | .branch p m r =>
    .branch p (if e = .onMatch then target else m) (if e = .onRefute then target else r)
  | .leaf p => .leaf p

/-- The target that a definition gives to an edge. -/
def Definition.target? : Definition π ι → Edge → Option (Option (NodeRef ι))
  | branch _ m _, .onMatch => some m
  | branch _ _ r, .onRefute => some r
  | _, _ => none

namespace Builder

variable {place : Nat} {name : Option String} {i : ι} {source : NodeRef ι} {e : Edge}

/-- The labels once a slot has been given a label, if it may have it. -/
def labelled (b : Builder π ι) (slot : Nat) :
    Option String → Except BuilderFault (List (String × Nat))
  | none => .ok b.labels
  | some name =>
    match b.labels.lookup name with
    | some i => if i = slot then .ok b.labels else .error (.duplicateLabel name)
    | none => .ok (b.labels ++ [(name, slot)])

/-- A label is refused where another slot has it. -/
theorem labelled_cases (b : Builder π ι) (slot : Nat) (name : Option String) :
    (∃ labels, b.labelled slot name = .ok labels) ∨
      ∃ word other, name = some word ∧ b.labels.lookup word = some other ∧ other ≠ slot ∧
        b.labelled slot name = .error (.duplicateLabel word) := by
  cases name with
  | none => exact .inl ⟨_, rfl⟩
  | some word =>
    rw [labelled]
    split
    · next other h =>
      split
      · exact .inl ⟨_, rfl⟩
      · next hne => exact .inr ⟨word, other, rfl, h, hne, rfl⟩
    · exact .inl ⟨_, rfl⟩

theorem outcome_label (name : String) (slot : Nat) (b : Builder π ι) :
    (label name slot).outcome b =
      match b.labelled slot (some name) with
      | .ok labels => (.ok (), { b with labels := labels })
      | .error f => (.error f, b) := by
  rw [label, Building.outcome_bind, Building.outcome_get, labelled]
  cases h : b.labels.lookup name with
  | none => simp [h]
  | some i =>
    by_cases heq : i = slot
    · simp [h, heq]
    · simp [h, heq]

theorem outcome_reserve_none :
    (reserve none).outcome b = (.ok b.slots.length, { b with slots := b.slots ++ [none] }) := rfl

/-- A slot is there before its label is looked at. -/
theorem outcome_reserve (name : Option String) (b : Builder π ι) :
    (reserve name).outcome b =
      match b.labelled b.slots.length name with
      | .ok labels =>
        (.ok b.slots.length, { b with slots := b.slots ++ [none], labels := labels })
      | .error f => (.error f, { b with slots := b.slots ++ [none] }) := by
  cases name with
  | none => rfl
  | some name =>
    simp only [reserve, Building.outcome_bind, Building.outcome_get, Building.outcome_modify,
      outcome_label]
    have hlabels : labelled { b with slots := b.slots ++ [none] } b.slots.length (some name) =
        b.labelled b.slots.length (some name) := rfl
    rw [hlabels]
    cases b.labelled b.slots.length (some name) <;> rfl

theorem isReserved_iff : b.isReserved place ↔ b.slots[place]? = some none := by
  rw [isReserved]
  split
  · next h => exact iff_of_true rfl h
  · next h => exact iff_of_false Bool.false_ne_true h

variable [SlotIndex ι]

/-- The index names a slot that is reserved and not defined yet. -/
def Vacant (b : Builder π ι) (i : ι) (place : Nat) : Prop :=
  SlotIndex.within? i b.slots.length = some true ∧
    (SlotIndex.int? i).map Int.toNat = some place ∧ b.slots[place]? = some none

/-- The slot that a link from a name acts on. -/
def slotOf? (b : Builder π ι) (source : NodeRef ι) : Option Nat :=
  ((b.resolve source).toOption.bind SlotIndex.int?).bind (place? b.slots.length)

theorem reservedSlot_eq_pure (h : b.Vacant i place) : b.reservedSlot i = pure place := by
  obtain ⟨hwithin, hint, hnone⟩ := h
  obtain ⟨slot, hslot, rfl⟩ := Option.map_eq_some_iff.1 hint
  simp only [reservedSlot, hwithin, hslot]
  exact if_pos (isReserved_iff.2 hnone)

theorem exists_reservedSlot_eq_throw (h : ∀ place, ¬ b.Vacant i place) :
    ∃ f, b.reservedSlot i = throw f := by
  rw [reservedSlot]
  split
  · next slot hwithin hint =>
    have hreserved : ¬ b.isReserved slot.toNat := fun hreserved =>
      h slot.toNat ⟨hwithin, by rw [hint, Option.map_some], isReserved_iff.1 hreserved⟩
    exact ⟨_, if_neg hreserved⟩
  · exact ⟨_, rfl⟩
  · exact ⟨_, rfl⟩

theorem outcome_define_next (slot : Slot π ι) (name : Option String) (b : Builder π ι) :
    (define slot name none).outcome b =
      match b.labelled b.slots.length name with
      | .ok labels => (.ok (), { b with slots := b.slots ++ [some slot], labels := labels })
      | .error f => (.error f, { b with slots := b.slots ++ [none] }) := by
  have hset : (b.slots ++ [none]).set b.slots.length (some slot) = b.slots ++ [some slot] := by
    rw [List.set_append_right _ _ (Nat.le_refl _), Nat.sub_self, List.set_cons_zero]
  cases name with
  | none =>
    simp only [define, Building.outcome_bind, Building.outcome_modify, outcome_reserve_none,
      labelled, hset]
  | some name =>
    simp only [define, Building.outcome_bind, Building.outcome_modify, outcome_reserve_none,
      outcome_label]
    have hlabels : labelled { b with slots := b.slots ++ [none] } b.slots.length (some name) =
        b.labelled b.slots.length (some name) := rfl
    rw [hlabels]
    cases b.labelled b.slots.length (some name) with
    | error f => rfl
    | ok labels => simp only [hset]

theorem outcome_define_of_vacant (h : b.Vacant i place) (slot : Slot π ι) (name : Option String) :
    (define slot name (some i)).outcome b =
      match b.labelled place name with
      | .ok labels => (.ok (), { b with slots := b.slots.set place (some slot), labels := labels })
      | .error f => (.error f, b) := by
  cases name with
  | none =>
    simp only [define, Building.outcome_bind, Building.outcome_get, Building.outcome_modify,
      Building.outcome_pure, reservedSlot_eq_pure h, labelled]
  | some name =>
    simp only [define, Building.outcome_bind, Building.outcome_get, Building.outcome_modify,
      Building.outcome_pure, reservedSlot_eq_pure h, outcome_label]
    cases b.labelled place (some name) <;> rfl

theorem exists_outcome_define_eq_error (h : ∀ place, ¬ b.Vacant i place) (slot : Slot π ι)
    (name : Option String) : ∃ f, (define slot name (some i)).outcome b = (.error f, b) := by
  obtain ⟨f, hf⟩ := exists_reservedSlot_eq_throw h
  refine ⟨f, ?_⟩
  simp only [define, Building.outcome_bind, Building.outcome_get, hf, Building.outcome_throw]

theorem outcome_link_of_branch {p : π} {m r : Option (NodeRef ι)} (he : e ≠ .root)
    (hplace : b.slotOf? source = some place) (hslot : b.slots[place]? = some (some (.branch p m r)))
    (target : Option (NodeRef ι)) :
    (link (some source) e target).outcome b =
      (.ok (),
        { b with slots := b.slots.set place (some (Slot.aim e target (.branch p m r))) }) := by
  obtain ⟨i, hi, hplace⟩ := Option.bind_eq_some_iff.1 hplace
  obtain ⟨index, hindex, hi⟩ := Option.bind_eq_some_iff.1 hi
  rw [Except.toOption_eq_some_iff] at hindex
  simp only [link, if_neg he, Building.outcome_bind, Building.outcome_get, hindex, link.liftExcept,
    Building.outcome_pure, hi, hplace, hslot, Building.outcome_modify]
  cases e with
  | root => exact absurd rfl he
  | onMatch => rfl
  | onRefute => rfl

theorem exists_outcome_link_eq_error (he : e ≠ .root)
    (h : ∀ place p m r, b.slotOf? source = some place →
      b.slots[place]? ≠ some (some (.branch p m r))) (target : Option (NodeRef ι)) :
    ∃ f, (link (some source) e target).outcome b = (.error f, b) := by
  simp only [link, if_neg he, Building.outcome_bind, Building.outcome_get]
  cases hindex : b.resolve source with
  | error f => exact ⟨f, rfl⟩
  | ok index =>
    simp only [link.liftExcept, Building.outcome_pure]
    cases hi : SlotIndex.int? index with
    | none => exact ⟨_, rfl⟩
    | some i =>
      cases hplace : place? b.slots.length i with
      | none => exact ⟨_, by simp only [Building.outcome_throw, hplace]; rfl⟩
      | some place =>
        have hslotOf : b.slotOf? source = some place := by
          simp only [slotOf?, hindex, Except.toOption, Option.bind_some, hi, hplace]
        simp only [hplace]
        split
        · next p m r hslot => exact absurd hslot (h place p m r hslotOf)
        · exact ⟨_, rfl⟩

end Builder

/-! ## Calls -/

namespace Call

variable {c : Call π ι} {calls : List (Call π ι)}

/-- A call asks for the next slot. -/
def isFresh : Call π ι → Bool
  | reserve _ | define _ _ none => true
  | _ => false

/-- The root that a call chooses, where none chooses the default. -/
def root? : Call π ι → Option (Option (NodeRef ι))
  | .link _ .root target | .setRoot target => some target
  | _ => none

/-- A call asks for the next slot with a label that another slot has. -/
def leavesSlot (b : Builder π ι) : Call π ι → Bool
  | reserve (some name) => taken name
  | define node (some name) none => (node.content b.registry).isOk && taken name
  | _ => false
where
  /-- A slot other than the next has the label. -/
  taken (name : String) : Bool := (b.labels.lookup name).any (· ≠ b.slots.length)

theorem isFresh_of_leavesSlot (h : c.leavesSlot b) : c.isFresh := by
  unfold leavesSlot at h
  split at h
  · rfl
  · rfl
  · cases h

/-- A label that a slot is given is not taken. -/
theorem taken_eq_false {word : String} {labels : List (String × Nat)}
    (h : b.labelled b.slots.length (some word) = .ok labels) : leavesSlot.taken b word = false := by
  rw [Builder.labelled] at h
  rw [leavesSlot.taken]
  cases hlookup : b.labels.lookup word with
  | none => rfl
  | some other =>
    simp only [hlookup] at h
    split at h
    · next heq => simp [heq]
    · cases h

variable [SlotIndex ι]

/-- What a call does when it succeeds. -/
inductive Step (b : Builder π ι) : Call π ι → Builder π ι → Prop
  | reserve {name : Option String} {labels : List (String × Nat)}
    (hlabels : b.labelled b.slots.length name = .ok labels) :
    Step b (reserve name) { b with slots := b.slots ++ [none], labels := labels }
  | next {node : Definition π ι} {name : Option String} {slot : Slot π ι}
    {labels : List (String × Nat)} (hslot : node.content b.registry = .ok slot)
    (hlabels : b.labelled b.slots.length name = .ok labels) :
    Step b (define node name none) { b with slots := b.slots ++ [some slot], labels := labels }
  | fill {node : Definition π ι} {name : Option String} {i : ι} {place : Nat} {slot : Slot π ι}
    {labels : List (String × Nat)} (hslot : node.content b.registry = .ok slot)
    (hplace : b.Vacant i place) (hlabels : b.labelled place name = .ok labels) :
    Step b (define node name (some i))
      { b with slots := b.slots.set place (some slot), labels := labels }
  | link {source : NodeRef ι} {e : Edge} {target : Option (NodeRef ι)} {place : Nat} {p : π}
    {m r : Option (NodeRef ι)} (he : e ≠ .root) (hplace : b.slotOf? source = some place)
    (hslot : b.slots[place]? = some (some (.branch p m r))) :
    Step b (link (some source) e target)
      { b with slots := b.slots.set place (some (Slot.aim e target (.branch p m r))) }
  | linkRoot {source target : Option (NodeRef ι)} :
    Step b (.link source .root target) { b with root := target }
  | setRoot {target : Option (NodeRef ι)} : Step b (setRoot target) { b with root := target }

theorem outcome_reserve (name : Option String) (b : Builder π ι) :
    (reserve name).perform.outcome b =
      match b.labelled b.slots.length name with
      | .ok labels => (.ok (), { b with slots := b.slots ++ [none], labels := labels })
      | .error f => (.error f, { b with slots := b.slots ++ [none] }) := by
  rw [perform, Building.outcome_bind, Builder.outcome_reserve]
  cases b.labelled b.slots.length name <;> rfl

theorem outcome_define (node : Definition π ι) (name : Option String) (at? : Option ι)
    (b : Builder π ι) :
    (define node name at?).perform.outcome b =
      match node.content b.registry with
      | .ok slot => (Builder.define slot name at?).outcome b
      | .error f => (.error f, b) := by
  rw [perform, Building.outcome_bind, Definition.outcome_slot]
  cases node.content b.registry <;> rfl

theorem Step.outcome_eq (h : c.Step b b') : c.perform.outcome b = (.ok (), b') := by
  cases h with
  | reserve hlabels => rw [outcome_reserve, hlabels]
  | next hslot hlabels =>
    simp only [outcome_define, hslot, Builder.outcome_define_next, hlabels]
  | fill hslot hplace hlabels =>
    simp only [outcome_define, hslot, Builder.outcome_define_of_vacant hplace, hlabels]
  | link he hplace hslot => exact Builder.outcome_link_of_branch he hplace hslot _
  | linkRoot => rfl
  | setRoot => rfl

theorem Step.unique {b₁ b₂ : Builder π ι} (h₁ : c.Step b b₁) (h₂ : c.Step b b₂) : b₁ = b₂ :=
  (Prod.mk.inj (h₁.outcome_eq.symm.trans h₂.outcome_eq)).2

/-- Without a step, a call fails, and nothing is left of it but perhaps a slot. -/
theorem step_or_error (c : Call π ι) (b : Builder π ι) :
    (∃ b', c.Step b b') ∨ ∃ f, c.perform.outcome b =
      (.error f, if c.leavesSlot b then { b with slots := b.slots ++ [none] } else b) := by
  cases c with
  | reserve name =>
    obtain ⟨labels, hlabels⟩ | ⟨word, other, rfl, hother, hne, hlabels⟩ :=
      b.labelled_cases b.slots.length name
    · exact .inl ⟨_, .reserve hlabels⟩
    · refine .inr ⟨.duplicateLabel word, ?_⟩
      simp [outcome_reserve, hlabels, leavesSlot, leavesSlot.taken, hother, hne]
  | define node name at? =>
    -- The predicate is looked up before the slot is taken.
    cases hslot : node.content b.registry with
    | error f =>
      have hleaves : (define node name at?).leavesSlot b = false := by
        cases name <;> cases at? <;> simp [leavesSlot, hslot, Except.isOk, Except.toBool]
      refine .inr ⟨f, ?_⟩
      simp [outcome_define, hslot, hleaves]
    | ok slot =>
      -- The next slot is taken before its label is looked at, a reserved one after that.
      cases at? with
      | none =>
        obtain ⟨labels, hlabels⟩ | ⟨word, other, rfl, hother, hne, hlabels⟩ :=
          b.labelled_cases b.slots.length name
        · exact .inl ⟨_, .next hslot hlabels⟩
        · refine .inr ⟨.duplicateLabel word, ?_⟩
          simp [outcome_define, hslot, Builder.outcome_define_next, hlabels, leavesSlot,
            leavesSlot.taken, Except.isOk, Except.toBool, hother, hne]
      | some i =>
        have hleaves : (define node name (some i)).leavesSlot b = false := by
          cases name <;> rfl
        by_cases hvacant : ∃ place, b.Vacant i place
        · obtain ⟨place, hplace⟩ := hvacant
          obtain ⟨labels, hlabels⟩ | ⟨word, -, -, -, -, hlabels⟩ := b.labelled_cases place name
          · exact .inl ⟨_, .fill hslot hplace hlabels⟩
          · refine .inr ⟨.duplicateLabel word, ?_⟩
            simp [outcome_define, hslot, Builder.outcome_define_of_vacant hplace, hlabels, hleaves]
        · obtain ⟨f, hf⟩ := Builder.exists_outcome_define_eq_error (not_exists.1 hvacant) slot name
          refine .inr ⟨f, ?_⟩
          simp [outcome_define, hslot, hf, hleaves]
  | link source e target =>
    by_cases he : e = .root
    · subst he
      exact .inl ⟨_, .linkRoot⟩
    · cases source with
      | none =>
        refine .inr ⟨.noSlotNamed, ?_⟩
        rw [perform, Builder.link, if_neg he]
        rfl
      | some source =>
        by_cases hbranch : ∃ place p m r, b.slotOf? source = some place ∧
            b.slots[place]? = some (some (.branch p m r))
        · obtain ⟨place, p, m, r, hplace, hslot⟩ := hbranch
          exact .inl ⟨_, .link he hplace hslot⟩
        · refine .inr (Builder.exists_outcome_link_eq_error he ?_ target)
          intro place p m r hplace hslot
          exact hbranch ⟨place, p, m, r, hplace, hslot⟩
  | setRoot target => exact .inl ⟨_, .setRoot⟩

/-- **A call succeeds just if it takes a step**, and with the builder that the step leads to. -/
theorem outcome_eq_ok_iff : c.perform.outcome b = (.ok (), b') ↔ c.Step b b' := by
  refine ⟨fun h => ?_, Step.outcome_eq⟩
  obtain ⟨b'', hstep⟩ | ⟨f, hf⟩ := step_or_error c b
  · obtain ⟨-, rfl⟩ := Prod.mk.inj (h.symm.trans hstep.outcome_eq)
    exact hstep
  · cases h.symm.trans hf

/-- **What is left of a call that fails**: nothing, or one more slot, which is reserved and has no
label. -/
theorem eq_of_outcome_eq_error {f : BuilderFault} (h : c.perform.outcome b = (.error f, b')) :
    b' = if c.leavesSlot b then { b with slots := b.slots ++ [none] } else b := by
  obtain ⟨b'', hstep⟩ | ⟨f', hf⟩ := step_or_error c b
  · cases h.symm.trans hstep.outcome_eq
  · exact (Prod.mk.inj (h.symm.trans hf)).2

/-- A call that succeeds leaves no slot behind. -/
theorem Step.leavesSlot_eq_false (h : c.Step b b') : c.leavesSlot b = false := by
  cases h with
  | @reserve name labels hlabels =>
    cases name with
    | none => rfl
    | some word => exact taken_eq_false hlabels
  | @next node name slot labels hslot hlabels =>
    cases name with
    | none => rfl
    | some word => rw [leavesSlot, taken_eq_false hlabels, Bool.and_false]
  | @fill node name i place slot labels hslot hplace hlabels =>
    cases name <;> rfl
  | link => rfl
  | linkRoot => rfl
  | setRoot => rfl

/-- A call that succeeds adds a slot just if it asks for the next one. -/
theorem Step.length_slots (h : c.Step b b') :
    b'.slots.length = b.slots.length + if c.isFresh then 1 else 0 := by
  cases h with
  | reserve => exact List.length_append
  | next => exact List.length_append
  | fill => exact List.length_set
  | link => exact List.length_set
  | linkRoot => rfl
  | setRoot => rfl

/-! ## Runs -/

/-- The calls succeed in turn and lead from one builder to another. -/
def Runs (b : Builder π ι) (calls : List (Call π ι)) (b' : Builder π ι) : Prop :=
  (performAll calls).outcome b = (.ok (), b')

theorem runs_nil_iff : Runs b ([] : List (Call π ι)) b' ↔ b = b' := by
  have hnil : (performAll ([] : List (Call π ι))).outcome b = (.ok (), b) := rfl
  rw [Runs, hnil, Prod.mk.injEq]
  exact and_iff_right rfl

/-- **Calls succeed one by one.** -/
theorem runs_cons_iff {b'' : Builder π ι} :
    Runs b (c :: calls) b'' ↔ ∃ b', c.Step b b' ∧ Runs b' calls b'' := by
  have hcons : performAll (c :: calls) = c.perform >>= fun _ => performAll calls := rfl
  rw [Runs, hcons, Building.outcome_bind]
  obtain ⟨b₁, hstep⟩ | ⟨f, hf⟩ := step_or_error c b
  · rw [hstep.outcome_eq]
    constructor
    · intro h
      exact ⟨b₁, hstep, h⟩
    · rintro ⟨b', hstep', h⟩
      exact hstep.unique hstep' ▸ h
  · rw [hf]
    constructor
    · rintro ⟨⟩
    · rintro ⟨b', hstep, -⟩
      cases hf.symm.trans hstep.outcome_eq

end Call

end RuleDiagram
