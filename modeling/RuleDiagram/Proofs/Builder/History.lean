import RuleDiagram.Proofs.Builder.Calls

/-!
# The diagram of a history of calls

What a builder builds after calls that succeed is said by the calls alone. There is a node for each
call that asked for a slot, in that order. A slot holds the node that one call defined for it, with
the targets that were given last for its edges. A name stands for the slot that it was attached to,
whether before or after its use, and the root is the one chosen last.

## Main definitions

* `Call.Sometime`, `Call.Latest`: one of the calls does something, and the last one that settles
  something
* `Call.Labels`, `Call.Names`: what labels and names stand for in the end
* `Call.Holds`: what a slot holds in the end
* `Call.Describes`: the diagram of the calls

## Main results

* `Call.sometime_append_singleton`, `Call.latest_append_singleton`: one call more
* `Call.holds_append_singleton_of_define`, `Call.holds_append_singleton_of_link`: what a slot holds
  after one call more
-/

namespace RuleDiagram

namespace Call

variable {α : Type} {registry : Option Registry} {calls earlier : List (Call Pattern Int)}
  {c : Call Pattern Int} {b b' : Builder Pattern Int} {slot : Nat} {name : String}

/-! ## Histories -/

/-- One of the calls is made in a certain situation, which the calls before it settle. -/
def Sometime (P : List (Call Pattern Int) → Call Pattern Int → Prop)
    (calls : List (Call Pattern Int)) : Prop :=
  ∃ earlier c later, calls = earlier ++ c :: later ∧ P earlier c

/-- The last of the calls that give anything gives this. -/
def Latest (gives : List (Call Pattern Int) → Call Pattern Int → α → Prop)
    (calls : List (Call Pattern Int)) (a : α) : Prop :=
  ∃ earlier c later, calls = earlier ++ c :: later ∧ gives earlier c a ∧
    ∀ between c' rest, later = between ++ c' :: rest → ∀ a', ¬ gives (earlier ++ c :: between) c' a'

/-- One of the calls is the last, or it is among the others. -/
theorem of_append_singleton_eq {later : List (Call Pattern Int)} {x : Call Pattern Int}
    (h : calls ++ [c] = earlier ++ x :: later) :
    (calls = earlier ∧ c = x ∧ later = []) ∨
      ∃ rest, later = rest ++ [c] ∧ calls = earlier ++ x :: rest := by
  rcases List.eq_nil_or_concat' later with rfl | ⟨rest, last, rfl⟩
  · obtain ⟨hcalls, hc⟩ := List.append_inj' h rfl
    exact .inl ⟨hcalls, List.singleton_inj.1 hc, rfl⟩
  · rw [← List.cons_append, ← List.append_assoc] at h
    obtain ⟨hcalls, hc⟩ := List.append_inj' h rfl
    exact .inr ⟨rest, by rw [hc], hcalls⟩

theorem not_sometime_nil {P : List (Call Pattern Int) → Call Pattern Int → Prop} :
    ¬ Sometime P [] := by
  rintro ⟨earlier, c, later, h, -⟩
  simp at h

theorem sometime_append_singleton {P : List (Call Pattern Int) → Call Pattern Int → Prop} :
    Sometime P (calls ++ [c]) ↔ Sometime P calls ∨ P calls c := by
  constructor
  · rintro ⟨earlier, x, later, h, hP⟩
    obtain ⟨rfl, rfl, -⟩ | ⟨rest, -, h⟩ := of_append_singleton_eq h
    · exact .inr hP
    · exact .inl ⟨earlier, x, rest, h, hP⟩
  · rintro (⟨earlier, x, later, rfl, hP⟩ | hP)
    · exact ⟨earlier, x, later ++ [c], by simp, hP⟩
    · exact ⟨calls, c, [], rfl, hP⟩

theorem not_latest_nil {gives : List (Call Pattern Int) → Call Pattern Int → α → Prop} {a : α} :
    ¬ Latest gives [] a := by
  rintro ⟨earlier, c, later, h, -⟩
  simp at h

theorem latest_append_singleton
    {gives : List (Call Pattern Int) → Call Pattern Int → α → Prop} {a : α} :
    Latest gives (calls ++ [c]) a ↔
      gives calls c a ∨ (∀ a', ¬ gives calls c a') ∧ Latest gives calls a := by
  constructor
  · rintro ⟨earlier, x, later, h, hgives, hlast⟩
    obtain ⟨rfl, rfl, -⟩ | ⟨rest, rfl, rfl⟩ := of_append_singleton_eq h
    · exact .inl hgives
    · refine .inr ⟨hlast rest c [] rfl, earlier, x, rest, rfl, hgives, ?_⟩
      rintro between c' rest' rfl
      exact hlast between c' (rest' ++ [c]) (by simp)
  · rintro (hgives | ⟨hnot, earlier, x, later, rfl, hgives, hlast⟩)
    · exact ⟨calls, c, [], rfl, hgives, by simp⟩
    · refine ⟨earlier, x, later ++ [c], by simp, hgives, fun between c' rest h => ?_⟩
      obtain ⟨rfl, rfl, -⟩ | ⟨rest', -, h⟩ := of_append_singleton_eq h
      · exact hnot
      · exact hlast between c' rest' h

/-! ## Slots, labels and edges -/

/-- The number of slots asked for. -/
def slotCount (calls : List (Call Pattern Int)) : Nat := calls.countP isFresh

/-- The slot that a call reserves or defines, where so many are there before it. -/
def slot? (count : Nat) : Call Pattern Int → Option Nat
  | reserve _ | define _ _ none => some count
  | define _ _ (some i) => some i.toNat
  | link .. | setRoot _ => none

/-- The label that a call attaches to its slot. -/
def label? : Call Pattern Int → Option String
  | reserve name | define _ name _ => name
  | link .. | setRoot _ => none

/-- A label is attached to a slot. -/
def Labels (calls : List (Call Pattern Int)) (name : String) (slot : Nat) : Prop :=
  Sometime (fun earlier c => c.label? = some name ∧ c.slot? (slotCount earlier) = some slot) calls

/-- The index that the name of a target stands for in the end. -/
inductive Names (calls : List (Call Pattern Int)) : NodeRef Int → Int → Prop
  | index (i : Int) : Names calls (.index i) i
  | label {name : String} {slot : Nat} (h : Labels calls name slot) : Names calls (.label name) slot

/-- The slot that the source of a link names after the calls so far. Negative indices count from
the end. -/
inductive Starts (calls : List (Call Pattern Int)) : NodeRef Int → Nat → Prop
  | index {i : Int} {slot : Nat} (h : place? (slotCount calls) i = some slot) :
    Starts calls (.index i) slot
  | label {name : String} {slot : Nat} (h : Labels calls name slot) :
    Starts calls (.label name) slot

/-- A call defines a node in a slot. -/
def Places (slot : Nat) (earlier : List (Call Pattern Int)) (c : Call Pattern Int)
    (node : Definition Pattern Int) : Prop :=
  c.slot? (slotCount earlier) = some slot ∧ ∃ name at?, c = define node name at?

/-- A node is defined in a slot. -/
def Defines (calls : List (Call Pattern Int)) (slot : Nat) (node : Definition Pattern Int) : Prop :=
  Sometime (fun earlier c => Places slot earlier c node) calls

/-- A call gives a target to an edge of a slot: it defines the slot, or it links from it. -/
inductive Gives (e : Edge) (slot : Nat) (earlier : List (Call Pattern Int)) :
    Call Pattern Int → Option (NodeRef Int) → Prop
  | define {node : Definition Pattern Int} {name : Option String} {at? : Option Int}
    {target : Option (NodeRef Int)}
    (hslot : (Call.define node name at?).slot? (slotCount earlier) = some slot)
    (htarget : node.target? e = some target) : Gives e slot earlier (define node name at?) target
  | link {source : NodeRef Int} {target : Option (NodeRef Int)} (he : e ≠ .root)
    (hsource : Starts earlier source slot) :
    Gives e slot earlier (link (some source) e target) target

/-- What a slot holds in the end: the pattern of its definition, and for a branch the targets given
last. -/
inductive Holds (registry : Option Registry) (calls : List (Call Pattern Int)) (slot : Nat) :
    Slot Pattern Int → Prop
  | leaf {p : PatternRef Pattern} {pattern : Pattern} (hnode : Defines calls slot (.leaf p))
    (hp : p.pattern registry = .ok pattern) : Holds registry calls slot (.leaf pattern)
  | branch {p : PatternRef Pattern} {pattern : Pattern} {m₀ r₀ m r : Option (NodeRef Int)}
    (hnode : Defines calls slot (.branch p m₀ r₀)) (hp : p.pattern registry = .ok pattern)
    (hm : Latest (Gives .onMatch slot) calls m) (hr : Latest (Gives .onRefute slot) calls r) :
    Holds registry calls slot (.branch pattern m r)

/-- The node that the content of a slot becomes. -/
inductive Becomes (calls : List (Call Pattern Int)) : Slot Pattern Int → Node → Prop
  | leaf (pattern : Pattern) : Becomes calls (.leaf pattern) (.leaf pattern)
  | branch {pattern : Pattern} {m r : Option (NodeRef Int)} {onMatch onRefute : Option Int}
    (hm : Option.Rel (Names calls) m onMatch) (hr : Option.Rel (Names calls) r onRefute) :
    Becomes calls (.branch pattern m r) (.branch pattern onMatch onRefute)

/-- A root is chosen. -/
def Chooses (_ : List (Call Pattern Int)) (c : Call Pattern Int) (target : Option (NodeRef Int)) :
    Prop :=
  c.root? = some target

/-- The index of the root: of the one chosen last, otherwise of the slot labelled as root, otherwise
of the first slot. -/
inductive Roots (calls : List (Call Pattern Int)) : Int → Prop
  | chosen {target : NodeRef Int} {i : Int} (h : Latest Chooses calls (some target))
    (hname : Names calls target i) : Roots calls i
  | labelled {slot : Nat} (h : ∀ target, ¬ Latest Chooses calls (some target))
    (hlabel : Labels calls "root" slot) : Roots calls slot
  | first (h : ∀ target, ¬ Latest Chooses calls (some target))
    (hlabel : ∀ slot, ¬ Labels calls "root" slot) : Roots calls 0

/-- The diagram of the calls: a node for each slot, and the root. -/
structure Describes (registry : Option Registry) (calls : List (Call Pattern Int)) (d : Diagram) :
    Prop where
  length_nodes : d.nodes.length = slotCount calls
  nodes : ∀ (slot : Nat) (n : Node), d.nodes[slot]? = some n →
    ∃ content, Holds registry calls slot content ∧ Becomes calls content n
  root : Roots calls d.root

/-! ## One call more -/

theorem slotCount_append_singleton :
    slotCount (calls ++ [c]) = slotCount calls + if c.isFresh then 1 else 0 := by
  rw [slotCount, List.countP_append, List.countP_singleton]
  rfl

theorem labels_append_singleton : Labels (calls ++ [c]) name slot ↔
    Labels calls name slot ∨ c.label? = some name ∧ c.slot? (slotCount calls) = some slot :=
  sometime_append_singleton

theorem defines_append_singleton {node : Definition Pattern Int} :
    Defines (calls ++ [c]) slot node ↔ Defines calls slot node ∨ Places slot calls c node :=
  sometime_append_singleton

theorem Holds.imp {calls' : List (Call Pattern Int)} {content : Slot Pattern Int}
    (hdefines : ∀ node, Defines calls slot node → Defines calls' slot node)
    (hlatest : ∀ e target, Latest (Gives e slot) calls target → Latest (Gives e slot) calls' target)
    (h : Holds registry calls slot content) : Holds registry calls' slot content := by
  cases h with
  | leaf hnode hp => exact .leaf (hdefines _ hnode) hp
  | branch hnode hp hm hr => exact .branch (hdefines _ hnode) hp (hlatest _ _ hm) (hlatest _ _ hr)

/-- A call that neither defines a slot nor links from it changes nothing of what it holds. -/
theorem holds_append_singleton_of_silent {content : Slot Pattern Int}
    (hplaces : ∀ node, ¬ Places slot calls c node)
    (hgives : ∀ e target, ¬ Gives e slot calls c target) :
    Holds registry (calls ++ [c]) slot content ↔ Holds registry calls slot content := by
  have hdefines (node : Definition Pattern Int) :
      Defines (calls ++ [c]) slot node ↔ Defines calls slot node := by
    rw [defines_append_singleton, or_iff_left (hplaces node)]
  have hlatest (e : Edge) (target : Option (NodeRef Int)) :
      Latest (Gives e slot) (calls ++ [c]) target ↔ Latest (Gives e slot) calls target := by
    rw [latest_append_singleton, or_iff_right (hgives e target), and_iff_right (hgives e)]
  constructor
  · exact Holds.imp (fun node => (hdefines node).1) fun e target => (hlatest e target).1
  · exact Holds.imp (fun node => (hdefines node).2) fun e target => (hlatest e target).2

theorem gives_define_iff {node : Definition Pattern Int} {word : Option String} {at? : Option Int}
    {e : Edge} {target : Option (NodeRef Int)} :
    Gives e slot calls (define node word at?) target ↔
      (Call.define node word at?).slot? (slotCount calls) = some slot ∧
        node.target? e = some target := by
  constructor
  · rintro ⟨hslot, htarget⟩
    exact ⟨hslot, htarget⟩
  · rintro ⟨hslot, htarget⟩
    exact .define hslot htarget

theorem gives_link_iff {source : NodeRef Int} {e e' : Edge}
    {target target' : Option (NodeRef Int)} :
    Gives e slot calls (link (some source) e' target') target ↔
      e' = e ∧ e ≠ .root ∧ target' = target ∧ Starts calls source slot := by
  constructor
  · rintro (_ | ⟨he, hsource⟩)
    exact ⟨rfl, he, rfl, hsource⟩
  · rintro ⟨rfl, he, rfl, hsource⟩
    exact .link he hsource

/-- A slot that is defined by a call holds what the call says. -/
theorem holds_append_singleton_of_define {node : Definition Pattern Int}
    {content content' : Slot Pattern Int} (hplaces : Places slot calls c node)
    (hcontent : node.content registry = .ok content) (hnew : ∀ node', ¬ Defines calls slot node') :
    Holds registry (calls ++ [c]) slot content' ↔ content' = content := by
  obtain ⟨hslot, word, at?, rfl⟩ := hplaces
  -- The slot has this definition only, and the definition is the last to give targets to its edges.
  have hdefines (node' : Definition Pattern Int) :
      Defines (calls ++ [define node word at?]) slot node' ↔ node' = node := by
    rw [defines_append_singleton, or_iff_right (hnew node'), Places]
    constructor
    · rintro ⟨-, _, _, h⟩
      cases h
      rfl
    · rintro rfl
      exact ⟨hslot, word, at?, rfl⟩
  have hlatest {e : Edge} {target target' : Option (NodeRef Int)}
      (h : node.target? e = some target) :
      Latest (Gives e slot) (calls ++ [define node word at?]) target' ↔ target' = target := by
    rw [latest_append_singleton]
    simp only [gives_define_iff, hslot, h, true_and, Option.some_inj]
    constructor
    · rintro (rfl | ⟨hnot, -⟩)
      · rfl
      · exact absurd rfl (hnot target)
    · rintro rfl
      exact .inl rfl
  cases node with
  | leaf p =>
    obtain ⟨pattern, hp, heq⟩ := Except.bind_eq_ok_iff.1 hcontent
    cases heq
    constructor
    · rintro (⟨hnode, hp'⟩ | ⟨hnode, -, -, -⟩)
      · cases (hdefines _).1 hnode
        cases hp.symm.trans hp'
        rfl
      · cases (hdefines _).1 hnode
    · rintro rfl
      exact .leaf ((hdefines _).2 rfl) hp
  | branch p m r =>
    obtain ⟨pattern, hp, heq⟩ := Except.bind_eq_ok_iff.1 hcontent
    cases heq
    constructor
    · rintro (⟨hnode, -⟩ | ⟨hnode, hp', hm, hr⟩)
      · cases (hdefines _).1 hnode
      · cases (hdefines _).1 hnode
        cases hp.symm.trans hp'
        rw [(hlatest rfl).1 hm, (hlatest rfl).1 hr]
    · rintro rfl
      exact .branch ((hdefines _).2 rfl) hp ((hlatest rfl).2 rfl) ((hlatest rfl).2 rfl)

/-- A link moves an edge of the branch that it starts from, which keeps its definition. -/
theorem holds_append_singleton_of_link {source : NodeRef Int} {e : Edge}
    {target m r : Option (NodeRef Int)} {pattern : Pattern} {content' : Slot Pattern Int}
    (he : e ≠ .root) (hsource : Starts calls source slot)
    (hholds : ∀ content, Holds registry calls slot content ↔ content = .branch pattern m r) :
    Holds registry (calls ++ [link (some source) e target]) slot content' ↔
      content' = Slot.aim e target (.branch pattern m r) := by
  have hdefines (node : Definition Pattern Int) :
      Defines (calls ++ [link (some source) e target]) slot node ↔ Defines calls slot node := by
    rw [defines_append_singleton, or_iff_left]
    rintro ⟨hslot, -⟩
    cases hslot
  have hlatest (e' : Edge) (target' : Option (NodeRef Int)) :
      Latest (Gives e' slot) (calls ++ [link (some source) e target]) target' ↔
        if e = e' then target = target' else Latest (Gives e' slot) calls target' := by
    rw [latest_append_singleton]
    simp only [gives_link_iff, hsource, and_true]
    split
    · next heq =>
      subst heq
      simp [he]
    · next hne => simp [hne]
  obtain ⟨⟩ | ⟨hnode, hp, hm, hr⟩ := (hholds _).2 rfl
  constructor
  · rintro (⟨hnode', hp'⟩ | @⟨_, pattern', _, _, m', r', hnode', hp', hm', hr'⟩)
    · cases (hholds _).1 (.leaf ((hdefines _).1 hnode') hp')
    · rw [hlatest] at hm' hr'
      -- Before the link the slot held the same branch, with the old target of the edge.
      have hbefore : Holds registry calls slot (.branch pattern' (if e = .onMatch then m else m')
          (if e = .onRefute then r else r')) := by
        refine .branch ((hdefines _).1 hnode') hp' ?_ ?_
        · split
          · exact hm
          · next hne => rwa [if_neg hne] at hm'
        · split
          · exact hr
          · next hne => rwa [if_neg hne] at hr'
      obtain ⟨rfl, hmatch, hrefute⟩ := Slot.branch.inj ((hholds _).1 hbefore)
      rw [Slot.aim]
      congr 1
      · by_cases hedge : e = .onMatch
        · rw [if_pos hedge] at hm' ⊢
          exact hm'.symm
        · rw [if_neg hedge] at hmatch ⊢
          exact hmatch
      · by_cases hedge : e = .onRefute
        · rw [if_pos hedge] at hr' ⊢
          exact hr'.symm
        · rw [if_neg hedge] at hrefute ⊢
          exact hrefute
  · rintro rfl
    refine .branch ((hdefines _).2 hnode) hp ((hlatest _ _).2 ?_) ((hlatest _ _).2 ?_)
    · split
      · rfl
      · exact hm
    · split
      · rfl
      · exact hr

end Call

end RuleDiagram
