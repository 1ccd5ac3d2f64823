import RuleDiagram.Proofs.Mutation.Site
import RuleDiagram.Proofs.Run.Quiet
import RuleDiagram.Proofs.Run.Safety

/-!
# Mutations judged by what leaves a node

Changing a constant, or the register of a free term, is accepted when all that leaves the node in
the evaluations at hand stays the same, taken together. That is enough for nothing new to arrive,
but not for nothing to be lost: a node in a cycle may have kept itself going by snapshots that the
changed node delivers only for snapshots it no longer gets.

## Main definitions

* `Handover.diagram`: a node that sends to itself

## Main results

* `Mutation.quietAt_put`: an accepted change is quiet
* `Mutation.outputs_of_apply`: what an accepted change keeps, and when it keeps the outputs
* `Handover.not_forall_outputs_equal`: an accepted change may lose outputs
-/

namespace RuleDiagram

open ListSet

variable {d d' : Diagram} {registry : Option Registry} {evaluations : List Evaluation}
  {m : Mutation} {facts : List Fact} {limit limit' : RoundLimit} {e e' : Evaluation} {place : Nat}
  {p : Pattern}

namespace Mutation

theorem keepsOutgoing_eq_ok_true_iff {n : Node} : keepsOutgoing place n evaluations = .ok true ↔
    ∀ e ∈ evaluations, sameOutgoing place n e = .ok true := by
  induction evaluations with
  | nil => simp [keepsOutgoing]
  | cons e rest ih =>
    rw [keepsOutgoing, Except.bind_eq_ok_iff]
    constructor
    · rintro ⟨same, hsame, h⟩
      cases same with
      | false => cases h
      | true => exact List.forall_mem_cons.2 ⟨hsame, ih.1 h⟩
    · intro h
      obtain ⟨hsame, hrest⟩ := List.forall_mem_cons.1 h
      exact ⟨true, hsame, ih.2 hrest⟩

theorem sameOutgoing_branch_iff {a b : Option Int} :
    sameOutgoing place (.branch p a b) e = .ok true ↔
      toSet (propagate p e.facts (e.snapshots place)).onMatch = e.matched.sets place ∧
        toSet (propagate p e.facts (e.snapshots place)).onRefute = e.refuted.sets place := by
  simp only [sameOutgoing, Except.ok.injEq, Bool.and_eq_true, equal_iff]
  rfl

theorem sameOutgoing_leaf_iff : sameOutgoing place (.leaf p) e = .ok true ↔
    ∃ fs, List.Forall₂ (fun s f => instantiate p s = .ok f) (e.snapshots place) fs ∧
      toSet fs = e.emitted.sets place := by
  simp only [sameOutgoing, Except.bind_eq_ok_iff, Except.mapError_eq_ok_iff, List.mapM_eq_ok_iff,
    Except.pure_eq_ok_iff, equal_iff]
  rfl

/-- What the mutations that are judged by what leaves a node have checked. -/
theorem exists_quiet_of_edit {k i r : Int} {v : Value}
    (hm : m = .replaceConstant (some k) i v ∨ m = .replaceFreeRegister (some k) i r)
    (h : m.edit d evaluations = .ok d') :
    ∃ (x : TermSite) (t : Term), x.In d ∧ k = x.place ∧ d' = x.put d t ∧
      ∀ e ∈ evaluations, sameOutgoing x.place (x.changed t) e = .ok true := by
  rcases hm with rfl | rfl
  · simp only [edit, changeQuietly, Except.bind_eq_ok_iff, rejectIf_eq_ok_iff,
      TermSite.find_eq_ok_iff, TermSite.constant_eq_ok_iff, Except.pure_eq_ok_iff] at h
    obtain ⟨x, ⟨hk, -, hx⟩, old, -, -, -, same, hsame, -, hquiet, rfl⟩ := h
    obtain rfl : same = true := by simpa using hquiet
    exact ⟨x, _, hx, Option.some_inj.1 hk, rfl, keepsOutgoing_eq_ok_true_iff.1 hsame⟩
  · simp only [edit, changeQuietly, Except.bind_eq_ok_iff, rejectIf_eq_ok_iff,
      TermSite.find_eq_ok_iff, TermSite.free_eq_ok_iff, Except.pure_eq_ok_iff] at h
    obtain ⟨x, ⟨hk, -, hx⟩, old, -, -, -, same, hsame, -, hquiet, rfl⟩ := h
    obtain rfl : same = true := by simpa using hquiet
    exact ⟨x, _, hx, Option.some_inj.1 hk, rfl, keepsOutgoing_eq_ok_true_iff.1 hsame⟩

/-- A branch that would have sent the same leaves, for what has arrived, what has left. -/
theorem leaving_of_sameOutgoing {a b : Option Int} (he : d.Settled facts e)
    (hn : d'.node? place = some (.branch p a b))
    (h : sameOutgoing place (.branch p a b) e = .ok true) (edge : Edge) :
    d'.leaving facts (d.arrivals facts) edge place = (e.left edge).sets place := by
  obtain ⟨hmatch, hrefute⟩ := sameOutgoing_branch_iff.1 h
  have hpropagate : d'.leaving facts (d.arrivals facts) edge place =
      toSet ((propagate p e.facts (e.snapshots place)).along edge) := by
    rw [← Diagram.leaving_congr_facts he.toSet_facts, Diagram.leaving_branch hn,
      ← he.sets_incoming]
    ext t
    exact (Node.mem_toSet_along_propagate (a := a) (b := b)).symm
  rw [hpropagate]
  cases edge with
  | root => exact toSet_nil.trans NodeTable.sets_empty.symm
  | onMatch => exact hmatch
  | onRefute => exact hrefute

/-- A leaf that would have emitted the same emits, for what has arrived, what has been emitted. -/
theorem emission_of_sameOutgoing (he : d.Settled facts e) (hn : d'.node? place = some (.leaf p))
    (h : sameOutgoing place (.leaf p) e = .ok true) :
    d'.emission (d.arrivals facts) place = e.emitted.sets place := by
  obtain ⟨fs, hfs, hemitted⟩ := sameOutgoing_leaf_iff.1 h
  rw [← hemitted, Diagram.emission_leaf hn, ← he.sets_incoming]
  ext f
  exact (mem_toSet_of_instantiates hfs).symm

/-- **An accepted change is quiet**, for all that arrives in the unchanged diagram. -/
theorem quietAt_put {x : TermSite} {t : Term} (hd : d.WellFormed) (hx : x.In d)
    (he : d.Settled facts e) (h : sameOutgoing x.place (x.changed t) e = .ok true) :
    d.QuietAt (x.put d t) facts (d.arrivals facts) x.place := by
  obtain ⟨hlt, -⟩ := List.getElem?_eq_some_iff.1 hx.node
  have hn : d.node? x.place = some x.node := (Diagram.node?_natCast x.place).trans hx.node
  have hn' : (x.put d t).node? x.place = some (x.changed t) := Diagram.node?_setNode_self hlt
  have hothers (i : Int) (s : Snapshot) (hs : s ∈ d.arrivals facts i) (hi : i ≠ x.place) :
      ∃ n, d.node? i = some n ∧ (x.put d t).node? i = some n := by
    have hrange := hd.inRange_of_mem_arrivals hs
    obtain ⟨n, hn⟩ := Diagram.exists_node?_of_inRange hrange
    exact ⟨n, hn, (Diagram.node?_setNode_of_ne (inRange_iff.1 hrange).1 hi).trans hn⟩
  cases hnode : x.node with
  | leaf q =>
    have hchanged : x.changed t = .leaf (q.withTerm x.position t) := by
      rw [TermSite.changed, hnode]
      rfl
    rw [hnode] at hn
    rw [hchanged] at hn' h
    exact
      { root := rfl
        node := hothers
        changed := ⟨_, _, hn, hn', rfl, rfl⟩
        leaving := fun edge => by rw [Diagram.leaving_leaf hn, Diagram.leaving_leaf hn']
        emission := by rw [emission_of_sameOutgoing he hn' h, he.sets_emitted] }
  | branch q a b =>
    have hchanged : x.changed t = .branch (q.withTerm x.position t) a b := by
      rw [TermSite.changed, hnode]
      rfl
    rw [hnode] at hn
    rw [hchanged] at hn' h
    exact
      { root := rfl
        node := hothers
        changed := ⟨_, _, hn, hn', rfl, rfl⟩
        leaving := fun edge => by rw [leaving_of_sameOutgoing he hn' h, he.sets_left]
        emission := by rw [Diagram.emission_branch hn, Diagram.emission_branch hn'] }

/-- **What a change that is judged by what leaves the node keeps**, in cycles too. Nothing new
arrives anywhere and nothing new is put out. Evaluations hold the same exactly when all that came to
the node still comes to it; and they have the same outputs exactly when all that a leaf emitted for
a snapshot that no longer comes to it is still among the outputs. -/
theorem outputs_of_apply {k i r : Int} {v : Value} (hd : d.validate registry = .ok d)
    (hm : m = .replaceConstant (some k) i v ∨ m = .replaceFreeRegister (some k) i r)
    (happly : m.apply registry d evaluations = .ok d') (he : e ∈ evaluations)
    (heval : d.evaluate facts limit = .ok e) (heval' : d'.evaluate facts limit' = .ok e') :
    e'.incoming.sets ≤ e.incoming.sets ∧ toSet e'.outputs ⊆ toSet e.outputs ∧
      (e.SameSets e' ↔ e.incoming.sets k ⊆ e'.incoming.sets k) ∧
      (ListSet.equal e.outputs e'.outputs ↔
        ∀ j p, d.node? j = some (.leaf p) → ∀ s ∈ e.incoming.sets j, s ∉ e'.incoming.sets j →
          ∀ f, instantiate p s = .ok f → f ∈ toSet e'.outputs) := by
  have hwell := Diagram.wellFormed_of_fault?_eq_none (Diagram.validate_eq_ok_iff.1 hd).1
  obtain ⟨-, hedit, -⟩ := apply_eq_ok_iff.1 happly
  obtain ⟨x, t, hx, rfl, rfl, hsame⟩ := exists_quiet_of_edit hm hedit
  have hsettled := Diagram.settled_of_evaluate_eq_ok heval
  have hsettled' := Diagram.settled_of_evaluate_eq_ok heval'
  have hquiet := quietAt_put hwell hx hsettled (hsame e he)
  refine ⟨?_, hquiet.outputs_subset hsettled hsettled', hquiet.sameSets_iff hsettled hsettled',
    hquiet.outputs_equal_iff hsettled hsettled'⟩
  rw [hsettled.sets_incoming, hsettled'.sets_incoming]
  exact hquiet.arrivals_le

end Mutation

/-! ## A node that keeps itself going -/

namespace Handover

def init : Predicate := ⟨"init", 1⟩
def step : Predicate := ⟨"q", 3⟩
def out : Predicate := ⟨"out", 1⟩

/-- The second node hands the values of steps marked with a text over to itself, and puts out what
it refutes. -/
def diagram (mark : String) : Diagram :=
  ⟨[.branch ⟨some init, [.free 0]⟩ (some 1) none,
    .branch ⟨some step, [.constant (.text mark), .reference 0, .free 0]⟩ (some 1) (some 2),
    .leaf ⟨some out, [.reference 0]⟩], 0⟩

/-- A start. -/
def origin : Fact := ⟨init, [.text "x"], rfl⟩

/-- A marked step. -/
def stepTo (mark source target : String) : Fact :=
  ⟨step, [.text mark, .text source, .text target], rfl⟩

/-- A start, a step marked with `a` and a step marked with `b`. -/
def steps (source : String) : List Fact :=
  [origin, stepTo "a" "x" "y", stepTo "b" source "y"]

/-- The mutation that puts the one mark in place of the other. -/
def swap : Mutation := .replaceConstant (some 1) 0 (.text "b")

/-- Where both steps lead from the start, nothing is lost. -/
theorem sameSets_swap : ∃ e e', (diagram "a").evaluate (steps "x") .standard = .ok e ∧
    swap.apply none (diagram "a") [e] = .ok (diagram "b") ∧
    (diagram "b").evaluate (steps "x") .standard = .ok e' ∧ e.SameSets e' := by
  have hvalid : (diagram "a").validate none = .ok (diagram "a") := rfl
  have hruns : ((diagram "a").evaluate (steps "x") .standard).toOption.any fun e =>
      ((diagram "b").evaluate (steps "x") .standard).toOption.any fun e' =>
        (swap.apply none (diagram "a") [e]).toOption.any fun d' =>
          decide (d' = diagram "b") && ListSet.subset (e.snapshots 1) (e'.snapshots 1) := by
    decide
  obtain ⟨e, he, hruns⟩ := Except.exists_of_any_toOption hruns
  obtain ⟨e', he', hruns⟩ := Except.exists_of_any_toOption hruns
  obtain ⟨d', hd', hruns⟩ := Except.exists_of_any_toOption hruns
  obtain ⟨hswap, hsubset⟩ := Bool.and_eq_true_iff.1 hruns
  obtain rfl : d' = diagram "b" := of_decide_eq_true hswap
  obtain ⟨-, -, hsame, -⟩ := Mutation.outputs_of_apply (r := 0) hvalid (.inl rfl) hd'
    List.mem_cons_self he he'
  exact ⟨e, e', he, hd', he', hsame.2 (subset_iff.1 hsubset)⟩

/-- **An accepted change may lose outputs.** Where the second step leads from `y`, which only the
first one leads to, the changed node delivers the same on the whole, but no longer gets `y`. -/
theorem not_forall_outputs_equal : ¬ ∀ (registry : Option Registry) (d d' : Diagram) (m : Mutation)
    (facts : List Fact) (limit : RoundLimit) (e e' : Evaluation),
    d.validate registry = .ok d → m.kind ∈ [.replaceConstant, .replaceFreeRegister] →
      d.evaluate facts limit = .ok e → m.apply registry d [e] = .ok d' →
        d'.evaluate facts limit = .ok e' → ListSet.equal e.outputs e'.outputs := by
  intro hkeeps
  have hruns : ((diagram "a").evaluate (steps "y") .standard).toOption.any fun e =>
      ((diagram "b").evaluate (steps "y") .standard).toOption.any fun e' =>
        (swap.apply none (diagram "a") [e]).toOption.any fun d' =>
          decide (d' = diagram "b") && !ListSet.equal e.outputs e'.outputs := by
    decide
  obtain ⟨e, he, hruns⟩ := Except.exists_of_any_toOption hruns
  obtain ⟨e', he', hruns⟩ := Except.exists_of_any_toOption hruns
  obtain ⟨d', hd', hruns⟩ := Except.exists_of_any_toOption hruns
  obtain ⟨hswap, hlost⟩ := Bool.and_eq_true_iff.1 hruns
  obtain rfl : d' = diagram "b" := of_decide_eq_true hswap
  have hequal := hkeeps none _ _ swap _ _ e e' rfl (by decide) he hd' he'
  rw [hequal] at hlost
  cases hlost

end Handover

end RuleDiagram
