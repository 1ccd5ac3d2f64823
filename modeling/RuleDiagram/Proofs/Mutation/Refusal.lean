import RuleDiagram.Proofs.Mutation.Restructuring
import RuleDiagram.Proofs.Run.LeastFamily
import RuleDiagram.Proofs.Run.Safety
import RuleDiagram.Proofs.Source.RoundTrip

/-!
# What becomes of a mutation

A mutation of a well-formed diagram gives a well-formed diagram or is rejected, whatever its fields
are. Its lookups are checked before they are made, its edits lead edges that are there to nodes that
are there, it removes only nodes that nothing leads to, and the evaluations it is judged by end or
reach their limit. What can fail beyond that is the wording of a rejection: some reasons mention the
term that the mutation addresses, and the absent value and numbers that are not finite have no
written form.

## Main definitions

* `Diagram.integers`, `Mutation.integers`: the integers that are put into words
* `Mutation.complaint`: what is said of a rejected mutation
* `Orderly`: a result, a rejection in words, or a value without a written form

## Main results

* `Mutation.orderly_edit`: edits of well-formed diagrams are orderly
* `Mutation.applyOn_outcomes`: a mutation gives a well-formed diagram, is rejected, or addresses a
  constant without a written form
* `Unspeakable.not_forall_applied_or_rejected`: a mutation that is not rejected although it should be
-/

namespace RuleDiagram

variable {d d' : Diagram} {registry : Option Registry} {evaluations : List Evaluation}
  {m : Mutation} {v : Value} {t : Term} {u : Untextual} {r : Reason} {P : Value → Prop}
  {x : Mutation.TermSite} {index : Option Int}

/-! ## What can be put into words -/

/-- The integers in a value. -/
def Value.integers : Value → List Int
  | int n => [n]
  | _ => []

/-- The integers in a term. -/
def Term.integers : Term → List Int
  | constant v => v.integers
  | reference r | free r => [r]

/-- The integers in a node. -/
def Node.integers (n : Node) : List Int :=
  (n.pattern.predicate.map Predicate.arity).toList ++ n.pattern.terms.flatMap Term.integers ++
    n.targets

/-- The integers in the nodes of a diagram. -/
def Diagram.integers (d : Diagram) : List Int := d.nodes.flatMap Node.integers

/-- The integers in a field. -/
def MutationField.integers : MutationField → List Int
  | .index i => i.toList
  | .number n => [n]
  | .value v => v.integers
  | .edge _ => []
  | .term t => t.integers
  | .predicate p => (p.map Predicate.arity).toList
  | .terms ts => (ts.getD []).flatMap Term.integers
  | .nodes ns => ns.flatMap Node.integers

/-- The integers in the fields of a mutation. -/
def Mutation.integers (m : Mutation) : List Int := m.fields.flatMap fun f => f.2.integers

/-- None of the integers has more digits than are written. -/
def Legible (zs : List Int) : Prop := ∀ z ∈ zs, z.natAbs < 10 ^ digitLimit

/-- **What is said of a rejected mutation**: its description, which takes all integers in its fields
to have a written form, and the reason. -/
def Mutation.complaint (m : Mutation) (r : Reason) : Except Untextual String := do
  let text ← r.message
  discard <| m.integers.mapM writtenInteger
  return m.described ++ ": " ++ text

theorem Mutation.complaint_eq_ok {text : String} (hm : Legible m.integers)
    (hr : r.message = .ok text) : m.complaint r = .ok (m.described ++ ": " ++ text) := by
  obtain ⟨digits, hdigits⟩ := List.exists_mapM_eq_ok fun z hz =>
    ⟨_, writtenInteger_eq_ok_iff.2 ⟨hm z hz, rfl⟩⟩
  rw [complaint, hr, hdigits]
  rfl

/-- A value that cannot be written is itself what is reported. -/
theorem Value.eq_of_written_eq_error (h : v.written = .error u) : u = ⟨v⟩ := by
  cases v with
  | text s | bool b => cases h
  | int z =>
    rw [written, writtenInteger] at h
    split at h <;> cases h
    rfl
  | float y =>
    rw [written] at h
    split at h <;> cases h
    rfl
  | absent =>
    cases h
    rfl

/-- Where integers are short, a term without a written form is the absent value or a number that is
not finite. -/
theorem Term.exists_unwritten (ht : Legible t.integers) (h : t.written = .error u) :
    ∃ v, t = .constant v ∧ ¬ v.IsFinite ∧ u = ⟨v⟩ := by
  cases t with
  | reference r | free r =>
    rw [written, writtenInteger_eq_ok_iff.2 ⟨ht r List.mem_cons_self, rfl⟩] at h
    cases h
  | constant v =>
    refine ⟨v, rfl, fun hv => ?_, Value.eq_of_written_eq_error h⟩
    have hint (z : Int) (hz : v = .int z) : z.natAbs < 10 ^ digitLimit :=
      ht z (hz ▸ List.mem_cons_self)
    obtain ⟨text, htext, -⟩ := Value.exists_written (hv.writable hint)
    rw [written, htext] at h
    cases h

/-- The term that a reason mentions. -/
def Reason.mentioned? : Reason → Option Term
  | otherTerm t _ | registerVaries _ t | referenceVaries t _ | registersDisagree t _ => some t
  | _ => none

/-- A reason can be put into words if the term that it mentions can. -/
theorem Reason.exists_mentioned (h : r.message = .error u) :
    ∃ t, r.mentioned? = some t ∧ t.written = .error u := by
  cases r with
  | otherTerm t _ | registerVaries _ t | referenceVaries t _ | registersDisagree t _ =>
    refine ⟨t, rfl, ?_⟩
    cases ht : t.written with
    | ok text =>
      simp only [message, ht] at h
      cases h
    | error u' =>
      simp only [message, ht] at h
      exact h
  | _ => cases h

/-! ## Orderly steps -/

/-- **A step of a mutation ends in order**: with a result, with a rejection in words, or because a
value that the mutation may have to mention has no written form. -/
inductive Orderly (P : Value → Prop) {α : Type} : Except MutationFault α → Prop
  | result (a : α) : Orderly P (.ok a)
  | rejection {r : Reason} {text : String} (h : r.message = .ok text) :
    Orderly P (.error (.invalid r))
  | unwritten {v : Value} (hv : ¬ v.IsFinite) (h : P v) : Orderly P (.error (.untextual ⟨v⟩))

namespace Orderly

variable {α β : Type} {y : Except MutationFault α}

theorem of_ok (h : ∃ a, y = .ok a) : Orderly P y := by
  obtain ⟨a, rfl⟩ := h
  exact .result a

theorem bind {f : α → Except MutationFault β} (hy : Orderly P y)
    (hf : ∀ a, y = .ok a → Orderly P (f a)) : Orderly P (y >>= f) := by
  cases hy with
  | result a => exact hf a rfl
  | rejection h => exact .rejection h
  | unwritten hv h => exact .unwritten hv h

theorem discard_bind {f : Unit → Except MutationFault β} (hy : Orderly P y)
    (hf : ∀ a, y = .ok a → Orderly P (f ())) : Orderly P (discard y >>= f) := by
  have hdiscard : (discard y >>= f) = y >>= fun _ => f () := by
    cases y <;> rfl
  exact hdiscard ▸ hy.bind hf

theorem mapM {f : α → Except MutationFault β} {xs : List α} (h : ∀ a ∈ xs, Orderly P (f a)) :
    Orderly P (xs.mapM f) := by
  induction xs with
  | nil => exact .result []
  | cons a xs ih =>
    obtain ⟨ha, hxs⟩ := List.forall_mem_cons.1 h
    rw [List.mapM_cons]
    exact ha.bind fun b _ => (ih hxs).bind fun bs _ => .result (b :: bs)

/-- A rejection that mentions no term is in words. -/
theorem reject (hr : r.mentioned? = none) : Orderly P (RuleDiagram.reject r : Except _ α) := by
  unfold RuleDiagram.reject
  split
  · next h => exact .rejection h
  · next h =>
    obtain ⟨t, ht, -⟩ := Reason.exists_mentioned h
    rw [hr] at ht
    cases ht

/-- A rejection that mentions a term is in words, or the term is a constant without a written
form. -/
theorem reject_of_mentioned (hr : r.mentioned? = some t) (ht : Legible t.integers)
    (hP : ∀ v, t = .constant v → P v) : Orderly P (RuleDiagram.reject r : Except _ α) := by
  unfold RuleDiagram.reject
  split
  · next h => exact .rejection h
  · next h =>
    obtain ⟨t', ht', herror⟩ := Reason.exists_mentioned h
    obtain rfl := Option.some_inj.1 (hr.symm.trans ht')
    obtain ⟨v, rfl, hv, rfl⟩ := Term.exists_unwritten ht herror
    exact .unwritten hv (hP v rfl)

theorem rejectIf {c : Bool} (h : Orderly P (RuleDiagram.reject r : Except _ Unit)) :
    Orderly P (RuleDiagram.rejectIf c r) := by
  unfold RuleDiagram.rejectIf
  split
  · exact h
  · exact .result ()

/-- An edit that succeeds. -/
theorem step {z : Except EditFault α} (h : ∃ a, z = .ok a) : Orderly P (Mutation.step z) := by
  obtain ⟨a, rfl⟩ := h
  exact .result a

end Orderly

/-! ## Lookups -/

namespace Mutation

theorem orderly_findNode : Orderly P (findNode d index) := by
  unfold findNode
  split
  · exact .reject rfl
  · split
    · split
      · exact .result _
      · exact .reject rfl
    · exact .reject rfl

theorem orderly_findBranch : Orderly P (findBranch d index) := by
  refine orderly_findNode.bind fun a _ => ?_
  split
  · exact .result _
  · exact .reject rfl

/-- What follows the lookup of a branch is about a branch at its place. -/
theorem orderly_findBranch_bind {α : Type}
    {f : Nat × Pattern × Option Int × Option Int → Except MutationFault α}
    (h : ∀ (place : Nat) (p : Pattern) (a b : Option Int), index = some (place : Int) →
      d.nodes[place]? = some (.branch p a b) → Orderly P (f (place, p, a, b))) :
    Orderly P (findBranch d index >>= f) := by
  refine orderly_findBranch.bind ?_
  rintro ⟨place, p, a, b⟩ hb
  obtain ⟨hindex, hn⟩ := findBranch_eq_ok_iff.1 hb
  exact h place p a b hindex hn

/-- What follows the lookup of a term is about a term at its place. -/
theorem orderly_find_bind {α : Type} {position : Int} {f : TermSite → Except MutationFault α}
    (h : ∀ x : TermSite, index = some (x.place : Int) → position = x.position → x.In d →
      Orderly P (f x)) : Orderly P (TermSite.find d index position >>= f) := by
  refine Orderly.bind ?_ fun x hx => ?_
  · refine orderly_findNode.bind fun a _ => Orderly.bind ?_ fun b _ => .result _
    unfold findPosition
    split
    · split
      · exact .result _
      · exact .reject rfl
    · exact .reject rfl
  · obtain ⟨hindex, hposition, hx⟩ := TermSite.find_eq_ok_iff.1 hx
    exact h x hindex hposition hx

namespace TermSite

theorem In.legible (hx : x.In d) (hd : Legible d.integers) : Legible x.term.integers := by
  intro z hz
  refine hd z (List.mem_flatMap.2 ⟨x.node, List.mem_of_getElem? hx.node, ?_⟩)
  refine List.mem_append_left _ (List.mem_append_right _ ?_)
  exact List.mem_flatMap.2 ⟨x.term, List.mem_of_getElem? hx.term, hz⟩

/-- Where a constant is expected, nothing without a written form is turned down. -/
theorem orderly_constant (hx : Legible x.term.integers) : Orderly P x.constant := by
  unfold constant
  split
  · exact .result _
  · next hne => exact .reject_of_mentioned rfl hx fun v hv => absurd hv (hne v)

theorem orderly_reference (hx : Legible x.term.integers) (hP : ∀ v, x.term = .constant v → P v) :
    Orderly P x.reference := by
  unfold reference
  split
  · exact .result _
  · exact .reject_of_mentioned rfl hx hP

theorem orderly_free (hx : Legible x.term.integers) (hP : ∀ v, x.term = .constant v → P v) :
    Orderly P x.free := by
  unfold free
  split
  · exact .result _
  · exact .reject_of_mentioned rfl hx hP

end TermSite

/-! ## What leaves a changed node -/

theorem exists_sameOutgoing_leaf {place : Nat} {p : Pattern} {e : Evaluation}
    (h : ∀ s ∈ e.snapshots place, ∃ f, instantiate p s = .ok f) :
    ∃ same, sameOutgoing place (.leaf p) e = .ok same := by
  obtain ⟨fs, hfs⟩ := List.exists_mapM_eq_ok h
  exact ⟨_, Except.bind_eq_ok_iff.2 ⟨fs, Except.mapError_eq_ok_iff.2 hfs, rfl⟩⟩

/-- A change that is judged by what leaves the node is rejected without a term being mentioned. -/
theorem orderly_changeQuietly {otherwise : Reason} (hr : otherwise.mentioned? = none)
    (h : ∀ e ∈ evaluations, ∃ same, sameOutgoing x.place (x.changed t) e = .ok same) :
    Orderly P (changeQuietly d x t evaluations otherwise) := by
  have hkeeps : ∃ same, keepsOutgoing x.place (x.changed t) evaluations = .ok same := by
    induction evaluations with
    | nil => exact ⟨true, rfl⟩
    | cons e rest ih =>
      obtain ⟨⟨same, hsame⟩, hrest⟩ := List.forall_mem_cons.1 h
      rw [keepsOutgoing, hsame]
      cases same with
      | false => exact ⟨false, rfl⟩
      | true => exact ih hrest
  refine (Orderly.of_ok hkeeps).bind fun same _ => ?_
  exact (Orderly.rejectIf (.reject hr)).bind fun _ _ => .result _

/-- A leaf that gives a fact for each snapshot does so with any constant in place of a term. -/
theorem exists_sameOutgoing_of_constant {facts : List Fact} {e : Evaluation} (hx : x.In d)
    (he : d.Settled facts e) (v : Value) :
    ∃ same, sameOutgoing x.place (x.changed (.constant v)) e = .ok same := by
  obtain ⟨place, n, k, t⟩ := x
  cases n with
  | branch p a b => exact ⟨_, rfl⟩
  | leaf p =>
    have hn : d.node? place = some (.leaf p) := (Diagram.node?_natCast place).trans hx.node
    refine exists_sameOutgoing_leaf fun s hs => ?_
    have harrives : s ∈ d.arrivals facts place := he.sets_incoming ▸ ListSet.mem_toSet_of_mem hs
    obtain ⟨f, hf⟩ := he.instantiates place p hn s harrives
    exact exists_instantiate_withTerm hf k v

/-- There are no free terms but in branches. -/
theorem exists_sameOutgoing_of_free {register other : Int} (hd : d.WellFormed) (hx : x.In d)
    (hfree : x.term = .free register) (e : Evaluation) :
    ∃ same, sameOutgoing x.place (x.changed (.free other)) e = .ok same := by
  obtain ⟨place, n, k, t⟩ := x
  cases n with
  | branch p a b => exact ⟨_, rfl⟩
  | leaf p =>
    obtain ⟨-, hnone⟩ := hd.leaf p (List.mem_of_getElem? hx.node)
    have hmem : Term.free register ∈ p.terms := hfree ▸ List.mem_of_getElem? hx.term
    cases hnone _ hmem

/-! ## Edits -/

/-- The index and the position of the term that a rejection of the mutation mentions, if the term
may then be a constant. -/
def examined? : Mutation → Option (Option Int × Int)
  | bindConstant n i _ | unbindConstant n i _ | retargetRegister n i _
  | replaceFreeRegister n i _ => some (n, i)
  | _ => none

/-- The mutation addresses a constant of the diagram, and may have to mention it. -/
def Addresses (m : Mutation) (d : Diagram) (v : Value) : Prop :=
  ∃ x : TermSite, m.examined? = some (some (x.place : Int), (x.position : Int)) ∧ x.In d ∧
    x.term = .constant v

theorem TermSite.In.addresses (hx : x.In d)
    (hm : m.examined? = some (some (x.place : Int), (x.position : Int))) :
    ∀ v, x.term = .constant v → m.Addresses d v :=
  fun _ hv => ⟨x, hm, hx, hv⟩

theorem orderly_spliceEdge {e : Edge} : Orderly P ((spliceEdge index e).edit d evaluations) := by
  -- An edge that is there is still there when the branch that is put into it has been appended.
  have hlead {source target : Option Int} (hedge : (source, e, target) ∈ d.edges) :
      Orderly P (step ((d.append [.branch .passThrough target target]).withEdge source e
        (some (d.size : Int)))) :=
    .step (Diagram.exists_withEdge (mem_edges_append hedge) fun _ => Option.some_ne_none _)
  cases e with
  | root => exact .result _
  | onMatch =>
    refine orderly_findBranch_bind ?_
    rintro place p a b rfl hn
    exact hlead (Diagram.mem_edges_onMatch hn)
  | onRefute =>
    refine orderly_findBranch_bind ?_
    rintro place p a b rfl hn
    exact hlead (Diagram.mem_edges_onRefute hn)

theorem orderly_collapsePassThrough :
    Orderly P ((collapsePassThrough index).edit d evaluations) := by
  refine orderly_findBranch_bind ?_
  rintro place p target other rfl hn
  refine (Orderly.rejectIf (.reject rfl)).bind fun _ _ => ?_
  refine (Orderly.rejectIf (.reject rfl)).bind fun _ _ => ?_
  refine (Orderly.rejectIf (.reject rfl)).bind fun _ hloop => ?_
  refine (Orderly.rejectIf (.reject rfl)).bind fun _ hroot => ?_
  rw [rejectIf_eq_ok_iff, decide_eq_false_iff_not] at hloop hroot
  have hnotRoot : ∀ link ∈ (d.parents (some (place : Int))).filter fun link =>
      decide (link.1 ≠ some (place : Int)), link.2 = .root → target ≠ none := by
    rintro ⟨source, e⟩ hlink rfl rfl
    obtain ⟨-, -, hplace⟩ | ⟨_, _, -, -, he⟩ := Diagram.mem_edges.1 (mem_parents_filter.1 hlink).1
    · exact hroot ⟨rfl, (Option.some_inj.1 hplace).symm⟩
    · exact Diagram.ne_root_of_mem_children he rfl
  have hpresent : ∀ link ∈ (d.parents (some (place : Int))).filter fun link =>
      decide (link.1 ≠ some (place : Int)), ∃ a, (link.1, link.2, a) ∈ d.edges :=
    fun link hlink => ⟨_, (mem_parents_filter.1 hlink).1⟩
  obtain ⟨result, hresult⟩ := Diagram.exists_redirected hpresent hnotRoot
  refine (Orderly.step ⟨result, hresult⟩).bind fun result' hresult' => ?_
  obtain rfl := Except.ok.inj (hresult.symm.trans (step_eq_ok_iff.1 hresult'))
  -- Only edges of the node itself still lead to it: all others have been led to its target.
  refine .step (Diagram.exists_removeNode fun source e ha => ?_)
  rw [Diagram.mem_edges_redirected hpresent hresult] at ha
  split at ha
  · exact absurd ha.symm hloop
  · next hnotMem =>
    by_contra hne
    exact hnotMem (mem_parents_filter.2 ⟨ha, hne⟩)

theorem orderly_duplicateNode (hd : d.InRange) :
    Orderly P ((duplicateNode index).edit d evaluations) := by
  refine orderly_findBranch_bind ?_
  rintro place p child other rfl hn
  cases child with
  | none => exact .reject rfl
  | some child =>
    refine (Orderly.rejectIf (.reject rfl)).bind fun _ _ => ?_
    refine (Orderly.rejectIf (.reject rfl)).bind fun _ _ => ?_
    obtain ⟨x, hx⟩ := Diagram.exists_node?_of_inRange (hd.mem_edges (Diagram.mem_edges_onMatch hn))
    refine (Orderly.step ⟨x, node_eq_ok_iff.2 hx⟩).bind fun copied _ => ?_
    have hedge : (some (place : Int), .onRefute, other) ∈ (d.append [copied]).edges :=
      mem_edges_append (Diagram.mem_edges_onRefute hn)
    exact .step (Diagram.exists_withEdge hedge Edge.noConfusion)

theorem orderly_mergeNodes (hd : d.InRange) :
    Orderly P ((mergeNodes index).edit d evaluations) := by
  refine orderly_findBranch_bind ?_
  rintro place p kept dropped rfl hn
  have hrefute := Diagram.mem_edges_onRefute hn
  have hnode {source : Option Int} {e : Edge} {i : Int} (h : (source, e, some i) ∈ d.edges) :
      Orderly P (step (d.node i)) := by
    obtain ⟨x, hx⟩ := Diagram.exists_node?_of_inRange (hd.mem_edges h)
    exact .step ⟨x, node_eq_ok_iff.2 hx⟩
  dsimp only
  split
  · next kept dropped =>
    refine (Orderly.rejectIf (.reject rfl)).bind fun _ _ => ?_
    refine (Orderly.rejectIf (.reject rfl)).bind fun _ _ => ?_
    refine (hnode (Diagram.mem_edges_onMatch hn)).bind fun a _ => ?_
    refine (hnode hrefute).bind fun b _ => ?_
    refine (Orderly.rejectIf (.reject rfl)).bind fun _ _ => ?_
    refine (Orderly.step (Diagram.exists_withEdge hrefute Edge.noConfusion)).bind fun result _ => ?_
    split
    · exact .result _
    · next hunused =>
      -- No edge but the dropped child's own leads to it.
      obtain ⟨k, rfl⟩ := Int.eq_ofNat_of_zero_le (inRange_iff.1 (hd.mem_edges hrefute)).1
      refine .step (Diagram.exists_removeNode fun source e he => ?_)
      by_contra hne
      exact hunused (Diagram.any_edges_eq_true_iff.2 ⟨source, e, he, hne⟩)
  · exact .reject rfl

theorem orderly_redirectEdge {e : Edge} {target : Option Int} :
    Orderly P ((redirectEdge index e target).edit d evaluations) := by
  -- Where a branch is found, its edges are there.
  have hlead (he : e = .onMatch ∨ e = .onRefute) :
      Orderly P (discard (findBranch d index) >>= fun _ => step (d.withEdge index e target)) := by
    refine orderly_findBranch.discard_bind ?_
    rintro ⟨place, p, a, b⟩ hb
    obtain ⟨rfl, hn⟩ := findBranch_eq_ok_iff.1 hb
    rcases he with rfl | rfl
    · exact .step (Diagram.exists_withEdge (Diagram.mem_edges_onMatch hn) Edge.noConfusion)
    · exact .step (Diagram.exists_withEdge (Diagram.mem_edges_onRefute hn) Edge.noConfusion)
  cases target with
  | none =>
    cases e with
    | root => exact (Orderly.rejectIf (.reject rfl)).bind fun _ h => by cases rejectIf_eq_ok_iff.1 h
    | onMatch => exact hlead (.inl rfl)
    | onRefute => exact hlead (.inr rfl)
  | some t =>
    refine (Orderly.rejectIf (.reject rfl)).bind fun _ _ => ?_
    cases e with
    | root => exact .result _
    | onMatch => exact hlead (.inl rfl)
    | onRefute => exact hlead (.inr rfl)

theorem orderly_replacePredicate {p : Option Predicate} {ts : Option (List Term)} :
    Orderly P ((replacePredicate index p ts).edit d evaluations) := by
  refine orderly_findNode.bind ?_
  rintro ⟨place, n⟩ -
  cases p with
  | none => exact .result _
  | some p =>
    cases ts with
    | some ts => exact .result _
    | none =>
      dsimp only
      split
      · exact .result _
      · exact (Orderly.reject rfl).bind fun _ _ => .result _

/-- **Edits of well-formed diagrams are orderly**, judged by evaluations that have settled. -/
theorem orderly_edit (hd : d.WellFormed) (hlegible : Legible d.integers)
    (hsettled : ∀ e ∈ evaluations, ∃ facts, d.Settled facts e) :
    Orderly (m.Addresses d) (m.edit d evaluations) := by
  cases m with
  | bindConstant n i r =>
    refine orderly_find_bind ?_
    rintro x rfl rfl hx
    have hterm := hx.legible hlegible
    refine (TermSite.orderly_constant hterm).bind fun v _ => ?_
    refine (Orderly.rejectIf (.reject rfl)).bind fun _ _ => ?_
    -- The constant is mentioned where the register does not hold it.
    refine (Orderly.rejectIf ?_).bind fun _ _ => .result _
    exact .reject_of_mentioned rfl hterm (hx.addresses rfl)
  | unbindConstant n i v =>
    refine orderly_find_bind ?_
    rintro x rfl rfl hx
    have hterm := hx.legible hlegible
    -- A constant that is found in place of the reference is mentioned.
    refine (TermSite.orderly_reference hterm (hx.addresses rfl)).bind fun r _ => ?_
    refine (Orderly.rejectIf (.reject rfl)).bind fun _ _ => ?_
    refine (Orderly.rejectIf ?_).bind fun _ _ => .result _
    exact .reject_of_mentioned rfl hterm (hx.addresses rfl)
  | retargetRegister n i r =>
    refine orderly_find_bind ?_
    rintro x rfl rfl hx
    have hterm := hx.legible hlegible
    refine (TermSite.orderly_reference hterm (hx.addresses rfl)).bind fun old _ => ?_
    refine (Orderly.rejectIf (.reject rfl)).bind fun _ _ => ?_
    refine (Orderly.rejectIf (.reject rfl)).bind fun _ _ => ?_
    refine (Orderly.rejectIf ?_).bind fun _ _ => .result _
    exact .reject_of_mentioned rfl hterm (hx.addresses rfl)
  | replaceFreeRegister n i r =>
    refine orderly_find_bind ?_
    rintro x rfl rfl hx
    refine (TermSite.orderly_free (hx.legible hlegible) (hx.addresses rfl)).bind fun old hold => ?_
    refine (Orderly.rejectIf (.reject rfl)).bind fun _ _ => ?_
    -- The term is free, so that the node is a branch.
    have hfree := TermSite.free_eq_ok_iff.1 hold
    exact orderly_changeQuietly rfl fun e _ => exists_sameOutgoing_of_free hd hx hfree e
  | replaceConstant n i v =>
    refine orderly_find_bind fun x _ _ hx => ?_
    refine (TermSite.orderly_constant (hx.legible hlegible)).bind fun old _ => ?_
    refine (Orderly.rejectIf (.reject rfl)).bind fun _ _ => ?_
    refine orderly_changeQuietly rfl fun e he => ?_
    obtain ⟨facts, hfacts⟩ := hsettled e he
    exact exists_sameOutgoing_of_constant hx hfacts v
  | spliceEdge n e => exact orderly_spliceEdge
  | collapsePassThrough n => exact orderly_collapsePassThrough
  | duplicateNode n => exact orderly_duplicateNode hd.allInRange
  | mergeNodes n => exact orderly_mergeNodes hd.allInRange
  | redirectEdge n e target => exact orderly_redirectEdge
  | replaceTerm n i t => exact orderly_find_bind fun x _ _ _ => .result _
  | replacePredicate n p ts => exact orderly_replacePredicate
  | graft base nodes root =>
    refine (Orderly.rejectIf (.reject rfl)).bind fun _ _ => ?_
    exact (Orderly.rejectIf (.reject rfl)).bind fun _ _ => .result _

/-! ## Results -/

/-- What is edited in order is applied in order: a fault of the result is a reason in words. -/
theorem orderly_apply (h : Orderly P (m.edit d evaluations)) :
    Orderly P (m.apply registry d evaluations) := by
  refine (Orderly.rejectIf (.reject rfl)).bind fun _ _ => h.bind fun result _ => ?_
  split
  · exact .reject rfl
  · exact .result _

/-- The evaluations of a well-formed diagram end, or reaching the limit is a reason in words. -/
theorem orderly_evaluationsOn {inputs : List (List Fact)} {limit : RoundLimit}
    (hd : d.WellFormed) : Orderly P (evaluationsOn d inputs limit) := by
  refine Orderly.mapM fun facts _ => ?_
  rcases (hd.unhindered facts).evaluate_eq_ok_or_limitReached limit with ⟨e, he⟩ | he
  · rw [he]
    exact .result e
  · rw [he]
    exact .reject rfl

theorem settled_of_mem_evaluationsOn {inputs : List (List Fact)} {limit : RoundLimit}
    (h : evaluationsOn d inputs limit = .ok evaluations) :
    ∀ e ∈ evaluations, ∃ facts, d.Settled facts e := by
  intro e he
  obtain ⟨facts, -, heval⟩ := List.exists_left_of_forall₂ (List.mapM_eq_ok_iff.1 h) he
  have hok : d.evaluate facts limit = .ok e := by
    split at heval
    · next e' he' => rwa [← Except.ok.inj heval]
    · exact absurd heval reject_ne_ok
    · cases heval
  exact ⟨facts, Diagram.settled_of_evaluate_eq_ok hok⟩

theorem exists_apply_of_applyOn {inputs : List (List Fact)} {limit : RoundLimit}
    (h : m.applyOn registry limit d inputs = .ok d') :
    ∃ evaluations, m.apply registry d evaluations = .ok d' := by
  unfold applyOn at h
  split at h
  · obtain ⟨evaluations, -, h⟩ := Except.bind_eq_ok_iff.1 h
    exact ⟨evaluations, h⟩
  · exact ⟨[], h⟩

/-- **What becomes of a mutation of a well-formed diagram.** It gives a well-formed diagram, or it
is rejected and what is said of it can be put into words, or a rejection would have to mention the
constant that it addresses, and this is the absent value or a number that is not finite. -/
theorem applyOn_outcomes {inputs : List (List Fact)} {limit : RoundLimit}
    (hd : d.validate registry = .ok d) (hdiagram : Legible d.integers)
    (hmutation : Legible m.integers) :
    (∃ d', m.applyOn registry limit d inputs = .ok d' ∧ d'.validate registry = .ok d') ∨
      (∃ r text, m.applyOn registry limit d inputs = .error (.invalid r) ∧
        m.complaint r = .ok text) ∨
      ∃ v, m.Addresses d v ∧ ¬ v.IsFinite ∧
        m.applyOn registry limit d inputs = .error (.untextual ⟨v⟩) := by
  have hwell := Diagram.wellFormed_of_fault?_eq_none (Diagram.validate_eq_ok_iff.1 hd).1
  have horderly : Orderly (m.Addresses d) (m.applyOn registry limit d inputs) := by
    unfold applyOn
    split
    · -- The mutation is judged by evaluations of the diagram itself, and these have settled.
      refine (orderly_evaluationsOn hwell).bind fun evaluations hevaluations => ?_
      exact orderly_apply
        (orderly_edit hwell hdiagram (settled_of_mem_evaluationsOn hevaluations))
    · exact orderly_apply (orderly_edit hwell hdiagram (List.forall_mem_nil _))
  -- What is in order is one of the three; a result has been validated before it was handed out.
  generalize hout : m.applyOn registry limit d inputs = out at horderly
  cases horderly with
  | result d' =>
    obtain ⟨evaluations, happly⟩ := exists_apply_of_applyOn hout
    obtain ⟨-, -, hfault⟩ := apply_eq_ok_iff.1 happly
    exact .inl ⟨d', rfl, Diagram.validate_eq_ok_iff.2 ⟨hfault, rfl⟩⟩
  | rejection hr => exact .inr (.inl ⟨_, _, rfl, complaint_eq_ok hmutation hr⟩)
  | unwritten hv haddresses => exact .inr (.inr ⟨_, haddresses, hv, rfl⟩)

end Mutation

/-! ## A constant that cannot be mentioned -/

namespace Unspeakable

def note : Predicate := ⟨"note", 1⟩

/-- A leaf that emits the absent value. -/
def diagram : Diagram := ⟨[.leaf ⟨some note, [.constant .absent]⟩], 0⟩

/-- A mutation that takes the constant of the leaf for a reference. -/
def unbind : Mutation := .unbindConstant (some 0) 0 .absent

/-- The mutation of the leaf has one of the outcomes. -/
theorem applyOn_outcomes_diagram : diagram.validate none = .ok diagram ∧
    Legible diagram.integers ∧ Legible unbind.integers ∧
    ((∃ d', unbind.applyOn none .standard diagram [[]] = .ok d' ∧ d'.validate none = .ok d') ∨
      (∃ r text, unbind.applyOn none .standard diagram [[]] = .error (.invalid r) ∧
        unbind.complaint r = .ok text) ∨
      ∃ v, unbind.Addresses diagram v ∧ ¬ v.IsFinite ∧
        unbind.applyOn none .standard diagram [[]] = .error (.untextual ⟨v⟩)) := by
  have hvalid : diagram.validate none = .ok diagram := rfl
  -- All integers are single digits.
  have hshort {zs : List Int} (h : ∀ z ∈ zs, z.natAbs < 10) : Legible zs := fun z hz =>
    (h z hz).trans_le (Nat.le_self_pow (by decide) 10)
  have hdiagram : Legible diagram.integers := hshort (by decide)
  have hunbind : Legible unbind.integers := hshort (by decide)
  exact ⟨hvalid, hdiagram, hunbind, Mutation.applyOn_outcomes hvalid hdiagram hunbind⟩

/-- **Not every mutation of a well-formed diagram is applied or rejected.** The constant of the leaf
is no reference, and what would have to be said of it cannot be written. -/
theorem not_forall_applied_or_rejected : ¬ ∀ (registry : Option Registry) (limit : RoundLimit)
    (d : Diagram) (m : Mutation) (inputs : List (List Fact)), d.validate registry = .ok d →
    (∃ d', m.applyOn registry limit d inputs = .ok d' ∧ d'.validate registry = .ok d') ∨
      ∃ r, m.applyOn registry limit d inputs = .error (.invalid r) := by
  intro h
  have hout : unbind.applyOn none .standard diagram [[]] = .error (.untextual ⟨.absent⟩) := rfl
  obtain ⟨d', hok, -⟩ | ⟨r, hrejected⟩ := h none .standard diagram unbind [[]] rfl
  · rw [hout] at hok
    cases hok
  · rw [hout] at hrejected
    cases hrejected

end Unspeakable

end RuleDiagram
