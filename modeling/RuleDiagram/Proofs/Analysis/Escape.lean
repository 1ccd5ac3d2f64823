import RuleDiagram.Demo.CopyRule
import RuleDiagram.Proofs.Analysis.Grafted
import RuleDiagram.Proofs.Mutation.Site
import RuleDiagram.Proofs.Run.Monotone
import RuleDiagram.Proofs.Run.Preserved
import RuleDiagram.Proofs.Run.Safety

/-!
# Escape grafts mend an example wherever one can be mended

What a diagram yields is monotone in the facts. So no diagram reproduces two examples of which the
inputs of one lie within those of the other, unless the outputs do too. An escape graft needs no
more than that: it makes its example correct and keeps all correct ones, unless one of them
contradicts the example in this way.

## Main definitions

* `Diagram.Reproduces`: a diagram gets an example right
* `Example.Agrees`: two examples may both be reproduced
* `Analyzer.Keeps`: an example that an escape graft has to keep correct
* `Analyzer.Tries`: the diagram that an attempt at an example brings

## Main results

* `Diagram.agrees_of_reproduces`: examples that a diagram reproduces agree
* `Serves.given_eq_mended`, `Serves.given_eq_kept`: what a graft gives on the inputs of examples
* `Diagram.forall_reproduces_iff`: a grafted diagram is right if and only if its examples agree
* `Analyzer.escapeGraft_complete`: there is an escape graft wherever the example can be mended
-/

namespace RuleDiagram

open ListSet

variable {d d' : Diagram} {limit limit' : RoundLimit} {x y mended : Example}
  {kept examples : List Example} {e : Evaluation} {a : Analyzer} {old given : Set Fact}
  {direct : Bool} {i : Nat}

/-! ## Examples that a diagram reproduces -/

/-- A diagram gets an example right within a limit. -/
def Diagram.Reproduces (d : Diagram) (limit : RoundLimit) (x : Example) : Prop :=
  ∃ e, d.evaluate x.inputs limit = .ok e ∧ ListSet.equal e.outputs x.outputs

/-- **Two examples agree**: where the inputs of one lie within those of the other, so do the
outputs. -/
structure Example.Agrees (x y : Example) : Prop where
  outward : ListSet.subset x.inputs y.inputs → ListSet.subset x.outputs y.outputs
  inward : ListSet.subset y.inputs x.inputs → ListSet.subset y.outputs x.outputs

namespace Diagram

theorem reproduces_iff (he : d.evaluate x.inputs limit = .ok e) :
    d.Reproduces limit x ↔ d.yield x.inputs = toSet x.outputs := by
  have hyield := (settled_of_evaluate_eq_ok he).toSet_outputs
  rw [Reproduces, ← hyield]
  constructor
  · rintro ⟨e', he', houtputs⟩
    obtain rfl := Except.ok.inj (he.symm.trans he')
    exact equal_iff.1 houtputs
  · exact fun h => ⟨e, he, equal_iff.2 h⟩

theorem Reproduces.yield_eq (h : d.Reproduces limit x) : d.yield x.inputs = toSet x.outputs := by
  obtain ⟨e, he, -⟩ := id h
  exact (reproduces_iff he).1 h

/-- Examples that a diagram reproduces agree. -/
theorem agrees_of_reproduces (hx : d.Reproduces limit x) (hy : d.Reproduces limit' y) :
    x.Agrees y where
  outward h := by
    rw [subset_iff, ← hx.yield_eq, ← hy.yield_eq]
    exact yield_mono (subset_iff.1 h)
  inward h := by
    rw [subset_iff, ← hx.yield_eq, ← hy.yield_eq]
    exact yield_mono (subset_iff.1 h)

end Diagram

/-! ## What a graft gives on the inputs of examples -/

/-- On the inputs of the example to be mended a graft gives the outputs of that example. -/
theorem Serves.given_eq_mended (h : Serves mended kept direct mended.inputs old given)
    (hdirect : direct → old ⊆ toSet mended.outputs) (hagree : ∀ x ∈ kept, x.Agrees mended) :
    given = toSet mended.outputs := by
  refine Set.Subset.antisymm (fun f hf => ?_) (h.mends subset_rfl)
  obtain ⟨-, hf⟩ | ⟨hd, hf⟩ | ⟨x, hx, ⟨-, hless⟩ | ⟨hinputs, -, hf⟩⟩ := h.only f hf
  · exact hf
  · exact hdirect hd hf
  · exact absurd subset_rfl hless
  · exact subset_iff.1 ((hagree x hx).outward (subset_iff.2 hinputs)) hf

/-- On the inputs of an example to be kept a graft gives the outputs of that example. -/
theorem Serves.given_eq_kept (h : Serves mended kept direct x.inputs old given) (hx : x ∈ kept)
    (hold : old = toSet x.outputs) (hkept : ∀ y ∈ kept, y.Agrees x) (hagree : x.Agrees mended) :
    given = toSet x.outputs := by
  refine Set.Subset.antisymm (fun f hf => ?_) fun f hf => ?_
  · obtain ⟨hinputs, hf⟩ | ⟨-, hf⟩ | ⟨y, hy, ⟨hf, -⟩ | ⟨hinputs, -, hf⟩⟩ := h.only f hf
    · exact subset_iff.1 (hagree.inward (subset_iff.2 hinputs)) hf
    · exact hold ▸ hf
    · exact hold ▸ hf
    · exact subset_iff.1 ((hkept y hy).outward (subset_iff.2 hinputs)) hf
  · exact h.keeps x hx subset_rfl ⟨hf, hold ▸ hf⟩

/-- **A grafted diagram gets its examples right if and only if they agree**: those to be kept, which
the old diagram got right, with the one to be mended. -/
theorem Diagram.forall_reproduces_iff
    (hserves : ∀ facts, Serves mended kept direct facts (d.yield facts) (d'.yield facts))
    (hdirect : direct → d.yield mended.inputs ⊆ toSet mended.outputs)
    (hright : ∀ x ∈ kept, d.Reproduces limit x)
    (hruns : ∀ x ∈ mended :: kept, ∃ e, d'.evaluate x.inputs limit' = .ok e) :
    (∀ x ∈ mended :: kept, d'.Reproduces limit' x) ↔ ∀ x ∈ kept, x.Agrees mended := by
  constructor
  · intro h x hx
    exact agrees_of_reproduces (h x (List.mem_cons_of_mem mended hx)) (h mended List.mem_cons_self)
  · intro hagree x hx
    obtain ⟨e, he⟩ := hruns x hx
    rw [reproduces_iff he]
    rcases List.mem_cons.1 hx with rfl | hx
    · exact (hserves x.inputs).given_eq_mended hdirect hagree
    · -- The kept examples agree with each other, for the old diagram gets them all right.
      exact (hserves x.inputs).given_eq_kept hx (hright x hx).yield_eq
        (fun y hy => agrees_of_reproduces (hright y hy) (hright x hx)) (hagree x hx)

namespace Analyzer

variable {evaluations : List (Option Evaluation)} {graft : Mutation}

/-! ## What an attempt looks at -/

/-- An example that an escape graft for another one has to keep: the diagram gets it right. -/
def Keeps (a : Analyzer) (d : Diagram) (examples : List Example) (i : Nat) (x : Example) : Prop :=
  ∃ j, j ≠ i ∧ examples[j]? = some x ∧ d.Reproduces a.limit x

theorem evaluation?_eq_ok_some_iff {facts : List Fact} :
    evaluation? limit d facts = .ok (some e) ↔ d.evaluate facts limit = .ok e := by
  unfold evaluation?
  split
  · next h => simp [h]
  · next h => simp [h]
  · next h => simp [h]

/-- On a well-formed diagram it is known whether the evaluation ends. -/
theorem exists_evaluation? (hd : d.WellFormed) (facts : List Fact) :
    ∃ current, evaluation? limit d facts = .ok current := by
  obtain ⟨e, he⟩ | he := (hd.unhindered facts).evaluate_eq_ok_or_limitReached limit
  · exact ⟨some e, evaluation?_eq_ok_some_iff.2 he⟩
  · exact ⟨none, by rw [evaluation?, he]⟩

theorem isCorrect_iff {current : Option Evaluation}
    (h : evaluation? limit d x.inputs = .ok current) :
    isCorrect current x ↔ d.Reproduces limit x := by
  cases current with
  | none =>
    refine iff_of_false (by simp [isCorrect]) fun ⟨e, he, _⟩ => ?_
    rw [evaluation?_eq_ok_some_iff.2 he] at h
    cases Except.ok.inj h
  | some e =>
    have he := evaluation?_eq_ok_some_iff.1 h
    constructor
    · exact fun houtputs => ⟨e, he, houtputs⟩
    · rintro ⟨e', he', houtputs⟩
      obtain rfl := Except.ok.inj (he.symm.trans he')
      exact houtputs

theorem exists_evaluation?_of_getElem? {j : Nat} (h : a.evaluations d examples = .ok evaluations)
    (hx : examples[j]? = some x) :
    ∃ current, evaluations[j]? = some current ∧ evaluation? a.limit d x.inputs = .ok current := by
  have hall := List.mapM_eq_ok_iff.1 h
  obtain ⟨hlt, rfl⟩ := List.getElem?_eq_some_iff.1 hx
  have hlt' : j < evaluations.length := hall.length_eq ▸ hlt
  exact ⟨evaluations[j], List.getElem?_eq_getElem hlt', hall.get hlt hlt'⟩

theorem mem_keptExamples (h : a.evaluations d examples = .ok evaluations) :
    x ∈ keptExamples examples evaluations i ↔ a.Keeps d examples i x := by
  simp only [keptExamples, List.mem_map, List.mem_filter, Prod.exists,
    List.mem_zipIdx_iff_getElem?, List.getElem?_zip_eq_some, Bool.and_eq_true, decide_eq_true_eq,
    ne_eq, Int.ofNat_inj, Keeps]
  constructor
  · rintro ⟨current, y, j, ⟨⟨hcurrent, hy⟩, hne, hcorrect⟩, rfl⟩
    obtain ⟨current', hcurrent', heval⟩ := exists_evaluation?_of_getElem? h hy
    obtain rfl := Option.some_inj.1 (hcurrent.symm.trans hcurrent')
    exact ⟨j, hne, hy, (isCorrect_iff heval).1 hcorrect⟩
  · rintro ⟨j, hne, hx, hreproduces⟩
    obtain ⟨current, hcurrent, heval⟩ := exists_evaluation?_of_getElem? h hx
    exact ⟨current, x, j, ⟨⟨hcurrent, hx⟩, hne,
      (isCorrect_iff heval).2 hreproduces⟩, rfl⟩

/-! ## Attempts -/

/-- **The graft between a diagram and the grafted one.** -/
theorem exists_grafted {registry : Option Registry} {graft : Mutation}
    (hd : d.fault? registry = none)
    (hgraft : graftFor d.size d.root direct mended kept = .ok graft)
    (hregistered : ∀ x ∈ mended :: kept,
      x.Known fun f => ∀ r, registry = some r → r.has f.predicate) :
    ∃ grafted, (∀ given, graft.apply registry d given = .ok grafted) ∧ grafted.WellFormed ∧
      ∀ facts, Serves mended kept direct facts (d.yield facts) (grafted.yield facts) := by
  obtain ⟨front, back, tail, root, hparts, hroot, rfl⟩ := exists_graftParts hgraft
  have hwell := Diagram.wellFormed_of_fault?_eq_none hd
  generalize hns : front.nodes ++ back.nodes ++ tail.nodes = ns at hgraft ⊢
  -- The nodes of the graft lead to the old root and to each other.
  obtain ⟨hbuilt, hentry⟩ := built_of_graftParts (A := d.Entrance ns.length) hparts
    (hregistered mended List.mem_cons_self)
    (fun x hx => hregistered x (List.mem_cons_of_mem mended hx)) (.inl rfl)
    fun i hi hlt => .inr ⟨hi, hns ▸ hlt⟩
  rw [hns] at hbuilt
  have hfault := Diagram.fault?_grafted_eq_none hd hbuilt (hentry root hroot)
  refine ⟨(d.append ns).withRoot root, fun given => ?_,
    Diagram.wellFormed_of_fault?_eq_none hfault, fun facts => ?_⟩
  · -- The mutation applies: its base is the size of the diagram, and its root is in range.
    refine Mutation.apply_eq_ok_iff.2 ⟨fun h => (by cases h), ?_, hfault⟩
    have hrange : inRange (d.append ns).size root :=
      Diagram.inRange_of_entrance hwell.root (hentry root hroot)
    simp only [Mutation.edit, Except.bind_eq_ok_iff, rejectIf_eq_ok_iff, Except.pure_eq_ok_iff]
    exact ⟨(), decide_eq_false (not_not_intro rfl), (), by rw [hrange]; rfl, trivial⟩
  · -- Appended nodes leave the old root as it was, and the new root enters the graft.
    have hholds : (d.append ns).Holds d.size (front.nodes ++ back.nodes ++ tail.nodes) := by
      rw [hns]
      exact Diagram.holds_append ns
    have hserves := Diagram.serves_of_graftParts hparts hholds facts .empty
    have hold : (d.append ns).produced facts (some d.root) .empty = d.yield facts := by
      rw [Diagram.yield_eq_produced]
      exact (Diagram.preserves_append hwell.allInRange).root .empty
    have hnew : (d.append ns).produced facts (some root) .empty =
        ((d.append ns).withRoot root).yield facts := by
      rw [Diagram.yield_eq_produced, Diagram.produced_withRoot]
      rfl
    rwa [hold, hroot, hnew] at hserves

/-- The attempt at an example brings a graft and a grafted diagram. -/
def Tries (a : Analyzer) (d : Diagram) (examples : List Example)
    (evaluations : List (Option Evaluation)) (i : Nat) (graft : Mutation) (grafted : Diagram) :
    Prop :=
  ∃ mended current, examples[i]? = some mended ∧ evaluations[i]? = some current ∧
    graftFor d.size d.root (current.any fun e => ListSet.subset e.outputs mended.outputs) mended
      (keptExamples examples evaluations i) = .ok graft ∧
    graft.apply a.registry d [] = .ok grafted

theorem exists_reproducesAll {xs : List Example}
    (h : ∀ x ∈ xs, ∃ e, d.evaluate x.inputs a.limit = .ok e) :
    ∃ b, a.reproducesAll d xs = .ok b ∧ (b = true ↔ ∀ x ∈ xs, d.Reproduces a.limit x) := by
  induction xs with
  | nil => exact ⟨true, rfl, by simp⟩
  | cons x xs ih =>
    obtain ⟨e, he⟩ := h x List.mem_cons_self
    obtain ⟨b, hb, hiff⟩ := ih fun y hy => h y (List.mem_cons_of_mem x hy)
    have heval := evaluation?_eq_ok_some_iff.2 he
    have hcorrect := isCorrect_iff heval
    have hstep : a.reproduces d x = .ok (isCorrect (some e) x) := by rw [reproduces, heval]; rfl
    rw [reproducesAll, hstep]
    cases hc : isCorrect (some e) x with
    | true =>
      exact ⟨b, hb, by rw [hiff, List.forall_mem_cons, ← hcorrect, hc]; simp⟩
    | false =>
      refine ⟨false, rfl, iff_of_false Bool.false_ne_true fun hall => ?_⟩
      have := hcorrect.2 (hall x List.mem_cons_self)
      rw [hc] at this
      cases this

/-- A natural index stands for the place of that number. -/
theorem place?_bind_getElem? {α : Type} (xs : List α) (i : Nat) :
    ((place? xs.length i).bind fun i => xs[i]?) = xs[i]? := by
  unfold place?
  by_cases hlt : i < xs.length
  · simp [hlt, Int.not_lt.2 (Int.natCast_nonneg i)]
  · simp [hlt, Int.not_lt.2 (Int.natCast_nonneg i)]

/-- The attempt at an example is a graft if the grafted diagram gets it and all examples that are to
be kept right. -/
theorem escapeGraft_eq {current : Option Evaluation} {grafted : Diagram} {b : Bool}
    (hi : examples[i]? = some mended) (hcurrent : evaluations[i]? = some current)
    (hgraft : graftFor d.size d.root (current.any fun e => ListSet.subset e.outputs mended.outputs)
      mended (keptExamples examples evaluations i) = .ok graft)
    (happly : graft.apply a.registry d [] = .ok grafted)
    (hb : a.reproducesAll grafted (mended :: keptExamples examples evaluations i) = .ok b) :
    a.escapeGraft d examples evaluations i = .ok (if b then some graft else none) := by
  unfold escapeGraft
  rw [place?_bind_getElem?, hi, place?_bind_getElem?, hcurrent]
  dsimp only
  rw [hgraft]
  dsimp only [Except.mapError, bind, Except.bind]
  rw [happly]
  dsimp only
  rw [hb]
  rfl

/-- **An attempt at an example is decided by whether the examples agree.** It brings a graft that can
be applied, and the graft is kept if and only if the grafted diagram gets all examples right that it
is checked on. These are the example to be mended and those correct so far, and the grafted diagram
gets them right if and only if they agree. -/
theorem exists_attempt (hd : d.validate a.registry = .ok d)
    (hregistered : ∀ registry, a.registry = some registry →
      ∀ x ∈ examples, ∀ f ∈ x.inputs ++ x.outputs, registry.has f.predicate)
    (htextual : ∀ x ∈ examples, x.Textual)
    (hevaluations : a.evaluations d examples = .ok evaluations) (hi : examples[i]? = some mended)
    (hceiling : ∀ graft grafted, a.Tries d examples evaluations i graft grafted →
      ∀ x, x = mended ∨ a.Keeps d examples i x →
        ∀ limit, grafted.evaluate x.inputs a.limit ≠ .error (.limitReached limit)) :
    ∃ graft grafted b,
      a.escapeGraft d examples evaluations i = .ok (if b then some graft else none) ∧
      (∀ reference, graft.apply a.registry d reference = .ok grafted) ∧
      (b = true ↔ ∀ x, x = mended ∨ a.Keeps d examples i x → grafted.Reproduces a.limit x) ∧
      (b = true ↔ ∀ x, a.Keeps d examples i x → x.Agrees mended) := by
  have hfault := (Diagram.validate_eq_ok_iff.1 hd).1
  obtain ⟨current, hcurrent, heval⟩ := exists_evaluation?_of_getElem? hevaluations hi
  generalize hkept : keptExamples examples evaluations i = kept
  have hmem {x : Example} : x ∈ kept ↔ a.Keeps d examples i x :=
    hkept ▸ mem_keptExamples hevaluations
  -- All examples that the attempt looks at are among the given ones.
  have hexample : ∀ x ∈ mended :: kept, x ∈ examples := by
    refine List.forall_mem_cons.2 ⟨List.mem_of_getElem? hi, fun x hx => ?_⟩
    obtain ⟨j, -, hj, -⟩ := hmem.1 hx
    exact List.mem_of_getElem? hj
  obtain ⟨graft, hgraft⟩ := exists_graftFor
    (htextual mended (hexample mended List.mem_cons_self))
    (fun x hx => htextual x (hexample x (List.mem_cons_of_mem mended hx))) d.size d.root
    (current.any fun e => ListSet.subset e.outputs mended.outputs)
  obtain ⟨grafted, happly, hwell, hserves⟩ := exists_grafted hfault hgraft fun x hx =>
    ⟨fun f hf r hr => hregistered r hr x (hexample x hx) f (List.mem_append_left _ hf),
      fun f hf r hr => hregistered r hr x (hexample x hx) f (List.mem_append_right _ hf)⟩
  have htries : a.Tries d examples evaluations i graft grafted :=
    ⟨mended, current, hi, hcurrent, hkept ▸ hgraft, happly []⟩
  have hall {x : Example} : x ∈ mended :: kept ↔ x = mended ∨ a.Keeps d examples i x := by
    rw [List.mem_cons, hmem]
  -- The runs of the grafted diagram end, for it is well formed and within the limit.
  have hruns : ∀ x ∈ mended :: kept, ∃ e, grafted.evaluate x.inputs a.limit = .ok e := fun x hx =>
    ((hwell.unhindered x.inputs).evaluate_eq_ok_or_limitReached a.limit).resolve_right
      (hceiling graft grafted htries x (hall.1 hx) a.limit)
  obtain ⟨b, hb, hreproduces⟩ := exists_reproducesAll hruns
  have hright (x : Example) (hx : x ∈ kept) : d.Reproduces a.limit x := by
    obtain ⟨-, -, -, hx⟩ := hmem.1 hx
    exact hx
  -- The old root is entered directly only where all the old outputs are wanted.
  have hdirect (h : current.any fun e => ListSet.subset e.outputs mended.outputs) :
      d.yield mended.inputs ⊆ toSet mended.outputs := by
    obtain ⟨e, rfl, hsubset⟩ := (Option.any_eq_true _ _).1 h
    have he := evaluation?_eq_ok_some_iff.1 heval
    rw [← (Diagram.settled_of_evaluate_eq_ok he).toSet_outputs]
    exact subset_iff.1 hsubset
  refine ⟨graft, grafted, b, escapeGraft_eq hi hcurrent (hkept ▸ hgraft) (happly []) (hkept ▸ hb),
    happly, ?_, ?_⟩
  · rw [hreproduces]
    exact forall_congr' fun x => imp_congr_left hall
  · rw [hreproduces, Diagram.forall_reproduces_iff hserves hdirect hright hruns]
    exact forall_congr' fun x => imp_congr_left hmem

/-- **There is an escape graft wherever an example can be mended.** An attempt at an example brings
a graft if and only if the example agrees with all others that are correct so far. The graft can be
applied, and the grafted diagram gets all of them right; without a graft, no diagram does. -/
theorem escapeGraft_complete (hd : d.validate a.registry = .ok d)
    (hregistered : ∀ registry, a.registry = some registry →
      ∀ x ∈ examples, ∀ f ∈ x.inputs ++ x.outputs, registry.has f.predicate)
    (htextual : ∀ x ∈ examples, x.Textual)
    (hevaluations : a.evaluations d examples = .ok evaluations) (hi : examples[i]? = some mended)
    (hceiling : ∀ graft grafted, a.Tries d examples evaluations i graft grafted →
      ∀ x, x = mended ∨ a.Keeps d examples i x →
        ∀ limit, grafted.evaluate x.inputs a.limit ≠ .error (.limitReached limit)) :
    ∃ result, a.escapeGraft d examples evaluations i = .ok result ∧
      (result.isSome ↔ ∀ x, a.Keeps d examples i x → x.Agrees mended) ∧
      (∀ graft, result = some graft → ∃ grafted,
        (∀ reference, graft.apply a.registry d reference = .ok grafted) ∧
          ∀ x, x = mended ∨ a.Keeps d examples i x → grafted.Reproduces a.limit x) ∧
      (result = none → ∀ d' : Diagram,
        ¬ ∀ x, x = mended ∨ a.Keeps d examples i x → ∃ limit, d'.Reproduces limit x) := by
  obtain ⟨graft, grafted, b, hresult, happly, hreproduces, hagree⟩ :=
    exists_attempt hd hregistered htextual hevaluations hi hceiling
  refine ⟨_, hresult, ?_, ?_, ?_⟩
  · rw [← hagree]
    cases b <;> simp
  · rintro g hg
    obtain ⟨hbtrue, ⟨⟩⟩ := Option.ite_none_right_eq_some.1 hg
    exact ⟨grafted, happly, hreproduces.1 hbtrue⟩
  · -- Without a graft two examples do not agree, and no diagram gets both right.
    intro hnone d' hd'
    have hbfalse : ¬ b = true := fun hbtrue => by simp [hbtrue] at hnone
    refine hbfalse (hagree.2 fun x hx => ?_)
    obtain ⟨limit, hlimit⟩ := hd' x (.inr hx)
    obtain ⟨limit', hlimit'⟩ := hd' mended (.inl rfl)
    exact Diagram.agrees_of_reproduces hlimit hlimit'

end Analyzer

namespace CopyRule

/-- An analyzer for the diagrams of the problem. -/
def analyzer : Analyzer := .standard (some ⟨[source, target], by decide⟩)

/-- The diagram that a search starts from: it copies zero wherever it is given. -/
def seed : Diagram := ⟨[.leaf ⟨some target, [.constant (.int 0)]⟩], 0⟩

/-- The seed can be mended to copy one as well. -/
theorem escapeGraft_seed : ∃ evaluations graft grafted,
    analyzer.evaluations seed [exampleOf 0, exampleOf 1] = .ok evaluations ∧
    analyzer.escapeGraft seed [exampleOf 0, exampleOf 1] evaluations 1 = .ok (some graft) ∧
    graft.apply analyzer.registry seed [] = .ok grafted ∧
    grafted.Reproduces .standard (exampleOf 1) ∧ grafted.Reproduces .standard (exampleOf 0) := by
  have hall : (analyzer.evaluations seed [exampleOf 0, exampleOf 1]).toOption.any fun evaluations =>
      evaluations[1]?.any fun current =>
      (graftFor seed.size seed.root
        (current.any fun e => ListSet.subset e.outputs (exampleOf 1).outputs) (exampleOf 1)
        (Analyzer.keptExamples [exampleOf 0, exampleOf 1] evaluations 1)).toOption.any fun graft =>
      (graft.apply analyzer.registry seed []).toOption.any fun grafted =>
      [exampleOf 0, exampleOf 1].all fun x =>
        (grafted.evaluate x.inputs analyzer.limit).toOption.isSome := by
    decide +kernel
  have hkept : (seed.evaluate (exampleOf 0).inputs analyzer.limit).toOption.any fun e =>
      ListSet.equal e.outputs (exampleOf 0).outputs := by
    decide
  obtain ⟨evaluations, hevaluations, hall⟩ := Except.exists_of_any_toOption hall
  obtain ⟨current, hcurrent, hall⟩ := (Option.any_eq_true _ _).1 hall
  obtain ⟨graft, hgraft, hall⟩ := Except.exists_of_any_toOption hall
  obtain ⟨grafted, hgrafted, hall⟩ := Except.exists_of_any_toOption hall
  have hmember {x : Example} (h : x = exampleOf 1 ∨
      analyzer.Keeps seed [exampleOf 0, exampleOf 1] 1 x) : x ∈ [exampleOf 0, exampleOf 1] := by
    obtain rfl | ⟨j, -, hj, -⟩ := h
    · exact .tail _ (.head _)
    · exact List.mem_of_getElem? hj
  have hkeeps : analyzer.Keeps seed [exampleOf 0, exampleOf 1] 1 (exampleOf 0) :=
    ⟨0, by decide, rfl, Except.exists_of_any_toOption hkept⟩
  have htextual : ∀ x ∈ [exampleOf 0, exampleOf 1], x.Textual := by
    refine List.forall_mem_cons.2 ⟨?_, List.forall_mem_singleton.2 ?_⟩ <;>
      exact ⟨List.forall_mem_singleton.2 (List.forall_mem_singleton.2 ⟨_, rfl⟩),
        List.forall_mem_singleton.2 (List.forall_mem_singleton.2 ⟨_, rfl⟩)⟩
  have hceiling (g : Mutation) (d : Diagram)
      (h : analyzer.Tries seed [exampleOf 0, exampleOf 1] evaluations 1 g d) (x : Example)
      (hx : x = exampleOf 1 ∨ analyzer.Keeps seed [exampleOf 0, exampleOf 1] 1 x)
      (limit : RoundLimit) : d.evaluate x.inputs analyzer.limit ≠ .error (.limitReached limit) := by
    -- The graft and the grafted diagram are those that have been run.
    obtain ⟨_, current', ⟨⟩, hcurrent', hgraft', hgrafted'⟩ := h
    obtain rfl := Option.some_inj.1 (hcurrent.symm.trans hcurrent')
    obtain rfl := Except.ok.inj (hgraft.symm.trans hgraft')
    obtain rfl := Except.ok.inj (hgrafted.symm.trans hgrafted')
    intro hlimit
    have hrun := List.all_eq_true.1 hall x (hmember hx)
    rw [hlimit] at hrun
    cases hrun
  obtain ⟨result, hresult, hiff, hsome, -⟩ := Analyzer.escapeGraft_complete (a := analyzer)
    (d := seed) (i := 1) rfl (by rintro _ ⟨⟩; decide) htextual hevaluations rfl hceiling
  have hagree (x : Example) (hx : analyzer.Keeps seed [exampleOf 0, exampleOf 1] 1 x) :
      x.Agrees (exampleOf 1) := by
    obtain ⟨j, hj, hx, -⟩ := hx
    match j with
    | 0 =>
      cases hx
      exact ⟨fun h => absurd h (by decide), fun h => absurd h (by decide)⟩
    | 1 => exact absurd rfl hj
    | j + 2 => cases hx
  obtain ⟨mutation, rfl⟩ := Option.isSome_iff_exists.1 (hiff.2 hagree)
  obtain ⟨diagram, happly, hreproduces⟩ := hsome mutation rfl
  exact ⟨evaluations, mutation, diagram, hevaluations, hresult, happly [],
    hreproduces _ (.inl rfl), hreproduces _ (.inr hkeeps)⟩

end CopyRule

end RuleDiagram
