import RuleDiagram.Proofs.Analysis.Candidates
import RuleDiagram.Proofs.Analysis.Escape

/-!
# Escapes never get stuck

An escape mends one failing example and loses none that is correct. Where all examples agree with
each other, the agreement that an escape graft needs is there at every diagram on the way, whatever
has become of the examples that still fail. So examples may be chosen in any order: as long as one
fails it can be mended, each escape leaves fewer that fail, and there are no more escapes than
examples that failed at the start.

## Main definitions

* `Analyzer.failing`: the examples that a diagram fails
* `Analyzer.Escapes`: one escape, for any failing example
* `Analyzer.EscapesInTurn`: escapes one after another
* `Analyzer.ChecksEnd`: the runs that check an escape graft stay within the limit

## Main results

* `Analyzer.Escapes.reproduces`: what one escape keeps and what it mends
* `Analyzer.exists_escapes`: an escape is there for each failing example
* `Analyzer.EscapesInTurn.length_add_length_le`: each escape leaves fewer failing examples
* `Analyzer.escapes_until_all_reproduced`: escapes in any order end with all examples correct
-/

namespace RuleDiagram

variable {a : Analyzer} {d d' d'' : Diagram} {examples : List Example} {x : Example}
  {evaluations : List (Option Evaluation)} {places left : List Nat} {i : Nat}

namespace Analyzer

/-! ## The examples that fail -/

/-- The places of the examples that a diagram fails. -/
def failing (a : Analyzer) (d : Diagram) (examples : List Example) :
    Except RunFault (List Nat) := do
  return failingPlaces (correct (← a.evaluations d examples) examples)

theorem failing_eq_ok_iff : a.failing d examples = .ok left ↔ ∃ evaluations,
    a.evaluations d examples = .ok evaluations ∧
      failingPlaces (correct evaluations examples) = left := by
  rw [failing, Except.bind_eq_ok_iff]
  simp only [Except.pure_eq_ok_iff]

theorem mem_failingPlaces {correct : List Bool} :
    i ∈ failingPlaces correct ↔ correct[i]? = some false := by
  simp only [failingPlaces, List.mem_map, List.mem_filter, Prod.exists,
    List.mem_zipIdx_iff_getElem?, Bool.not_eq_true']
  constructor
  · rintro ⟨ok, _, ⟨h, rfl⟩, rfl⟩
    exact h
  · exact fun h => ⟨false, i, ⟨h, rfl⟩, rfl⟩

theorem nodup_failingPlaces (correct : List Bool) : (failingPlaces correct).Nodup := by
  have hsublist : (failingPlaces correct).Sublist (correct.zipIdx.map Prod.snd) :=
    List.filter_sublist.map Prod.snd
  rw [List.zipIdx_map_snd] at hsublist
  exact hsublist.nodup List.nodup_range'

/-- **An example fails if and only if the diagram does not get it right.** -/
theorem mem_failing (h : a.failing d examples = .ok left) :
    i ∈ left ↔ ∃ x, examples[i]? = some x ∧ ¬ d.Reproduces a.limit x := by
  obtain ⟨evaluations, hevaluations, rfl⟩ := failing_eq_ok_iff.1 h
  rw [mem_failingPlaces, correct, List.getElem?_zipWith_eq_some]
  constructor
  · rintro ⟨current, x, hcurrent, hx, hfalse⟩
    obtain ⟨current', hcurrent', heval⟩ := exists_evaluation?_of_getElem? hevaluations hx
    obtain rfl := Option.some_inj.1 (hcurrent.symm.trans hcurrent')
    refine ⟨x, hx, fun hx => ?_⟩
    rw [(isCorrect_iff heval).2 hx] at hfalse
    cases hfalse
  · rintro ⟨x, hx, hfails⟩
    obtain ⟨current, hcurrent, heval⟩ := exists_evaluation?_of_getElem? hevaluations hx
    exact ⟨current, x, hcurrent, hx, Bool.eq_false_iff.2 (mt (isCorrect_iff heval).1 hfails)⟩

theorem nodup_failing (h : a.failing d examples = .ok left) : left.Nodup := by
  obtain ⟨evaluations, -, rfl⟩ := failing_eq_ok_iff.1 h
  exact nodup_failingPlaces _

theorem failing_eq_nil_iff (h : a.failing d examples = .ok left) :
    left = [] ↔ ∀ x ∈ examples, d.Reproduces a.limit x := by
  rw [List.eq_nil_iff_forall_not_mem]
  constructor
  · intro hnil x hx
    obtain ⟨i, hi⟩ := List.mem_iff_getElem?.1 hx
    exact not_not.1 fun hfails => hnil i ((mem_failing h).2 ⟨x, hi, hfails⟩)
  · intro hall i hi
    obtain ⟨x, hx, hfails⟩ := (mem_failing h).1 hi
    exact hfails (hall x (List.mem_of_getElem? hx))

theorem exists_evaluations (hd : d.WellFormed) (examples : List Example) :
    ∃ evaluations, a.evaluations d examples = .ok evaluations :=
  List.exists_mapM_eq_ok fun x _ => exists_evaluation? hd x.inputs

/-- A well-formed diagram has evaluations, so that it is known which examples fail. -/
theorem exists_failing (hd : d.validate a.registry = .ok d) (examples : List Example) :
    ∃ left, a.failing d examples = .ok left := by
  have hwell := Diagram.wellFormed_of_fault?_eq_none (Diagram.validate_eq_ok_iff.1 hd).1
  obtain ⟨evaluations, hevaluations⟩ := exists_evaluations hwell examples
  exact ⟨_, failing_eq_ok_iff.2 ⟨evaluations, hevaluations, rfl⟩⟩

/-! ## One escape -/

/-- **One escape**: an example fails, and the graft that is built for it from the evaluations of the
diagram is applied. -/
def Escapes (a : Analyzer) (examples : List Example) (d : Diagram) (i : Nat) (d' : Diagram) :
    Prop :=
  ∃ evaluations graft, a.evaluations d examples = .ok evaluations ∧
    i ∈ failingPlaces (correct evaluations examples) ∧
    a.escapeGraft d examples evaluations i = .ok (some graft) ∧
    graft.apply a.registry d (evaluations.filterMap id) = .ok d'

/-- The runs that check the escape graft for a failing example stay within the limit. -/
def ChecksEnd (a : Analyzer) (examples : List Example) (d : Diagram) (i : Nat) : Prop :=
  ∀ evaluations graft grafted, a.evaluations d examples = .ok evaluations →
    i ∈ failingPlaces (correct evaluations examples) →
    a.Tries d examples evaluations i graft grafted →
    ∀ x, examples[i]? = some x ∨ a.Keeps d examples i x →
      ∀ limit, grafted.evaluate x.inputs a.limit ≠ .error (.limitReached limit)

theorem reproduces_iff_of_eq_ok {b : Bool} (h : a.reproduces d x = .ok b) :
    b = true ↔ d.Reproduces a.limit x := by
  obtain ⟨current, hcurrent, h⟩ := Except.bind_eq_ok_iff.1 h
  obtain rfl := Except.pure_eq_ok_iff.1 h
  exact isCorrect_iff (Except.mapError_eq_ok_iff.1 hcurrent)

theorem forall_reproduces_of_reproducesAll {xs : List Example}
    (h : a.reproducesAll d xs = .ok true) : ∀ x ∈ xs, d.Reproduces a.limit x := by
  induction xs with
  | nil => exact List.forall_mem_nil _
  | cons x xs ih =>
    obtain ⟨b, hb, h⟩ := Except.bind_eq_ok_iff.1 h
    cases b with
    | false => cases h
    | true => exact List.forall_mem_cons.2 ⟨(reproduces_iff_of_eq_ok hb).1 rfl, ih h⟩

theorem Escapes.validate_eq_ok (h : a.Escapes examples d i d') :
    d'.validate a.registry = .ok d' := by
  obtain ⟨evaluations, graft, -, -, -, happly⟩ := h
  exact Diagram.validate_eq_ok_iff.2 ⟨(Mutation.apply_eq_ok_iff.1 happly).2.2, rfl⟩

/-- **What an escape keeps and what it mends**: all examples that were correct are, and the one it
was made for, which was not, is as well. -/
theorem Escapes.reproduces (h : a.Escapes examples d i d') :
    (∀ x ∈ examples, d.Reproduces a.limit x → d'.Reproduces a.limit x) ∧
      ∃ x, examples[i]? = some x ∧ ¬ d.Reproduces a.limit x ∧ d'.Reproduces a.limit x := by
  obtain ⟨evaluations, graft, hevaluations, hi, hgraft, happly⟩ := h
  obtain ⟨x, hx, hfails⟩ := (mem_failing (failing_eq_ok_iff.2 ⟨_, hevaluations, rfl⟩)).1 hi
  obtain ⟨mended, grafted, hmended, hgrafted, hall⟩ := exists_grafted_of_escapeGraft hgraft
  rw [place?_bind_getElem?, hx, Option.some_inj] at hmended
  subst hmended
  -- The diagram that was checked is the one that the graft gives.
  obtain rfl := Except.ok.inj (happly.symm.trans (Mutation.apply_of_apply_nil hgrafted))
  have hright := forall_reproduces_of_reproducesAll hall
  refine ⟨fun y hy hreproduces => ?_, x, hx, hfails, hright x List.mem_cons_self⟩
  obtain ⟨j, hj⟩ := List.mem_iff_getElem?.1 hy
  have hne : j ≠ i := by
    rintro rfl
    obtain rfl := Option.some_inj.1 (hx.symm.trans hj)
    exact hfails hreproduces
  have hkept := (mem_keptExamples hevaluations).2 ⟨j, hne, hj, hreproduces⟩
  exact hright y (List.mem_cons_of_mem x hkept)

/-- **An escape leaves fewer failing examples.** -/
theorem Escapes.length_lt {failed : List Nat} (h : a.Escapes examples d i d')
    (hfailed : a.failing d examples = .ok failed) (hleft : a.failing d' examples = .ok left) :
    left.length < failed.length := by
  obtain ⟨hkeeps, x, hx, hfails, hmended⟩ := h.reproduces
  have hi : i ∈ failed := (mem_failing hfailed).2 ⟨x, hx, hfails⟩
  -- What fails now has failed before, and the example that was mended does not fail.
  have hsubset : left ⊆ failed.erase i := by
    intro j hj
    obtain ⟨y, hy, hfailsNow⟩ := (mem_failing hleft).1 hj
    refine (List.mem_erase_of_ne ?_).2 ((mem_failing hfailed).2 ⟨y, hy, fun hbefore =>
      hfailsNow (hkeeps y (List.mem_of_getElem? hy) hbefore)⟩)
    rintro rfl
    obtain rfl := Option.some_inj.1 (hx.symm.trans hy)
    exact hfailsNow hmended
  have hle := (List.subperm_of_subset (nodup_failing hleft) hsubset).length_le
  have herase := List.length_erase_add_one hi
  omega

/-- **There is an escape for each failing example**, where the examples agree with each other. -/
theorem exists_escapes (hd : d.validate a.registry = .ok d)
    (hregistered : ∀ registry, a.registry = some registry →
      ∀ x ∈ examples, ∀ f ∈ x.inputs ++ x.outputs, registry.has f.predicate)
    (htextual : ∀ x ∈ examples, x.Textual)
    (hconsistent : ∀ x ∈ examples, ∀ y ∈ examples,
      ListSet.subset x.inputs y.inputs → ListSet.subset x.outputs y.outputs)
    (hleft : a.failing d examples = .ok left) (hi : i ∈ left) (hchecks : a.ChecksEnd examples d i) :
    ∃ d', a.Escapes examples d i d' := by
  obtain ⟨mended, hmended, -⟩ := (mem_failing hleft).1 hi
  obtain ⟨evaluations, hevaluations, rfl⟩ := failing_eq_ok_iff.1 hleft
  obtain ⟨graft, grafted, b, hresult, happly, -, hagree⟩ :=
    exists_attempt hd hregistered htextual hevaluations hmended fun graft grafted htries x hx =>
      hchecks evaluations graft grafted hevaluations hi htries x
        (hx.imp_left fun heq : x = mended => heq ▸ hmended)
  have hb : b = true := hagree.2 fun x ⟨j, _, hj, _⟩ =>
    have hx := List.mem_of_getElem? hj
    have hy := List.mem_of_getElem? hmended
    ⟨hconsistent x hx mended hy, hconsistent mended hy x hx⟩
  rw [hb, if_pos rfl] at hresult
  exact ⟨grafted, evaluations, graft, hevaluations, hi, hresult, happly _⟩

/-! ## Escapes one after another -/

/-- **Escapes one after another**, each for an example that fails by then, with the places of the
examples in the order in which they were chosen. -/
inductive EscapesInTurn (a : Analyzer) (examples : List Example) (d : Diagram) :
    List Nat → Diagram → Prop where
  | start : EscapesInTurn a examples d [] d
  | step {places : List Nat} {d' d'' : Diagram} {i : Nat}
      (hplaces : EscapesInTurn a examples d places d') (hi : a.Escapes examples d' i d'') :
      EscapesInTurn a examples d (places ++ [i]) d''

namespace EscapesInTurn

theorem validate_eq_ok (h : a.EscapesInTurn examples d places d')
    (hd : d.validate a.registry = .ok d) : d'.validate a.registry = .ok d' := by
  cases h with
  | start => exact hd
  | step _ hi => exact hi.validate_eq_ok

/-- **Each escape counts against the examples that failed at the start.** -/
theorem length_add_length_le {failed : List Nat} (h : a.EscapesInTurn examples d places d')
    (hd : d.validate a.registry = .ok d) (hfailed : a.failing d examples = .ok failed)
    (hleft : a.failing d' examples = .ok left) : places.length + left.length ≤ failed.length := by
  induction h generalizing left with
  | start =>
    obtain rfl := Except.ok.inj (hfailed.symm.trans hleft)
    exact Nat.le_of_eq (Nat.zero_add _)
  | @step places d' d'' i hplaces hi ih =>
    obtain ⟨before, hbefore⟩ := exists_failing (hplaces.validate_eq_ok hd) examples
    have hlt := hi.length_lt hbefore hleft
    have hle := ih hbefore
    rw [List.length_append, List.length_singleton]
    omega

/-- As long as there is an escape for each failing example, escapes go on until all examples are
reproduced. -/
theorem exists_completion {failed : List Nat} (h : a.EscapesInTurn examples d places d')
    (hd : d.validate a.registry = .ok d) (hfailed : a.failing d examples = .ok failed)
    (hnext : ∀ {places left d' i}, a.EscapesInTurn examples d places d' →
      a.failing d' examples = .ok left → i ∈ left → ∃ d'', a.Escapes examples d' i d'') :
    ∃ rest last, a.EscapesInTurn examples d (places ++ rest) last ∧
      (places ++ rest).length ≤ failed.length ∧ ∀ x ∈ examples, last.Reproduces a.limit x := by
  obtain ⟨left, hleft⟩ := exists_failing (h.validate_eq_ok hd) examples
  -- Induction on the number of examples that fail: each escape leaves fewer.
  induction hcount : left.length using Nat.strong_induction_on generalizing places d' left with
  | h count ih =>
    cases left with
    | nil =>
      refine ⟨[], d', by rwa [List.append_nil], ?_, (failing_eq_nil_iff hleft).1 rfl⟩
      rw [List.append_nil]
      exact h.length_add_length_le hd hfailed hleft
    | cons i others =>
      obtain ⟨d'', hi⟩ := hnext h hleft List.mem_cons_self
      obtain ⟨left', hleft'⟩ := exists_failing hi.validate_eq_ok examples
      obtain ⟨rest, last, hrest⟩ :=
        ih left'.length (hcount ▸ hi.length_lt hleft hleft') (h.step hi) left' hleft' rfl
      rw [List.append_assoc] at hrest
      exact ⟨i :: rest, last, hrest⟩

end EscapesInTurn

/-- **Escapes never get stuck.** From a well-formed diagram, for examples that agree with each
other, escapes in any order lead to diagrams at which each failing example can be mended, by an
escape that keeps all that is correct. Each escape counts against the examples that failed at the
start, so they come to an end, and they end where all examples are reproduced. -/
theorem escapes_until_all_reproduced (hd : d.validate a.registry = .ok d)
    (hregistered : ∀ registry, a.registry = some registry →
      ∀ x ∈ examples, ∀ f ∈ x.inputs ++ x.outputs, registry.has f.predicate)
    (htextual : ∀ x ∈ examples, x.Textual)
    (hconsistent : ∀ x ∈ examples, ∀ y ∈ examples,
      ListSet.subset x.inputs y.inputs → ListSet.subset x.outputs y.outputs)
    (hceiling : ∀ places d' i, a.EscapesInTurn examples d places d' → a.ChecksEnd examples d' i) :
    ∃ failed, a.failing d examples = .ok failed ∧
      ∀ places d', a.EscapesInTurn examples d places d' →
        ∃ left, a.failing d' examples = .ok left ∧
          places.length + left.length ≤ failed.length ∧
          (left = [] ↔ ∀ x ∈ examples, d'.Reproduces a.limit x) ∧
          (∀ i ∈ left, ∃ d'', a.Escapes examples d' i d'') ∧
          (∀ i d'', a.Escapes examples d' i d'' →
            d''.validate a.registry = .ok d'' ∧
            (∀ x ∈ examples, d'.Reproduces a.limit x → d''.Reproduces a.limit x) ∧
            ∃ x, examples[i]? = some x ∧ ¬ d'.Reproduces a.limit x ∧ d''.Reproduces a.limit x) ∧
          ∃ rest last, a.EscapesInTurn examples d (places ++ rest) last ∧
            (places ++ rest).length ≤ failed.length ∧
            ∀ x ∈ examples, last.Reproduces a.limit x := by
  obtain ⟨failed, hfailed⟩ := exists_failing hd examples
  have hnext {places left : List Nat} {d' : Diagram} {i : Nat}
      (hplaces : a.EscapesInTurn examples d places d') (hleft : a.failing d' examples = .ok left)
      (hi : i ∈ left) : ∃ d'', a.Escapes examples d' i d'' :=
    exists_escapes (hplaces.validate_eq_ok hd) hregistered htextual hconsistent hleft hi
      (hceiling places d' i hplaces)
  refine ⟨failed, hfailed, fun places d' hplaces => ?_⟩
  obtain ⟨left, hleft⟩ := exists_failing (hplaces.validate_eq_ok hd) examples
  refine ⟨left, hleft, hplaces.length_add_length_le hd hfailed hleft, failing_eq_nil_iff hleft,
    fun i hi => hnext hplaces hleft hi, fun i d'' hi => ⟨hi.validate_eq_ok, hi.reproduces⟩,
    hplaces.exists_completion hd hfailed hnext⟩

end Analyzer

namespace CopyRule

open Analyzer

/-- Examples of copying no number, one number and another one. -/
def threeExamples : List Example := [.ofLists [] [], exampleOf 1, exampleOf 2]

/-- A diagram that emits zero wherever some number is given. -/
def zeroOnly : Diagram :=
  ⟨[.branch ⟨some source, [.free 0]⟩ (some 1) none, .leaf ⟨some target, [.constant (.int 0)]⟩], 0⟩

/-- All examples can be run on the diagram that an attempt at one of them brings. -/
def runsGrafted (d : Diagram) (evaluations : List (Option Evaluation)) (i : Nat) : Bool :=
  threeExamples[i]?.all fun mended => evaluations[i]?.all fun current =>
    (graftFor d.size d.root (current.any fun e => ListSet.subset e.outputs mended.outputs) mended
      (keptExamples threeExamples evaluations i)).toOption.all fun graft =>
    (graft.apply analyzer.registry d []).toOption.all fun grafted =>
    threeExamples.all fun x => (grafted.evaluate x.inputs analyzer.limit).toOption.isSome

/-- Escapes from a diagram end within the given number of steps, whatever examples are chosen, and
all runs that check them end. -/
def runsOut : Nat → Diagram → Bool
  | 0, d => (analyzer.failing d threeExamples).toOption.all List.isEmpty
  | bound + 1, d => (analyzer.evaluations d threeExamples).toOption.all fun evaluations =>
    (failingPlaces (correct evaluations threeExamples)).all fun i =>
      runsGrafted d evaluations i &&
      (analyzer.escapeGraft d threeExamples evaluations i).toOption.all fun result =>
      result.all fun graft =>
      (graft.apply analyzer.registry d (evaluations.filterMap id)).toOption.all (runsOut bound)

/-- What is known at a diagram of which an example fails. -/
theorem runsOut_of_fails {bound : Nat} (h : runsOut bound d)
    (hevaluations : analyzer.evaluations d threeExamples = .ok evaluations)
    (hi : i ∈ failingPlaces (correct evaluations threeExamples)) :
    runsGrafted d evaluations i ∧ ∀ graft d',
      analyzer.escapeGraft d threeExamples evaluations i = .ok (some graft) →
      graft.apply analyzer.registry d (evaluations.filterMap id) = .ok d' →
      ∃ bound', runsOut bound' d' := by
  cases bound with
  | zero =>
    have hempty : (analyzer.failing d threeExamples).toOption.all List.isEmpty := h
    rw [failing_eq_ok_iff.2 ⟨evaluations, hevaluations, rfl⟩] at hempty
    rw [List.isEmpty_iff.1 hempty] at hi
    cases hi
  | succ bound =>
    rw [runsOut, hevaluations] at h
    obtain ⟨hruns, hescape⟩ := (Bool.and_eq_true _ _).mp (List.all_eq_true.1 h i hi)
    refine ⟨hruns, fun graft d' hgraft happly => ⟨bound, ?_⟩⟩
    rw [hgraft] at hescape
    have hgrafted : (graft.apply analyzer.registry d (evaluations.filterMap id)).toOption.all
        (runsOut bound) := hescape
    rwa [happly] at hgrafted

theorem checksEnd_of_runsOut {bound : Nat} (h : runsOut bound d) :
    analyzer.ChecksEnd threeExamples d i := by
  intro evaluations graft grafted hevaluations hi htries x hx limit hlimit
  obtain ⟨hruns, -⟩ := runsOut_of_fails h hevaluations hi
  -- The graft and the grafted diagram are those that have been run.
  obtain ⟨mended, current, hmended, hcurrent, hgraft, happly⟩ := htries
  simp only [runsGrafted, hmended, hcurrent, Option.all_some, hgraft, Except.toOption,
    happly] at hruns
  have hmem : x ∈ threeExamples := by
    obtain hx | ⟨j, -, hj, -⟩ := hx
    · exact List.mem_of_getElem? hx
    · exact List.mem_of_getElem? hj
  have hrun := List.all_eq_true.1 hruns x hmem
  rw [hlimit] at hrun
  cases hrun

/-- Whatever examples are chosen, three escapes from the diagram are too many. -/
theorem exists_runsOut (h : analyzer.EscapesInTurn threeExamples zeroOnly places d) :
    ∃ bound, runsOut bound d := by
  induction h with
  | start => exact ⟨2, by decide +kernel⟩
  | step _ hi ih =>
    obtain ⟨bound, hbound⟩ := ih
    obtain ⟨evaluations, graft, hevaluations, hi, hgraft, happly⟩ := hi
    exact (runsOut_of_fails hbound hevaluations hi).2 graft _ hgraft happly

/-- The diagram that emits zero can be mended until it copies all numbers of the examples. -/
theorem escapes_zeroOnly : zeroOnly.validate analyzer.registry = .ok zeroOnly ∧
    analyzer.failing zeroOnly threeExamples = .ok [1, 2] ∧
    ∃ places last, analyzer.EscapesInTurn threeExamples zeroOnly places last ∧ places.length ≤ 2 ∧
      ∀ x ∈ threeExamples, last.Reproduces analyzer.limit x := by
  have hvalid : zeroOnly.validate analyzer.registry = .ok zeroOnly := rfl
  have htextual : ∀ x ∈ threeExamples, x.Textual := by
    have hone {n : Int} (h : ∃ text, Value.written (.int n) = .ok text) :
        (exampleOf n).Textual :=
      ⟨List.forall_mem_singleton.2 (List.forall_mem_singleton.2 h),
        List.forall_mem_singleton.2 (List.forall_mem_singleton.2 h)⟩
    exact List.forall_mem_cons.2 ⟨⟨List.forall_mem_nil _, List.forall_mem_nil _⟩,
      List.forall_mem_cons.2 ⟨hone ⟨_, rfl⟩, List.forall_mem_singleton.2 (hone ⟨_, rfl⟩)⟩⟩
  have hconsistent : ∀ x ∈ threeExamples, ∀ y ∈ threeExamples,
      ListSet.subset x.inputs y.inputs → ListSet.subset x.outputs y.outputs := by decide
  obtain ⟨failed, hfailed, hescapes⟩ := escapes_until_all_reproduced hvalid
    (by rintro _ ⟨⟩; decide) htextual hconsistent fun places d i hplaces =>
      have ⟨bound, hbound⟩ := exists_runsOut hplaces
      checksEnd_of_runsOut hbound
  have hfailing : (analyzer.failing zeroOnly threeExamples).toOption = some [1, 2] := by
    decide +kernel
  rw [hfailed] at hfailing
  obtain rfl := Option.some_inj.1 hfailing
  obtain ⟨-, -, -, -, -, -, places, last, hplaces, hlength, hall⟩ := hescapes [] zeroOnly .start
  exact ⟨hvalid, hfailed, places, last, hplaces, hlength, hall⟩

end CopyRule

end RuleDiagram
