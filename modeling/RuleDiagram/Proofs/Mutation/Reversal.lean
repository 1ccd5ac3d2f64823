import RuleDiagram.Proofs.Mutation.Checks
import RuleDiagram.Proofs.Mutation.Exchange

/-!
# Taking back mutations that exchange a term

Turning a constant into a reference and turning the reference into the constant take each other
back, and a reference that was moved to another register can be moved back. That the edits undo each
other is plain; that the second one is accepted is not, since it is judged by evaluations of the
edited diagram. These hold the same snapshots as those the first one was judged by, and what the two
mutations ask of the snapshots, and of the terms further left, is the same.

## Main definitions

* `Mutation.TermSite.after`: the site of a term once another term has been put there

## Main results

* `Mutation.TermSite.put_after`: the first term put back gives the first diagram
* `Mutation.exists_evaluationsOn_agrees`: evaluations before and after the edit agree
* `Mutation.applyOn_taken_back`: these mutations are taken back
-/

namespace RuleDiagram

open ListSet

variable {d d' : Diagram} {registry : Option Registry} {limit : RoundLimit}
  {inputs : List (List Fact)} {evaluations evaluations' : List Evaluation} {m m' : Mutation}
  {facts : List Fact} {e : Evaluation} {n : Option Int} {i r : Int} {v : Value} {a b : Term}

theorem Pattern.withTerm_withTerm {p : Pattern} {place : ℕ} :
    (p.withTerm place b).withTerm place a = p.withTerm place a := by
  simp [withTerm]

theorem Pattern.withTerm_self {p : Pattern} {place : ℕ} (h : p.terms[place]? = some a) :
    p.withTerm place a = p := by
  obtain ⟨hlt, rfl⟩ := List.getElem?_eq_some_iff.1 h
  simp [withTerm]

theorem Node.withPattern_withPattern {n : Node} {p q : Pattern} :
    (n.withPattern p).withPattern q = n.withPattern q := by
  cases n <;> rfl

theorem Node.withPattern_self {n : Node} : n.withPattern n.pattern = n := by
  cases n <;> rfl

namespace Mutation

/-! ## Sites after an edit -/

namespace TermSite

variable {x : TermSite}

/-- The site once a term has been put there. -/
def after (x : TermSite) (t : Term) : TermSite := ⟨x.place, x.changed t, x.position, t⟩

theorem In.after (hx : x.In d) (t : Term) : (x.after t).In (x.put d t) := by
  obtain ⟨hplace, -⟩ := List.getElem?_eq_some_iff.1 hx.node
  obtain ⟨hposition, -⟩ := List.getElem?_eq_some_iff.1 hx.term
  constructor
  · exact List.getElem?_set_self hplace
  · rw [TermSite.after, pattern_changed]
    exact List.getElem?_set_self hposition

/-- The first term put back gives the first diagram. -/
theorem put_after (hx : x.In d) (t : Term) : (x.after t).put (x.put d t) x.term = d := by
  have hnode : (x.after t).changed x.term = x.node := by
    rw [changed, TermSite.after, pattern_changed, Pattern.withTerm_withTerm,
      Pattern.withTerm_self hx.term, changed, Node.withPattern_withPattern, Node.withPattern_self]
  rw [put, hnode]
  obtain ⟨hplace, hget⟩ := List.getElem?_eq_some_iff.1 hx.node
  simp [TermSite.after, put, Diagram.setNode, ← hget]

/-- The terms further left stay. -/
theorem rebinds_after (t : Term) : (x.after t).rebinds r = x.rebinds r := by
  rw [Bool.eq_iff_iff, ← Bool.not_eq_false, ← Bool.not_eq_false, rebinds_eq_false_iff,
    rebinds_eq_false_iff, TermSite.after, pattern_changed, Pattern.withTerm,
    List.take_set_of_le le_rfl]

end TermSite

/-! ## Evaluations after an edit -/

theorem evaluationsOn_eq_ok_iff : evaluationsOn d inputs limit = .ok evaluations ↔
    List.Forall₂ (fun facts e => d.evaluate facts limit = .ok e) inputs evaluations := by
  rw [evaluationsOn, List.mapM_eq_ok_iff]
  refine iff_of_eq (congrArg (List.Forall₂ · inputs evaluations) ?_)
  funext facts e
  split
  · next h => rw [h, Except.ok.injEq, Except.ok.injEq]
  · next h => simp [h, reject_ne_ok]
  · next h => simp [h]

/-- Neutral mutations are judged by evaluations. -/
theorem applyOn_eq_ok_iff (hm : m.effect = .neutral) : m.applyOn registry limit d inputs = .ok d' ↔
    ∃ evaluations, evaluationsOn d inputs limit = .ok evaluations ∧
      m.apply registry d evaluations = .ok d' := by
  rw [applyOn, if_pos hm, Except.bind_eq_ok_iff]

/-- With a term exchanged as all snapshots that have come to the node allow, evaluations agree. -/
theorem exists_evaluate_agrees_put {x : TermSite} (hd : d.WellFormed)
    (hd' : (x.put d b).WellFormed) (hx : x.In d)
    (h : ∀ s ∈ e.snapshots x.place, x.node.pattern.Exchanges x.position x.term b s)
    (he : d.evaluate facts limit = .ok e) :
    ∃ e', (x.put d b).evaluate facts limit = .ok e' ∧ e.Agrees e' := by
  have halike : d.AlikeOn (x.put d b) facts (d.arrivals facts) := by
    refine alikeOn_put hd hx fun s hs => ?_
    rw [← (Diagram.settled_of_evaluate_eq_ok he).sets_incoming] at hs
    obtain ⟨s', hs', hsame⟩ := mem_toSet.1 hs
    exact (h s' hs').congr hsame
  exact halike.exists_evaluate_agrees (hd'.unhindered facts) he

/-- **What has come to the nodes stays**: after a mutation that exchanges a term there are
evaluations, and each agrees with one from before. -/
theorem exists_evaluationsOn_agrees (hd : d.validate registry = .ok d)
    (hm : m.kind ∈ [.bindConstant, .unbindConstant, .retargetRegister])
    (happly : m.apply registry d evaluations = .ok d')
    (hevaluations : evaluationsOn d inputs limit = .ok evaluations) :
    ∃ evaluations', evaluationsOn d' inputs limit = .ok evaluations' ∧
      evaluations'.length = evaluations.length ∧
      ∀ e' ∈ evaluations', ∃ e ∈ evaluations, e.Agrees e' := by
  have hwell := Diagram.wellFormed_of_fault?_eq_none (Diagram.validate_eq_ok_iff.1 hd).1
  obtain ⟨-, hedit, hfault⟩ := apply_eq_ok_iff.1 happly
  obtain ⟨x, b, hx, rfl, hexchanges⟩ := exists_exchange_of_edit hm hedit
  have hwell' := Diagram.wellFormed_of_fault?_eq_none hfault
  have hruns := evaluationsOn_eq_ok_iff.1 hevaluations
  -- On each of the inputs there is an evaluation, and so there are evaluations on all of them.
  have hone (facts : List Fact) (hfacts : facts ∈ inputs) :
      ∃ e', (x.put d b).evaluate facts limit = .ok e' ∧ ∃ e ∈ evaluations, e.Agrees e' := by
    obtain ⟨e, he, heval⟩ := List.exists_right_of_forall₂ hruns hfacts
    obtain ⟨e', heval', hagrees⟩ :=
      exists_evaluate_agrees_put hwell hwell' hx (hexchanges e he) heval
    exact ⟨e', heval', e, he, hagrees⟩
  obtain ⟨evaluations', hall⟩ := List.exists_forall₂ hone
  refine ⟨evaluations', evaluationsOn_eq_ok_iff.2 (hall.imp fun _ _ h => h.1), ?_, ?_⟩
  · rw [← hall.length_eq, hruns.length_eq]
  · intro e' he'
    obtain ⟨facts, -, -, hagrees⟩ := List.exists_left_of_forall₂ hall he'
    exact hagrees

/-- What holds of all snapshots that have come to a node still holds after such a mutation. -/
theorem forall_reaching_of_agrees {P : Snapshot → Prop} {index : Int}
    (hP : ∀ s t, Same s t → P s → P t)
    (hagrees : ∀ e' ∈ evaluations', ∃ e ∈ evaluations, e.Agrees e')
    (h : ∀ s ∈ reaching evaluations index, P s) : ∀ s ∈ reaching evaluations' index, P s := by
  intro t ht
  obtain ⟨e', he', ht⟩ := mem_reaching.1 ht
  obtain ⟨e, he, hagrees⟩ := hagrees e' he'
  have hsets := equal_iff.1 (hagrees.incoming.get index)
  obtain ⟨s, hs, hsame⟩ := mem_toSet.1 (hsets ▸ mem_toSet_of_mem ht)
  exact hP s t hsame (h s (mem_reaching.2 ⟨e, he, hs⟩))

theorem HoldsAt.of_agrees {index : Int} (h : HoldsAt evaluations index r v)
    (hagrees : ∀ e' ∈ evaluations', ∃ e ∈ evaluations, e.Agrees e') :
    HoldsAt evaluations' index r v := by
  refine forall_reaching_of_agrees (fun s t hst hs => ?_) hagrees h
  rw [← Snapshot.holds_congr hst (Same.refl v)]
  exact hs

theorem HoldAlike.of_agrees {index r' : Int} (h : HoldAlike evaluations index r r')
    (hagrees : ∀ e' ∈ evaluations', ∃ e ∈ evaluations, e.Agrees e') :
    HoldAlike evaluations' index r r' := by
  refine forall_reaching_of_agrees (fun s t hst hs => ?_) hagrees h
  have hget := Snapshot.same_iff_get?.1 hst
  exact ⟨(Snapshot.binds_congr hst).1 hs.1, (hget r).symm.trans (hs.2.trans (hget r'))⟩

/-! ## The way back -/

section Back

variable (hagrees : ∀ e' ∈ evaluations', ∃ e ∈ evaluations, e.Agrees e') {x : TermSite}
  (hx : TermSite.find d n i = .ok x)
include hagrees hx

theorem edit_bindConstant_back (hr : x.term = .reference r)
    (h : (unbindConstant n i v).edit d evaluations = .ok d') :
    (bindConstant n i r).edit d' evaluations' = .ok d := by
  obtain ⟨y, r', hy, hr', hrebinds, hholds, rfl⟩ := edit_unbindConstant_eq_ok_iff.1 h
  obtain rfl : x = y := Except.ok.inj (hx.symm.trans hy)
  obtain rfl : r = r' := Term.reference.inj (hr.symm.trans hr')
  obtain ⟨hn, hi, hin⟩ := TermSite.find_eq_ok_iff.1 hx
  refine edit_bindConstant_eq_ok_iff.2 ⟨x.after (.constant v), v,
    TermSite.find_eq_ok_iff.2 ⟨hn, hi, hin.after _⟩, rfl, ?_, hholds.of_agrees hagrees, ?_⟩
  · rw [TermSite.rebinds_after, hrebinds]
  · rw [← hr, TermSite.put_after hin]

theorem edit_unbindConstant_back (hv : x.term = .constant v)
    (h : (bindConstant n i r).edit d evaluations = .ok d') :
    (unbindConstant n i v).edit d' evaluations' = .ok d := by
  obtain ⟨y, v', hy, hv', hrebinds, hholds, rfl⟩ := edit_bindConstant_eq_ok_iff.1 h
  obtain rfl : x = y := Except.ok.inj (hx.symm.trans hy)
  obtain rfl : v = v' := Term.constant.inj (hv.symm.trans hv')
  obtain ⟨hn, hi, hin⟩ := TermSite.find_eq_ok_iff.1 hx
  refine edit_unbindConstant_eq_ok_iff.2 ⟨x.after (.reference r), r,
    TermSite.find_eq_ok_iff.2 ⟨hn, hi, hin.after _⟩, rfl, ?_, hholds.of_agrees hagrees, ?_⟩
  · rw [TermSite.rebinds_after, hrebinds]
  · rw [← hv, TermSite.put_after hin]

theorem edit_retargetRegister_back {old : Int} (hold : x.term = .reference old)
    (h : (retargetRegister n i r).edit d evaluations = .ok d') :
    (retargetRegister n i old).edit d' evaluations' = .ok d := by
  obtain ⟨y, old', hy, hold', hne, hrebinds, hr, halike, rfl⟩ :=
    edit_retargetRegister_eq_ok_iff.1 h
  obtain rfl : x = y := Except.ok.inj (hx.symm.trans hy)
  obtain rfl : old = old' := Term.reference.inj (hold.symm.trans hold')
  obtain ⟨hn, hi, hin⟩ := TermSite.find_eq_ok_iff.1 hx
  refine edit_retargetRegister_eq_ok_iff.2 ⟨x.after (.reference r), r,
    TermSite.find_eq_ok_iff.2 ⟨hn, hi, hin.after _⟩, rfl, hne.symm, ?_, ?_,
    halike.symm.of_agrees hagrees, ?_⟩
  · rw [TermSite.rebinds_after, hr]
  · rw [TermSite.rebinds_after, hrebinds]
  · rw [← hold, TermSite.put_after hin]

end Back

/-- A mutation that exchanges a term is taken back by another whose edit undoes its edit. -/
theorem applyOn_of_edit_back (hd : d.validate registry = .ok d)
    (hm : m.kind ∈ [.bindConstant, .unbindConstant, .retargetRegister])
    (hm' : m'.effect = .neutral) (h : m.applyOn registry limit d inputs = .ok d')
    (hback : ∀ evaluations evaluations' : List Evaluation,
      (∀ e' ∈ evaluations', ∃ e ∈ evaluations, e.Agrees e') →
        m.edit d evaluations = .ok d' → m'.edit d' evaluations' = .ok d) :
    m'.applyOn registry limit d' inputs = .ok d := by
  have heffect : m.effect = .neutral := by
    simp only [List.mem_cons, List.not_mem_nil, or_false] at hm
    rcases hm with hm | hm | hm <;> rw [effect, hm] <;> rfl
  obtain ⟨evaluations, hevaluations, happly⟩ := (applyOn_eq_ok_iff heffect).1 h
  obtain ⟨evaluations', hevaluations', hlength, hagrees⟩ :=
    exists_evaluationsOn_agrees hd hm happly hevaluations
  obtain ⟨hfacts, hedit, -⟩ := apply_eq_ok_iff.1 happly
  refine (applyOn_eq_ok_iff hm').2 ⟨evaluations', hevaluations', apply_eq_ok_iff.2
    ⟨fun _ => ?_, hback _ _ hagrees hedit, (Diagram.validate_eq_ok_iff.1 hd).1⟩⟩
  rw [← List.length_pos_iff, hlength, List.length_pos_iff]
  exact hfacts heffect

/-- **Mutations that exchange a term are taken back.** Where a reference was turned into a constant
it can be turned into the reference again, where a constant was turned into a reference it can be
turned into the constant again, and a reference that was moved to another register can be moved
back; judged by runs on the same facts under the same limit, each time the first diagram comes out.
-/
theorem applyOn_taken_back {x : TermSite} (hd : d.validate registry = .ok d)
    (hx : TermSite.find d n i = .ok x) :
    (∀ r v, x.term = .reference r →
      (unbindConstant n i v).applyOn registry limit d inputs = .ok d' →
        (bindConstant n i r).applyOn registry limit d' inputs = .ok d) ∧
    (∀ r v, x.term = .constant v →
      (bindConstant n i r).applyOn registry limit d inputs = .ok d' →
        (unbindConstant n i v).applyOn registry limit d' inputs = .ok d) ∧
    ∀ r old, x.term = .reference old →
      (retargetRegister n i r).applyOn registry limit d inputs = .ok d' →
        (retargetRegister n i old).applyOn registry limit d' inputs = .ok d := by
  refine ⟨fun r v hr h => ?_, fun r v hv h => ?_, fun r old hold h => ?_⟩
  · exact applyOn_of_edit_back hd (by simp [kind]) rfl h fun _ _ hagrees hedit =>
      edit_bindConstant_back hagrees hx hr hedit
  · exact applyOn_of_edit_back hd (by simp [kind]) rfl h fun _ _ hagrees hedit =>
      edit_unbindConstant_back hagrees hx hv hedit
  · exact applyOn_of_edit_back hd (by simp [kind]) rfl h fun _ _ hagrees hedit =>
      edit_retargetRegister_back hagrees hx hold hedit

end Mutation

/-! ## A leaf that names what it may read -/

namespace Reachability

/-- An edge from the start to itself. -/
def loop : List Fact := [origin, edgeTo "a" "a"]

/-- The leaf that names the start instead of reading it. -/
def named : Diagram := diagram.setNode 3 (.leaf ⟨some reach, [.constant (.text "a"), .reference 1]⟩)

/-- The leaf that reads the start from the other register. -/
def moved : Diagram := diagram.setNode 3 (.leaf ⟨some reach, [.reference 1, .reference 1]⟩)

/-- On the loop the leaf may name the start, or read it from the other register, and back. -/
theorem taken_back_loop :
    (Mutation.unbindConstant (some 3) 0 (.text "a")).applyOn none .standard diagram [loop] =
        .ok named ∧
      (Mutation.bindConstant (some 3) 0 0).applyOn none .standard named [loop] = .ok diagram ∧
      (Mutation.retargetRegister (some 3) 0 1).applyOn none .standard diagram [loop] = .ok moved ∧
      (Mutation.retargetRegister (some 3) 0 0).applyOn none .standard moved [loop] =
        .ok diagram := by
  have hnamed : ((Mutation.unbindConstant (some 3) 0 (.text "a")).applyOn none .standard diagram
      [loop]).toOption.any fun d => decide (d = named) := by
    decide
  have hmoved : ((Mutation.retargetRegister (some 3) 0 1).applyOn none .standard diagram
      [loop]).toOption.any fun d => decide (d = moved) := by
    decide
  obtain ⟨d, hd, hnamed⟩ := Except.exists_of_any_toOption hnamed
  obtain rfl : d = named := of_decide_eq_true hnamed
  obtain ⟨d, hd', hmoved⟩ := Except.exists_of_any_toOption hmoved
  obtain rfl : d = moved := of_decide_eq_true hmoved
  have hvalid : diagram.validate none = .ok diagram := rfl
  have hvalid' : named.validate none = .ok named := rfl
  obtain ⟨hunbind, -, -⟩ := Mutation.applyOn_taken_back hvalid (n := some 3) (i := 0) rfl
  obtain ⟨-, hbind, -⟩ := Mutation.applyOn_taken_back hvalid' (n := some 3) (i := 0) rfl
  obtain ⟨-, -, hretarget⟩ := Mutation.applyOn_taken_back hvalid (n := some 3) (i := 0) rfl
  have hbound := hunbind 0 (.text "a") rfl hd
  exact ⟨hbind 0 (.text "a") rfl hbound, hbound, hd', hretarget 1 0 rfl hd'⟩

end Reachability

end RuleDiagram
