import RuleDiagram.Proofs.Mutation.Site
import RuleDiagram.Proofs.Reachability
import RuleDiagram.Proofs.Run.Exchange
import RuleDiagram.Proofs.Run.Safety

/-!
# Mutations that exchange a term for the same value

Turning a constant into a reference, a reference into a constant, and moving a reference to another
register exchange a term for one that stands for the same value under all snapshots that came to the
node. Only these snapshots come to it in the changed diagram too: the runs proceed alike, and
nothing that an evaluation holds can change.

## Main results

* `Mutation.exists_exchange_of_edit`: these mutations exchange a term at its place
* `Mutation.alikeOn_put`: with such a term exchanged a diagram does the same
* `Mutation.exists_evaluate_agrees_of_apply`: evaluations of the changed diagram agree
-/

namespace RuleDiagram

open ListSet

variable {d d' : Diagram} {registry : Option Registry} {evaluations : List Evaluation}
  {m : Mutation} {facts : List Fact} {limit : RoundLimit} {e : Evaluation} {s t : Snapshot}
  {a b : Term}

theorem Node.AlikeOn.refl (n : Node) (facts : List Fact) (s : Snapshot) : n.AlikeOn n facts s :=
  ⟨rfl, rfl, fun _ => rfl, rfl⟩

theorem Pattern.Exchanges.congr {p : Pattern} {place : ℕ} (h : p.Exchanges place a b s)
    (hst : Same s t) : p.Exchanges place a b t :=
  ⟨h.term, h.old, h.new, h.unwritten, (Term.same_value?_of_same hst).symm.trans
    (h.same.trans (Term.same_value?_of_same hst))⟩

namespace Mutation

theorem mem_reaching {i : Int} :
    s ∈ reaching evaluations i ↔ ∃ e ∈ evaluations, s ∈ e.snapshots i := by
  simp [reaching]

theorem TermSite.rebinds_eq_false_iff {x : TermSite} {r : Int} : x.rebinds r = false ↔
    ∀ c ∈ x.node.pattern.terms.take x.position, c.written? ≠ some r :=
  Pattern.writtenBefore_eq_false_iff

/-- **What the mutations that exchange a term have checked**: under every snapshot that has come to
the node, the new term may be put in the old one's place. -/
theorem exists_exchange_of_edit
    (hm : m.kind ∈ [.bindConstant, .unbindConstant, .retargetRegister])
    (h : m.edit d evaluations = .ok d') :
    ∃ (x : TermSite) (b : Term), x.In d ∧ d' = x.put d b ∧ ∀ e ∈ evaluations,
      ∀ s ∈ e.snapshots x.place, x.node.pattern.Exchanges x.position x.term b s := by
  cases m with
  | bindConstant n i r =>
    simp only [edit, Except.bind_eq_ok_iff, rejectIf_eq_ok_iff, TermSite.find_eq_ok_iff,
      TermSite.constant_eq_ok_iff, Except.pure_eq_ok_iff, List.any_eq_false, mem_reaching] at h
    obtain ⟨x, ⟨-, -, hx⟩, v, hv, -, hr, -, hholds, rfl⟩ := h
    refine ⟨x, .reference r, hx, rfl, fun e he s hs => ⟨hx.term, hv ▸ rfl, rfl, ?_, ?_⟩⟩
    -- Only the new term reads a register, and no term before it writes that one.
    · rintro r' (hr' | ⟨⟨⟩⟩)
      · rw [hv] at hr'
        cases hr'
      · exact TermSite.rebinds_eq_false_iff.1 hr
    · have hs' : s.holds r v := by simpa using hholds s ⟨e, he, hs⟩
      rw [hv]
      exact (Snapshot.holds_iff.1 hs').symm
  | unbindConstant n i v =>
    simp only [edit, Except.bind_eq_ok_iff, rejectIf_eq_ok_iff, TermSite.find_eq_ok_iff,
      TermSite.reference_eq_ok_iff, Except.pure_eq_ok_iff, List.any_eq_false, mem_reaching] at h
    obtain ⟨x, ⟨-, -, hx⟩, r, hv, -, hr, -, hholds, rfl⟩ := h
    refine ⟨x, .constant v, hx, rfl, fun e he s hs => ⟨hx.term, hv ▸ rfl, rfl, ?_, ?_⟩⟩
    -- Only the old term reads a register.
    · rintro r' (hr' | ⟨⟨⟩⟩)
      rw [hv] at hr'
      obtain rfl : r = r' := Option.some_inj.1 hr'
      exact TermSite.rebinds_eq_false_iff.1 hr
    · have hs' : s.holds r v := by simpa using hholds s ⟨e, he, hs⟩
      rw [hv]
      exact Snapshot.holds_iff.1 hs'
  | retargetRegister n i r =>
    simp only [edit, Except.bind_eq_ok_iff, rejectIf_eq_ok_iff, TermSite.find_eq_ok_iff,
      TermSite.reference_eq_ok_iff, Except.pure_eq_ok_iff, List.any_eq_false, mem_reaching,
      Bool.or_eq_false_iff] at h
    obtain ⟨x, ⟨-, -, hx⟩, old, hv, -, -, -, ⟨hold, hr⟩, -, hholds, rfl⟩ := h
    refine ⟨x, .reference r, hx, rfl, fun e he s hs => ⟨hx.term, hv ▸ rfl, rfl, ?_, ?_⟩⟩
    · rintro r' (hr' | ⟨⟨⟩⟩)
      · rw [hv] at hr'
        obtain rfl : old = r' := Option.some_inj.1 hr'
        exact TermSite.rebinds_eq_false_iff.1 hold
      · exact TermSite.rebinds_eq_false_iff.1 hr
    -- A snapshot that does not bind the old register has not passed the check.
    · have hs' := hholds s ⟨e, he, hs⟩
      rw [hv]
      cases hget : s.get? old with
      | none => simp [hget] at hs'
      | some v =>
        have hrv : s.holds r v := by simpa [hget] using hs'
        simpa [Term.value?, hget] using (Snapshot.holds_iff.1 hrv).symm
  | _ => simp [kind] at hm

/-- A diagram does the same with a term exchanged where the arriving snapshots allow it. -/
theorem alikeOn_put {x : TermSite} (hd : d.WellFormed) (hx : x.In d)
    (h : ∀ s ∈ d.arrivals facts x.place, x.node.pattern.Exchanges x.position x.term b s) :
    d.AlikeOn (x.put d b) facts (d.arrivals facts) where
  root := rfl
  node i s hs := by
    have hrange := hd.inRange_of_mem_arrivals hs
    obtain ⟨n, hn⟩ := Diagram.exists_node?_of_inRange hrange
    by_cases hi : i = x.place
    · -- The changed node does the same for all that arrives at it.
      subst hi
      obtain ⟨hlt, -⟩ := List.getElem?_eq_some_iff.1 hx.node
      obtain rfl : n = x.node :=
        Option.some_inj.1 (hn.symm.trans (Diagram.node?_natCast x.place |>.trans hx.node))
      exact ⟨_, _, hn, Diagram.node?_setNode_self hlt, Node.alikeOn_withTerm (h s hs)⟩
    · have hsame := Diagram.node?_setNode_of_ne (d := d) (n := x.changed b)
        (inRange_iff.1 hrange).1 hi
      exact ⟨n, n, hn, hsame.trans hn, .refl n facts s⟩

/-- **Mutations that exchange a term keep all that evaluations hold.** -/
theorem exists_evaluate_agrees_of_apply (hd : d.validate registry = .ok d)
    (hm : m.kind ∈ [.bindConstant, .unbindConstant, .retargetRegister])
    (happly : m.apply registry d evaluations = .ok d') (he : e ∈ evaluations)
    (heval : d.evaluate facts limit = .ok e) :
    ∃ e', d'.evaluate facts limit = .ok e' ∧ e.Agrees e' := by
  have hwell := Diagram.wellFormed_of_fault?_eq_none (Diagram.validate_eq_ok_iff.1 hd).1
  obtain ⟨-, hedit, hfault⟩ := apply_eq_ok_iff.1 happly
  obtain ⟨x, b, hx, rfl, hexchanges⟩ := exists_exchange_of_edit hm hedit
  have hsettled := Diagram.settled_of_evaluate_eq_ok heval
  have halike : d.AlikeOn (x.put d b) facts (d.arrivals facts) := by
    refine alikeOn_put hwell hx fun s hs => ?_
    -- What arrives at the node is what the evaluation has found there.
    rw [← hsettled.sets_incoming] at hs
    obtain ⟨s', hs', hsame⟩ := mem_toSet.1 hs
    exact (hexchanges e he s' hs').congr hsame
  have hwell' := Diagram.wellFormed_of_fault?_eq_none hfault
  exact halike.exists_evaluate_agrees (hwell'.unhindered facts) heval

end Mutation

/-- In the circle the leaf may name the start instead of reading it. -/
theorem Reachability.agrees_circle : ∃ e e' d', diagram.evaluate circle .standard = .ok e ∧
    (Mutation.unbindConstant (some 3) 0 (.text "a")).apply none diagram [e] = .ok d' ∧
    d'.node? 3 = some (.leaf ⟨some reach, [.constant (.text "a"), .reference 1]⟩) ∧
    d'.evaluate circle .standard = .ok e' ∧ e.Agrees e' := by
  have hvalid : diagram.validate none = .ok diagram := rfl
  have happly : (diagram.evaluate circle .standard).toOption.any fun e =>
      ((Mutation.unbindConstant (some 3) 0 (.text "a")).apply none diagram [e]).toOption.any
        fun d' => decide (d'.node? 3 =
          some (.leaf ⟨some reach, [.constant (.text "a"), .reference 1]⟩)) := by
    decide
  obtain ⟨e, he, happly⟩ := Except.exists_of_any_toOption happly
  obtain ⟨d', hd', hnode⟩ := Except.exists_of_any_toOption happly
  obtain ⟨e', he', hagrees⟩ :=
    Mutation.exists_evaluate_agrees_of_apply hvalid (by decide) hd' List.mem_cons_self he
  exact ⟨e, e', d', he, hd', of_decide_eq_true hnode, he', hagrees⟩

end RuleDiagram
