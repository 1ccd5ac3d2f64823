import RuleDiagram.Fact
import RuleDiagram.Proofs.Run.Produced

/-!
# Patterns that match one fact

The pattern of a fact holds its values as constants. A branch with it sends a snapshot on as it is,
if the fact is given, and a leaf with it emits the fact. Where all values have a written form, facts
can be put in order, and the order leaves none out.

## Main definitions

* `Fact.Textual`: all values of a fact have a written form
* `Writes`: a step that fails if and only if one of some facts has none

## Main results

* `unify_constants`: constants meet values
* `Diagram.produced_test`, `Diagram.produced_emit`: what comes of the pattern of a fact
* `toSet_of_sortFacts`, `writes_sortFacts`: sorted facts
-/

namespace RuleDiagram

open ListSet

theorem same_cons_iff {α : Type} [Canonical α] {x y : α} {xs ys : List α} :
    Same (x :: xs) (y :: ys) ↔ Same x y ∧ Same xs ys := by
  rw [same_list_iff, List.forall₂_cons, same_list_iff]

/-- As many constants as values unify if they are the same, one by one, and bind nothing. -/
theorem unify_constants {vs ws : List Value} {s : Snapshot} (h : vs.length = ws.length) :
    unify (vs.map .constant) ws s = if Same vs ws then some s else none := by
  induction vs generalizing ws with
  | nil =>
    obtain rfl : ws = [] := List.eq_nil_of_length_eq_zero h.symm
    rfl
  | cons v vs ih =>
    cases ws with
    | nil => cases h
    | cons w ws =>
      rw [List.map_cons, unify, Term.unify]
      by_cases hv : Same v w
      · simp [hv, same_cons_iff, ih (Nat.succ.inj h)]
      · simp [hv, same_cons_iff]

theorem Fact.same_iff_values {f g : Fact} :
    Same f g ↔ f.predicate = g.predicate ∧ Same f.values g.values := by
  rw [Fact.same_iff, same_list_iff]

/-- The pattern of a fact sends on the snapshot itself, for a fact that is the same. -/
theorem Fact.delivers_asPattern_iff {f : Fact} {facts : List Fact} {s t : Snapshot} :
    f.asPattern.Delivers facts .onMatch s t ↔ f ∈ toSet facts ∧ t = s := by
  have hunify {g : Fact} (hpred : f.predicate = g.predicate) :
      unify f.asPattern.terms g.values s = some t ↔ Same f.values g.values ∧ t = s := by
    have hlen : f.values.length = g.values.length := by
      have := f.length_values
      have := g.length_values
      rw [hpred] at *
      omega
    rw [asPattern, unify_constants hlen, Option.ite_none_right_eq_some, Option.some_inj,
      eq_comm (a := s)]
  rw [mem_toSet]
  constructor
  · rintro (⟨hp, -⟩ | ⟨g, hg, hp, hu⟩)
    · cases hp
    · obtain ⟨hsame, rfl⟩ := (hunify (Option.some_inj.1 hp)).1 hu
      exact ⟨⟨g, hg, (Fact.same_iff_values.2 ⟨Option.some_inj.1 hp, hsame⟩).symm⟩, rfl⟩
  · rintro ⟨⟨g, hg, hsame⟩, rfl⟩
    obtain ⟨hpred, hvalues⟩ := Fact.same_iff_values.1 hsame.symm
    exact .inr ⟨g, hg, congrArg some hpred, (hunify hpred).2 ⟨hvalues, rfl⟩⟩

/-- The pattern of a fact gives the fact, whatever the snapshot. -/
theorem Fact.instantiate_asPattern_iff {f g : Fact} {s : Snapshot} :
    instantiate f.asPattern s = .ok g ↔ g = f := by
  have hvalues {vs ws : List Value} :
      List.Forall₂ (fun a v => a.instantiate s = .ok v) (vs.map Term.constant) ws ↔ ws = vs := by
    rw [List.forall₂_map_left_iff]
    simp only [Term.instantiate, Except.ok.injEq]
    rw [List.forall₂_eq_eq_eq, eq_comm]
  rw [instantiate_eq_ok_iff, asPattern, hvalues, Option.some_inj]
  constructor
  · rintro ⟨hpred, hvs⟩
    obtain ⟨p, vs, hlen⟩ := f
    obtain ⟨q, ws, hlen'⟩ := g
    obtain rfl : p = q := hpred
    obtain rfl : ws = vs := hvs
    rfl
  · rintro rfl
    exact ⟨rfl, rfl⟩

namespace Diagram

variable {d : Diagram} {facts : List Fact} {i : Int} {f : Fact} {s : Snapshot} {a : Option Int}

/-- A branch that tests a fact produces what its target does, if the fact is given. -/
theorem produced_test (hn : d.node? i = some (.branch f.asPattern a none)) :
    d.produced facts (some i) s = {g | f ∈ toSet facts ∧ g ∈ d.produced facts a s} := by
  rw [produced_of_node hn, Node.relays_branch]
  ext g
  simp only [produced_none, Set.mem_empty_iff_false, and_false, exists_false, Set.mem_union,
    Set.mem_ofPred_eq, or_false]
  constructor
  · rintro ⟨u, hu, hg⟩
    obtain ⟨w, hw, hwu⟩ := Node.mem_sends_branch.1 hu
    obtain ⟨hf, rfl⟩ := Fact.delivers_asPattern_iff.1 hw
    exact ⟨hf, produced_congr hwu ▸ hg⟩
  · rintro ⟨hf, hg⟩
    exact ⟨s, Node.mem_sends_branch.2 ⟨s, Fact.delivers_asPattern_iff.2 ⟨hf, rfl⟩, Same.refl s⟩, hg⟩

/-- A leaf that emits a fact produces it. -/
theorem produced_emit (hn : d.node? i = some (.leaf f.asPattern)) :
    d.produced facts (some i) s = toSet [f] := by
  rw [produced_of_node hn, Node.relays_leaf]
  ext g
  simp [Node.emits, Fact.instantiate_asPattern_iff]

end Diagram

/-! ## Sorted facts -/

theorem toSet_of_perm {xs ys : List Fact} (h : xs.Perm ys) : toSet xs = toSet ys := by
  ext f
  simp only [mem_toSet, h.mem_iff]

theorem perm_of_sortFacts {xs ys : List Fact} (h : sortFacts xs = .ok ys) : ys.Perm xs := by
  rw [sortFacts, Except.bind_eq_ok_iff] at h
  obtain ⟨keyed, hkeyed, h⟩ := h
  obtain rfl := Except.pure_eq_ok_iff.1 h
  have hsnd : keyed.map Prod.snd = xs := by
    have hforall := List.mapM_eq_ok_iff.1 hkeyed
    rw [← List.forall₂_eq_eq_eq, List.forall₂_map_left_iff]
    refine hforall.flip.imp fun x f hx => ?_
    rw [Except.bind_eq_ok_iff] at hx
    obtain ⟨text, -, hx⟩ := hx
    exact (Except.pure_eq_ok_iff.1 hx) ▸ rfl
  exact ((keyed.mergeSort_perm _).map Prod.snd).trans (hsnd ▸ .refl _)

theorem toSet_of_sortFacts {xs ys : List Fact} (h : sortFacts xs = .ok ys) :
    toSet ys = toSet xs :=
  toSet_of_perm (perm_of_sortFacts h)

/-- All values of a fact have a written form. -/
def Fact.Textual (f : Fact) : Prop := ∀ v ∈ f.values, ∃ text, v.written = .ok text

/-- **A step that writes facts**: it succeeds if and only if all of them have a written form, and
otherwise it fails with a value of one of them. -/
structure Writes {α : Type} (S : Set Fact) (y : Except Untextual α) : Prop where
  textual : ∀ a, y = .ok a → ∀ f ∈ S, f.Textual
  unwritten : ∀ u, y = .error u → ∃ f ∈ S, ∃ v ∈ f.values, v.written = .error u

namespace Writes

variable {α β : Type} {S T : Set Fact} {y : Except Untextual α}

theorem exists_ok (h : Writes S y) (hS : ∀ f ∈ S, f.Textual) : ∃ a, y = .ok a := by
  cases hy : y with
  | ok a => exact ⟨a, rfl⟩
  | error u =>
    obtain ⟨f, hf, v, hv, hwritten⟩ := h.unwritten u hy
    obtain ⟨text, htext⟩ := hS f hf v hv
    cases htext.symm.trans hwritten

theorem ok (a : α) : Writes ∅ (.ok a) where
  textual _ _ _ hf := hf.elim
  unwritten _ h := nomatch h

theorem bind {g : α → Except Untextual β} (hy : Writes S y)
    (hg : ∀ a, y = .ok a → Writes T (g a)) : Writes (S ∪ T) (y >>= g) where
  textual b hb f hf := by
    obtain ⟨a, ha, hb⟩ := Except.bind_eq_ok_iff.1 hb
    exact hf.elim (hy.textual a ha f) ((hg a ha).textual b hb f)
  unwritten u hu := by
    obtain hu | ⟨a, ha, hu⟩ := Except.bind_eq_error_iff.1 hu
    · obtain ⟨f, hf, hv⟩ := hy.unwritten u hu
      exact ⟨f, .inl hf, hv⟩
    · obtain ⟨f, hf, hv⟩ := (hg a ha).unwritten u hu
      exact ⟨f, .inr hf, hv⟩

/-- What follows may write nothing. -/
theorem bind_ok {g : α → Except Untextual β} (hy : Writes S y) (hg : ∀ a, ∃ b, g a = .ok b) :
    Writes S (y >>= g) := by
  rw [← Set.union_empty S]
  refine hy.bind fun a _ => ?_
  obtain ⟨b, hb⟩ := hg a
  exact hb ▸ ok b

end Writes

/-- Facts are put in order by what is written of them. -/
theorem writes_sortFacts (xs : List Fact) : Writes {f | f ∈ xs} (sortFacts xs) := by
  refine Writes.bind_ok ⟨fun keyed hkeyed f hf => ?_, fun u hu => ?_⟩ fun keyed => ⟨_, rfl⟩
  · obtain ⟨x, -, hx⟩ := List.exists_right_of_forall₂ (List.mapM_eq_ok_iff.1 hkeyed) hf
    obtain ⟨text, htext, -⟩ := Except.bind_eq_ok_iff.1 hx
    obtain ⟨texts, htexts, -⟩ := Except.bind_eq_ok_iff.1 htext
    intro v hv
    obtain ⟨t, -, ht⟩ := List.exists_right_of_forall₂ (List.mapM_eq_ok_iff.1 htexts) hv
    exact ⟨t, ht⟩
  · obtain ⟨f, hf, hu⟩ := List.exists_of_mapM_eq_error hu
    obtain hu | ⟨text, -, hu⟩ := Except.bind_eq_error_iff.1 hu
    · obtain hu | ⟨texts, -, hu⟩ := Except.bind_eq_error_iff.1 hu
      · obtain ⟨v, hv, hwritten⟩ := List.exists_of_mapM_eq_error hu
        exact ⟨f, hf, v, hv, hwritten⟩
      · cases hu
    · cases hu

end RuleDiagram
