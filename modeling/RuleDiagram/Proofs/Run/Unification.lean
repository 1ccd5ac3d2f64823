import RuleDiagram.Run.Unification
import RuleDiagram.Proofs.Outcome
import RuleDiagram.Proofs.Snapshot

/-!
# Laws of unification and emission

Unification and emission respect sameness of terms, values and snapshots. Unification keeps the
bound registers bound and binds those that the free terms write.

## Main results

* `unify_congr`: unification respects sameness
* `unify_binds`, `unify_binds_written`: the registers bound after unification
* `instantiate_eq_ok_iff`, `instantiate_congr`: when a template gives a fact, and that emission
  respects sameness
-/

namespace RuleDiagram

open Snapshot

variable {s t : Snapshot} {v w : Value} {r : Int}

/-! ## Sameness -/

/-- A term that is the same as another one is of its kind. -/
theorem Term.same_iff {a b : Term} :
    Same a b ↔ (∃ v w, a = .constant v ∧ b = .constant w ∧ Same v w) ∨
      (∃ r, a = .reference r ∧ b = .reference r) ∨ ∃ r, a = .free r ∧ b = .free r := by
  show canonical a = canonical b ↔ _
  cases a <;> cases b <;> simp [canonical, Same, eq_comm]

theorem Pattern.same_iff {p q : Pattern} :
    Same p q ↔ p.predicate = q.predicate ∧ List.Forall₂ Same p.terms q.terms := by
  rw [← same_list_iff]
  show canonical p = canonical q ↔ _
  simp [canonical, Same]

theorem Term.unify_congr {a b : Term} (hab : Same a b) (hvw : Same v w) (hst : Same s t) :
    Same (a.unify v s) (b.unify w t) := by
  rcases Term.same_iff.1 hab with ⟨c, c', rfl, rfl, hc⟩ | ⟨r, rfl, rfl⟩ | ⟨r, rfl, rfl⟩
  · have hiff : Same c v ↔ Same c' w := (same_congr_left hc).trans (same_congr_right hvw)
    by_cases h : Same c v
    · rw [unify, unify, if_pos h, if_pos (hiff.1 h)]
      exact same_some_iff.2 hst
    · rw [unify, unify, if_neg h, if_neg fun h' => h (hiff.2 h')]
  · rw [unify, unify, holds_congr hst hvw]
    split
    · exact same_some_iff.2 hst
    · rfl
  · exact same_some_iff.2 (same_bind hst hvw)

/-- Unification of terms with values respects sameness of all that takes part in it. -/
theorem unify_congr {as bs : List Term} {vs ws : List Value} (hts : List.Forall₂ Same as bs)
    (hvs : List.Forall₂ Same vs ws) (hst : Same s t) : Same (unify as vs s) (unify bs ws t) := by
  induction hts generalizing vs ws s t with
  | nil => exact same_some_iff.2 hst
  | cons hab _ ih =>
    cases hvs with
    | nil => exact same_some_iff.2 hst
    | cons hvw hvs =>
      have hstep := Term.unify_congr hab hvw hst
      rw [unify, unify]
      revert hstep
      cases Term.unify _ _ s <;> cases Term.unify _ _ t <;> intro hstep
      · rfl
      · exact absurd hstep not_same_none_some
      · exact absurd hstep.symm not_same_none_some
      · exact ih hvs (same_some_iff.1 hstep)

/-! ## Bound registers -/

theorem Term.unify_binds {a : Term} (h : a.unify v s = some t) (hr : s.Binds r) : t.Binds r := by
  cases a with
  | constant c =>
    rw [unify, Option.ite_none_right_eq_some] at h
    exact Option.some_inj.1 h.2 ▸ hr
  | reference r' =>
    rw [unify, Option.ite_none_right_eq_some] at h
    exact Option.some_inj.1 h.2 ▸ hr
  | free r' =>
    rw [unify, Option.some_inj] at h
    exact h ▸ binds_bind.2 (.inr hr)

theorem Term.unify_binds_written {a : Term} (h : a.unify v s = some t)
    (hr : a.written? = some r) : t.Binds r := by
  cases a with
  | constant c => cases hr
  | reference r' => cases hr
  | free r' =>
    rw [unify, Option.some_inj] at h
    obtain rfl : r' = r := Option.some_inj.1 hr
    exact h ▸ binds_bind.2 (.inl rfl)

/-- The first step of a unification that succeeds. -/
theorem unify_cons_eq_some {a : Term} {ts : List Term} {vs : List Value} {u : Snapshot} :
    unify (a :: ts) (v :: vs) s = some u ↔ ∃ t, a.unify v s = some t ∧ unify ts vs t = some u :=
  Option.bind_eq_some_iff

theorem unify_binds {ts : List Term} {vs : List Value} (h : unify ts vs s = some t)
    (hr : s.Binds r) : t.Binds r := by
  induction ts generalizing vs s with
  | nil => exact Option.some_inj.1 h ▸ hr
  | cons a ts ih =>
    cases vs with
    | nil => exact Option.some_inj.1 h ▸ hr
    | cons v vs =>
      obtain ⟨u, hu, hrest⟩ := unify_cons_eq_some.1 h
      exact ih hrest (Term.unify_binds hu hr)

/-- Where no value is missing, all registers that free terms write end up bound. -/
theorem unify_binds_written {ts : List Term} {vs : List Value} (h : unify ts vs s = some t)
    (hlen : ts.length ≤ vs.length) (hr : r ∈ ts.filterMap Term.written?) : t.Binds r := by
  induction ts generalizing vs s with
  | nil => cases hr
  | cons a ts ih =>
    cases vs with
    | nil => exact absurd hlen (by simp)
    | cons v vs =>
      obtain ⟨u, hu, hrest⟩ := unify_cons_eq_some.1 h
      obtain ⟨b, hb, hbr⟩ := List.mem_filterMap.1 hr
      -- The first term binds it and the others keep it bound, or one of the others binds it.
      rcases List.mem_cons.1 hb with rfl | hb
      · exact unify_binds hrest (Term.unify_binds_written hu hbr)
      · exact ih hrest (by simpa using hlen) (List.mem_filterMap.2 ⟨b, hb, hbr⟩)

/-! ## Emission -/

/-- The register that a term of a template reads. -/
theorem Term.instantiate_eq_ok_iff {a : Term} :
    a.instantiate s = .ok v ↔ a = .constant v ∨
      ∃ r, (a = .reference r ∨ a = .free r) ∧ s.get? r = some v := by
  cases a with
  | constant c => simp [instantiate]
  | reference r => cases h : s.get? r <;> simp [instantiate, h]
  | free r => cases h : s.get? r <;> simp [instantiate, h]

/-- A template gives the fact of its predicate that applies it to the values of its terms. -/
theorem instantiate_eq_ok_iff {p : Pattern} {f : Fact} :
    instantiate p s = .ok f ↔ p.predicate = some f.predicate ∧
      List.Forall₂ (fun a v => a.instantiate s = .ok v) p.terms f.values := by
  rw [instantiate, Except.bind_eq_ok_iff]
  simp only [List.mapM_eq_ok_iff]
  constructor
  · rintro ⟨vs, hvs, h⟩
    cases hp : p.predicate with
    | none => simp [hp] at h
    | some q =>
      simp only [hp, Except.mapError_eq_ok_iff, Fact.make] at h
      split at h
      · cases h
        exact ⟨rfl, hvs⟩
      · cases h
  · rintro ⟨hp, hvs⟩
    refine ⟨f.values, hvs, ?_⟩
    simp only [hp, Except.mapError_eq_ok_iff, Fact.make, dif_pos f.length_values]

theorem Fact.same_iff {f g : Fact} :
    Same f g ↔ f.predicate = g.predicate ∧ List.Forall₂ Same f.values g.values := by
  rw [← same_list_iff]
  show canonical f = canonical g ↔ _
  simp [canonical, Same]

theorem Term.instantiate_congr {a b : Term} (hab : Same a b) (hst : Same s t)
    (h : a.instantiate s = .ok v) : ∃ w, b.instantiate t = .ok w ∧ Same v w := by
  have hread {r : Int} (hr : s.get? r = some v) : ∃ w, t.get? r = some w ∧ Same v w := by
    have hsame := same_iff_get?.1 hst r
    rw [hr] at hsame
    cases ht : t.get? r with
    | none => exact absurd (ht ▸ hsame).symm not_same_none_some
    | some w => exact ⟨w, rfl, same_some_iff.1 (ht ▸ hsame)⟩
  rcases Term.same_iff.1 hab with ⟨c, c', rfl, rfl, hc⟩ | ⟨r, rfl, rfl⟩ | ⟨r, rfl, rfl⟩
  · cases h
    exact ⟨c', rfl, hc⟩
  · obtain ⟨w, hw, hvw⟩ := hread (by simpa [Term.instantiate_eq_ok_iff] using h)
    exact ⟨w, Term.instantiate_eq_ok_iff.2 (.inr ⟨r, .inl rfl, hw⟩), hvw⟩
  · obtain ⟨w, hw, hvw⟩ := hread (by simpa [Term.instantiate_eq_ok_iff] using h)
    exact ⟨w, Term.instantiate_eq_ok_iff.2 (.inr ⟨r, .inr rfl, hw⟩), hvw⟩

/-- Templates whose terms stand for the same give the same fact. -/
theorem instantiate_of_forall₂ {p q : Pattern} {f : Fact} (hpred : p.predicate = q.predicate)
    (hterms : List.Forall₂ (fun a b => ∀ v, a.instantiate s = .ok v →
      ∃ w, b.instantiate t = .ok w ∧ Same v w) p.terms q.terms)
    (h : instantiate p s = .ok f) : ∃ g, instantiate q t = .ok g ∧ Same f g := by
  obtain ⟨hp, hvs⟩ := instantiate_eq_ok_iff.1 h
  obtain ⟨ws, hws, hsame⟩ := List.exists_forall₂_of_forall₂
    (P := fun a v => a.instantiate s = .ok v) (Q := fun a w => a.instantiate t = .ok w)
    (fun _ _ v hab hv => hab v hv) hterms hvs
  have hlen : (ws.length : Int) = f.predicate.arity := by
    rw [← hsame.length_eq, f.length_values]
  exact ⟨⟨f.predicate, ws, hlen⟩, instantiate_eq_ok_iff.2 ⟨hpred ▸ hp, hws⟩,
    Fact.same_iff.2 ⟨rfl, hsame⟩⟩

/-- A template gives the same fact under the same snapshot. -/
theorem instantiate_congr {p q : Pattern} {f : Fact} (hpq : Same p q) (hst : Same s t)
    (h : instantiate p s = .ok f) : ∃ g, instantiate q t = .ok g ∧ Same f g := by
  obtain ⟨hpred, hterms⟩ := Pattern.same_iff.1 hpq
  exact instantiate_of_forall₂ hpred
    (hterms.imp fun _ _ hab v hv => Term.instantiate_congr hab hst hv) h

end RuleDiagram
