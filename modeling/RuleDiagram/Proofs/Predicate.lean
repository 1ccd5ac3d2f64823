import Mathlib.Data.List.Nodup
import RuleDiagram.Predicate
import RuleDiagram.Proofs.Outcome

/-!
# What a registry holds

No two predicates of a registry share a name, so a lookup finds exactly what is registered.
Registration looks at a name without the blanks at its ends, but keeps the name as it was given.

## Main definitions

* `Predicate.Registrable`: what registration asks of a predicate

## Main results

* `Registry.find?_eq_some_iff`, `Registry.has_iff_mem`: lookups find what is registered
* `Registry.add_eq_ok_iff`: what one registration does
* `Registry.registrable_of_ofList`: only registrable predicates are registered
-/

namespace RuleDiagram

variable {registry registry' : Registry} {p : Predicate} {ps : List Predicate} {name : String}

/-- **What registration asks of a predicate**: without the blanks at its ends the name is an
identifier, and the arity is not negative. -/
structure Predicate.Registrable (p : Predicate) : Prop where
  name : isIdentifier (trimBlanks p.name)
  arity : 0 ≤ p.arity

namespace Registry

@[ext] theorem ext (h : registry.predicates = registry'.predicates) : registry = registry' := by
  cases registry
  cases registry'
  cases h
  rfl

theorem find?_eq_some_iff : registry.find? name = some p ↔
    p ∈ registry.predicates ∧ p.name = name := by
  constructor
  · intro h
    have hname := List.find?_some h
    rw [decide_eq_true_eq] at hname
    exact ⟨List.mem_of_find?_eq_some h, hname⟩
  · rintro ⟨hp, rfl⟩
    cases h : registry.find? p.name with
    | none => exact absurd (List.mem_map_of_mem hp) (name_notMem_of_find?_eq_none h)
    | some q =>
      have hname := List.find?_some h
      rw [decide_eq_true_eq] at hname
      exact congrArg some <|
        List.inj_on_of_nodup_map registry.names_nodup (List.mem_of_find?_eq_some h) hp hname

theorem has_iff_mem : registry.has p ↔ p ∈ registry.predicates := by
  rw [has, decide_eq_true_eq, find?_eq_some_iff, and_iff_left rfl]

/-- **What one registration does**: a registrable predicate is skipped if it is there, and comes last
if its name is new. -/
theorem add_eq_ok_iff : registry.add p = .ok registry' ↔ p.Registrable ∧
    (p ∈ registry.predicates ∧ registry' = registry ∨
      p.name ∉ registry.names ∧ registry'.predicates = registry.predicates ++ [p]) := by
  unfold add
  split
  · next hname =>
    rw [Bool.not_eq_true'] at hname
    exact iff_of_false (fun h => by cases h) fun h => absurd h.1.name (by simp [hname])
  · next hname =>
    split
    · next harity =>
      exact iff_of_false (fun h => by cases h) fun h => absurd harity (Int.not_lt.2 h.1.arity)
    · next harity =>
      have hp : p.Registrable := ⟨by simpa using hname, Int.not_lt.1 harity⟩
      rw [and_iff_right hp]
      split
      · next q hq =>
        obtain ⟨hmem, hqp⟩ := find?_eq_some_iff.1 hq
        have hold : p.name ∈ registry.names := hqp ▸ List.mem_map_of_mem hmem
        split
        · next h =>
          subst h
          simp [hmem, hold, eq_comm]
        · next hne =>
          have hnew : p ∉ registry.predicates := fun hp =>
            hne (List.inj_on_of_nodup_map registry.names_nodup hmem hp hqp)
          simp [hnew, hold]
      · next hnone =>
        have hname := name_notMem_of_find?_eq_none hnone
        have hnew : p ∉ registry.predicates := fun hp => hname (List.mem_map_of_mem hp)
        simp [names, hname, hnew, Registry.ext_iff, eq_comm]

theorem registrable_of_add (h : registry.add p = .ok registry')
    (hregistry : ∀ q ∈ registry.predicates, q.Registrable) :
    ∀ q ∈ registry'.predicates, q.Registrable := by
  obtain ⟨hp, ⟨-, rfl⟩ | ⟨-, h⟩⟩ := add_eq_ok_iff.1 h
  · exact hregistry
  · rw [h]
    exact List.forall_mem_append.2 ⟨hregistry, List.forall_mem_singleton.2 hp⟩

theorem registrable_of_extend (h : registry.extend ps = .ok registry')
    (hregistry : ∀ q ∈ registry.predicates, q.Registrable) :
    ∀ q ∈ registry'.predicates, q.Registrable := by
  unfold extend at h
  induction ps generalizing registry with
  | nil =>
    cases h
    exact hregistry
  | cons p ps ih =>
    rw [List.foldlM_cons] at h
    obtain ⟨next, hnext, h⟩ := Except.bind_eq_ok_iff.1 h
    exact ih h (registrable_of_add hnext hregistry)

/-- **Only registrable predicates are registered.** -/
theorem registrable_of_ofList (h : ofList ps = .ok registry) :
    ∀ q ∈ registry.predicates, q.Registrable :=
  registrable_of_extend h (List.forall_mem_nil _)

end Registry

end RuleDiagram
