import RuleDiagram.Proofs.Run.Simulation

/-!
# Exchanging a term

A constant or a reference stands for a value under a snapshot. Where two of them stand for the same
value, and no free term further left writes a register that they read, one may be put in the other's
place: the pattern then unifies with the same values, and a template gives the same facts.

## Main definitions

* `Term.value?`: what a constant or a reference stands for
* `Pattern.Exchanges`: another term may be put at a place of a pattern

## Main results

* `unify_set`: when a pattern unifies alike with a term exchanged
* `Node.alikeOn_withTerm`: a node with one term exchanged does the same
-/

namespace RuleDiagram

open ListSet

variable {s t : Snapshot} {v : Value} {a b : Term} {ts : List Term} {vs : List Value} {place : ℕ}
  {p : Pattern} {facts : List Fact} {r : Int}

/-- The value that a constant or a reference stands for. -/
def Term.value? : Term → Snapshot → Option Value
  | .constant v, _ => some v
  | .reference r, s => s.get? r
  | .free _, _ => none

namespace Term

/-- A term that is not free unifies with the values that are the same as what it stands for. -/
theorem unify_of_value? (ha : a.written? = none) :
    a.unify v s = if Same (a.value? s) (some v) then some s else none := by
  cases a with
  | constant w => simp only [unify, value?, same_some_iff]
  | reference r => exact if_congr Snapshot.holds_iff rfl rfl
  | free r => cases ha

theorem unify_eq_of_same (ha : a.written? = none) (hb : b.written? = none)
    (h : Same (a.value? s) (b.value? s)) : a.unify v s = b.unify v s := by
  rw [unify_of_value? ha, unify_of_value? hb]
  simp only [same_congr_left h]

theorem instantiate_eq_ok_iff_value? (ha : a.written? = none) :
    a.instantiate s = .ok v ↔ a.value? s = some v := by
  rw [Term.instantiate_eq_ok_iff]
  cases a with
  | constant w => simp [value?]
  | reference r => simp [value?]
  | free r => cases ha

theorem same_value?_of_same (hst : Same s t) : Same (a.value? s) (a.value? t) := by
  cases a with
  | constant w => exact Same.refl _
  | reference r => exact Snapshot.same_iff_get?.1 hst r
  | free r => exact Same.refl _

theorem value?_eq_of_get? (h : ∀ r, a.read? = some r → t.get? r = s.get? r) :
    a.value? t = a.value? s := by
  cases a with
  | constant w => rfl
  | reference r => exact h r rfl
  | free r => rfl

/-- A term changes no register but the one it writes. -/
theorem get?_of_unify (h : a.unify v s = some t) (hr : a.written? ≠ some r) :
    t.get? r = s.get? r := by
  cases a with
  | constant c =>
    rw [unify, Option.ite_none_right_eq_some] at h
    rw [Option.some_inj.1 h.2]
  | reference r' =>
    rw [unify, Option.ite_none_right_eq_some] at h
    rw [Option.some_inj.1 h.2]
  | free r' =>
    rw [unify, Option.some_inj] at h
    rw [← h, Snapshot.get?_bind_of_ne fun hrr => hr (congrArg some hrr.symm)]

end Term

/-- **A pattern unifies alike with a term exchanged**, if under every snapshot with the registers
that the terms further left do not write the two terms unify alike. -/
theorem unify_set (ha : ts[place]? = some a)
    (h : ∀ t v, (∀ r, (∀ c ∈ ts.take place, c.written? ≠ some r) → t.get? r = s.get? r) →
      b.unify v t = a.unify v t) :
    unify (ts.set place b) vs s = unify ts vs s := by
  -- Induction on the terms: up to the place the two patterns take the same steps.
  induction ts generalizing place vs s with
  | nil => rfl
  | cons c ts ih =>
    cases vs with
    | nil => cases place <;> rfl
    | cons v vs =>
      cases place with
      | zero =>
        obtain rfl : c = a := Option.some_inj.1 ha
        rw [List.set_cons_zero, unify, unify, h s v fun _ _ => rfl]
      | succ place =>
        rw [List.set_cons_succ, unify, unify]
        cases hc : c.unify v s with
        | none => rfl
        | some u =>
          refine ih ha fun t w ht => h t w fun r hr => ?_
          rw [ht r fun x hx => hr x (List.mem_cons_of_mem c hx),
            Term.get?_of_unify hc (hr c List.mem_cons_self)]

/-- **Another term may be put at a place of a pattern** under a snapshot: neither term is free, both
stand for the same value, and no free term further left writes a register that one of them reads. -/
structure Pattern.Exchanges (p : Pattern) (place : ℕ) (a b : Term) (s : Snapshot) : Prop where
  term : p.terms[place]? = some a
  old : a.written? = none
  new : b.written? = none
  unwritten : ∀ r, a.read? = some r ∨ b.read? = some r →
    ∀ c ∈ p.terms.take place, c.written? ≠ some r
  same : Same (a.value? s) (b.value? s)

namespace Pattern.Exchanges

theorem unify_eq (h : p.Exchanges place a b s) :
    unify (p.withTerm place b).terms vs s = unify p.terms vs s := by
  refine unify_set h.term fun t v ht => Term.unify_eq_of_same h.new h.old ?_
  -- The registers that the terms read hold under `t` what they hold under `s`.
  have hvalue (c : Term) (hc : ∀ r, c.read? = some r → a.read? = some r ∨ b.read? = some r) :
      c.value? t = c.value? s :=
    Term.value?_eq_of_get? fun r hr => ht r (h.unwritten r (hc r hr))
  rw [hvalue a fun r hr => .inl hr, hvalue b fun r hr => .inr hr]
  exact h.same.symm

theorem delivers_iff {e : Edge} (h : p.Exchanges place a b s) :
    (p.withTerm place b).Delivers facts e s t ↔ p.Delivers facts e s t := by
  simp only [Delivers, h.unify_eq]
  rfl

theorem instantiate_withTerm {f : Fact} (h : p.Exchanges place a b s)
    (hf : instantiate p s = .ok f) :
    ∃ g, instantiate (p.withTerm place b) s = .ok g ∧ Same f g := by
  refine instantiate_of_forall₂ (p := p) rfl ?_ hf
  refine List.forall₂_set (fun c v hv => ⟨v, hv, Same.refl v⟩) h.term fun v hv => ?_
  have hsame := h.same
  rw [(Term.instantiate_eq_ok_iff_value? h.old).1 hv] at hsame
  cases hw : b.value? s with
  | none => exact absurd (hw ▸ hsame).symm not_same_none_some
  | some w =>
    exact ⟨w, (Term.instantiate_eq_ok_iff_value? h.new).2 hw, same_some_iff.1 (hw ▸ hsame)⟩

theorem symm (h : p.Exchanges place a b s) : (p.withTerm place b).Exchanges place b a s where
  term := by
    obtain ⟨hlt, -⟩ := List.getElem?_eq_some_iff.1 h.term
    exact List.getElem?_set_self hlt
  old := h.new
  new := h.old
  unwritten r hr c hc := by
    rw [withTerm, List.take_set_of_le le_rfl] at hc
    exact h.unwritten r hr.symm c hc
  same := h.same.symm

theorem withTerm_withTerm (h : p.Exchanges place a b s) :
    (p.withTerm place b).withTerm place a = p := by
  obtain ⟨hlt, rfl⟩ := List.getElem?_eq_some_iff.1 h.term
  rw [withTerm, withTerm, List.set_set, List.set_getElem_self]

end Pattern.Exchanges

/-- **A node does the same with a term exchanged.** -/
theorem Node.alikeOn_withTerm {n : Node} (h : n.pattern.Exchanges place a b s) :
    n.AlikeOn (n.withPattern (n.pattern.withTerm place b)) facts s := by
  cases n with
  | branch p m f =>
    refine ⟨rfl, rfl, fun e => ?_, rfl⟩
    ext t
    simp only [withPattern, mem_sends_branch]
    exact exists_congr fun u => and_congr_left fun _ => h.delivers_iff.symm
  | leaf p =>
    refine ⟨rfl, rfl, fun e => rfl, ?_⟩
    ext f
    constructor
    · rintro ⟨g, hg, hgf⟩
      obtain ⟨k, hk, hgk⟩ := h.instantiate_withTerm hg
      exact ⟨k, hk, hgk.symm.trans hgf⟩
    · rintro ⟨g, hg, hgf⟩
      obtain ⟨k, hk, hgk⟩ := h.symm.instantiate_withTerm hg
      rw [h.withTerm_withTerm] at hk
      exact ⟨k, hk, hgk.symm.trans hgf⟩

end RuleDiagram
