import RuleDiagram.Proofs.Diagram.Description
import RuleDiagram.Proofs.Run.Congruence
import RuleDiagram.Proofs.Search.Selection

/-!
# What the signature keeps apart

A selection keeps one individual of every signature, and a signature is the digest of the spelled
out diagram. Different diagrams have different texts, so none of them is lost for another, as far as
the digest does not collide. But equal diagrams may be spelled in several ways, since `true`, `1`
and `1.0` are one value: survivors differ in their spelling, and it is exactly for constants of the
same value in different forms that two of them may be equal.

## Main results

* `exists_mem_select`: where everybody fits, every signature survives
* `Diagram.eq_of_same_of_occurrences`: equal diagrams differ at most in the forms of constants
* `Diagram.eq_of_signature_eq`: signatures keep different diagrams apart
* `Individual.pairwise_select_iff`: when no two survivors are equal
* `Twins.not_forall_survivors_distinct`: two equal diagrams that both survive
-/

namespace RuleDiagram

/-! ## Every signature survives -/

section

variable {α : Type} {standing : α → Standing} {n : ℕ} {xs : List α} {x : α}
  {members : List (Standing × α)} {a : Standing × α} {seen : List String}

/-- A member with a new signature stays, or an earlier one with the same signature does. -/
theorem exists_mem_distinctBySignature (ha : a ∈ members) (hseen : a.1.signature ∉ seen) :
    ∃ b ∈ distinctBySignature seen members, b.1.signature = a.1.signature := by
  induction members generalizing seen with
  | nil => cases ha
  | cons c rest ih =>
    unfold distinctBySignature
    split
    · next hold =>
      have hne : a ≠ c := by
        rintro rfl
        exact hseen (by simpa using hold)
      exact ih ((List.mem_cons.1 ha).resolve_left hne) hseen
    · by_cases hsignature : c.1.signature = a.1.signature
      · exact ⟨c, List.mem_cons_self, hsignature⟩
      · have hne : a ≠ c := by
          rintro rfl
          exact hsignature rfl
        have hnew : a.1.signature ∉ c.1.signature :: seen := by
          rw [List.mem_cons, not_or]
          exact ⟨Ne.symm hsignature, hseen⟩
        obtain ⟨b, hb, heq⟩ := ih ((List.mem_cons.1 ha).resolve_left hne) hnew
        exact ⟨b, List.mem_cons_of_mem c hb, heq⟩

/-- **Every signature survives** where everybody fits. -/
theorem exists_mem_select (hn : xs.length ≤ n) (hx : x ∈ xs) :
    ∃ y ∈ select standing n xs, (standing y).signature = (standing x).signature := by
  have hmember : (standing x, x) ∈ ranked (xs.map fun x => (standing x, x)) := by
    rw [mem_ranked]
    exact List.mem_map_of_mem hx
  obtain ⟨b, hb, hsignature⟩ := exists_mem_distinctBySignature hmember List.not_mem_nil
  have hlength :
      (distinctBySignature [] (ranked (xs.map fun x => (standing x, x)))).length ≤ n := by
    refine (distinctBySignature_sublist _ _).length_le.trans ?_
    rw [ranked, (List.mergeSort_perm _ _).length_eq, List.length_map]
    exact hn
  refine ⟨b.2, ?_, ?_⟩
  · rw [select, List.take_of_length_le hlength]
    exact List.mem_map_of_mem hb
  · rw [← hsignature, (eq_of_mem_distinctBySignature hb).2]

end

/-! ## Equal diagrams -/

section

variable {α β : Type} {R : α → α → Prop} {f : α → List β} {as bs : List α}

/-- Related members with as many parts have as many parts in total. -/
theorem length_flatMap_of_forall₂ (h : List.Forall₂ R as bs)
    (hlength : ∀ a b, R a b → (f a).length = (f b).length) :
    (as.flatMap f).length = (bs.flatMap f).length := by
  induction h with
  | nil => rfl
  | cons hab _ ih =>
    rw [List.flatMap_cons, List.flatMap_cons, List.length_append, List.length_append, ih,
      hlength _ _ hab]

/-- If related members with as many parts agree in all parts, they agree part by part. -/
theorem eq_of_forall₂_of_flatMap_eq (h : List.Forall₂ R as bs)
    (hlength : ∀ a b, R a b → (f a).length = (f b).length)
    (heq : ∀ a b, R a b → f a = f b → a = b) (hparts : as.flatMap f = bs.flatMap f) : as = bs := by
  induction h with
  | nil => rfl
  | cons hab _ ih =>
    rw [List.flatMap_cons, List.flatMap_cons] at hparts
    obtain ⟨hfirst, hothers⟩ := List.append_inj hparts (hlength _ _ hab)
    rw [heq _ _ hab hfirst, ih hothers]

end

theorem Pattern.constants_eq_flatMap (p : Pattern) :
    p.constants = p.terms.flatMap fun t => t.constant?.toList :=
  List.filterMap_eq_flatMap_toList _ _

theorem Term.length_constant?_of_same {t u : Term} (h : Same t u) :
    t.constant?.toList.length = u.constant?.toList.length := by
  rcases Term.same_iff.1 h with ⟨v, w, rfl, rfl, -⟩ | ⟨r, rfl, rfl⟩ | ⟨r, rfl, rfl⟩ <;> rfl

theorem Term.eq_of_same_of_constant? {t u : Term} (h : Same t u)
    (hconstants : t.constant?.toList = u.constant?.toList) : t = u := by
  rcases same_iff.1 h with ⟨v, w, rfl, rfl, -⟩ | ⟨r, rfl, rfl⟩ | ⟨r, rfl, rfl⟩
  · exact congrArg constant (List.cons.inj hconstants).1
  · rfl
  · rfl

theorem Pattern.length_constants_of_same {p q : Pattern} (h : Same p q) :
    p.constants.length = q.constants.length := by
  rw [constants_eq_flatMap, constants_eq_flatMap]
  exact length_flatMap_of_forall₂ (same_iff.1 h).2 fun t u => Term.length_constant?_of_same

theorem Pattern.eq_of_same_of_constants {p q : Pattern} (h : Same p q)
    (hconstants : p.constants = q.constants) : p = q := by
  obtain ⟨hpredicate, hterms⟩ := same_iff.1 h
  rw [constants_eq_flatMap, constants_eq_flatMap] at hconstants
  have heq := eq_of_forall₂_of_flatMap_eq hterms (fun t u => Term.length_constant?_of_same)
    (fun t u => Term.eq_of_same_of_constant?) hconstants
  obtain ⟨predicate, terms⟩ := p
  exact congrArg₂ Pattern.mk hpredicate heq

theorem Node.same_pattern {n m : Node} (h : Same n m) : Same n.pattern m.pattern := by
  rcases same_iff.1 h with ⟨p, q, a, b, rfl, rfl, hpq⟩ | ⟨p, q, rfl, rfl, hpq⟩ <;> exact hpq

theorem Node.eq_of_same_of_constants {n m : Node} (h : Same n m)
    (hconstants : n.pattern.constants = m.pattern.constants) : n = m := by
  rcases same_iff.1 h with ⟨p, q, a, b, rfl, rfl, hpq⟩ | ⟨p, q, rfl, rfl, hpq⟩
  · rw [Pattern.eq_of_same_of_constants hpq hconstants]
  · rw [Pattern.eq_of_same_of_constants hpq hconstants]

namespace Diagram

variable {d e : Diagram}

/-- **Equal diagrams differ at most in the forms of their constants.** -/
theorem eq_of_same_of_occurrences (h : Same d e) (hforms : d.occurrences = e.occurrences) :
    d = e := by
  obtain ⟨hnodes, hroot⟩ := same_iff.1 h
  have heq := eq_of_forall₂_of_flatMap_eq hnodes
    (fun n m hnm => Pattern.length_constants_of_same (Node.same_pattern hnm))
    (fun n m => Node.eq_of_same_of_constants) hforms
  obtain ⟨nodes, root⟩ := d
  exact congrArg₂ Diagram.mk heq hroot

/-! ## Signatures -/

/-- **Signatures keep different diagrams apart.** Among diagrams without undefined numbers the text
under the digest tells each from the others. So do signatures, if no two of these texts have the
same digest, and then no diagram is lost in a selection where everybody fits. -/
theorem eq_of_signature_eq {ds : Set Diagram} (hds : ∀ d ∈ ds, d.IsDefined) :
    (∀ d ∈ ds, ∀ e ∈ ds, d.described = e.described → d = e) ∧
      (Set.InjOn digest (described '' ds) →
        (∀ d ∈ ds, ∀ e ∈ ds, d.signature = e.signature → d = e) ∧
        ∀ (n : ℕ) (xs : List Individual), xs.length ≤ n → (∀ x ∈ xs, x.diagram ∈ ds) →
          ∀ x ∈ xs, ∃ y ∈ select Individual.standing n xs, y.diagram = x.diagram) := by
  have htexts : ∀ d ∈ ds, ∀ e ∈ ds, d.described = e.described → d = e := by
    intro d hd e he
    exact injOn_described (hds d hd) (hds e he)
  refine ⟨htexts, fun hdigest => ?_⟩
  have hsignatures : ∀ d ∈ ds, ∀ e ∈ ds, d.signature = e.signature → d = e := by
    intro d hd e he h
    exact htexts d hd e he (hdigest (Set.mem_image_of_mem _ hd) (Set.mem_image_of_mem _ he) h)
  refine ⟨hsignatures, fun n xs hn hxs x hx => ?_⟩
  obtain ⟨y, hy, hsignature⟩ :
      ∃ y ∈ select Individual.standing n xs, y.standing.signature = x.standing.signature :=
    exists_mem_select hn hx
  exact ⟨y, hy, hsignatures _ (hxs y (mem_of_mem_select hy)) _ (hxs x hx) hsignature⟩

end Diagram

namespace Forgery

/-- A leaf that emits one fact with the given arguments. -/
def emitter (arguments : List Value) : Diagram :=
  ⟨[.leaf ⟨some ⟨"p", arguments.length⟩, arguments.map .constant⟩], 0⟩

/-- A text that looks like the end of one constant and the beginning of another. -/
def forged : Diagram := emitter [.text "x'), Constant(value='y"]

/-- The two constants that the forged text looks like. -/
def plain : Diagram := emitter [.text "x", .text "y"]

/-- A text cannot imitate the structure around it: the two diagrams have different texts, and both
survive. -/
theorem survives_forged :
    (∀ d ∈ ({forged, plain} : Set Diagram), d.IsDefined) ∧
      Set.InjOn digest (Diagram.described '' {forged, plain}) ∧
      (forged.described = plain.described → forged = plain) ∧
      (forged.signature = plain.signature → forged = plain) ∧
      ∀ d ∈ ({forged, plain} : Set Diagram), ∃ y ∈ select Individual.standing 2
        [Individual.ofDiagram forged 0 none, Individual.ofDiagram plain 0 none],
          y.diagram = d := by
  have hdefined : ∀ d ∈ ({forged, plain} : Set Diagram), d.IsDefined := by
    rintro d (rfl | rfl) v hv
    all_goals
      simp [forged, plain, emitter, Diagram.occurrences, Node.pattern, Pattern.constants,
        Term.constant?] at hv
      rcases hv with rfl | rfl <;> trivial
  have hne : digest forged.described ≠ digest plain.described := by decide +kernel
  have hdigest : Set.InjOn digest (Diagram.described '' {forged, plain}) := by
    rw [Set.image_pair]
    rintro s (rfl | rfl) t (rfl | rfl) h
    · rfl
    · exact absurd h hne
    · exact absurd h.symm hne
    · rfl
  obtain ⟨htexts, hsignatures⟩ := Diagram.eq_of_signature_eq hdefined
  obtain ⟨hequal, hsurvive⟩ := hsignatures hdigest
  have hforged : forged ∈ ({forged, plain} : Set Diagram) := .inl rfl
  have hplain : plain ∈ ({forged, plain} : Set Diagram) := .inr rfl
  refine ⟨hdefined, hdigest, htexts _ hforged _ hplain, hequal _ hforged _ hplain, ?_⟩
  have hmembers := hsurvive 2
    [Individual.ofDiagram forged 0 none, Individual.ofDiagram plain 0 none] le_rfl (by
      rintro x hx
      simp only [List.mem_cons, List.not_mem_nil, or_false] at hx
      rcases hx with rfl | rfl
      · exact hforged
      · exact hplain)
  rintro d (rfl | rfl)
  · exact hmembers _ List.mem_cons_self
  · exact hmembers _ (List.mem_cons_of_mem _ List.mem_cons_self)

end Forgery

/-! ## Survivors -/

namespace Individual

/-- **When no two survivors are equal.** The diagrams of survivors are spelled differently; and no
two of them are equal exactly if equal ones among them agree in the forms of all constants. -/
theorem pairwise_select_iff (n : ℕ) (xs : List Individual) :
    (select standing n xs).Pairwise (fun x y => x.diagram ≠ y.diagram) ∧
      ((select standing n xs).Pairwise (fun x y => ¬ Same x.diagram y.diagram) ↔
        ∀ x ∈ select standing n xs, ∀ y ∈ select standing n xs,
          Same x.diagram y.diagram → x.diagram.occurrences = y.diagram.occurrences) := by
  have hspelled : (select standing n xs).Pairwise (fun x y => x.diagram ≠ y.diagram) := by
    have hnodup := nodup_signatures_select standing n xs
    rw [List.Nodup, List.pairwise_map] at hnodup
    exact hnodup.imp fun hne heq => hne (congrArg Diagram.signature heq)
  refine ⟨hspelled, fun hdistinct => ?_, fun hforms => ?_⟩
  · -- Equal survivors would be one, and that one agrees with itself.
    have hsymm : Std.Symm fun x y : Individual =>
        Same x.diagram y.diagram → x.diagram.occurrences = y.diagram.occurrences :=
      ⟨fun x y h hsame => (h hsame.symm).symm⟩
    have hagree : (select standing n xs).Pairwise fun x y =>
        Same x.diagram y.diagram → x.diagram.occurrences = y.diagram.occurrences :=
      hdistinct.imp fun hne hsame => absurd hsame hne
    intro x hx y hy
    exact List.Pairwise.forall_of_forall (fun _ _ _ => rfl) hagree hx hy
  · refine hspelled.imp_of_mem fun hx hy hne hsame => hne ?_
    exact Diagram.eq_of_same_of_occurrences hsame (hforms _ hx _ hy hsame)

end Individual

namespace Twins

/-- The emitter of a value, with the fitness zero. -/
def scored (v : Value) : Individual := ⟨Forgery.emitter [v], some (.float .zero), none, 0, none⟩

/-- Of the diagrams with the constants `true` and `1`, which are equal, both survive. -/
theorem not_forall_survivors_distinct :
    ¬ ∀ (n : ℕ) (xs : List Individual),
      (select Individual.standing n xs).Pairwise fun x y => ¬ Same x.diagram y.diagram := by
  intro h
  have hperm : (select Individual.standing 2 [scored (.bool true), scored (.int 1)]).Perm
      [scored (.bool true), scored (.int 1)] := by
    apply perm_select
    · exact le_rfl
    · decide +kernel
  have hpairwise := (hperm.pairwise_iff fun hne hsame => hne hsame.symm).1
    (h 2 [scored (.bool true), scored (.int 1)])
  obtain ⟨hne, -⟩ := List.pairwise_cons.1 hpairwise
  exact hne (scored (.int 1)) List.mem_cons_self rfl

end Twins

end RuleDiagram
