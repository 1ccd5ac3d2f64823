import Mathlib.Data.List.Infix
import Mathlib.Data.List.Nodup
import RuleDiagram.Draft.Registration
import RuleDiagram.Proofs.Lookup
import RuleDiagram.Proofs.Predicate

/-!
# Registration, in any order and in parts

Predicates are registered one by one. What has been registered keeps its place and with it its code,
so that a registry may be extended in one go or in parts. Registration fails only for what a
predicate is in itself or for two predicates of one name, and what it gives is the list of the
predicates in the order in which they come first.

## Main definitions

* `Predicate.Conflicts`, `Compatible`: one name with two arities, and lists without such
* `Tables`: registration with a table of names beside the list
* `Registry.Coherent`: all tables and lookups say what the list of predicates says

## Main results

* `Registry.exists_extend_iff`, `Registry.predicates_of_extend`: when a registry can be extended, and
  what it holds then
* `Registry.tables_ofList`: the tables are those of the registry
* `Registry.extend_exact`: registration as a whole
-/

/-- Where no member comes twice, each is where it comes first. -/
theorem List.eraseDups_of_nodup {α : Type} [DecidableEq α] {xs : List α} (h : xs.Nodup) :
    xs.eraseDups = xs := by
  induction xs with
  | nil => rfl
  | cons x xs ih =>
    obtain ⟨hx, hxs⟩ := nodup_cons.1 h
    have hkeep : (xs.filter fun y => !y == x) = xs := by
      rw [filter_eq_self]
      intro y hy
      simpa using fun hyx : y = x => hx (hyx ▸ hy)
    rw [eraseDups_cons, hkeep, ih hxs]

namespace RuleDiagram

variable {r r' : Registry} {p q : Predicate} {a b ps : List Predicate} {name : String} {c : ℕ}

/-- **Two predicates conflict**: they have one name and two arities. -/
def Predicate.Conflicts (p q : Predicate) : Prop := p.name = q.name ∧ p.arity ≠ q.arity

theorem Predicate.eq_of_not_conflicts (h : ¬ p.Conflicts q) (hname : p.name = q.name) : p = q := by
  by_contra hne
  refine h ⟨hname, fun harity => hne ?_⟩
  cases p
  cases q
  exact congrArg₂ Predicate.mk hname harity

/-- No two of the predicates conflict. -/
def Compatible (ps : List Predicate) : Prop := ∀ p ∈ ps, ∀ q ∈ ps, ¬ p.Conflicts q

theorem Compatible.of_subset (h : Compatible b) (hab : a ⊆ b) : Compatible a := fun p hp q hq =>
  h p (hab hp) q (hab hq)

namespace Registry

theorem nodup_predicates (r : Registry) : r.predicates.Nodup := r.names_nodup.of_map _

theorem compatible_predicates (r : Registry) : Compatible r.predicates := fun _ hp _ hq h =>
  h.2 (congrArg Predicate.arity (List.inj_on_of_nodup_map r.names_nodup hp hq h.1))

/-! ## One registration -/

theorem mem_predicates_of_add (h : r.add p = .ok r') :
    q ∈ r'.predicates ↔ q ∈ r.predicates ∨ q = p := by
  obtain ⟨-, ⟨hp, rfl⟩ | ⟨-, h⟩⟩ := add_eq_ok_iff.1 h
  · exact ⟨.inl, fun hq => hq.elim id (· ▸ hp)⟩
  · rw [h, List.mem_append, List.mem_singleton]

theorem exists_add (hp : p.Registrable) (h : ∀ q ∈ r.predicates, ¬ p.Conflicts q) :
    ∃ r', r.add p = .ok r' := by
  by_cases hold : p.name ∈ r.names
  · obtain ⟨q, hq, hqp⟩ := List.mem_map.1 hold
    obtain rfl := Predicate.eq_of_not_conflicts (h q hq) hqp.symm
    exact ⟨r, add_eq_ok_iff.2 ⟨hp, .inl ⟨hq, rfl⟩⟩⟩
  · have hnodup : ((r.predicates ++ [p]).map Predicate.name).Nodup := by
      rw [List.map_append]
      exact r.names_nodup.append (List.nodup_singleton _) (List.disjoint_singleton.2 hold)
    exact ⟨⟨_, hnodup⟩, add_eq_ok_iff.2 ⟨hp, .inr ⟨hold, rfl⟩⟩⟩

/-! ## Many registrations -/

theorem extend_cons (r : Registry) (p : Predicate) (ps : List Predicate) :
    r.extend (p :: ps) = r.add p >>= fun r' => r'.extend ps := List.foldlM_cons

theorem extend_append (r : Registry) (a b : List Predicate) :
    r.extend (a ++ b) = r.extend a >>= fun r' => r'.extend b := List.foldlM_append

/-- **A registry can be extended** exactly by registrable predicates that conflict neither with each
other nor with what it holds. -/
theorem exists_extend_iff : (∃ r', r.extend ps = .ok r') ↔
    (∀ p ∈ ps, p.Registrable) ∧ Compatible (r.predicates ++ ps) := by
  induction ps generalizing r with
  | nil =>
    rw [List.append_nil]
    exact iff_of_true ⟨r, rfl⟩ ⟨List.forall_mem_nil _, r.compatible_predicates⟩
  | cons p ps ih =>
    -- What is registered and what is still to come are together the same predicates.
    have hstep {s : Registry} (hs : r.add p = .ok s) :
        Compatible (s.predicates ++ ps) ↔ Compatible (r.predicates ++ p :: ps) := by
      have hmem q : q ∈ s.predicates ++ ps ↔ q ∈ r.predicates ++ p :: ps := by
        rw [List.mem_append, mem_predicates_of_add hs, List.mem_append, List.mem_cons, or_assoc]
      exact ⟨fun h => h.of_subset fun q => (hmem q).2, fun h => h.of_subset fun q => (hmem q).1⟩
    rw [List.forall_mem_cons, extend_cons]
    simp only [Except.bind_eq_ok_iff]
    constructor
    · rintro ⟨r', s, hs, h⟩
      obtain ⟨hps, hcompatible⟩ := ih.1 ⟨r', h⟩
      exact ⟨⟨(add_eq_ok_iff.1 hs).1, hps⟩, (hstep hs).1 hcompatible⟩
    · rintro ⟨⟨hp, hps⟩, hcompatible⟩
      obtain ⟨s, hs⟩ := exists_add (r := r) hp fun q hq =>
        hcompatible p (by simp) q (List.mem_append_left _ hq)
      obtain ⟨r', h⟩ := ih.2 ⟨hps, (hstep hs).2 hcompatible⟩
      exact ⟨r', s, hs, h⟩

theorem exists_ofList_error_iff : (∃ e, ofList ps = .error e) ↔
    (∃ p ∈ ps, ¬ p.Registrable) ∨ ∃ p ∈ ps, ∃ q ∈ ps, p.Conflicts q := by
  have hfails : (∃ e, ofList ps = .error e) ↔ ¬ ∃ r, ofList ps = .ok r := by
    cases ofList ps <;> simp
  have hholds : (∃ r, ofList ps = .ok r) ↔ (∀ p ∈ ps, p.Registrable) ∧ Compatible ps :=
    exists_extend_iff
  rw [hfails, hholds, not_and_or, Compatible]
  push Not
  rfl

theorem eraseDups_predicates (r : Registry) : r.predicates.eraseDups = r.predicates :=
  List.eraseDups_of_nodup r.nodup_predicates

/-- **An extended registry** holds what it held and what has come, in the order in which they come
first. -/
theorem predicates_of_extend (h : r.extend ps = .ok r') :
    r'.predicates = (r.predicates ++ ps).eraseDups := by
  induction ps generalizing r with
  | nil =>
    cases h
    rw [List.append_nil, eraseDups_predicates]
  | cons p ps ih =>
    rw [extend_cons] at h
    obtain ⟨s, hs, h⟩ := Except.bind_eq_ok_iff.1 h
    rw [ih h]
    obtain ⟨-, ⟨hp, rfl⟩ | ⟨-, hs⟩⟩ := add_eq_ok_iff.1 hs
    · -- A predicate that is there already does not come first again.
      have hskip : (p :: ps).removeAll s.predicates = ps.removeAll s.predicates := by
        simp [List.removeAll, hp]
      rw [List.eraseDups_append, List.eraseDups_append, hskip]
    · rw [hs, List.append_assoc, List.singleton_append]

theorem prefix_of_extend (h : r.extend ps = .ok r') : r.predicates <+: r'.predicates := by
  rw [predicates_of_extend h, List.eraseDups_append, eraseDups_predicates]
  exact List.prefix_append _ _

/-- What a registry holds can be registered anew. -/
theorem extend_eq_ofList (h : ∀ p ∈ r.predicates, p.Registrable) (ps : List Predicate) :
    r.extend ps = ofList (r.predicates ++ ps) := by
  have hcompatible : Compatible (empty.predicates ++ r.predicates) := r.compatible_predicates
  obtain ⟨s, hs⟩ := exists_extend_iff.2 ⟨h, hcompatible⟩
  -- What comes out of the first part is the registry that was there.
  have hsame : s = r := by
    ext1
    rw [predicates_of_extend hs]
    exact r.eraseDups_predicates
  rw [ofList, extend_append, hs, hsame]
  rfl

/-- Items that stand for predicates are registered as these are. -/
theorem registerAll_list {items : List Item} (h : items.mapM Item.predicate = .ok ps) :
    r.registerAll (.list items) = (r.extend ps).mapError .registration := by
  show items.foldlM register r = _
  rw [List.mapM_eq_ok_iff] at h
  induction h generalizing r with
  | nil => rfl
  | @cons x p items ps hx _ ih =>
    rw [List.foldlM_cons, extend_cons]
    have hstep : r.register x = (r.add p).mapError .registration := by
      rw [register, hx]
      rfl
    rw [hstep]
    cases r.add p with
    | error e => rfl
    | ok s => exact ih

/-! ## Codes and lookups -/

/-- **The code of a predicate is its place.** -/
theorem code?_eq_some_iff : r.code? p = some c ↔ r.predicates[c]? = some p := by
  rw [code?, List.findIdx?_eq_some_iff_getElem, List.getElem?_eq_some_iff]
  constructor
  · rintro ⟨hc, hp, -⟩
    exact ⟨hc, of_decide_eq_true hp⟩
  · rintro ⟨hc, hp⟩
    -- No place before holds the predicate, since none comes twice.
    refine ⟨hc, decide_eq_true hp, fun j hj hjp => hj.ne ?_⟩
    exact r.nodup_predicates.getElem_inj_iff.1 ((of_decide_eq_true hjp).trans hp.symm)

theorem map_code? (r : Registry) : r.predicates.map r.code? = (List.range r.size).map some := by
  refine List.ext_getElem (by simp [size]) fun i hi _ => ?_
  rw [List.length_map] at hi
  rw [List.getElem_map, List.getElem_map, List.getElem_range, code?_eq_some_iff,
    List.getElem?_eq_getElem hi]

/-- **A predicate keeps its code** when a registry is extended. -/
theorem code?_of_extend (h : r.extend ps = .ok r') (hp : p ∈ r.predicates) :
    r'.code? p = r.code? p := by
  obtain ⟨c, hc, rfl⟩ := List.mem_iff_getElem.1 hp
  have hkept : r'.predicates[c]? = some r.predicates[c] :=
    List.prefix_iff_getElem?.1 (prefix_of_extend h) c hc
  rw [code?_eq_some_iff.2 hkept, code?_eq_some_iff.2 (List.getElem?_eq_getElem hc)]

theorem isSome_find?_iff : (r.find? name).isSome ↔ name ∈ r.names := by
  simp only [Option.isSome_iff_exists, find?_eq_some_iff, names, List.mem_map]

theorem fetch_eq_ok_iff : r.fetch (.value (.text name)) = .ok p ↔ r.find? name = some p := by
  have hlookup : r.lookup (.value (.text name)) = .ok (r.find? name) := rfl
  rw [fetch, hlookup]
  cases r.find? name with
  | none => exact iff_of_false (fun h => by cases h) (Option.some_ne_none p).symm
  | some q => exact Except.pure_eq_ok_iff.trans Option.some_inj.symm

theorem same_int_iff {m n : ℤ} : (Item.int m).same (.int n) ↔ m = n := by
  show decide (Same (Value.int m) (Value.int n)) = true ↔ _
  rw [decide_eq_true_eq]
  exact ⟨Value.int.inj, congrArg Value.int⟩

/-- What is declared by the name and the arity of a predicate is that predicate. -/
theorem filter_find?_eq_some_iff :
    ((r.find? p.name).filter fun q => (Item.int q.arity).same (.int p.arity)) = some q ↔
      p ∈ r.predicates ∧ q = p := by
  rw [Option.filter_eq_some_iff, find?_eq_some_iff, same_int_iff]
  constructor
  · rintro ⟨⟨hq, hname⟩, harity⟩
    obtain rfl := Predicate.eq_of_not_conflicts (fun h => h.2 harity) hname
    exact ⟨hq, rfl⟩
  · rintro ⟨hp, rfl⟩
    exact ⟨⟨hp, rfl⟩, rfl⟩

theorem codeOf_eq_ok_iff : r.codeOf (.value (.text p.name)) (.int p.arity) = .ok c ↔
    r.code? p = some c := by
  have hdeclared : r.declared? (.value (.text p.name)) (.int p.arity) =
      .ok ((r.find? p.name).filter fun q => (Item.int q.arity).same (.int p.arity)) := rfl
  have hbind : ((r.find? p.name).filter fun q => (Item.int q.arity).same (.int p.arity)).bind
      r.code? = r.code? p := by
    ext code
    rw [Option.bind_eq_some_iff]
    simp only [filter_find?_eq_some_iff, code?_eq_some_iff]
    constructor
    · rintro ⟨_, ⟨-, rfl⟩, hc⟩
      exact hc
    · intro hc
      exact ⟨p, ⟨List.mem_of_getElem? hc, rfl⟩, hc⟩
  have hkey : discard (Item.int p.arity).key = .ok () := rfl
  rw [codeOf, hkey, hdeclared]
  simp only [bind, Except.bind, hbind]
  cases r.code? p with
  | none => exact iff_of_false (fun h => by cases h) (Option.some_ne_none c).symm
  | some code => exact Except.pure_eq_ok_iff.trans Option.some_inj.symm

end Registry

/-! ## Registration with tables -/

/-- **The tables that registration fills**: the predicates by their names, and in order. -/
structure Tables where
  byName : List (String × Predicate)
  order : List Predicate

namespace Tables

/-- Registers one more predicate, which is looked up by its name. -/
def add (t : Tables) (p : Predicate) : Except RegistryFault Tables :=
  if !isIdentifier (trimBlanks p.name) then .error (.notIdentifier p.name)
  else if p.arity < 0 then .error (.negativeArity p.name)
  else
    match t.byName.lookup p.name with
    | some q => if q = p then .ok t else .error (.arityConflict p.name q.arity)
    | none => .ok ⟨t.byName ++ [(p.name, p)], t.order ++ [p]⟩

/-- Registers predicates one by one in tables that are empty at first. -/
def ofList (ps : List Predicate) : Except RegistryFault Tables := ps.foldlM add ⟨[], []⟩

/-- Tables are not added to: what they hold is registered anew, and then what comes. -/
def extend (t : Tables) (ps : List Predicate) : Except RegistryFault Tables := ofList (t.order ++ ps)

/-- The codes, which are numbered when all predicates are registered. -/
def codes (t : Tables) : List (Predicate × ℕ) := t.order.zipIdx

end Tables

namespace Registry

/-- The tables of a registry. -/
def tables (r : Registry) : Tables := ⟨r.predicates.map fun p => (p.name, p), r.predicates⟩

theorem lookup_byName (r : Registry) (name : String) :
    r.tables.byName.lookup name = r.find? name := by
  have hnames : (r.tables.byName.map Prod.fst).Nodup := by
    rw [tables, List.map_map]
    exact r.names_nodup
  ext p
  rw [List.lookup_eq_some_iff_mem hnames, find?_eq_some_iff, tables, List.mem_map]
  constructor
  · rintro ⟨q, hq, ⟨⟩⟩
    exact ⟨hq, rfl⟩
  · rintro ⟨hp, rfl⟩
    exact ⟨p, hp, rfl⟩

theorem lookup_codes (r : Registry) (p : Predicate) : r.tables.codes.lookup p = r.code? p := by
  have hnodup : (r.tables.codes.map Prod.fst).Nodup := by
    rw [Tables.codes, List.zipIdx_map_fst]
    exact r.nodup_predicates
  ext c
  rw [List.lookup_eq_some_iff_mem hnodup, code?_eq_some_iff]
  exact List.mk_mem_zipIdx_iff_getElem?

/-- One registration does to the tables what it does to the registry. -/
theorem tables_add (r : Registry) (p : Predicate) : r.tables.add p = tables <$> r.add p := by
  -- The lookup of the registry decides which case it is, so its side comes first.
  symm
  unfold Tables.add add
  split
  · rfl
  · split
    · rfl
    · split
      · next q hq =>
        rw [(lookup_byName r _).trans hq]
        by_cases h : q = p
        · simp only [if_pos h]
          rfl
        · simp only [if_neg h]
          rfl
      · next hnone =>
        rw [(lookup_byName r _).trans hnone]
        show Except.ok (tables _) = _
        rw [tables, List.map_append]
        rfl

theorem tables_foldlM (r : Registry) (ps : List Predicate) :
    ps.foldlM Tables.add r.tables = tables <$> r.extend ps := by
  induction ps generalizing r with
  | nil => rfl
  | cons p ps ih =>
    rw [List.foldlM_cons, extend_cons, tables_add]
    cases h : r.add p with
    | error e => rfl
    | ok s => exact ih s

/-- **Registration fills the tables of the registry**, and fails where it does and as it does. -/
theorem tables_ofList (ps : List Predicate) : Tables.ofList ps = tables <$> ofList ps :=
  tables_foldlM empty ps

/-- Tables are extended as the registry is, whose predicates are registered anew. -/
theorem tables_extend (h : ∀ p ∈ r.predicates, p.Registrable) (ps : List Predicate) :
    r.tables.extend ps = tables <$> r.extend ps := by
  rw [extend_eq_ofList h]
  exact tables_ofList (r.predicates ++ ps)

/-! ## Registration as a whole -/

/-- **All tables and lookups say what the list of predicates says.** -/
structure Coherent (r : Registry) : Prop where
  names_nodup : r.names.Nodup
  codes : r.predicates.map r.code? = (List.range r.size).map some
  code : ∀ p c, r.code? p = some c ↔ r.predicates[c]? = some p
  codeOf : ∀ p c, r.codeOf (.value (.text p.name)) (.int p.arity) = .ok c ↔
    r.predicates[c]? = some p
  get : ∀ name p, r.find? name = some p ↔ p ∈ r.predicates ∧ p.name = name
  fetch : ∀ name p, r.fetch (.value (.text name)) = .ok p ↔ p ∈ r.predicates ∧ p.name = name
  has : ∀ p, r.has p ↔ p ∈ r.predicates
  hasName : ∀ name, (r.find? name).isSome ↔ name ∈ r.names
  tableOfNames : ∀ name, r.tables.byName.lookup name = r.find? name
  tableOfCodes : ∀ p, r.tables.codes.lookup p = r.code? p

theorem coherent (r : Registry) : r.Coherent where
  names_nodup := r.names_nodup
  codes := r.map_code?
  code _ _ := code?_eq_some_iff
  codeOf _ _ := codeOf_eq_ok_iff.trans code?_eq_some_iff
  get _ _ := find?_eq_some_iff
  fetch _ _ := fetch_eq_ok_iff.trans find?_eq_some_iff
  has _ := has_iff_mem
  hasName _ := isSome_find?_iff
  tableOfNames := r.lookup_byName
  tableOfCodes := r.lookup_codes

/-- **Registration as a whole.** A registry is extended in parts as in one go; what it holds keeps its
place and code, and all lookups agree with the order. A list makes a registry unless one of its
predicates is not registrable or two conflict, and the order is that in which they come first. The
same holds of the items that stand for predicates, and where tables are filled from the start each
time. -/
theorem extend_exact (r : Registry) (a b : List Predicate) :
    ((r.extend a >>= fun r' => r'.extend b) = r.extend (a ++ b)) ∧
    (∀ r', r.extend a = .ok r' → r.predicates <+: r'.predicates ∧
      ∀ p ∈ r.predicates, r'.code? p = r.code? p) ∧
    r.Coherent ∧
    ((∃ e, ofList a = .error e) ↔
      (∃ p ∈ a, ¬ p.Registrable) ∨ ∃ p ∈ a, ∃ q ∈ a, p.Conflicts q) ∧
    (∀ r', ofList a = .ok r' → r'.predicates = a.eraseDups) ∧
    Tables.ofList a = tables <$> ofList a ∧
    (∀ ps, ofList ps = .ok r → r.tables.extend a = tables <$> r.extend a) ∧
    ∀ items, items.mapM Item.predicate = .ok a →
      r.registerAll (.list items) = (r.extend a).mapError .registration :=
  ⟨(extend_append r a b).symm, fun _ h => ⟨prefix_of_extend h, fun _ => code?_of_extend h⟩,
    r.coherent, exists_ofList_error_iff, fun _ => predicates_of_extend, tables_ofList a,
    fun _ h => tables_extend (registrable_of_ofList h) a, fun _ => registerAll_list⟩

end Registry

end RuleDiagram
