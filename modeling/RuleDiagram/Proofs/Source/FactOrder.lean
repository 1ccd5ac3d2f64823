import Mathlib.Data.List.Sort
import Mathlib.Data.String.Basic
import RuleDiagram.Proofs.Run.FactPattern
import RuleDiagram.Proofs.Source.RoundTrip
import RuleDiagram.Proofs.Source.Unambiguous

/-!
# The order of facts is canonical

Facts are put in order by their predicates' names and then by what is written of them. The written
form is cut into tokens in one way only, and its tokens derive from one list of phrases, so two
facts at the same place of this order are one fact. What comes out of sorting therefore depends on
nothing but which facts are given, and how often.

## Main definitions

* `Fact.NoLater`: the order of facts

## Main results

* `Fact.eq_of_written`: a fact is told by its predicate's name and its written form
* `pairwise_of_sortFacts`, `Fact.NoLater.antisymm`: sorted facts are in order, without ties
* `sortFacts_canonical`: a list of facts and its permutations are sorted alike
-/

namespace RuleDiagram

variable {f g : Fact} {v : Value} {vs : List Value} {xs ys zs ws : List Fact} {text : String}

/-! ## What is written of a fact -/

theorem Value.writable_of_written (h : v.written = .ok text) : v.Writable := by
  cases v with
  | text s => exact trivial
  | bool b => exact trivial
  | int n =>
    obtain ⟨digits, hdigits, -⟩ := Except.bind_eq_ok_iff.1 h
    exact (writtenInteger_eq_ok_iff.1 hdigits).1
  | float x =>
    by_contra hx
    have herror : (float x).written = .error ⟨float x⟩ := if_neg hx
    cases herror.symm.trans h
  | absent => cases h

/-- The written values of a fact spell the tokens of constants that can be written. -/
theorem spelled_of_mapM_written {texts : List String} (h : vs.mapM Value.written = .ok texts) :
    (∀ t ∈ vs.map Term.constant, t.Writable) ∧
      Spelled (", ".intercalate texts) (termsFaces (vs.map Term.constant)) := by
  have hall := List.mapM_eq_ok_iff.1 h
  constructor
  · intro t ht
    obtain ⟨v, hv, rfl⟩ := List.mem_map.1 ht
    obtain ⟨text, -, htext⟩ := List.exists_right_of_forall₂ hall hv
    exact Value.writable_of_written htext
  · refine spelled_intercalate (List.forall₂_map_left_iff.2 (hall.imp fun v text htext => ?_))
    obtain ⟨text', htext', hspelled⟩ := v.exists_written (Value.writable_of_written htext)
    obtain rfl : text = text' := Except.ok.inj (htext.symm.trans htext')
    exact hspelled

/-- A text spells one list of tokens only. -/
theorem Spelled.faces_unique {faces faces' : List Face} (h : Spelled text faces)
    (h' : Spelled text faces') : faces = faces' := by
  have hspells {faces : List Face} (h : Spelled text faces) : Spells text.toList faces := by
    simpa using h [] [] (fun c hc => nomatch hc) .nil
  obtain ⟨ts, hts, rfl⟩ := exists_tokenize_of_spells (hspells h)
  obtain ⟨ts', hts', rfl⟩ := exists_tokenize_of_spells (hspells h')
  obtain rfl : ts = ts' := Except.ok.inj (hts.symm.trans hts')
  rfl

/-- Terms are told by the tokens that they are written with. -/
theorem eq_of_termsFaces_eq {ts us : List Term} (hts : ∀ t ∈ ts, t.Writable)
    (hus : ∀ t ∈ us, t.Writable) (h : termsFaces ts = termsFaces us) : ts = us := by
  obtain ⟨phrases, hfaces, hread⟩ := exists_phrases hts
  obtain ⟨phrases', hfaces', hread'⟩ := exists_phrases hus
  have hclosed : TermPhrase.listFaces phrases ++ markFace ")" :: [] =
      TermPhrase.listFaces phrases' ++ markFace ")" :: [] := by
    rw [hfaces, hfaces', h]
  obtain ⟨rfl, -⟩ := TermPhrase.eq_of_listFaces_append hclosed
  exact Option.some.inj (hread.symm.trans hread')

/-- **A fact is told by its predicate's name and its written form.** -/
theorem Fact.eq_of_written (hname : f.predicate.name = g.predicate.name)
    (hf : f.written = .ok text) (hg : g.written = .ok text) : f = g := by
  obtain ⟨texts, htexts, hf⟩ := Except.bind_eq_ok_iff.1 hf
  obtain ⟨texts', htexts', hg⟩ := Except.bind_eq_ok_iff.1 hg
  -- Without the name and the brackets, the written values are left.
  have hinner : ", ".intercalate texts = ", ".intercalate texts' := by
    have hchars := congrArg String.toList (Except.ok.inj (hf.trans hg.symm))
    rw [hname] at hchars
    simp only [String.toList_append, List.append_assoc] at hchars
    exact String.ext (List.append_cancel_right
      (List.append_cancel_left (List.append_cancel_left hchars)))
  obtain ⟨hwritable, hspelled⟩ := spelled_of_mapM_written htexts
  obtain ⟨hwritable', hspelled'⟩ := spelled_of_mapM_written htexts'
  rw [hinner] at hspelled
  have hvalues : f.values = g.values :=
    List.map_injective_iff.2 (fun _ _ => Term.constant.inj)
      (eq_of_termsFaces_eq hwritable hwritable' (hspelled.faces_unique hspelled'))
  -- The arity is the number of values.
  have harity : f.predicate.arity = g.predicate.arity := by
    rw [← f.length_values, ← g.length_values, hvalues]
  obtain ⟨⟨name, arity⟩, values, hlength⟩ := f
  obtain ⟨⟨name', arity'⟩, values', hlength'⟩ := g
  cases hname
  cases harity
  cases hvalues
  rfl

/-! ## The order -/

theorem FactKey.le_iff {a b : FactKey} :
    a.le b ↔ a.name < b.name ∨ a.name = b.name ∧ ¬ b.text < a.text := by
  simp [le]

theorem FactKey.le_trans {a b c : FactKey} (hab : a.le b) (hbc : b.le c) : a.le c := by
  rw [le_iff] at *
  rcases hab with hab | ⟨hab, htext⟩
  · rcases hbc with hbc | ⟨hbc, -⟩
    · exact .inl (hab.trans hbc)
    · exact .inl (hbc ▸ hab)
  · rcases hbc with hbc | ⟨hbc, htext'⟩
    · exact .inl (hab ▸ hbc)
    · exact .inr ⟨hab.trans hbc, not_lt.2 ((not_lt.1 htext).trans (not_lt.1 htext'))⟩

theorem FactKey.le_total (a b : FactKey) : a.le b ∨ b.le a := by
  rw [le_iff, le_iff]
  rcases lt_trichotomy a.name b.name with h | h | h
  · exact .inl (.inl h)
  · rcases lt_or_ge b.text a.text with htext | htext
    · exact .inr (.inr ⟨h.symm, htext.not_gt⟩)
    · exact .inl (.inr ⟨h, htext.not_gt⟩)
  · exact .inr (.inl h)

theorem FactKey.le_antisymm {a b : FactKey} (hab : a.le b) (hba : b.le a) :
    a.name = b.name ∧ a.text = b.text := by
  rw [le_iff] at *
  rcases hab with hab | ⟨hname, htext⟩
  · rcases hba with hba | ⟨hname, -⟩
    · exact absurd hba hab.not_gt
    · exact absurd hname hab.ne'
  · rcases hba with hba | ⟨-, htext'⟩
    · exact absurd hname hba.ne'
    · exact ⟨hname, (not_lt.1 htext).antisymm (not_lt.1 htext')⟩

/-- **The order of facts**: the names of their predicates come first, then what is written of
them. -/
def Fact.NoLater (f g : Fact) : Prop :=
  ∃ s t, f.written = .ok s ∧ g.written = .ok t ∧
    FactKey.le ⟨f.predicate.name, s⟩ ⟨g.predicate.name, t⟩

/-- Different facts do not share a place in the order. -/
theorem Fact.NoLater.antisymm (hfg : f.NoLater g) (hgf : g.NoLater f) : f = g := by
  obtain ⟨s, t, hs, ht, hle⟩ := hfg
  obtain ⟨t', s', ht', hs', hle'⟩ := hgf
  obtain rfl : s = s' := Except.ok.inj (hs.symm.trans hs')
  obtain rfl : t = t' := Except.ok.inj (ht.symm.trans ht')
  obtain ⟨hname, rfl⟩ : f.predicate.name = g.predicate.name ∧ s = t := FactKey.le_antisymm hle hle'
  exact eq_of_written hname hs ht

/-- Sorted facts are in order. -/
theorem pairwise_of_sortFacts (h : sortFacts xs = .ok zs) : zs.Pairwise Fact.NoLater := by
  obtain ⟨keyed, hkeyed, h⟩ := Except.bind_eq_ok_iff.1 h
  obtain rfl := Except.pure_eq_ok_iff.1 h
  -- Each fact goes with the key that is made of it.
  have hkey : ∀ k ∈ keyed, ∃ text, k.2.written = .ok text ∧ k.1 = ⟨k.2.predicate.name, text⟩ := by
    intro k hk
    obtain ⟨f, -, hf⟩ := List.exists_left_of_forall₂ (List.mapM_eq_ok_iff.1 hkeyed) hk
    obtain ⟨text, htext, hf⟩ := Except.bind_eq_ok_iff.1 hf
    obtain rfl := Except.pure_eq_ok_iff.1 hf
    exact ⟨text, htext, rfl⟩
  have hsorted : (keyed.mergeSort fun a b => a.1.le b.1).Pairwise fun a b => a.1.le b.1 := by
    apply List.pairwise_mergeSort
    · exact fun _ _ _ => FactKey.le_trans
    · exact fun a b => Bool.or_eq_true_iff.2 (FactKey.le_total a.1 b.1)
  rw [List.pairwise_map]
  refine hsorted.imp_of_mem ?_
  intro a b ha hb hle
  obtain ⟨s, hs, hsa⟩ := hkey a (List.mem_mergeSort.1 ha)
  obtain ⟨t, ht, htb⟩ := hkey b (List.mem_mergeSort.1 hb)
  refine ⟨s, t, hs, ht, ?_⟩
  rw [← hsa, ← htb]
  exact hle

/-- Permuted lists are sorted alike. -/
theorem sortFacts_eq_of_perm (hperm : xs.Perm ys) (hxs : sortFacts xs = .ok zs)
    (hys : sortFacts ys = .ok ws) : zs = ws :=
  List.Perm.eq_of_pairwise (fun _ _ _ _ => Fact.NoLater.antisymm) (pairwise_of_sortFacts hxs)
    (pairwise_of_sortFacts hys)
    ((perm_of_sortFacts hxs).trans (hperm.trans (perm_of_sortFacts hys).symm))

/-- **The order of facts is canonical**: a list of facts whose values are texts, truth values,
integers that can be written, and finite numbers has a sorted form, which holds the same facts in
order and is the sorted form of every permutation of the list. Two facts whose predicates share
their name are one fact if what is written of them is the same. -/
theorem sortFacts_canonical (hperm : xs.Perm ys)
    (hvalues : ∀ f ∈ xs, ∀ v ∈ f.values, v.IsFinite)
    (hintegers : ∀ f ∈ xs, ∀ z, .int z ∈ f.values → z.natAbs < 10 ^ digitLimit) :
    (∃ zs, sortFacts xs = .ok zs ∧ sortFacts ys = .ok zs ∧ zs.Perm xs ∧ zs.Pairwise Fact.NoLater) ∧
      ∀ (f g : Fact) (text : String), f.predicate.name = g.predicate.name →
        f.written = .ok text → g.written = .ok text → f = g := by
  have htextual : ∀ f ∈ xs, f.Textual := fun f hf v hv =>
    have hwritable := (hvalues f hf v hv).writable fun z hz => hintegers f hf z (hz ▸ hv)
    (v.exists_written hwritable).imp fun _ h => h.1
  obtain ⟨zs, hzs⟩ := (writes_sortFacts xs).exists_ok htextual
  obtain ⟨ws, hws⟩ := (writes_sortFacts ys).exists_ok fun f hf => htextual f (hperm.mem_iff.2 hf)
  obtain rfl := sortFacts_eq_of_perm hperm hzs hws
  exact ⟨⟨zs, hzs, hws, perm_of_sortFacts hzs, pairwise_of_sortFacts hzs⟩,
    fun _ _ _ => Fact.eq_of_written⟩

namespace Confusable

/-- The predicates of all facts have one name. -/
def near (vs : List Value) : Fact := ⟨⟨"near", vs.length⟩, vs, rfl⟩

/-- Four of the facts hold the same number, the others hold texts that look like numbers, truth
values and arguments; one occurs twice. -/
def facts : List Fact :=
  [near [.int 0], near [.float .zero], near [.float (Binary64.neg .zero)], near [.bool false],
    near [.text "false"], near [.text "0"], near [.int 0], near [.text "a, :b"],
    near [.text "a", .text "b"]]

/-- The facts are sorted alike from either end. -/
theorem sortFacts_facts : facts.Perm facts.reverse ∧
    (∀ f ∈ facts, ∀ v ∈ f.values, v.IsFinite) ∧
    (∀ f ∈ facts, ∀ z, .int z ∈ f.values → z.natAbs < 10 ^ digitLimit) ∧
    ∃ zs, sortFacts facts = .ok zs ∧ sortFacts facts.reverse = .ok zs ∧ zs.Perm facts := by
  have hperm : facts.Perm facts.reverse := facts.reverse_perm.symm
  have hfinite : Binary64.zero.isFinite ∧ (Binary64.neg .zero).isFinite := by decide +kernel
  have hvalues : ∀ f ∈ facts, ∀ v ∈ f.values, v.IsFinite := by
    simp [facts, near, Value.IsFinite, hfinite]
  have hintegers : ∀ f ∈ facts, ∀ z, .int z ∈ f.values → z.natAbs < 10 ^ digitLimit := by
    intro f hf z hz
    have hzero : z = 0 := by
      have hlist : .int z ∈ facts.flatMap Fact.values := List.mem_flatMap.2 ⟨f, hf, hz⟩
      simpa [facts, near] using hlist
    rw [hzero]
    exact Nat.pow_pos (by decide)
  obtain ⟨⟨zs, hzs, hzs', hkept, -⟩, -⟩ := sortFacts_canonical hperm hvalues hintegers
  exact ⟨hperm, hvalues, hintegers, zs, hzs, hzs', hkept⟩

/-- Integers with too many digits cannot be written, so facts that hold them cannot be sorted. -/
theorem not_forall_sortFacts : ¬ ∀ xs ys : List Fact, xs.Perm ys →
    (∀ f ∈ xs, ∀ v ∈ f.values, v.IsFinite) →
    ∃ zs ws, sortFacts xs = .ok zs ∧ sortFacts ys = .ok ws ∧ Same zs ws := by
  intro h
  obtain ⟨zs, -, hzs, -⟩ := h [near [.int (10 ^ digitLimit : Nat)]] _ (.refl _)
    (List.forall_mem_singleton.2 (List.forall_mem_singleton.2 trivial))
  obtain ⟨text, htext⟩ := (writes_sortFacts _).textual zs hzs _ List.mem_cons_self _
    List.mem_cons_self
  have hlt := Value.writable_of_written htext
  rw [Value.Writable, Int.natAbs_natCast] at hlt
  exact absurd hlt (Nat.lt_irrefl _)

end Confusable

end RuleDiagram
