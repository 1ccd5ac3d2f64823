import RuleDiagram.Diagram.Basic
import RuleDiagram.Proofs.Number.Text
import RuleDiagram.Proofs.Text.Readable

/-!
# A diagram is told by its description

The description under the digest of a diagram spells out every part of it, each in front of a comma
or a closing bracket. Numbers of different types are written differently, texts are quoted, and a
record begins with its name, so part by part the description settles the diagram. What it does not
settle is which undefined number stood there.

## Main definitions

* `Value.IsDefined`, `Diagram.IsDefined`: no constant is an undefined number
* `Diagram.occurrences`: the constants of a diagram, as they are spelled

## Main results

* `readable_described` for values, terms, patterns and nodes
* `Diagram.injOn_described`: different diagrams have different descriptions
-/

namespace RuleDiagram

/-! ## Floating-point numbers -/

namespace Binary64

variable {x : Binary64} {c : Char}

/-- The characters of the text of a finite number. -/
theorem isDigit_or_mem_of_mem_text (hx : x.isFinite) (hc : c ∈ x.text.toList) :
    c.isDigit ∨ c ∈ ['-', '+', '.', 'e'] := by
  obtain ⟨m, hm, -, htext, -⟩ := exists_numeral hx
  rw [htext, String.toList_ofList] at hc
  simp only [NumeralParts.chars, List.mem_append] at hc
  rcases hc with hsign | hwhole | hfraction | hexponent
  · unfold NumeralParts.signChars at hsign
    split at hsign
    · exact .inr (List.mem_of_mem_head? (by rw [List.mem_singleton.1 hsign]; rfl))
    · cases hsign
  · exact .inl (hm.whole c hwhole)
  · unfold NumeralParts.fractionChars at hfraction
    split at hfraction
    · cases hfraction
    · rcases List.mem_cons.1 hfraction with rfl | hdigit
      · exact .inr (by decide)
      · exact .inl (hm.fraction c hdigit)
  · obtain ⟨-, he⟩ | ⟨negative, digits, hparts, he⟩ := m.exponentChars_cases
    · rw [he] at hexponent
      cases hexponent
    · rw [he] at hexponent
      rcases List.mem_cons.1 hexponent with rfl | hexponent
      · exact .inr (by decide)
      rcases List.mem_cons.1 hexponent with rfl | hdigit
      · exact .inr (by cases negative <;> decide)
      · exact .inl ((hm.exponent negative digits hparts).2 c hdigit)

theorem exists_eq_infinity (hdefined : x.isUndefined = false) (hx : ¬ x.isFinite) :
    ∃ negative, x = infinity negative := by
  obtain ⟨negative, code, hcode⟩ := x
  have hle : infinityCode ≤ code := Nat.le_of_not_lt fun h => hx (decide_eq_true h)
  have hge : code ≤ infinityCode := Nat.le_of_not_lt (of_decide_eq_false hdefined)
  obtain rfl := Nat.le_antisymm hge hle
  exact ⟨negative, rfl⟩

theorem text_infinity (negative : Bool) :
    (infinity negative).text = if negative then "-inf" else "inf" := by
  cases negative <;> decide +kernel

/-- **The characters of the text of a number**: none of them is a capital, and one of them is
neither a digit nor a sign. -/
theorem text_chars (hx : x.isUndefined = false) :
    (∀ c ∈ x.text.toList, c.isDigit ∨ c ∈ ['-', '+', '.', 'e', 'i', 'n', 'f']) ∧
      ∃ c ∈ x.text.toList, c ∈ ['.', 'e', 'i'] := by
  by_cases hfinite : x.isFinite
  · refine ⟨fun c hc => ?_, ?_⟩
    · exact (isDigit_or_mem_of_mem_text hfinite hc).imp_right fun h =>
        List.mem_append_left ['i', 'n', 'f'] h
    · -- A numeral without fraction and exponent would be an integer.
      obtain ⟨m, -, hreal, htext, -⟩ := exists_numeral hfinite
      rw [htext, String.toList_ofList]
      by_cases hfraction : m.fraction = []
      · obtain ⟨hnone, -⟩ | ⟨negative, digits, -, he⟩ := m.exponentChars_cases
        · exact absurd ⟨hfraction, hnone⟩ hreal
        · exact ⟨'e', by simp [NumeralParts.chars, he], by decide⟩
      · exact ⟨'.', by simp [NumeralParts.chars, NumeralParts.fractionChars, hfraction], by decide⟩
  · obtain ⟨negative, rfl⟩ := exists_eq_infinity hx hfinite
    rw [text_infinity]
    cases negative <;> simp

/-- **Different numbers have different texts.** -/
theorem injOn_text : Set.InjOn text {x | x.isUndefined = false} := by
  have hinfinite {x : Binary64} (hx : x.isFinite) (negative : Bool) :
      x.text ≠ (infinity negative).text := by
    intro h
    have hi : 'i' ∈ x.text.toList := by
      rw [h, text_infinity]
      cases negative <;> decide
    exact absurd (isDigit_or_mem_of_mem_text hx hi) (by decide)
  intro x hx y hy h
  by_cases hfinite : x.isFinite <;> by_cases hfinite' : y.isFinite
  · have hread := congrArg floatOf h
    rwa [floatOf_text hfinite, floatOf_text hfinite'] at hread
  · obtain ⟨negative, rfl⟩ := exists_eq_infinity hy hfinite'
    exact absurd h (hinfinite hfinite negative)
  · obtain ⟨negative, rfl⟩ := exists_eq_infinity hx hfinite
    exact absurd h.symm (hinfinite hfinite' negative)
  · -- Of infinite numbers the sign is left.
    obtain ⟨negative, rfl⟩ := exists_eq_infinity hx hfinite
    obtain ⟨negative', rfl⟩ := exists_eq_infinity hy hfinite'
    rw [text_infinity, text_infinity] at h
    revert h
    cases negative <;> cases negative' <;> decide

end Binary64

/-! ## Values -/

namespace Value

variable {v w : Value}

/-- The value is not an undefined number. -/
def IsDefined : Value → Prop
  | float x => x.isUndefined = false
  | _ => True

/-- The kind of a value: names, integers, floating-point numbers, texts. -/
def kind : Value → Nat
  | bool _ | absent => 0
  | int _ => 1
  | float _ => 2
  | text _ => 3

/-- The kind that characters without quotes tell: names begin with a capital, and integers have
digits and a minus sign only. -/
def plainKind (cs : List Char) : Nat :=
  if 'T' ∈ cs ∨ 'F' ∈ cs ∨ 'N' ∈ cs then 0
  else if ∀ c ∈ cs, c.isDigit ∨ c = '-' then 1
  else 2

theorem plainKind_described (hv : v.IsDefined) (htext : v.kind ≠ 3) :
    plainKind v.described.toList = v.kind := by
  cases v with
  | text s => exact absurd rfl htext
  | bool b => cases b <;> rfl
  | absent => rfl
  | int n =>
    rw [described, plainKind, if_neg, if_pos fun c => isDigit_or_eq_minus]
    · rfl
    · rintro (h | h | h)
      all_goals exact absurd (isDigit_or_eq_minus h) (by decide)
  | float x =>
    obtain ⟨hchars, c, hc, hmark⟩ := Binary64.text_chars hv
    rw [described, plainKind, if_neg, if_neg]
    · rfl
    · intro h
      have hboth := h c hc
      simp only [List.mem_cons, List.not_mem_nil, or_false] at hmark
      rcases hmark with rfl | rfl | rfl
      all_goals exact absurd hboth (by decide)
    · rintro (h | h | h)
      all_goals exact absurd (hchars _ h) (by decide)

/-- Without quotes, no commas and brackets occur either. -/
theorem isPlain_of_mem_described {c : Char} (hv : v.IsDefined) (htext : v.kind ≠ 3)
    (hc : c ∈ v.described.toList) : isPlain c ∧ c ≠ singleQuote ∧ c ≠ '"' := by
  have hdigit (h : c.isDigit) : isPlain c ∧ c ≠ singleQuote ∧ c ≠ '"' := by
    refine ⟨isPlain_of_isDigit h, ?_, ?_⟩
    all_goals
      rintro rfl
      exact absurd h (by decide)
  have hmember {cs : List Char} (h : c ∈ cs)
      (hcs : cs.all fun c => isPlain c && decide (c ≠ singleQuote) && decide (c ≠ '"')) :
      isPlain c ∧ c ≠ singleQuote ∧ c ≠ '"' := by
    simpa [and_assoc] using List.all_eq_true.1 hcs c h
  cases v with
  | text s => exact absurd rfl htext
  | bool b => cases b <;> exact hmember hc rfl
  | absent => exact hmember hc rfl
  | int n =>
    rcases isDigit_or_eq_minus hc with h | rfl
    · exact hdigit h
    · decide
  | float x =>
    rcases (Binary64.text_chars hv).1 c hc with h | h
    · exact hdigit h
    · exact hmember h rfl

/-- Values other than texts differ in their descriptions. -/
theorem injOn_described : Set.InjOn described {v | v.IsDefined ∧ v.kind ≠ 3} := by
  intro v hv w hw h
  have hkind : v.kind = w.kind := by
    rw [← plainKind_described hv.1 hv.2, h, plainKind_described hw.1 hw.2]
  cases v <;> cases w <;> try cases hkind
  case text.text => exact absurd rfl hv.2
  case bool.bool b b' => revert h; cases b <;> cases b' <;> decide
  case bool.absent b => revert h; cases b <;> decide
  case absent.bool b => revert h; cases b <;> decide
  case absent.absent => rfl
  case int.int m n => exact congrArg int (integerText_injective h)
  case float.float x y => exact congrArg float (Binary64.injOn_text hv.1 hw.1 h)

/-- Only a text begins with a quote. -/
theorem head_described_append {c : Char} {xs : List Char} (hv : v.IsDefined) (htext : v.kind ≠ 3)
    (hxs : Closes xs) (h : (v.described.toList ++ xs).head? = some c) :
    c ≠ singleQuote ∧ c ≠ '"' := by
  rw [List.head?_append] at h
  cases hhead : v.described.toList.head? with
  | none =>
    rw [hhead, Option.none_or] at h
    obtain hxs | hxs := hxs
    all_goals
      rw [hxs] at h
      cases h
      decide
  | some d =>
    rw [hhead] at h
    cases h
    exact (isPlain_of_mem_described hv htext (List.mem_of_mem_head? hhead)).2

/-- **Values are told apart by their descriptions**, but for undefined numbers. -/
theorem readable_described : Readable {v | v.IsDefined} described := by
  have hplain : Readable {v | v.IsDefined ∧ v.kind ≠ 3} described :=
    readable_of_injOn (fun v hv c hc => (isPlain_of_mem_described hv.1 hv.2 hc).1) injOn_described
  have hquote {s : String} {v : Value} {xs ys : List Char} (hv : v.IsDefined)
      (htext : v.kind ≠ 3) (hys : Closes ys) :
      (literal s).toList ++ xs ≠ v.described.toList ++ ys := by
    rw [toList_literal, List.cons_append]
    intro h
    obtain ⟨hsingle, hdouble⟩ :=
      head_described_append hv htext hys (congrArg List.head? h).symm
    exact (literalQuote_cases s.toList).elim hsingle hdouble
  have hcases (v : Value) : v.kind ≠ 3 ∨ ∃ s, v = text s := by
    cases v with
    | text s => exact .inr ⟨s, rfl⟩
    | _ => exact .inl (by rintro ⟨⟩)
  intro v hv w hw xs ys hxs hys h
  obtain hv' | ⟨s, rfl⟩ := hcases v <;> obtain hw' | ⟨t, rfl⟩ := hcases w
  · exact hplain v ⟨hv, hv'⟩ w ⟨hw, hw'⟩ xs ys hxs hys h
  · exact absurd h.symm (hquote hv hv' hxs)
  · exact absurd h (hquote hw hw' hys)
  · obtain ⟨rfl, rfl⟩ := eq_of_literal_append h
    exact ⟨rfl, rfl⟩

end Value

/-! ## Terms and patterns -/

/-- The constant of a term, if it is one, is not an undefined number. -/
def Term.IsDefined (t : Term) : Prop := ∀ v, t.constant? = some v → v.IsDefined

theorem Term.toList_described (t : Term) : t.described.toList =
    match t with
    | constant v => "Constant(value=".toList ++ (v.described.toList ++ ")".toList)
    | reference r => "Reference(register=".toList ++ ((integerText r).toList ++ ")".toList)
    | free r => "Free(register=".toList ++ ((integerText r).toList ++ ")".toList) := by
  cases t
  all_goals
    show (_ ++ _ ++ _ : String).toList = _
    rw [String.toList_append, String.toList_append, List.append_assoc]

theorem Term.readable_described : Readable {t | t.IsDefined} described := by
  have hclose : Closes ")".toList := by simp [Closes]
  intro t ht u hu xs ys _ _ h
  cases t <;> cases u <;> simp only [toList_described, List.append_assoc] at h
  case constant.constant v w =>
    obtain ⟨rfl, rfl⟩ := Value.readable_described.eq_of_append hclose (ht v rfl) (hu w rfl)
      (List.append_cancel_left h)
    exact ⟨rfl, rfl⟩
  case reference.reference r q =>
    obtain ⟨rfl, rfl⟩ := readable_integerText.eq_of_append hclose trivial trivial
      (List.append_cancel_left h)
    exact ⟨rfl, rfl⟩
  case free.free r q =>
    obtain ⟨rfl, rfl⟩ := readable_integerText.eq_of_append hclose trivial trivial
      (List.append_cancel_left h)
    exact ⟨rfl, rfl⟩
  -- The names of the records begin with different characters.
  all_goals simp at h

/-- A part that may be missing is readable, if its text does not begin as the word for its absence
does. -/
theorem readable_getD_none {α : Type} {form : α → String} (hform : Readable Set.univ form)
    (hfirst : ∀ x, ∃ c, (form x).toList.head? = some c ∧ c ≠ 'N') :
    Readable Set.univ fun o : Option α => (o.map form).getD "None" := by
  have hnone (x : α) (xs ys : List Char) : "None".toList ++ xs ≠ (form x).toList ++ ys := by
    obtain ⟨c, hc, hne⟩ := hfirst x
    obtain ⟨cs, hcs⟩ := List.head?_eq_some_iff.1 hc
    have hword : "None".toList = ['N', 'o', 'n', 'e'] := by simp
    rw [hcs, hword]
    intro h
    exact hne (List.cons.inj h).1.symm
  intro o _ o' _ xs ys hxs hys h
  cases o with
  | none =>
    cases o' with
    | none => exact ⟨rfl, List.append_cancel_left h⟩
    | some y => exact absurd h (hnone y xs ys)
  | some x =>
    cases o' with
    | none => exact absurd h.symm (hnone x ys xs)
    | some y =>
      obtain ⟨rfl, hrest⟩ := hform x trivial y trivial xs ys hxs hys h
      exact ⟨rfl, hrest⟩

theorem Predicate.toList_described (p : Predicate) : p.described.toList =
    "Predicate(name=".toList ++ ((literal p.name).toList ++ (", arity=".toList ++
      ((integerText p.arity).toList ++ ")".toList))) := by
  show (_ ++ _ ++ _ ++ _ ++ _ : String).toList = _
  simp only [String.toList_append, List.append_assoc]

theorem Predicate.readable_described : Readable Set.univ described := by
  intro p _ q _ xs ys _ _ h
  obtain ⟨name, arity⟩ := p
  obtain ⟨name', arity'⟩ := q
  simp only [toList_described, List.append_assoc] at h
  obtain ⟨rfl, harity⟩ := readable_literal.eq_of_append (by simp [Closes]) trivial trivial
    (List.append_cancel_left h)
  obtain ⟨rfl, rfl⟩ := readable_integerText.eq_of_append (by simp [Closes]) trivial trivial harity
  exact ⟨rfl, rfl⟩

/-- No constant of the pattern is an undefined number. -/
def Pattern.IsDefined (p : Pattern) : Prop := ∀ v ∈ p.constants, v.IsDefined

theorem Pattern.IsDefined.term {p : Pattern} (hp : p.IsDefined) {t : Term} (ht : t ∈ p.terms) :
    t.IsDefined := fun v hv => hp v (List.mem_filterMap.2 ⟨t, ht, hv⟩)

theorem Pattern.toList_described (p : Pattern) : p.described.toList =
    "Pattern(predicate=".toList ++ (((p.predicate.map Predicate.described).getD "None").toList ++
      (", terms=".toList ++ ((tupleText (p.terms.map Term.described)).toList ++
        ")".toList))) := by
  show (_ ++ _ ++ _ ++ _ ++ _ : String).toList = _
  simp only [String.toList_append, List.append_assoc]

theorem Pattern.readable_described : Readable {p | p.IsDefined} described := by
  have hpredicate : Readable Set.univ fun o : Option Predicate =>
      (o.map Predicate.described).getD "None" := by
    refine readable_getD_none Predicate.readable_described fun q => ?_
    rw [Predicate.toList_described]
    exact ⟨'P', by simp, by decide⟩
  have hterms : Readable {ts : List Term | ∀ t ∈ ts, t ∈ {t : Term | t.IsDefined}}
      fun ts => tupleText (ts.map Term.described) := by
    refine readable_tupleText Term.readable_described fun t _ => ?_
    rw [Term.toList_described]
    cases t with
    | constant v => exact ⟨'C', by simp, by decide⟩
    | reference r => exact ⟨'R', by simp, by decide⟩
    | free r => exact ⟨'F', by simp, by decide⟩
  intro p hp q hq xs ys _ _ h
  have hps : ∀ t ∈ p.terms, t ∈ {t : Term | t.IsDefined} := fun t ht => hp.term ht
  have hqs : ∀ t ∈ q.terms, t ∈ {t : Term | t.IsDefined} := fun t ht => hq.term ht
  simp only [toList_described, List.append_assoc] at h
  obtain ⟨hpredicates, h⟩ := hpredicate.eq_of_append (by simp [Closes]) trivial trivial
    (List.append_cancel_left h)
  obtain ⟨hlists, rfl⟩ := hterms.eq_of_append (by simp [Closes]) hps hqs h
  obtain ⟨predicate, terms⟩ := p
  exact ⟨congrArg₂ Pattern.mk hpredicates hlists, rfl⟩

/-! ## Nodes and diagrams -/

theorem readable_describedIndex : Readable Set.univ describedIndex := by
  refine readable_getD_none readable_integerText fun z => ?_
  cases hhead : (integerText z).toList.head? with
  | none =>
    rw [List.head?_eq_none_iff, toList_integerText] at hhead
    split at hhead
    · cases hhead
    · exact absurd hhead Nat.toDigits_ne_nil
  | some c =>
    refine ⟨c, rfl, ?_⟩
    rintro rfl
    exact absurd (isDigit_or_eq_minus (List.mem_of_mem_head? hhead)) (by decide)

theorem Node.toList_described (n : Node) : n.described.toList =
    match n with
    | branch p m r => "Branch(pattern=".toList ++ (p.described.toList ++ (", match=".toList ++
        ((describedIndex m).toList ++ (", refute=".toList ++ ((describedIndex r).toList ++
          ")".toList)))))
    | leaf p => "Leaf(pattern=".toList ++ (p.described.toList ++ ")".toList) := by
  cases n with
  | branch p m r =>
    show (_ ++ _ ++ _ ++ _ ++ _ ++ _ ++ _ : String).toList = _
    simp only [String.toList_append, List.append_assoc]
  | leaf p =>
    show (_ ++ _ ++ _ : String).toList = _
    simp only [String.toList_append, List.append_assoc]

theorem Node.readable_described : Readable {n | n.pattern.IsDefined} described := by
  intro n hn n' hn' xs ys _ _ h
  cases n <;> cases n' <;> simp only [toList_described, List.append_assoc] at h
  case branch.branch p m r p' m' r' =>
    have hp : p ∈ {p : Pattern | p.IsDefined} := hn
    have hp' : p' ∈ {p : Pattern | p.IsDefined} := hn'
    obtain ⟨rfl, hmatch⟩ := Pattern.readable_described.eq_of_append (by simp [Closes]) hp hp'
      (List.append_cancel_left h)
    obtain ⟨rfl, hrefute⟩ := readable_describedIndex.eq_of_append (by simp [Closes]) trivial
      trivial hmatch
    obtain ⟨rfl, rfl⟩ := readable_describedIndex.eq_of_append (by simp [Closes]) trivial trivial
      hrefute
    exact ⟨rfl, rfl⟩
  case leaf.leaf p p' =>
    have hp : p ∈ {p : Pattern | p.IsDefined} := hn
    have hp' : p' ∈ {p : Pattern | p.IsDefined} := hn'
    obtain ⟨rfl, rfl⟩ := Pattern.readable_described.eq_of_append (by simp [Closes]) hp hp'
      (List.append_cancel_left h)
    exact ⟨rfl, rfl⟩
  all_goals simp at h

namespace Diagram

/-- The constants of all patterns in order, with repetitions. -/
def occurrences (d : Diagram) : List Value := d.nodes.flatMap fun n => n.pattern.constants

/-- No constant of the diagram is an undefined number. -/
def IsDefined (d : Diagram) : Prop := ∀ v ∈ d.occurrences, v.IsDefined

theorem IsDefined.pattern {d : Diagram} (hd : d.IsDefined) {n : Node} (hn : n ∈ d.nodes) :
    n.pattern.IsDefined := fun v hv => hd v (List.mem_flatMap.2 ⟨n, hn, hv⟩)

theorem toList_described (d : Diagram) : d.described.toList =
    "(".toList ++ ((integerText d.root).toList ++ (", ".toList ++
      ((tupleText (d.nodes.map Node.described)).toList ++ ")".toList))) := by
  show (_ ++ _ ++ _ ++ _ ++ _ : String).toList = _
  simp only [String.toList_append, List.append_assoc]

/-- **Different diagrams have different descriptions.** -/
theorem injOn_described : Set.InjOn described {d | d.IsDefined} := by
  have hnodes : Readable {ns : List Node | ∀ n ∈ ns, n ∈ {n : Node | n.pattern.IsDefined}}
      fun ns => tupleText (ns.map Node.described) := by
    refine readable_tupleText Node.readable_described fun n _ => ?_
    rw [Node.toList_described]
    cases n with
    | branch p m r => exact ⟨'B', by simp, by decide⟩
    | leaf p => exact ⟨'L', by simp, by decide⟩
  intro d hd e he h
  have hds : ∀ n ∈ d.nodes, n ∈ {n : Node | n.pattern.IsDefined} := fun n hn => hd.pattern hn
  have hes : ∀ n ∈ e.nodes, n ∈ {n : Node | n.pattern.IsDefined} := fun n hn => he.pattern hn
  have hchars := congrArg String.toList h
  rw [toList_described, toList_described] at hchars
  obtain ⟨hroots, hchars⟩ := readable_integerText.eq_of_append (by simp [Closes]) trivial trivial
    (List.append_cancel_left hchars)
  obtain ⟨hlists, -⟩ := hnodes _ hds _ hes _ _ (by simp [Closes]) (by simp [Closes]) hchars
  obtain ⟨nodes, root⟩ := d
  exact congrArg₂ Diagram.mk hlists hroots

end Diagram

end RuleDiagram
