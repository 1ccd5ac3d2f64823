import RuleDiagram.Proofs.Diagram.WellFormed
import RuleDiagram.Proofs.Predicate
import RuleDiagram.Proofs.Source.Printer

/-!
# A diagram comes back from its source

The source of a diagram has one line per node, labelled by its index, the line of the root by its
role. These labels are words and no two of them are the same. So the lines are those of a phrase:
each is a body that describes its node, in its place, and each label leads to the index that it was
made of.

## Main definitions

* `Diagram.lines`: the nodes with their labels

## Main results

* `Diagram.label_injective`: a label names one node
* `Diagram.exists_written`: the source of a diagram spells its lines
* `Diagram.exists_phrase`: the lines of a diagram are those of a phrase that describes it
* `parse_written`: a well-formed diagram comes back from its source
-/

namespace RuleDiagram

variable {d : Diagram} {n : Node} {registry : Registry} {i j : Int}

/-! ## Labels -/

namespace Diagram

theorem label_of_ne_root (h : i ≠ d.root) : d.label i = "n" ++ integerText i := if_neg h

theorem toList_label_of_ne_root (h : i ≠ d.root) (hi : 0 ≤ i) :
    (d.label i).toList = 'n' :: Nat.toDigits 10 i.natAbs := by
  rw [label_of_ne_root h, String.toList_append, toList_integerText, if_neg (Int.not_lt.2 hi)]
  rfl

theorem isWord_label (hi : 0 ≤ i) : isWord (d.label i) := by
  by_cases h : i = d.root
  · rw [label, if_pos h]
    decide
  · have hstart : isWordStart 'n' := by decide
    have hdigits : ∀ c ∈ Nat.toDigits 10 i.natAbs, isWordPart c := by
      intro c hc
      simp [isWordPart, Char.isAlphanum, isDigit_of_mem_toDigits hc]
    rw [isWord, toList_label_of_ne_root h hi]
    simpa [hstart] using hdigits

/-- **A label names one node.** -/
theorem label_injective (hi : 0 ≤ i) (hj : 0 ≤ j) (h : d.label i = d.label j) : i = j := by
  -- The label of the root has another letter in front than those of all other nodes.
  have hroot {k : Int} (hk : 0 ≤ k) (hne : k ≠ d.root) : d.label k ≠ "root" := by
    intro heq
    have hlist := congrArg String.toList heq
    rw [toList_label_of_ne_root hne hk] at hlist
    cases hlist
  by_cases hri : i = d.root
  · by_cases hrj : j = d.root
    · rw [hri, hrj]
    · exact absurd (h.symm.trans (if_pos hri)) (hroot hj hrj)
  · by_cases hrj : j = d.root
    · exact absurd (h.trans (if_pos hrj)) (hroot hi hri)
    · -- Two labels with numbers: the digits stand for the indices.
      have hlist := congrArg String.toList h
      rw [toList_label_of_ne_root hri hi, toList_label_of_ne_root hrj hj, List.cons.injEq] at hlist
      have habs := congrArg naturalOfDigits hlist.2
      rw [naturalOfDigits_toDigits, naturalOfDigits_toDigits] at habs
      omega

/-- The nodes with their labels, in order. -/
def lines (d : Diagram) : List (String × Node) := d.nodes.zipIdx.map fun (n, i) => (d.label i, n)

theorem map_snd_lines : d.lines.map Prod.snd = d.nodes := by
  rw [lines, List.map_map]
  exact List.zipIdx_map_fst 0 d.nodes

theorem nodup_labels : (d.lines.map Prod.fst).Nodup := by
  have hmap : d.lines.map Prod.fst =
      (d.nodes.zipIdx.map Prod.snd).map fun i : Nat => d.label i := by
    rw [lines, List.map_map, List.map_map]
    rfl
  rw [hmap, List.zipIdx_map_snd]
  refine List.Nodup.map (fun i j h => ?_) List.nodup_range'
  exact Int.ofNat_inj.1 (label_injective (Int.natCast_nonneg i) (Int.natCast_nonneg j) h)

end Diagram

/-! ## Writing -/

theorem Node.has_of_shapeFault? {q : Predicate} (h : n.shapeFault? (some registry) = none)
    (hq : n.pattern.predicate = some q) : registry.has q :=
  Registry.has_iff_mem.2 ((shapeFault?_eq_none_iff.1 h).2.1 q registry hq rfl)

/-- **A node that validation accepts can be written**, if its terms can. -/
theorem Node.writable_of_fault?_eq_none {size : Nat} (h : n.fault? (some registry) size = none)
    (hterms : ∀ t ∈ n.pattern.terms, t.Writable) : n.Writable registry := by
  obtain ⟨-, -, hshape⟩ := Node.fault?_eq_none_iff.1 h
  refine ⟨hterms, fun q hq => Node.has_of_shapeFault? hshape hq, fun hnone => ?_⟩
  have hfits := Node.fits_of_shapeFault? hshape
  rw [Pattern.Fits, hnone] at hfits
  refine ⟨?_, hfits⟩
  cases n with
  | branch p m r => rfl
  | leaf p => exact absurd hnone (Node.leaf_of_shapeFault? hshape).1

/-- The terms of a node that validation accepts can be written, if its integers can. -/
theorem Term.writable_of_fault?_eq_none {size : Nat} (h : n.fault? (some registry) size = none)
    (hconstants : ∀ v ∈ n.pattern.constants, v.Writable)
    (hregisters : ∀ r ∈ n.pattern.registers, r.natAbs < 10 ^ digitLimit) :
    ∀ t ∈ n.pattern.terms, t.Writable := by
  intro t ht
  have hfault := (Node.fault?_eq_none_iff.1 h).2.1 t ht
  cases t with
  | constant v => exact hconstants v (List.mem_filterMap.2 ⟨_, ht, rfl⟩)
  | reference r =>
    exact ⟨Term.fault?_eq_none_iff.1 hfault r (.inl rfl),
      hregisters r (Pattern.mem_registers.2 (.inl ht))⟩
  | free r =>
    exact ⟨Term.fault?_eq_none_iff.1 hfault r (.inr rfl),
      hregisters r (Pattern.mem_registers.2 (.inr ht))⟩

/-- **The source of a diagram spells its lines.** -/
theorem Diagram.exists_written
    (hwords : ∀ n ∈ d.nodes, ∀ q, n.pattern.predicate = some q → isWord q.name)
    (hnodes : ∀ n ∈ d.nodes, n.Writable registry)
    (htargets : ∀ n ∈ d.nodes, ∀ t ∈ n.targets, 0 ≤ t) :
    ∃ text, d.written = .ok text ∧ Spells text.toList (linesFaces d.label d.lines) := by
  obtain ⟨texts, htexts⟩ := List.exists_forall₂ fun (x : Node × Nat) (hx : x ∈ d.nodes.zipIdx) =>
    have hn := List.fst_mem_of_mem_zipIdx hx
    Diagram.exists_nodeText (hnodes x.1 hn) (hwords x.1 hn) (isWord_label (Int.natCast_nonneg x.2))
      fun t ht => isWord_label (htargets x.1 hn t ht)
  have hmapM := List.mapM_eq_ok_iff.2 (htexts.imp fun x text h => h.1)
  refine ⟨unlines texts, ?_, ?_⟩
  · rw [written, hmapM]
    rfl
  · have hspelled : List.Forall₂ (fun line text => Spelled text line)
        (d.nodes.zipIdx.map fun x => (.word, d.label x.2) :: markFace ":" :: x.1.faces d.label)
        texts := List.forall₂_map_left_iff.2 (htexts.imp fun x text h => h.2)
    have h := spells_unlines hspelled
    rwa [linesFaces, lines, List.flatMap_map, List.flatMap_def]

/-! ## Reading back -/

/-- **A label leads to the node that it was made of.** -/
theorem Diagram.leads_label {source : ProgramPhrase} (h : inRange d.size i)
    (hgiven : source.given = d.lines.map fun l => some l.1) :
    ∃ k : Nat, source.given[k]? = some (some (d.label i)) ∧ i = k := by
  obtain ⟨hnonneg, hlt⟩ := inRange_iff.1 h
  have hlength : i.toNat < d.nodes.length := by
    have hsize : d.size = d.nodes.length := rfl
    omega
  refine ⟨i.toNat, ?_, (Int.toNat_of_nonneg hnonneg).symm⟩
  rw [hgiven]
  simp [lines, hlength, Int.toNat_of_nonneg hnonneg]

/-- **The lines of a diagram are those of a phrase that describes it.** -/
theorem Diagram.exists_phrase (hroot : inRange d.size d.root)
    (htargets : ∀ n ∈ d.nodes, ∀ t ∈ n.targets, inRange d.size t)
    (hnodes : ∀ n ∈ d.nodes, n.Writable registry) :
    ∃ source : ProgramPhrase, source.faces = linesFaces d.label d.lines ∧ source.labels.Nodup ∧
      source.Describes registry d := by
  have hlines {P : Node → Prop} (h : ∀ n ∈ d.nodes, P n) : ∀ l ∈ d.lines, P l.2 := fun l hl =>
    h l.2 (map_snd_lines ▸ List.mem_map_of_mem hl)
  obtain ⟨source, hfaces, hgiven, hbodies⟩ := exists_phrase_of_lines d.label (hlines hnodes)
  have hleads (i : Int) (hi : inRange d.size i) (index : Nat) :
      (ArmPhrase.label (d.label i)).Leads source index (some i) := by
    obtain ⟨k, hk, rfl⟩ := leads_label hi hgiven
    exact ⟨k, hk, rfl⟩
  refine ⟨source, hfaces, ?_, ?_, .inl ?_⟩
  · rw [← ProgramPhrase.filterMap_given, hgiven, List.filterMap_map]
    exact congrFun List.filterMap_eq_map d.lines ▸ nodup_labels
  · -- The bodies hold no others, so what they describe does not depend on their indices.
    have htargets := hlines htargets
    have hnodes := hbodies source fun l hl t ht index => hleads t (htargets l hl t ht) index
    rw [← List.zipIdx_map_fst 0 source.bodies, List.forall₂_map_left_iff] at hnodes
    rw [← map_snd_lines, List.forall₂_map_right_iff]
    exact hnodes.imp fun x l h => h x.2
  · have hlabel : d.label d.root = "root" := if_pos rfl
    exact hlabel ▸ leads_label hroot hgiven

/-- **A well-formed diagram whose nodes can be written comes back from its source**, if the names of
its predicates are words. -/
theorem exists_written_parse (hd : d.validate (some registry) = .ok d)
    (hwords : ∀ n ∈ d.nodes, ∀ q, n.pattern.predicate = some q → isWord q.name)
    (hwritable : ∀ n ∈ d.nodes, n.Writable registry) :
    ∃ text, d.written = .ok text ∧ parse registry text = .ok d := by
  have hfault := (Diagram.validate_eq_ok_iff.1 hd).1
  obtain ⟨-, hroot, -, -⟩ := Diagram.fault?_eq_none_iff.1 hfault
  have htargets := (Diagram.wellFormed_of_fault?_eq_none hfault).targets
  -- The source spells the lines and is cut into their tokens, which a phrase derives.
  obtain ⟨text, hwritten, hspells⟩ := Diagram.exists_written hwords hwritable
    fun n hn t ht => (inRange_iff.1 (htargets n hn t ht)).1
  obtain ⟨ts, htokens, hfaces⟩ := exists_tokenize_of_spells hspells
  obtain ⟨source, hsource, hnodup, hdescribes⟩ := Diagram.exists_phrase hroot htargets hwritable
  exact ⟨text, hwritten, parse_eq_ok_iff.2 ⟨ts, htokens, source, hsource.trans hfaces.symm, hnodup,
    hdescribes, hd⟩⟩

/-- A text, a truth value or a finite number. -/
def Value.IsFinite : Value → Prop
  | .text _ => True
  | .bool _ => True
  | .int _ => True
  | .float x => x.isFinite
  | .absent => False

theorem Value.IsFinite.writable {v : Value} (h : v.IsFinite)
    (hint : ∀ z, v = .int z → z.natAbs < 10 ^ digitLimit) : v.Writable := by
  cases v with
  | int z => exact hint z rfl
  | _ => exact h

/-- **A well-formed diagram comes back from its source**, with its nodes in order, its root, its
edges and each constant with its type, if none of its integers and registers has more digits than
are read and written. -/
theorem parse_written (hnames : ∀ q ∈ registry.predicates, isWord q.name)
    (hd : d.validate (some registry) = .ok d)
    (hconstants : ∀ n ∈ d.nodes, ∀ v ∈ n.pattern.constants, v.IsFinite)
    (hintegers : ∀ n ∈ d.nodes, ∀ z, .int z ∈ n.pattern.constants → z.natAbs < 10 ^ digitLimit)
    (hregisters : ∀ r ∈ d.registers, r.natAbs < 10 ^ digitLimit) :
    ∃ text, d.written = .ok text ∧ parse registry text = .ok d := by
  obtain ⟨-, -, hnodes, -⟩ := Diagram.fault?_eq_none_iff.1 (Diagram.validate_eq_ok_iff.1 hd).1
  refine exists_written_parse hd (fun n hn q hq => ?_) fun n hn =>
    Node.writable_of_fault?_eq_none (hnodes n hn) <| Term.writable_of_fault?_eq_none (hnodes n hn)
      (fun v hv => (hconstants n hn v hv).writable fun z hz => hintegers n hn z (hz ▸ hv))
      fun r hr => hregisters r (Diagram.mem_registers.2 ⟨n, hn, hr⟩)
  have hhas := Node.has_of_shapeFault? (Node.fault?_eq_none_iff.1 (hnodes n hn)).2.2 hq
  exact hnames q (Registry.has_iff_mem.1 hhas)

namespace Lookalike

def output : Predicate := ⟨"output", 4⟩
def signal : Predicate := ⟨"true", 0⟩

/-- Two predicates named like words of the language. -/
def vocabulary : Registry := ⟨[output, signal], by decide⟩

/-- A diagram whose names and texts look like other parts of a source; its root comes second. -/
def diagram : Diagram :=
  ⟨[.leaf ⟨some output, [.constant (.text "true"), .constant (.float ⟨true, 0, Nat.zero_le _⟩),
      .constant (.int (-12)), .reference 0]⟩,
    .branch ⟨some output, [.constant (.text "%0 <- _ \x7b\"1.5\"\x7d # \n"), .constant (.bool true),
      .constant (.text "1.5"), .free 0]⟩ (some 2) none,
    .branch .passThrough (some 3) (some 0),
    .branch ⟨some signal, []⟩ (some 0) none], 1⟩

/-- The diagram comes back from its source. -/
theorem parse_written_diagram : diagram.validate (some vocabulary) = .ok diagram ∧
    ∃ text, diagram.written = .ok text ∧ parse vocabulary text = .ok diagram := by
  have hvalid : diagram.validate (some vocabulary) = .ok diagram := rfl
  have hnames : ∀ q ∈ vocabulary.predicates, isWord q.name := by decide
  have hlist : diagram.nodes.flatMap (fun n => n.pattern.constants) =
      [.text "true", .float ⟨true, 0, Nat.zero_le _⟩, .int (-12),
        .text "%0 <- _ \x7b\"1.5\"\x7d # \n", .bool true, .text "1.5"] := rfl
  have hmem (n : Node) (hn : n ∈ diagram.nodes) (v : Value) (hv : v ∈ n.pattern.constants) :=
    hlist ▸ List.mem_flatMap.2 ⟨n, hn, hv⟩
  have hsmall {k : Nat} (h : k < 10 ^ 2) : k < 10 ^ digitLimit :=
    Nat.lt_of_lt_of_le h (Nat.pow_le_pow_right (by decide) (by decide))
  -- All constants and the one register are far below the bounds.
  refine ⟨hvalid, parse_written hnames hvalid (fun n hn v hv => ?_) (fun n hn z hz => ?_) ?_⟩
  · have hfinite : Binary64.isFinite ⟨true, 0, Nat.zero_le _⟩ := by decide +kernel
    have hv := hmem n hn v hv
    simp only [List.mem_cons, List.not_mem_nil, or_false] at hv
    obtain rfl | rfl | rfl | rfl | rfl | rfl := hv <;> first | exact trivial | exact hfinite
  · have hz : z = -12 := by simpa using hmem n hn _ hz
    exact hz ▸ hsmall (by decide)
  · have hregisters : diagram.registers = [0] := rfl
    rw [hregisters]
    exact List.forall_mem_singleton.2 (hsmall (by decide))

end Lookalike

/-! ## Integers with too many digits -/

namespace Overlong

def predicate : Predicate := ⟨"p", 1⟩

def vocabulary : Registry := ⟨[predicate], by decide⟩

/-- A leaf with one constant. -/
def leafOf (z : Int) : Diagram := ⟨[.leaf ⟨some predicate, [.constant (.int z)]⟩], 0⟩

/-- A leaf is written only if its integer has not too many digits. -/
theorem lt_of_written {z : Int} {text : String} (h : (leafOf z).written = .ok text) :
    z.natAbs < 10 ^ digitLimit := by
  cases hz : writtenInteger z with
  | ok digits => exact (writtenInteger_eq_ok_iff.1 hz).1
  | error f =>
    have hterm : Term.written (.constant (.int z)) = .error f := by
      rw [Term.written, Value.written, hz]
      rfl
    have herror : (leafOf z).written = .error f := by
      simp only [leafOf, Diagram.written, Diagram.nodeText, List.zipIdx_cons, List.zipIdx_nil,
        List.mapM_cons, Node.pattern, Pattern.written, hterm]
      rfl
    rw [herror] at h
    cases h

/-- Without the bound on integers not every well-formed diagram comes back from its source. -/
theorem not_forall_parse_written : ¬ ∀ (registry : Registry) (d : Diagram),
    (∀ q ∈ registry.predicates, isWord q.name) → d.validate (some registry) = .ok d →
    (∀ n ∈ d.nodes, ∀ v ∈ n.pattern.constants, v.IsFinite) →
    ∃ text, d.written = .ok text ∧ parse registry text = .ok d := by
  intro h
  have hvalid (z : Int) : (leafOf z).validate (some vocabulary) = .ok (leafOf z) := rfl
  obtain ⟨text, hwritten, -⟩ := h vocabulary (leafOf (10 ^ digitLimit : Nat)) (by decide)
    (hvalid _) (List.forall_mem_singleton.2 (List.forall_mem_singleton.2 trivial))
  have hlt := lt_of_written hwritten
  rw [Int.natAbs_natCast] at hlt
  exact absurd hlt (Nat.lt_irrefl _)

end Overlong

end RuleDiagram
