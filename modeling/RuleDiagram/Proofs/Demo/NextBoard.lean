import RuleDiagram.Demo.NextBoard
import RuleDiagram.Proofs.Run.Detour
import RuleDiagram.Proofs.Run.FactPattern
import RuleDiagram.Proofs.Run.Safety

/-!
# What the next-board rule says of a position

A branch sends a snapshot on to its refute edge for each fact that does not match, and the facts of
a board are those of all its cells. So where the chosen cell is blank and another cell is described,
the rule not only puts the mark of the player into the chosen cell: the other cell refutes that the
chosen one is blank, and the cell is copied as well. On boards of one cell, and where the chosen
cell is occupied, the rule does what it is meant to.

## Main definitions

* `NextBoard.diagram`: the diagram of the rule
* `NextBoard.Position`: facts with one player, one move and at most one value for each cell
* `NextBoard.Elsewhere`: another cell is described

## Main results

* `NextBoard.mem_yield_iff`: what the rule yields on any facts
* `NextBoard.outputs_of_position`: what it emits in a position
-/

namespace RuleDiagram

open ListSet Diagram

namespace NextBoard

variable {facts : List Fact} {p r c v w x y : Value} {s : Snapshot} {f g : Fact} {limit : RoundLimit}

/-! ## Facts of the game -/

/-- It is the turn of a player, whatever stands for the player. -/
def turnOf (p : Value) : Fact := ⟨player, [p], rfl⟩

/-- A cell is chosen. -/
def choiceOf (r c : Value) : Fact := ⟨move, [r, c], rfl⟩

/-- A cell holds a value. -/
def cellOf (r c v : Value) : Fact := ⟨board, [r, c, v], rfl⟩

/-- A cell will hold a value. -/
def resultOf (r c v : Value) : Fact := ⟨next, [r, c, v], rfl⟩

/-- The value of a cell that is free. -/
def blank : Value := .text "blank"

theorem exists_turnOf (h : f.predicate = player) : ∃ p, f = turnOf p := by
  obtain ⟨_, values, hlen⟩ := f
  subst h
  obtain ⟨p, rfl⟩ := List.length_eq_one_iff.1 (Int.ofNat_inj.1 hlen)
  exact ⟨p, rfl⟩

theorem exists_choiceOf (h : f.predicate = move) : ∃ r c, f = choiceOf r c := by
  obtain ⟨_, values, hlen⟩ := f
  subst h
  obtain ⟨r, c, rfl⟩ := List.length_eq_two.1 (Int.ofNat_inj.1 hlen)
  exact ⟨r, c, rfl⟩

theorem exists_cellOf (h : f.predicate = board) : ∃ r c v, f = cellOf r c v := by
  obtain ⟨_, values, hlen⟩ := f
  subst h
  obtain ⟨r, c, v, rfl⟩ := List.length_eq_three.1 (Int.ofNat_inj.1 hlen)
  exact ⟨r, c, v, rfl⟩

/-! ## The diagram -/

/-- The diagram of the rule, node by node. -/
def diagram : Diagram :=
  ⟨[.branch ⟨some player, [.free 0]⟩ (some 1) none,
    .branch ⟨some move, [.free 1, .free 2]⟩ (some 2) none,
    .branch ⟨some board, [.reference 1, .reference 2, .constant blank]⟩ (some 3) (some 4),
    .leaf ⟨some next, [.reference 1, .reference 2, .reference 0]⟩,
    .branch ⟨some board, [.reference 1, .reference 2, .free 3]⟩ (some 5) none,
    .leaf ⟨some next, [.reference 1, .reference 2, .reference 3]⟩], 0⟩

theorem nextBoardDiagram?_eq : nextBoardDiagram? = some diagram := by decide +kernel

theorem wellFormed_diagram : diagram.WellFormed := by
  have hfault : diagram.fault? (some registry) = none := by decide +kernel
  exact wellFormed_of_fault?_eq_none hfault

/-- The round in which snapshots arrive at a node. -/
def rank (i : Int) : ℕ :=
  if i = 0 then 1 else if i = 1 then 2 else if i = 2 then 3 else if i = 3 ∨ i = 4 then 4 else 5

/-- No edge leads back, so all has arrived after as many rounds as the longest way has nodes. -/
theorem stable_diagram : diagram.Stable facts 5 := by
  have hroot : 1 ≤ rank diagram.root := by decide
  refine wellFormed_diagram.stable_of_rank hroot (fun k n hn => ?_) fun i => ?_
  · have hedges : ∀ k (h : k < diagram.nodes.length), ∀ j ∈ diagram.nodes[k].targets,
        rank k < rank j := by
      decide
    obtain ⟨hk, rfl⟩ := List.getElem?_eq_some_iff.1 hn
    exact hedges k hk
  · unfold rank
    split_ifs <;> omega

/-! ## What comes of a snapshot -/

/-- The registers of a snapshot hold the chosen cell. -/
def Knows (s : Snapshot) (r c : Value) : Prop := s.holds 1 r ∧ s.holds 2 c

theorem Knows.bind (h : Knows s r c) {i : Int} (h1 : 1 ≠ i) (h2 : 2 ≠ i) :
    Knows (s.bind i v) r c := by
  rwa [Knows, Snapshot.holds_bind_of_ne h1, Snapshot.holds_bind_of_ne h2]

/-- The pattern of a board fact, once the cell is chosen. -/
theorem unify_cell (h : Knows s r c) (t : Term) :
    unify [.reference 1, .reference 2, t] [x, y, v] s =
      if Same r x ∧ Same c y then t.unify v s else none := by
  have hx : s.holds 1 x ↔ Same r x := Snapshot.holds_iff_of_holds h.1
  have hy : s.holds 2 y ↔ Same c y := Snapshot.holds_iff_of_holds h.2
  by_cases hrow : Same r x
  · by_cases hcolumn : Same c y
    · simp [unify, Term.unify, hx.2 hrow, hy.2 hcolumn, hrow, hcolumn]
    · simp [unify, Term.unify, hx.2 hrow, hy.not.2 hcolumn, hcolumn]
  · simp [unify, Term.unify, hx.not.2 hrow, hrow]

theorem same_resultOf (hr : Same r x) (hc : Same c y) (hv : Same v w) :
    Same (resultOf r c v) (resultOf x y w) :=
  Fact.same_iff.2 ⟨rfl, .cons hr (.cons hc (.cons hv .nil))⟩

/-- A leaf that emits the chosen cell with the value of a register. -/
theorem produced_result {i j : Int} (h : Knows s r c) (hv : s.holds j v)
    (hn : diagram.node? i =
      some (.leaf ⟨some next, [.reference 1, .reference 2, .reference j]⟩)) :
    diagram.produced facts (some i) s = toSet [resultOf r c v] := by
  obtain ⟨x, hx, hxr⟩ := Snapshot.exists_get?_of_holds h.1
  obtain ⟨y, hy, hyc⟩ := Snapshot.exists_get?_of_holds h.2
  obtain ⟨w, hw, hwv⟩ := Snapshot.exists_get?_of_holds hv
  have hread {k : Int} {u : Value} (hu : s.get? k = some u) :
      (Term.reference k).instantiate s = .ok u :=
    Term.instantiate_eq_ok_iff.2 (.inr ⟨k, .inl rfl, hu⟩)
  have hemit : instantiate ⟨some next, [.reference 1, .reference 2, .reference j]⟩ s =
      .ok (resultOf x y w) :=
    instantiate_eq_ok_iff.2 ⟨rfl, .cons (hread hx) (.cons (hread hy) (.cons (hread hw) .nil))⟩
  have hsame : Same (resultOf x y w) (resultOf r c v) := same_resultOf hxr hyc hwv
  rw [produced_of_node hn, Node.relays_leaf]
  ext f
  rw [mem_toSet_singleton, ← same_congr_left hsame]
  constructor
  · rintro ⟨g, hg, hgf⟩
    exact Except.ok.inj (hemit.symm.trans hg) ▸ hgf
  · exact fun hf => ⟨_, hemit, hf⟩

/-! ## Facts up to sameness -/

theorem same_turnOf : Same (turnOf p) (turnOf w) ↔ Same p w := by
  simp [Fact.same_iff, turnOf]

theorem same_choiceOf : Same (choiceOf r c) (choiceOf x y) ↔ Same r x ∧ Same c y := by
  simp [Fact.same_iff, choiceOf]

theorem same_cellOf : Same (cellOf r c v) (cellOf x y w) ↔ Same r x ∧ Same c y ∧ Same v w := by
  simp [Fact.same_iff, cellOf]

theorem mem_toSet_cellOf : cellOf r c v ∈ toSet facts ↔
    ∃ x y w, cellOf x y w ∈ facts ∧ Same x r ∧ Same y c ∧ Same w v := by
  rw [mem_toSet]
  constructor
  · rintro ⟨g, hg, hsame⟩
    obtain ⟨x, y, w, rfl⟩ := exists_cellOf (Fact.same_iff.1 hsame).1
    exact ⟨x, y, w, hg, same_cellOf.1 hsame⟩
  · rintro ⟨x, y, w, hg, hsame⟩
    exact ⟨_, hg, same_cellOf.2 hsame⟩

/-! ## What the rule concludes -/

/-- The branch that copies the chosen cell. -/
theorem mem_produced_copy (h : Knows s r c) : f ∈ diagram.produced facts (some 4) s ↔
    ∃ v, cellOf r c v ∈ toSet facts ∧ Same (resultOf r c v) f := by
  rw [mem_produced_branch (q := board) rfl rfl]
  simp only [produced_none, Set.mem_empty_iff_false, and_false, or_false]
  constructor
  · rintro ⟨g, hg, hboard, u, hu, hf⟩
    obtain ⟨x, y, v, rfl⟩ := exists_cellOf hboard
    obtain ⟨⟨hx, hy⟩, hu⟩ := Option.ite_none_right_eq_some.1 ((unify_cell h _).symm.trans hu)
    obtain rfl := Option.some_inj.1 hu
    rw [produced_result (h.bind (by decide) (by decide)) Snapshot.holds_bind_self rfl] at hf
    exact ⟨v, mem_toSet_cellOf.2 ⟨x, y, v, hg, hx.symm, hy.symm, Same.refl v⟩,
      mem_toSet_singleton.1 hf⟩
  · rintro ⟨v, hv, hf⟩
    obtain ⟨x, y, w, hg, hx, hy, hw⟩ := mem_toSet_cellOf.1 hv
    refine ⟨cellOf x y w, hg, rfl, s.bind 3 w, ?_, ?_⟩
    · exact (unify_cell h _).trans (if_pos ⟨hx.symm, hy.symm⟩)
    · rw [produced_result (h.bind (by decide) (by decide)) Snapshot.holds_bind_self rfl,
        mem_toSet_singleton]
      exact (same_resultOf (Same.refl r) (Same.refl c) hw).trans hf

/-- **What the rule concludes of a cell** on the turn of a player: the mark of the player if the cell is
blank, and, if any fact of the board is another one than that, what the cell holds. -/
def conclusions (facts : List Fact) (p r c : Value) : Set Fact :=
  {f | cellOf r c blank ∈ toSet facts ∧ Same (resultOf r c p) f} ∪
    {f | (∃ g ∈ facts, g.predicate = board ∧ ¬ Same g (cellOf r c blank)) ∧
      ∃ v, cellOf r c v ∈ toSet facts ∧ Same (resultOf r c v) f}

/-- The pattern of a blank cell, once the cell is chosen. -/
theorem unify_blank (h : Knows s r c) (hboard : g.predicate = board) :
    unify [.reference 1, .reference 2, .constant blank] g.values s =
      if Same (cellOf r c blank) g then some s else none := by
  obtain ⟨x, y, v, rfl⟩ := exists_cellOf hboard
  have hunify := unify_cell (x := x) (y := y) (v := v) h (.constant blank)
  refine hunify.trans ?_
  by_cases hcell : Same r x ∧ Same c y
  · simp [Term.unify, same_cellOf, hcell]
  · rw [if_neg hcell, if_neg fun hsame => hcell ⟨(same_cellOf.1 hsame).1, (same_cellOf.1 hsame).2.1⟩]

/-- The branch that tests whether the chosen cell is blank. -/
theorem produced_test_blank (h : Knows s r c) (hp : s.holds 0 p) :
    diagram.produced facts (some 2) s = conclusions facts p r c := by
  ext f
  rw [mem_produced_branch (q := board) rfl rfl, mem_produced_copy h]
  refine or_congr ⟨?_, ?_⟩ (and_congr_left fun _ => exists_congr fun g => and_congr_right fun _ =>
    and_congr_right fun hboard => ?_)
  · -- A fact that matches is that the cell is blank, and the snapshot stays as it is.
    rintro ⟨g, hg, hboard, u, hu, hf⟩
    obtain ⟨hsame, hu⟩ := Option.ite_none_right_eq_some.1 ((unify_blank h hboard).symm.trans hu)
    obtain rfl := Option.some_inj.1 hu
    rw [produced_result h hp rfl, mem_toSet_singleton] at hf
    exact ⟨mem_toSet.2 ⟨g, hg, hsame.symm⟩, hf⟩
  · rintro ⟨hcell, hf⟩
    obtain ⟨g, hg, hsame⟩ := mem_toSet.1 hcell
    have hboard : g.predicate = board := (Fact.same_iff.1 hsame).1
    refine ⟨g, hg, hboard, s, (unify_blank h hboard).trans (if_pos hsame.symm), ?_⟩
    rwa [produced_result h hp rfl, mem_toSet_singleton]
  · rw [unify_blank h hboard, ite_eq_right_iff]
    exact ⟨fun hn hsame => (nomatch hn hsame.symm), fun hn hsame => absurd hsame.symm hn⟩

/-- The branch that takes the move. -/
theorem mem_produced_choice (hp : s.holds 0 p) : f ∈ diagram.produced facts (some 1) s ↔
    ∃ r c, choiceOf r c ∈ facts ∧ f ∈ conclusions facts p r c := by
  rw [mem_produced_branch (q := move) rfl rfl]
  simp only [produced_none, Set.mem_empty_iff_false, and_false, or_false]
  have hproduced (r c : Value) :
      diagram.produced facts (some 2) ((s.bind 1 r).bind 2 c) = conclusions facts p r c := by
    refine produced_test_blank ⟨?_, Snapshot.holds_bind_self⟩ ?_
    · rw [Snapshot.holds_bind_of_ne (by decide)]
      exact Snapshot.holds_bind_self
    · rwa [Snapshot.holds_bind_of_ne (by decide), Snapshot.holds_bind_of_ne (by decide)]
  constructor
  · rintro ⟨g, hg, hmove, u, hu, hf⟩
    obtain ⟨r, c, rfl⟩ := exists_choiceOf hmove
    obtain rfl := Option.some_inj.1 hu
    exact ⟨r, c, hg, hproduced r c ▸ hf⟩
  · rintro ⟨r, c, hg, hf⟩
    exact ⟨choiceOf r c, hg, rfl, _, rfl, (hproduced r c).symm ▸ hf⟩

/-- **What the rule yields on any facts**: its conclusions for every player and every move. -/
theorem mem_yield_iff : f ∈ diagram.yield facts ↔
    ∃ p r c, turnOf p ∈ facts ∧ choiceOf r c ∈ facts ∧ f ∈ conclusions facts p r c := by
  rw [yield_eq_produced, show diagram.root = 0 from rfl,
    mem_produced_branch (q := player) rfl rfl]
  simp only [produced_none, Set.mem_empty_iff_false, and_false, or_false]
  constructor
  · rintro ⟨g, hg, hplayer, u, hu, hf⟩
    obtain ⟨p, rfl⟩ := exists_turnOf hplayer
    obtain rfl := Option.some_inj.1 hu
    obtain ⟨r, c, hchoice, hf⟩ := (mem_produced_choice Snapshot.holds_bind_self).1 hf
    exact ⟨p, r, c, hg, hchoice, hf⟩
  · rintro ⟨p, r, c, hturn, hchoice, hf⟩
    exact ⟨turnOf p, hturn, rfl, _, rfl,
      (mem_produced_choice Snapshot.holds_bind_self).2 ⟨r, c, hchoice, hf⟩⟩

/-! ## Positions -/

/-- **A position**: one player, one move, and a board that gives each cell at most one value, the
chosen cell among them. -/
structure Position (facts : List Fact) (p r c v : Value) : Prop where
  turn : turnOf p ∈ toSet facts
  turn_unique : ∀ f ∈ facts, f.predicate = player → Same f (turnOf p)
  choice : choiceOf r c ∈ toSet facts
  choice_unique : ∀ f ∈ facts, f.predicate = move → Same f (choiceOf r c)
  held : cellOf r c v ∈ toSet facts
  single : ∀ f ∈ facts, ∀ g ∈ facts, f.predicate = board → g.predicate = board →
    Same (f.values.take 2) (g.values.take 2) → Same f g

/-- The board describes another cell than the one in the row `r` and the column `c`. -/
def Elsewhere (facts : List Fact) (r c : Value) : Prop :=
  ∃ f ∈ facts, f.predicate = board ∧ ¬ Same (f.values.take 2) [r, c]

theorem conclusions_subset (hp : Same p w) (hr : Same r x) (hc : Same c y) :
    conclusions facts p r c ⊆ conclusions facts w x y := by
  have hcell {u v : Value} (huv : Same u v) : Same (cellOf r c u) (cellOf x y v) :=
    same_cellOf.2 ⟨hr, hc, huv⟩
  rintro f (⟨hblank, hf⟩ | ⟨⟨g, hg, hboard, hother⟩, u, hu, hf⟩)
  · exact .inl ⟨mem_toSet_of_same (hcell (Same.refl _)) hblank, (same_resultOf hr hc hp).symm.trans hf⟩
  · refine .inr ⟨⟨g, hg, hboard, fun hsame => hother (hsame.trans (hcell (Same.refl _)).symm)⟩,
      u, mem_toSet_of_same (hcell (Same.refl u)) hu, ?_⟩
    exact (same_resultOf hr hc (Same.refl u)).symm.trans hf

namespace Position

/-- In a position the rule takes the one move of the one player. -/
theorem yield_eq (h : Position facts p r c v) :
    diagram.yield facts = conclusions facts p r c := by
  ext f
  rw [mem_yield_iff]
  constructor
  · rintro ⟨w, x, y, hturn, hchoice, hf⟩
    have hp : Same w p := same_turnOf.1 (h.turn_unique _ hturn rfl)
    obtain ⟨hr, hc⟩ := same_choiceOf.1 (h.choice_unique _ hchoice rfl)
    exact conclusions_subset hp hr hc hf
  · intro hf
    obtain ⟨g, hturn, hp⟩ := mem_toSet.1 h.turn
    obtain ⟨k, hchoice, hrc⟩ := mem_toSet.1 h.choice
    obtain ⟨w, rfl⟩ := exists_turnOf (Fact.same_iff.1 hp).1
    obtain ⟨x, y, rfl⟩ := exists_choiceOf (Fact.same_iff.1 hrc).1
    obtain ⟨hr, hc⟩ := same_choiceOf.1 hrc
    exact ⟨w, x, y, hturn, hchoice,
      conclusions_subset (same_turnOf.1 hp).symm hr.symm hc.symm hf⟩

theorem same_of_take (h : Position facts p r c v) (hf : f ∈ facts) (hboard : f.predicate = board)
    (hsame : Same (f.values.take 2) [r, c]) : Same f (cellOf r c v) := by
  obtain ⟨x, y, w, hg, hxr, hyc, hwv⟩ := mem_toSet_cellOf.1 h.held
  have htake : Same [r, c] [x, y] := same_list_iff.2 (.cons hxr.symm (.cons hyc.symm .nil))
  exact (h.single f hf _ hg hboard rfl (hsame.trans htake)).trans (same_cellOf.2 ⟨hxr, hyc, hwv⟩)

/-- The chosen cell holds its value and no other. -/
theorem held_iff (h : Position facts p r c v) : cellOf r c w ∈ toSet facts ↔ Same v w := by
  constructor
  · intro hw
    obtain ⟨x, y, u, hg, hxr, hyc, huw⟩ := mem_toSet_cellOf.1 hw
    have hsame := h.same_of_take hg rfl (same_list_iff.2 (.cons hxr (.cons hyc .nil)))
    exact (same_cellOf.1 hsame).2.2.symm.trans huw
  · intro hvw
    exact mem_toSet_of_same (same_cellOf.2 ⟨Same.refl r, Same.refl c, hvw⟩) h.held

/-- Some fact of the board refutes that the chosen cell is blank, if the cell is occupied or another
one is described. -/
theorem exists_refuting_iff (h : Position facts p r c v) :
    (∃ g ∈ facts, g.predicate = board ∧ ¬ Same g (cellOf r c blank)) ↔
      ¬ Same v blank ∨ Elsewhere facts r c := by
  constructor
  · rintro ⟨g, hg, hboard, hother⟩
    by_cases htake : Same (g.values.take 2) [r, c]
    · refine .inl fun hblank => hother ((h.same_of_take hg hboard htake).trans ?_)
      exact same_cellOf.2 ⟨Same.refl r, Same.refl c, hblank⟩
    · exact .inr ⟨g, hg, hboard, htake⟩
  · rintro (hblank | ⟨g, hg, hboard, htake⟩)
    · obtain ⟨g, hg, hsame⟩ := mem_toSet.1 h.held
      exact ⟨g, hg, (Fact.same_iff.1 hsame).1,
        fun hsame' => hblank (same_cellOf.1 (hsame.symm.trans hsame')).2.2⟩
    · refine ⟨g, hg, hboard, fun hsame => htake ?_⟩
      obtain ⟨x, y, w, rfl⟩ := exists_cellOf hboard
      obtain ⟨hx, hy, -⟩ := same_cellOf.1 hsame
      exact same_list_iff.2 (.cons hx (.cons hy .nil))

/-- What the rule concludes in a position. -/
theorem mem_conclusions (h : Position facts p r c v) : f ∈ conclusions facts p r c ↔
    (Same v blank ∧ Same (resultOf r c p) f) ∨
      (¬ Same v blank ∨ Elsewhere facts r c) ∧ Same (resultOf r c v) f := by
  refine or_congr (and_congr_left fun _ => h.held_iff) (and_congr h.exists_refuting_iff ?_)
  constructor
  · rintro ⟨w, hw, hf⟩
    exact (same_resultOf (Same.refl r) (Same.refl c) (h.held_iff.1 hw)).trans hf
  · exact fun hf => ⟨v, h.held, hf⟩

end Position

/-- **What the rule emits in a position**, whatever else the facts say: where the chosen cell is
occupied, the cell as it is; where it is blank, the mark of the player, and, as soon as the board
describes any other cell, the blank cell as well. Five rounds are enough. -/
theorem outputs_of_position (h : Position facts p r c v) (hlimit : 5 ≤ limit.rounds) :
    ∃ d e, nextBoardDiagram? = some d ∧ d.evaluate facts limit = .ok e ∧
      (¬ Same v blank → ListSet.equal e.outputs [resultOf r c v]) ∧
      (Same v blank → ¬ Elsewhere facts r c → ListSet.equal e.outputs [resultOf r c p]) ∧
      (Same v blank → Elsewhere facts r c →
        ListSet.equal e.outputs [resultOf r c p, resultOf r c v]) := by
  obtain ⟨e, he⟩ :=
    (wellFormed_diagram.unhindered facts).exists_evaluate_eq_ok hlimit stable_diagram
  have hmem (f : Fact) : f ∈ toSet e.outputs ↔ f ∈ conclusions facts p r c := by
    rw [(settled_of_evaluate_eq_ok he).toSet_outputs, h.yield_eq]
  refine ⟨diagram, e, nextBoardDiagram?_eq, he, fun hblank => ?_, fun hblank hnone => ?_,
    fun hblank hsome => ?_⟩ <;>
  · rw [equal_iff]
    ext f
    rw [hmem, h.mem_conclusions]
    simp [mem_toSet, *]

/-- A move into a blank cell while another cell is occupied. -/
def occupiedElsewhere : List Fact :=
  [turn "x", choice 3 3, cell 3 3 "blank", cell 1 1 "o"]

theorem position_occupiedElsewhere :
    Position occupiedElsewhere (.text "x") (.int 3) (.int 3) blank where
  turn := has_iff.1 (by decide)
  turn_unique := by decide
  choice := has_iff.1 (by decide)
  choice_unique := by decide
  held := has_iff.1 (by decide)
  single := by decide

/-- The cell comes out as marked and as blank. -/
theorem outputs_occupiedElsewhere : 5 ≤ RoundLimit.standard.rounds ∧
    ∃ d e, nextBoardDiagram? = some d ∧ d.evaluate occupiedElsewhere .standard = .ok e ∧
      ListSet.equal e.outputs [result 3 3 "x", result 3 3 "blank"] := by
  have hlimit : 5 ≤ RoundLimit.standard.rounds := by decide
  have helsewhere : Elsewhere occupiedElsewhere (.int 3) (.int 3) :=
    ⟨cell 1 1 "o", by decide, rfl, by decide⟩
  obtain ⟨d, e, hd, he, -, -, hboth⟩ := outputs_of_position position_occupiedElsewhere hlimit
  exact ⟨hlimit, d, e, hd, he, hboth (Same.refl blank) helsewhere⟩

/-- So it is not so that a blank cell always gets the mark of the player and nothing else is
said. -/
theorem not_forall_move_applied : ¬ ∀ facts p r c v, Position facts p r c v →
    ∃ d e, nextBoardDiagram? = some d ∧ d.evaluate facts .standard = .ok e ∧
      ListSet.equal e.outputs [resultOf r c (if Same v blank then p else v)] := by
  intro h
  obtain ⟨d, e, hd, he, hout⟩ := h _ _ _ _ _ position_occupiedElsewhere
  obtain rfl := Option.some_inj.1 (nextBoardDiagram?_eq.symm.trans hd)
  have hblank : (diagram.evaluate occupiedElsewhere .standard).toOption.any fun e =>
      !ListSet.equal e.outputs [resultOf (.int 3) (.int 3) (.text "x")] := by
    decide
  obtain ⟨e', he', hother⟩ := Except.exists_of_any_toOption hblank
  obtain rfl := Except.ok.inj (he.symm.trans he')
  rw [if_pos (Same.refl blank)] at hout
  simp [hout] at hother

end NextBoard

end RuleDiagram
