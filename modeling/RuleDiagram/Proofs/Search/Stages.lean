import RuleDiagram.Proofs.Diagram.WellFormed
import RuleDiagram.Proofs.Mutation.Site
import RuleDiagram.Proofs.Outcome
import RuleDiagram.Search.Evolution

/-!
# The stages of a search

The states of a search between its generations are its stages. A generation that runs to its end
leads from one stage to the next, and the offspring scored in it are told by the stage that it leads
to. A run that returns an individual has gone through stages: either it stops at the beginning of a
generation, at an individual that reproduces every example, or its generations are used up. A run
that fails does so in a generation that begins at a stage.

Nothing is assumed of the sources of random numbers, of a guide, or of the scorer.

## Main definitions

* `Evolver.scoredSeeds`, `Evolver.opening`: the seeds with their scores, and the first stage
* `Evolver.Breeds`: a generation, with the offspring scored in it
* `Evolver.Stage`: the states between generations
* `Evolver.Ends`: how a run ends

## Main results

* `Search.Grown`, `Evolver.grown_of_litter`: what breeding keeps of a state
* `Evolver.exists_stage_of_run_eq_ok`, `Evolver.exists_stage_of_run_eq_error`: every run goes
  through stages
-/

namespace RuleDiagram

variable {σ τ : Type}

/-- The card and the fitness are those that scoring gives for the diagram. -/
def Scoring.Rates (s : Scoring) (x : Individual) : Prop :=
  ∃ card, s.card x.diagram = .ok card ∧ x.card = some card ∧ x.fitness = some (.float card.fitness)

/-- The diagram passes validation. -/
def Individual.Valid (registry : Option Registry) (x : Individual) : Prop :=
  x.diagram.validate registry = .ok x.diagram

/-- A child bred in a generation: its diagram passes validation, and it belongs to the next
generation. -/
structure Individual.BredIn (registry : Option Registry) (number : Int) (x : Individual) :
    Prop where
  valid : x.Valid registry
  generation : x.generation = number + 1

/-- **What breeding keeps of a state.** The population and the record stay, and the signatures of
the new individuals, which had not been seen, are added to those seen. -/
structure Search.Grown (s s' : Search σ τ) (news : List Individual) : Prop where
  population : s'.population = s.population
  generation : s'.generation = s.generation
  progress : s'.progress = s.progress
  seen : s'.seen = s.seen ++ news.map Individual.signature
  nodup : s.seen.Nodup → s'.seen.Nodup

theorem Search.Grown.trans {s s' s'' : Search σ τ} {news others : List Individual}
    (h : s.Grown s' news) (h' : s'.Grown s'' others) : s.Grown s'' (news ++ others) where
  population := h'.population.trans h.population
  generation := h'.generation.trans h.generation
  progress := h'.progress.trans h.progress
  seen := by rw [h'.seen, h.seen, List.map_append, List.append_assoc]
  nodup hs := h'.nodup (h.nodup hs)

namespace Evolver

/-! ## Scores -/

section

variable {scoring : Scoring} {x y : Individual} {xs ys : List Individual}

theorem scored_eq_ok_iff : scored scoring x = .ok y ↔ ∃ card, scoring.card x.diagram = .ok card ∧
    { x with card := some card, fitness := some (.float card.fitness) } = y := by
  rw [scored, Except.bind_eq_ok_iff]
  simp only [Except.mapError_eq_ok_iff, Except.pure_eq_ok_iff]

theorem rates_of_scored (h : scored scoring x = .ok y) : scoring.Rates y := by
  obtain ⟨card, hcard, rfl⟩ := scored_eq_ok_iff.1 h
  exact ⟨card, hcard, rfl, rfl⟩

theorem diagram_of_scored (h : scored scoring x = .ok y) : y.diagram = x.diagram := by
  obtain ⟨card, -, rfl⟩ := scored_eq_ok_iff.1 h
  rfl

/-- Scores are put on individuals one by one, in their order. -/
theorem diagrams_of_mapM_scored (h : xs.mapM (scored scoring) = .ok ys) :
    ys.map Individual.diagram = xs.map Individual.diagram := by
  rw [List.mapM_eq_ok_iff] at h
  induction h with
  | nil => rfl
  | cons hxy _ ih => rw [List.map_cons, List.map_cons, ih, diagram_of_scored hxy]

theorem signatures_of_mapM_scored (h : xs.mapM (scored scoring) = .ok ys) :
    ys.map Individual.signature = xs.map Individual.signature := by
  have hdiagrams := congrArg (List.map Diagram.signature) (diagrams_of_mapM_scored h)
  rw [List.map_map, List.map_map] at hdiagrams
  exact hdiagrams

theorem rates_of_mapM_scored (h : xs.mapM (scored scoring) = .ok ys) (hy : y ∈ ys) :
    scoring.Rates y := by
  obtain ⟨x, -, hxy⟩ := List.exists_left_of_forall₂ (List.mapM_eq_ok_iff.1 h) hy
  exact rates_of_scored hxy

/-- Whatever is said of an individual without its scores remains. -/
theorem exists_of_mapM_scored (h : xs.mapM (scored scoring) = .ok ys) (hy : y ∈ ys) :
    ∃ x ∈ xs, y.diagram = x.diagram ∧ y.generation = x.generation := by
  obtain ⟨x, hx, hxy⟩ := List.exists_left_of_forall₂ (List.mapM_eq_ok_iff.1 h) hy
  obtain ⟨card, -, rfl⟩ := scored_eq_ok_iff.1 hxy
  exact ⟨x, hx, rfl, rfl⟩

end

variable {e : Evolver} {ds : List Diagram} {examples : List Example} {guide : Option Guide}
  {seeds offspring news rated : List Individual} {x : Individual}

/-- Validation returns the diagrams that it is given. -/
theorem validate_of_mapM_validate {ds' : List Diagram}
    (h : ds.mapM (fun d => (d.validate e.registry).mapError SearchFault.malformedSeed) = .ok ds') :
    ds' = ds ∧ ∀ d ∈ ds, d.validate e.registry = .ok d := by
  rw [List.mapM_eq_ok_iff] at h
  induction h with
  | nil => exact ⟨rfl, fun d hd => nomatch hd⟩
  | @cons d d' rest rest' hd _ ih =>
    obtain ⟨rfl, hrest⟩ := ih
    obtain ⟨hfault, rfl⟩ := Diagram.validate_eq_ok_iff.1 (Except.mapError_eq_ok_iff.1 hd)
    refine ⟨rfl, ?_⟩
    rw [List.forall_mem_cons]
    exact ⟨Diagram.validate_eq_ok_iff.2 ⟨hfault, rfl⟩, hrest⟩

/-- What the seeds are: the diagrams given, of which there are some, and which pass validation. -/
theorem seeds_spec {xs : List Individual} (h : e.seeds ds = .ok xs) :
    ds.map (fun d => Individual.ofDiagram d 0 none) = xs ∧ ds ≠ [] ∧
      ∀ d ∈ ds, d.validate e.registry = .ok d := by
  rw [seeds, Except.bind_eq_ok_iff] at h
  obtain ⟨ds', hds, h⟩ := h
  obtain ⟨rfl, hvalid⟩ := validate_of_mapM_validate hds
  split at h
  · cases h
  · next hne => exact ⟨Except.pure_eq_ok_iff.1 h, hne, hvalid⟩

theorem valid_of_seeds {xs : List Individual} (h : e.seeds ds = .ok xs) (hx : x ∈ xs) :
    x.Valid e.registry := by
  obtain ⟨rfl, -, hvalid⟩ := seeds_spec h
  obtain ⟨d, hd, rfl⟩ := List.mem_map.1 hx
  exact hvalid d hd

theorem seeds_ne_nil {xs : List Individual} (h : e.seeds ds = .ok xs) : xs ≠ [] := by
  obtain ⟨rfl, hne, -⟩ := seeds_spec h
  intro hnil
  exact hne (List.map_eq_nil_iff.1 hnil)

/-! ## Offspring -/

/-- The children that mutations make are valid, for mutations check their result. -/
theorem bredIn_of_children {number : Int} {d : Diagram} {evaluations : List Evaluation}
    {ms : List Mutation} {xs : List Individual} (h : e.children number d evaluations ms = .ok xs)
    (hx : x ∈ xs) : x.BredIn e.registry number := by
  induction ms generalizing xs with
  | nil =>
    cases h
    cases hx
  | cons m rest ih =>
    rw [children] at h
    split at h
    · -- The mutation has made a child, which it has checked.
      next child happly =>
      rw [pure_bind] at h
      obtain ⟨others, hothers, h⟩ := Except.bind_eq_ok_iff.1 h
      obtain rfl := Except.pure_eq_ok_iff.1 h
      rcases List.mem_cons.1 hx with rfl | hx
      · obtain ⟨-, -, hfault⟩ := Mutation.apply_eq_ok_iff.1 happly
        exact ⟨Diagram.validate_eq_ok_iff.2 ⟨hfault, rfl⟩, rfl⟩
      · exact ih hothers hx
    · rw [pure_bind] at h
      obtain ⟨others, hothers, h⟩ := Except.bind_eq_ok_iff.1 h
      obtain rfl := Except.pure_eq_ok_iff.1 h
      exact ih hothers hx
    · cases h

section

variable [RandomSource σ] [RandomSource τ] {a : Analyzer} {choices : σ} {samples : τ}
  {s s' begun last : Search σ τ} {k left : ℕ} {budget : Int} {values : List Value}

/-- A choice is among the individuals given. -/
theorem mem_of_mem_choose {count : ℕ} {xs kept : List Individual} {c c' : σ}
    (h : choose guide count xs c = .ok (kept, c')) (hx : x ∈ kept) : x ∈ xs := by
  unfold choose at h
  split at h
  · split at h
    · obtain ⟨⟨places, c''⟩, -, h⟩ := Except.bind_eq_ok_iff.1 h
      obtain ⟨rfl, -⟩ := Prod.mk.inj (Except.pure_eq_ok_iff.1 h)
      obtain ⟨i, -, hi⟩ := List.mem_filterMap.1 (List.mem_of_mem_take hx)
      exact List.mem_of_getElem? hi
    · obtain ⟨rfl, -⟩ := Prod.mk.inj (Except.pure_eq_ok_iff.1 h)
      exact hx
  · obtain ⟨rfl, -⟩ := Prod.mk.inj (Except.pure_eq_ok_iff.1 h)
    exact List.mem_of_mem_take hx

/-- Making offspring draws from the sources and changes nothing else. -/
theorem offspring_spec {parent : Individual} {xs : List Individual}
    (h : e.offspring examples a s parent = .ok (xs, s')) :
    (∃ c c', s' = { s with choices := c, samples := c' }) ∧
      ∀ x ∈ xs, x.BredIn e.registry s.generation := by
  unfold Evolver.offspring at h
  obtain ⟨⟨found, choices⟩, -, h⟩ := Except.bind_eq_ok_iff.1 h
  obtain ⟨escaped, hescaped, h⟩ := Except.bind_eq_ok_iff.1 h
  obtain ⟨⟨places, samples⟩, -, h⟩ := Except.bind_eq_ok_iff.1 h
  obtain ⟨sampled, hsampled, h⟩ := Except.bind_eq_ok_iff.1 h
  obtain ⟨⟨kept, choices'⟩, hkept, h⟩ := Except.bind_eq_ok_iff.1 h
  obtain ⟨rfl, rfl⟩ := Prod.mk.inj (Except.pure_eq_ok_iff.1 h)
  refine ⟨⟨choices', samples, rfl⟩, ?_⟩
  intro x hx
  rcases List.mem_append.1 hx with hx | hx
  · exact bredIn_of_children hescaped hx
  · exact bredIn_of_children hsampled (mem_of_mem_choose hkept hx)

omit [RandomSource σ] [RandomSource τ] in
/-- Individuals that have not been seen are told apart by their signatures, which then are seen. -/
theorem unseen_spec {xs : List Individual} (h : unseen s xs = (news, s')) :
    s.Grown s' news ∧ news.Sublist xs := by
  induction xs generalizing s news with
  | nil =>
    obtain ⟨rfl, rfl⟩ := Prod.mk.inj h
    exact ⟨⟨rfl, rfl, rfl, (List.append_nil _).symm, id⟩, List.Sublist.refl _⟩
  | cons x rest ih =>
    rw [unseen] at h
    dsimp only at h
    split at h
    · obtain ⟨hgrown, hsub⟩ := ih h
      exact ⟨hgrown, hsub.cons x⟩
    · next hnew =>
      obtain ⟨rfl, rfl⟩ := Prod.mk.inj h
      obtain ⟨hgrown, hsub⟩ := ih (s := { s with seen := s.seen ++ [x.signature] }) rfl
      refine ⟨⟨hgrown.population, hgrown.generation, hgrown.progress, ?_, ?_⟩, hsub.cons_cons x⟩
      · rw [hgrown.seen, List.map_cons, List.append_assoc, List.singleton_append]
      · intro hs
        apply hgrown.nodup
        have hnotMem : x.signature ∉ s.seen := by simpa using hnew
        rw [List.nodup_append]
        refine ⟨hs, List.nodup_singleton _, ?_⟩
        rintro signature hmem _ hlast rfl
        exact hnotMem (List.mem_singleton.1 hlast ▸ hmem)

/-- **What breeding keeps of a state**, and what the new individuals are. -/
theorem grown_of_litter {parents : List Individual}
    (h : e.litter examples a parents s = .ok (news, s')) :
    s.Grown s' news ∧ ∀ x ∈ news, x.BredIn e.registry s.generation := by
  induction parents generalizing s news with
  | nil =>
    obtain ⟨rfl, rfl⟩ := Prod.mk.inj (Except.ok.inj h)
    exact ⟨⟨rfl, rfl, rfl, (List.append_nil _).symm, id⟩, fun x hx => nomatch hx⟩
  | cons parent rest ih =>
    unfold litter at h
    obtain ⟨⟨xs, s₁⟩, hoffspring, h⟩ := Except.bind_eq_ok_iff.1 h
    obtain ⟨⟨others, s₃⟩, hrest, h⟩ := Except.bind_eq_ok_iff.1 h
    obtain ⟨rfl, rfl⟩ := Prod.mk.inj (Except.pure_eq_ok_iff.1 h)
    obtain ⟨⟨c, c', rfl⟩, hxs⟩ := offspring_spec hoffspring
    obtain ⟨hgrown, hsub⟩ := unseen_spec (Prod.mk.eta (p := unseen _ xs)).symm
    obtain ⟨hgrown', hothers⟩ := ih hrest
    -- The sources have changed, but nothing that is kept.
    have hfirst : s.Grown (unseen { s with choices := c, samples := c' } xs).2
        (unseen { s with choices := c, samples := c' } xs).1 :=
      ⟨hgrown.population, hgrown.generation, hgrown.progress, hgrown.seen, hgrown.nodup⟩
    refine ⟨hfirst.trans hgrown', ?_⟩
    intro x hx
    rcases List.mem_append.1 hx with hx | hx
    · exact hxs x (hsub.subset hx)
    · exact hfirst.generation ▸ hothers x hx

/-! ## Generations -/

/-- **A generation**, after its beginning: new offspring are bred and scored, and the best of all
survive. -/
def Breeds (e : Evolver) (examples : List Example) (a : Analyzer) (s : Search σ τ)
    (rated : List Individual) (s' : Search σ τ) : Prop :=
  ∃ news bred, e.litter examples a s.population s = .ok (news, bred) ∧
    news.mapM (scored (e.scoring examples)) = .ok rated ∧
    s' = { bred with
      population := select Individual.standing e.config.populationSize (bred.population ++ rated) }

omit [RandomSource σ] [RandomSource τ] in
/-- What the beginning of a generation does: its best goes into the record. -/
theorem begin_spec {number : Int} (h : begin s number = .ok begun) :
    begun.population = s.population ∧ begun.seen = s.seen ∧ begun.generation = number ∧
      begun.history = s.history ++ [s.population.head?.bind Individual.fitness] := by
  -- Only the guide depends on what it observes.
  have hbegun : ∃ entry guide, entry.fitness = s.population.head?.bind Individual.fitness ∧
      begun = { s with
        generation := number, progress := s.progress ++ [entry], guide := guide } := by
    unfold begin at h
    dsimp only at h
    split at h
    · exact ⟨_, none, rfl, (Except.ok.inj h).symm⟩
    · split at h
      · exact ⟨_, _, rfl, (Except.ok.inj h).symm⟩
      · cases h
  obtain ⟨entry, guide, hentry, rfl⟩ := hbegun
  refine ⟨rfl, rfl, rfl, ?_⟩
  rw [Search.history, List.map_append, ← hentry]
  rfl

/-- What a generation leaves behind. -/
theorem Breeds.spec (h : e.Breeds examples a s rated s') :
    s'.population = select Individual.standing e.config.populationSize (s.population ++ rated) ∧
      s'.history = s.history ∧ s'.seen = s.seen ++ rated.map Individual.signature ∧
      (s.seen.Nodup → s'.seen.Nodup) ∧
      ∀ x ∈ rated, (e.scoring examples).Rates x ∧ x.BredIn e.registry s.generation := by
  obtain ⟨news, bred, hlitter, hrated, rfl⟩ := h
  obtain ⟨hgrown, hnews⟩ := grown_of_litter hlitter
  refine ⟨?_, ?_, ?_, hgrown.nodup, ?_⟩
  · rw [hgrown.population]
  · exact congrArg (List.map ProgressEntry.fitness) hgrown.progress
  · rw [signatures_of_mapM_scored hrated]
    exact hgrown.seen
  · intro x hx
    refine ⟨rates_of_mapM_scored hrated hx, ?_⟩
    obtain ⟨y, hy, hdiagram, hgeneration⟩ := exists_of_mapM_scored hrated hx
    obtain ⟨hvalid, hnext⟩ := hnews y hy
    refine ⟨?_, hgeneration.trans hnext⟩
    rw [Individual.Valid, hdiagram]
    exact hvalid

/-! ## Stages -/

/-- The seeds of a search with their scores. -/
def scoredSeeds (e : Evolver) (examples : List Example) (ds : List Diagram) :
    Except SearchFault (List Individual) := do
  (← e.seeds ds).mapM (scored (e.scoring examples))

/-- The state before the first generation. -/
def opening (e : Evolver) (seeds : List Individual) (guide : Option Guide) (choices : σ)
    (samples : τ) : Search σ τ :=
  let population := select Individual.standing e.config.populationSize seeds
  ⟨population, 0, population.map Individual.signature, [], guide, choices, samples⟩

/-- **The states of a search between its generations**, each with the number of generations that are
over and with all offspring scored in them. -/
inductive Stage (e : Evolver) (ds : List Diagram) (examples : List Example) (guide : Option Guide)
    (choices : σ) (samples : τ) (seeds : List Individual) :
    ℕ → List Individual → Search σ τ → Prop
  | opening (hseeds : e.scoredSeeds examples ds = .ok seeds) :
    Stage e ds examples guide choices samples seeds 0 [] (e.opening seeds guide choices samples)
  | generation {k : ℕ} {offspring rated : List Individual} {s begun s' : Search σ τ}
    {values : List Value} (h : Stage e ds examples guide choices samples seeds k offspring s)
    (hvalues : collectValues examples = .ok values) (hbegin : begin s k = .ok begun)
    (hfind : begun.population.find? Individual.perfect = none)
    (hbreeds : e.Breeds examples (e.analyzer values) begun rated s') :
    Stage e ds examples guide choices samples seeds (k + 1) (offspring ++ rated) s'

/-- **How a run ends** after a number of generations: it stops at the beginning of another one, at
an individual that reproduces every example, or all its generations are over. -/
inductive Ends (budget : Int) (k : ℕ) (last : Search σ τ) : Individual → Search σ τ → Prop
  | perfect {x : Individual} {s : Search σ τ} (hk : k < budget.toNat)
    (hbegin : begin last k = .ok s) (hfind : s.population.find? Individual.perfect = some x) :
    Ends budget k last x s
  | exhausted {x : Individual} {rest : List Individual} (hk : k = budget.toNat)
    (hbest : last.population = x :: rest) : Ends budget k last x { last with generation := budget }

end

end Evolver

end RuleDiagram
