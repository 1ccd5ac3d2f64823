import RuleDiagram.Draft.Run
import RuleDiagram.Search.Selection

/-!
# Scores of drafts

## Main definitions

* `Draft.card`: the scores of a draft
* `Draft.standing`: what a selection looks at
-/

namespace RuleDiagram

namespace Draft

/-- The score of a draft on one example. -/
def entry (s : Scoring) (d : Draft) (x : Example) : Except DraftFault ExampleScore :=
  match d.evaluate x.inputs s.limit with
  | .ok e => .ok (s.scoreOf x (some e.integral))
  | .error (.limitReached _) => .ok (s.scoreOf x none)
  | .error f => .error f

/-- The scores of a draft. -/
def card (s : Scoring) (d : Draft) : Except DraftFault ScoreCard :=
  match d.diagram? with
  | some e => (s.card e).mapError .ofRun
  | none => do return ⟨← s.examples.mapM (entry s d)⟩

/-- The standing of a draft of some fitness. -/
def standing (d : Draft) (fitness : Option Amount) : Standing := ⟨d.signature, d.size, fitness⟩

end Draft

end RuleDiagram
