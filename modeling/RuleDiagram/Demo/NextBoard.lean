import RuleDiagram.Problem
import RuleDiagram.Run.Evaluation
import RuleDiagram.Source.Parser
import RuleDiagram.Source.Printer

/-!
# The next board

A move in a game on a board: the mark of the current player goes into the chosen cell if that is
blank, and otherwise the cell keeps its mark. The rule is given as diagram source, shown at work on
a blank and on an occupied cell, and tested on examples.

## Main definitions

* `nextBoardSource`, `nextBoardDiagram?`: the rule
* `NextBoard.results?`, `NextBoard.demonstration?`: the rule at work on two cells
* `NextBoard.examples`, `NextBoard.tour?`: the rule read, written and tested
-/

namespace RuleDiagram

namespace NextBoard

def player : Predicate := ⟨"player", 1⟩
def move : Predicate := ⟨"move", 2⟩
def board : Predicate := ⟨"board", 3⟩
def next : Predicate := ⟨"next_board", 3⟩

/-- The predicates of the game. -/
def registry : Registry := ⟨[player, move, board, next], by decide⟩

/-- It is the turn of a player. -/
def turn (mark : String) : Fact := ⟨player, [.text mark], rfl⟩

/-- A cell is chosen. -/
def choice (row column : Int) : Fact := ⟨move, [.int row, .int column], rfl⟩

/-- A cell holds a mark. -/
def cell (row column : Int) (mark : String) : Fact :=
  ⟨board, [.int row, .int column, .text mark], rfl⟩

/-- A cell will hold a mark. -/
def result (row column : Int) (mark : String) : Fact :=
  ⟨next, [.int row, .int column, .text mark], rfl⟩

end NextBoard

/-- The source of the rule. -/
def nextBoardSource : String :=
  "\n# Apply the current player's move to a blank cell, copy an occupied one.\n" ++
    "root: player(%0 <- _) \x7b n1 \x7d \x7b\x7d\n" ++
    "n1: move(%1 <- _, %2 <- _) \x7b n2 \x7d \x7b\x7d\n" ++
    "n2: board(%1, %2, :blank) \x7b n3 \x7d \x7b n4 \x7d\n" ++
    "n3: output next_board(%1, %2, %0)\n" ++
    "n4: board(%1, %2, %3 <- _) \x7b n5 \x7d \x7b\x7d\n" ++
    "n5: output next_board(%1, %2, %3)\n"

/-- The diagram of the rule. -/
def nextBoardDiagram? : Option Diagram := (parse NextBoard.registry nextBoardSource).toOption

/-- The written facts of a list in order, separated by commas. -/
def writtenFacts? (facts : List Fact) : Option String := do
  let facts ← (sortFacts facts).toOption
  let texts ← facts.mapM fun f => f.written.toOption
  return ", ".intercalate texts

/-- What a diagram emits on facts within the usual number of rounds. -/
def Diagram.emitted? (d : Diagram) (facts : List Fact) : Option (List Fact) :=
  (d.evaluate facts .standard).toOption.map Evaluation.outputs

namespace NextBoard

/-- Two boards: one where the chosen cell is blank, and one where it is occupied. -/
def scenarios : List (String × List Fact) :=
  [("blank", [turn "x", choice 3 3, cell 3 3 "blank"]),
    ("occupied", [turn "x", choice 3 3, cell 3 3 "o"])]

/-- What the rule says of the two boards. -/
def results? : Option (List (String × String)) := do
  let d ← nextBoardDiagram?
  scenarios.mapM fun (name, facts) => do
    return (name, ← writtenFacts? (← d.emitted? facts))

/-- The rule and what it says of the two boards, as text. -/
def demonstration? : Option String := do
  let d ← nextBoardDiagram?
  let outline ← d.outline.toOption
  let results ← results?
  return unlines (["=== Tic-tac-toe move rule ===", ""] ++ outline.map (fun line => "  " ++ line) ++
    results.flatMap fun (name, text) => ["", name ++ ": " ++ text])

/-- A move and the mark that the chosen cell holds then. -/
def exampleOf (mark : String) (row column : Int) (held : String) : Example :=
  .ofLists [turn mark, choice row column, cell row column held]
    [result row column (if held = "blank" then mark else held)]

/-- Moves into blank and into occupied cells. -/
def examples : List Example :=
  [exampleOf "x" 1 1 "blank", exampleOf "o" 1 2 "blank", exampleOf "x" 2 2 "o",
    exampleOf "o" 3 1 "x", exampleOf "x" 3 3 "blank"]

/-- What the rule says of an example, and whether that is right. -/
def verdict? (d : Diagram) (x : Example) : Option String := do
  let produced ← d.emitted? x.inputs
  let status := if ListSet.equal produced x.outputs then "ok" else "WRONG"
  return "  " ++ (← writtenFacts? produced) ++ " [" ++ status ++ "]"

/-- The rule read, written back and tested on the examples, as text. -/
def tour? : Option String := do
  let d ← nextBoardDiagram?
  let source ← d.written.toOption
  let verdicts ← examples.mapM (verdict? d)
  return unlines (["Parsed rule:", source] ++ verdicts)

end NextBoard

end RuleDiagram
