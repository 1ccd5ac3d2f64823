import RuleDiagram.Demo.CopyRule
import RuleDiagram.Demo.NextBoard
import RuleDiagram.Text.LowerCase

/-!
# Command line

Shows the rule of the next board with the argument `notation`, the search for a copying diagram
without an argument, and both with the argument `both`.
-/

namespace RuleDiagram

/-- The text that an argument asks for. -/
def shownText (argument : String) : Option String :=
  let search := (CopyRule.demonstration? 10).map Prod.snd
  match lowerCase argument with
  | "notation" => NextBoard.tour?
  | "both" => do return (← NextBoard.tour?) ++ (← search)
  | _ => search

end RuleDiagram

def main (arguments : List String) : IO UInt32 := do
  match RuleDiagram.shownText (arguments.headD "") with
  | some text =>
    IO.print text
    return 0
  | none => return 1
