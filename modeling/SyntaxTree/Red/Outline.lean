import SyntaxTree.Red.Fold
import SyntaxTree.Text.Rope

/-!
Folds to plain values: a tree in parentheses, the number of nodes, and their kinds.
-/

namespace SyntaxTree.Red

open Text

/-- The token without trivia, in quotes. -/
def Token.outline (token : Token) : String := quoted token.green.trimmedText

namespace Node

/-- Kind and slots in parentheses, an underscore for an absent slot. -/
def outline (node : Node) : String :=
  Rope.text <| node.fold
    (fun self parts =>
      .piece "(" ++
        .separated " " (self.kind.name :: (parts ()).map (·.present?.getD "_")) ++ .piece ")")
    (fun token => .piece token.outline)

def nodeCount (node : Node) : Nat :=
  node.fold (fun _ counts => ((counts ()).filterMap (·.present?)).foldr (· + ·) 1) (fun _ => 0)

def kinds (node : Node) : List NodeKind :=
  node.fold (fun self below rest => self.kind :: prepend (below ()) rest) (fun _ rest => rest) []

end Node

end SyntaxTree.Red
