import SyntaxTree.Text.Rope

/-!
Records written as a name and named fields in braces, and lists in brackets.
-/

namespace SyntaxTree.Text

namespace Rope

def record (name : String) (fields : List (String × Rope)) : Rope :=
  piece name ++ piece " \x7b " ++
    separated ", " (fields.map fun (field, value) => piece field ++ piece ": " ++ value) ++
    piece " \x7d"

def listing (items : List Rope) : Rope :=
  piece "[" ++ separated ", " items ++ piece "]"

def wrapped (name : String) (content : Rope) : Rope :=
  piece name ++ piece "(" ++ content ++ piece ")"

end Rope

/-- A content in parentheses behind a name. -/
def wrapped (name content : String) : String := (Rope.wrapped name content).text

end SyntaxTree.Text
