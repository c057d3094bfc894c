import SyntaxTree.Edit
import SyntaxTree.Green.Display

/-!
Staged edits written out as records.
-/

namespace SyntaxTree

open Text

def Staged.describe (staged : Staged) : String :=
  (Rope.record "NodeModifier"
    [("node", staged.node.describe), ("slots", .listing (Green.slotRecords staged.slots))]).text

end SyntaxTree
