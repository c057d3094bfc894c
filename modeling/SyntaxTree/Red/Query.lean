import SyntaxTree.Red.Fold
import SyntaxTree.Text.Rope

/-!
Questions about the tree below a node: its outermost tokens, the tokens at an offset, its
diagnostics, and a dump of it.
-/

namespace SyntaxTree.Red

/-- The tokens at an offset; `between` when the offset is where one ends and the next starts. -/
inductive TokenAtOffset
  | none
  | single (token : Token)
  | between (left right : Token)

namespace TokenAtOffset

def tokens : TokenAtOffset → List Token
  | none => []
  | single token => [token]
  | between left right => [left, right]

def left? (found : TokenAtOffset) : Option Token := found.tokens.head?

def right? (found : TokenAtOffset) : Option Token := found.tokens.getLast?

/-- Joins the answers of the one or two parts that touch the offset. -/
def join : List TokenAtOffset → TokenAtOffset
  | [] => none
  | [only] => only
  | single left :: single right :: _ => between left right
  | left :: _ => left

end TokenAtOffset

namespace Node

def firstToken? (node : Node) : Option Token :=
  node.fold (fun _ found _ => firstFound (found ())) (fun token _ => some token) ()

def lastToken? (node : Node) : Option Token :=
  node.fold (fun _ found _ => firstFound (found ()).reverse) (fun token _ => some token) ()

/-- The tokens of non-zero width that touch an offset. -/
def tokenAt (node : Node) (offset : Nat) : TokenAtOffset :=
  let touched (range : TextRange) : Bool := !range.isEmpty && range.touches offset
  (node.fold
    (fun self found =>
      (self.range, fun _ =>
        if touched self.range then
          let parts := (found ()).filterMap (·.present?)
          .join ((parts.filter fun part => touched part.1).map (·.2 ()))
        else
          .none))
    (fun token => (token.range, fun _ => TokenAtOffset.single token))).2 ()

/-- All diagnostics in preorder: those of a node over its range, those of a token over its range
without trivia. Subtrees that carry none are passed over. -/
def diagnostics (node : Node) : List Diagnostic :=
  node.fold
    (fun self found rest =>
      if self.green.hasRemarks then
        self.green.remarks.map (·.locate self.range) ++ prepend (found ()) rest
      else
        rest)
    (fun token rest => token.green.remarks.map (·.locate token.trimmedRange) ++ rest)
    []

/-- The name of a slot in a dump. -/
def slotName (node : Node) (index : Nat) : String :=
  (node.kind.layout[index]?).elim "element" (·.name)

def indented (depth : Nat) (line : String) : String :=
  String.ofList (List.replicate (2 * depth) ' ') ++ line ++ "\n"

/-- One line per node, token and absent slot, indented from `depth` on. -/
def dumpAt (node : Node) : Nat → Text.Rope :=
  node.fold
    (fun self (found : Parts (Nat → Text.Rope) (Nat → Text.Rope)) depth =>
      .piece (indented depth self.describe) ++
        .concat ((found ()).zipIdx.map fun (slot, index) =>
          slot.elim (· (depth + 1)) (· (depth + 1))
            (.piece (indented (depth + 1) ("<absent " ++ self.slotName index ++ ">")))))
    (fun token depth => .piece (indented depth token.describe))

def dump (node : Node) : String := (node.dumpAt 0).text

end Node

end SyntaxTree.Red
