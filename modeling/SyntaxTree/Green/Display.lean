import SyntaxTree.Green
import SyntaxTree.Text.Record
import SyntaxTree.Text.Quoted

/-!
Green values written out as records.
-/

namespace SyntaxTree

open Text

def TriviaPiece.record (piece : TriviaPiece) : Rope :=
  .record "TriviaPiece" [("kind", piece.kind.name), ("len", toString piece.len)]

def Trivia.describe (trivia : Trivia) : String :=
  (Rope.record "GreenTrivia"
    [("pieces", .listing (trivia.pieces.map (·.record))), ("total_len", toString trivia.len)]).text

def SlotError.describe (error : SlotError) : String :=
  (Rope.record error.variant (error.fields.map fun (field, value) => (field, value))).text

namespace Green

def Token.record (token : Token) : Rope :=
  .record "GreenToken"
    [("kind", token.kind.name), ("text", quoted token.text), ("missing", toString token.missing)]

mutual

def Node.record : Node → Rope
  | ⟨_, kind, width, _, _, slots⟩ =>
    .record "GreenNode"
      [("kind", kind.name), ("width", toString width), ("slots", .listing (slotRecords slots))]

def slotRecords : List (SyntaxTree.Slot Node Token) → List Rope
  | [] => []
  | slot :: rest => slotRecord slot :: slotRecords rest

def slotRecord : SyntaxTree.Slot Node Token → Rope
  | .node node => .wrapped "Node" node.record
  | .token token => .wrapped "Token" token.record
  | .absent => "Absent"

end

def Token.describe (token : Token) : String := token.record.text

def Node.describe (node : Node) : String := node.record.text

end Green

end SyntaxTree
