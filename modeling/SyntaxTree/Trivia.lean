/-!
Trivia at the edges of tokens. A piece keeps its kind and its byte length; its text is part of the
text of the token it belongs to.
-/

namespace SyntaxTree

inductive TriviaKind
  | whitespace
  | newline
  | singleLineComment
  deriving DecidableEq, Repr

namespace TriviaKind

def name : TriviaKind → String
  | whitespace => "Whitespace"
  | newline => "Newline"
  | singleLineComment => "SingleLineComment"

def ofName? (name : String) : Option TriviaKind :=
  [whitespace, newline, singleLineComment].find? (·.name == name)

end TriviaKind

structure TriviaPiece where
  kind : TriviaKind
  len : Nat
  deriving DecidableEq, Repr

/-- A run of pieces. Runs are equal when their pieces are. -/
structure Trivia where
  pieces : List TriviaPiece
  deriving DecidableEq, Repr

namespace Trivia

def empty : Trivia := ⟨[]⟩

/-- The pieces of given texts. -/
def ofTexts (texts : List (TriviaKind × String)) : Trivia :=
  ⟨texts.map fun (kind, text) => ⟨kind, text.utf8ByteSize⟩⟩

def len (trivia : Trivia) : Nat :=
  trivia.pieces.foldr (fun piece total => piece.len + total) 0

/-- Whether there is no piece; pieces of length zero count. -/
def isEmpty (trivia : Trivia) : Bool :=
  trivia.pieces.isEmpty

end Trivia

end SyntaxTree
