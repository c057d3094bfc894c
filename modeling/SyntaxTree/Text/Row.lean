/-!
Rows of text that are filled at columns, in any order.
-/

namespace SyntaxTree.Text

/-- The characters of a row, from column 0. -/
structure Row where
  characters : List Char
  deriving DecidableEq, Repr

namespace Row

def empty : Row := ⟨[]⟩

def length (row : Row) : Nat := row.characters.length

/-- Puts a character at a column, over what is there. Columns in between that hold nothing yet
become blank. -/
def putChar (row : Row) (column : Nat) (character : Char) : Row :=
  ⟨row.characters.take column ++ List.replicate (column - row.length) ' ' ++
    character :: row.characters.drop (column + 1)⟩

/-- Puts a text at a column and those behind it. An empty text leaves the row as it is. -/
def put (row : Row) (column : Nat) : List Char → Row
  | [] => row
  | character :: rest => (row.putChar column character).put (column + 1) rest

def append (row : Row) (text : List Char) : Row := row.put row.length text

def toString (row : Row) : String := String.ofList row.characters

end Row

end SyntaxTree.Text
