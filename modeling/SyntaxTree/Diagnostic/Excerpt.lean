import SyntaxTree.Text.Range

/-!
The lines of a source around a range. The source is taken to be ASCII without tabs, so that a byte
position counts characters.
-/

namespace SyntaxTree

/-- A numbered line of a source, and the length of the line end behind it. -/
structure SourceLine where
  number : Nat
  start : Nat
  text : List Char
  ending : Nat
  deriving DecidableEq, Repr

namespace SourceLine

def length (line : SourceLine) : Nat := line.text.length

def stop (line : SourceLine) : Nat := line.start + line.length

/-- A range may run over the line end of the line that it stops on. -/
def reaches (line : SourceLine) (position : Nat) : Bool :=
  position ≤ line.stop + max line.ending 1

/-- The blank and the control characters that move the writing position. -/
def isSpace (character : Char) : Bool :=
  character == ' ' || ('\t' ≤ character && character ≤ '\r')

def isControl (character : Char) : Bool :=
  character < ' ' || character == '\x7f'

def isBlank (line : SourceLine) : Bool := line.text.all isSpace

/-- The number of characters before the first one that is no space. -/
def indent (line : SourceLine) : Nat := (line.text.takeWhile isSpace).length

/-- The column of a position on the line, or of the end of the line for one behind it. Control
characters take no column. -/
def column (line : SourceLine) (position : Nat) : Nat :=
  (line.text.take (position - line.start)).countP fun character => !isControl character

/-- Cuts a text behind its line ends, and tells the length of each line end. -/
def cutLines : List Char → List (List Char × Nat)
  | [] => []
  | '\n' :: rest => ([], 1) :: cutLines rest
  | '\r' :: '\n' :: rest => ([], 2) :: cutLines rest
  | character :: rest =>
    match cutLines rest with
    | [] => [([character], 0)]
    | (text, ending) :: more => (character :: text, ending) :: more

def numberLines (number start : Nat) : List (List Char × Nat) → List SourceLine
  | [] => []
  | (text, ending) :: more =>
    ⟨number, start, text, ending⟩ ::
      numberLines (number + 1) (start + text.length + ending) more

/-- The lines from the one on which a range starts to the next line feed behind the range. That
line feed is left out, so that there is no line at all when the range is empty and stands on an
empty line. -/
def excerpt (range : TextRange) (source : List Char) : List SourceLine :=
  let before := source.take range.start
  let lead := (before.reverse.takeWhile (· != '\n')).reverse
  let inside := (source.drop range.start).take (range.stop - range.start)
  let trail := (source.drop range.stop).takeWhile (· != '\n')
  numberLines (before.count '\n' + 1) (range.start - lead.length)
    (cutLines (lead ++ inside ++ trail))

end SourceLine

/-- The lines that a range marks: the line it starts on, and, when it does not stop there, the
lines below up to the one it stops on. -/
structure MarkedLines where
  first : SourceLine
  below : List SourceLine
  deriving Repr

namespace MarkedLines

/-- Takes lines up to and including the one that reaches `stop`. -/
def upTo (stop : Nat) : List SourceLine → List SourceLine
  | [] => []
  | line :: more => if line.reaches stop then [line] else line :: upTo stop more

/-- The marked lines of an excerpt, which starts with the line that the range starts on. -/
def ofExcerpt? (range : TextRange) : List SourceLine → Option MarkedLines
  | [] => none
  | first :: more =>
    some ⟨first, if first.reaches range.stop then [] else upTo range.stop more⟩

def last (marked : MarkedLines) : SourceLine :=
  marked.below.getLastD marked.first

/-- All lines when there are at most five, else two from either end around a gap. -/
def shown (marked : MarkedLines) : List (Option SourceLine) :=
  let lines := marked.first :: marked.below
  if lines.length ≤ 5 then
    lines.map some
  else
    (lines.take 2).map some ++ [none] ++ (lines.drop (lines.length - 2)).map some

end MarkedLines

end SyntaxTree
