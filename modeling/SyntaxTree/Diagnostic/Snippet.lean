import SyntaxTree.Diagnostic
import SyntaxTree.Diagnostic.Window
import SyntaxTree.Text.Row

/-!
Diagnostics shown over the source lines they mark.
-/

namespace SyntaxTree

open Text (Row)

namespace Severity

/-- Hints are shown as help. -/
def heading : Severity → String
  | error => "error"
  | warning => "warning"
  | hint => "help"

def marker : Severity → Char
  | error => '^'
  | warning | hint => '-'

def note : String := "here"

def label : Severity → String
  | error | warning => note
  | hint => "help: " ++ note

end Severity

/-- How source lines are laid out: line numbers in a gutter, a bracket when the range goes over
several lines, and the window of columns that are shown. -/
structure Sheet where
  severity : Severity
  gutter : Nat
  bracketed : Bool
  window : Window

namespace Sheet

def bracketColumn (sheet : Sheet) : Nat := sheet.gutter + 3

def codeColumn (sheet : Sheet) : Nat :=
  sheet.bracketColumn + if sheet.bracketed then 2 else 0

/-- Where a column of a source line stands. One that is hidden stands left of the code. -/
def place (sheet : Sheet) (line : SourceLine) (column : Nat) : Nat :=
  sheet.codeColumn + column - sheet.window.hidden line

def blankRow (sheet : Sheet) : Row :=
  Row.empty.put (sheet.gutter + 1) ['|']

/-- A source line behind its number. Dots stand for what is hidden. -/
def sourceRow (sheet : Sheet) (line : SourceLine) : Row :=
  let number := (toString line.number).toList
  let shown := sheet.window.shown line
  let coded := (sheet.blankRow.put (sheet.gutter - number.length) number).put sheet.codeColumn shown
  let cutLeft := if 0 < sheet.window.left then coded.put sheet.codeColumn "...".toList else coded
  if sheet.window.isCut line then
    cutLeft.put (sheet.codeColumn + shown.length - 3) "...".toList
  else
    cutLeft

/-- The stroke from the bracket to a column of a source line. -/
def stroke (sheet : Sheet) (line : SourceLine) (column : Nat) (row : Row) : Row :=
  row.put (sheet.bracketColumn + 1)
    (List.replicate (sheet.place line column - (sheet.bracketColumn + 1)) '_')

/-- Marks from one column to another, over everything else. -/
def mark (sheet : Sheet) (line : SourceLine) (left right : Nat) (row : Row) : Row :=
  (List.range' left (right - left)).foldl
    (fun row column => row.put (sheet.place line column) [sheet.severity.marker]) row

/-- The label behind a mark that stops at the given column. -/
def label (sheet : Sheet) (line : SourceLine) (right : Nat) (row : Row) : Row :=
  row.put (sheet.codeColumn + (right + 1 - sheet.window.hidden line)) sheet.severity.label.toList

end Sheet

namespace Diagnostic

def title (diagnostic : Diagnostic) : String :=
  diagnostic.severity.heading ++ diagnostic.codeLabel ++
    if diagnostic.message.isEmpty then "" else ": " ++ diagnostic.message

/-- The columns marked on the line that holds the range. There is at least one. -/
def onlyMark (diagnostic : Diagnostic) (line : SourceLine) : Nat × Nat :=
  let left := line.column diagnostic.range.start
  (left, max (left + 1) (line.column diagnostic.range.stop))

/-- The column marked on the first of several lines. -/
def openingMark (diagnostic : Diagnostic) (line : SourceLine) : Nat :=
  line.column diagnostic.range.start

/-- The column marked on the last of several lines: the last one of the range, or the one behind
it when the range runs over the line end. -/
def closingMark (diagnostic : Diagnostic) (line : SourceLine) : Nat :=
  line.column diagnostic.range.stop - 1 + if line.stop < diagnostic.range.stop then 1 else 0

/-- The columns that the marks of all lines take, with room for the note behind them. -/
def markedColumns (diagnostic : Diagnostic) (marked : MarkedLines) : MarkedColumns :=
  let label := Severity.note.length + 1
  if marked.below.isEmpty then
    let (left, right) := diagnostic.onlyMark marked.first
    .ofMark left right label
  else
    let left := diagnostic.openingMark marked.first
    let right := diagnostic.closingMark marked.last
    (MarkedColumns.ofMark left (left + 1) label).join (.ofMark right (right + 1) label)

/-- The rows of a range on one line. -/
def lineRows (diagnostic : Diagnostic) (sheet : Sheet) (line : SourceLine) : List Row :=
  let (left, right) := diagnostic.onlyMark line
  [sheet.sourceRow line,
    sheet.blankRow |> sheet.label line right |> sheet.mark line left right]

/-- The rows that open a bracket: the first line with a corner, when nothing but its indent stands
before the range, else the line and a stroke to the start of the range. -/
def openingRows (diagnostic : Diagnostic) (sheet : Sheet) (line : SourceLine) : List Row :=
  let start := diagnostic.openingMark line
  let row := sheet.sourceRow line
  if (line.text.take start).all SourceLine.isSpace then
    [row.put sheet.bracketColumn ['/']]
  else
    [row, sheet.blankRow |> sheet.stroke line start |> sheet.mark line start (start + 1)]

/-- A line within a bracket, or the gap that stands for the lines left out. -/
def innerRow (sheet : Sheet) : Option SourceLine → Row
  | some line => (sheet.sourceRow line).put sheet.bracketColumn ['|']
  | none => (Row.empty.put 0 "...".toList).put sheet.bracketColumn ['|']

/-- The row that closes a bracket below its last line. -/
def closingRow (diagnostic : Diagnostic) (sheet : Sheet) (line : SourceLine) : Row :=
  let column := diagnostic.closingMark line
  (sheet.blankRow |> sheet.stroke line column).put sheet.bracketColumn ['|']
    |> sheet.label line (column + 1) |> sheet.mark line column (column + 1)

/-- The marked lines and the marks below them. -/
def markedRows (diagnostic : Diagnostic) (sheet : Sheet) (marked : MarkedLines) : List Row :=
  if marked.below.isEmpty then
    diagnostic.lineRows sheet marked.first
  else
    diagnostic.openingRows sheet marked.first ++ marked.shown.tail.map (innerRow sheet) ++
      [diagnostic.closingRow sheet marked.last]

/-- Line and column of the start, counted from one; `1:1` when no line is shown. -/
def position (diagnostic : Diagnostic) : Option MarkedLines → String
  | some marked =>
    let column := min (diagnostic.range.start - marked.first.start) marked.first.length
    toString marked.first.number ++ ":" ++ toString (column + 1)
  | none => "1:1"

/-- Where the range starts, behind an arrow. -/
def originRow (diagnostic : Diagnostic) (gutter : Nat) (path : String)
    (marked : Option MarkedLines) : Row :=
  ((Row.empty.put gutter "-->".toList).put (gutter + 4) path.toList).append
    (":" ++ diagnostic.position marked).toList

/-- Title, origin, and the source lines with their marks. -/
def render (diagnostic : Diagnostic) (path source : String) : String :=
  let lines := SourceLine.excerpt diagnostic.range source.toList
  let marked := MarkedLines.ofExcerpt? diagnostic.range lines
  let gutter := marked.elim 0 fun marked => (toString marked.last.number).length
  let blankRow := Row.empty.put (gutter + 1) ['|']
  let rows := marked.elim [] fun marked =>
    let window := Window.fit lines (diagnostic.markedColumns marked)
    diagnostic.markedRows ⟨diagnostic.severity, gutter, !marked.below.isEmpty, window⟩ marked
  "\n".intercalate (diagnostic.title ::
    ([diagnostic.originRow gutter path marked, blankRow] ++ rows ++ [blankRow]).map (·.toString))

end Diagnostic

end SyntaxTree
