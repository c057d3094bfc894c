import SyntaxTree.Diagnostic.Excerpt

/-!
The columns of source lines that are shown. Lines that fit are shown whole, but for a deep indent
that all of them share; of longer lines the part around the marks is shown.
-/

namespace SyntaxTree

/-- The columns from `left` on, up to `right` on lines of which more than `capacity` columns would
be left. Such a line is shown as cut when it ends behind the column `cutAfter`. -/
structure Window where
  capacity : Nat
  left : Nat
  right : Nat
  cutAfter : Nat
  deriving DecidableEq, Repr

/-- The columns that marks take: from the first to behind the last one, and to behind the label. -/
structure MarkedColumns where
  left : Nat
  right : Nat
  labelRight : Nat
  deriving DecidableEq, Repr

namespace MarkedColumns

/-- The columns of a mark whose label takes `label` columns behind it. -/
def ofMark (left right label : Nat) : MarkedColumns := ⟨left, right, right + label⟩

def join (first second : MarkedColumns) : MarkedColumns :=
  ⟨min first.left second.left, max first.right second.right,
    max first.labelRight second.labelRight⟩

/-- Room for an ellipsis and more on both sides. -/
def pad (columns : MarkedColumns) (room : Nat) : MarkedColumns :=
  ⟨columns.left - room, columns.right + room, columns.labelRight + room⟩

end MarkedColumns

namespace Window

/-- The most columns of a row. -/
def rowWidth : Nat := 140

/-- The room that stays on both sides of marks and behind a trimmed indent. -/
def room : Nat := 6

/-- A shared indent is trimmed when more than this many blanks of it could go. -/
def deepIndent : Nat := 20

/-- So many more blanks stay when a deep indent is trimmed. -/
def keptIndent : Nat := 16

/-- The least indent of the lines that are not blank. -/
def sharedIndent (lines : List SourceLine) : Option Nat :=
  ((lines.filter fun line => !line.isBlank).map (·.indent)).min?

def longest (lines : List SourceLine) : Nat :=
  lines.foldr (fun line most => max line.length most) 0

/-- The columns that are left for a line next to the number behind the last one. -/
def capacityOf (lines : List SourceLine) : Nat :=
  let number := lines.getLast?.elim 1 (·.number + 1)
  rowWidth - ((toString number).length + 3)

/-- For lines too long to be shown: what is left out is only indent, if that is enough, else the
marks and the label come to the middle, else the marks come near the left, else nothing but the
marks and the room around them is shown. A line that ends in that room counts as cut too. -/
def around (capacity indent : Nat) (marks : MarkedColumns) : Window :=
  let padded := marks.pad room
  let startingAt (left : Nat) : Window := ⟨capacity, left, left + capacity, left + capacity⟩
  if indent ≤ padded.labelRight && padded.labelRight - indent ≤ capacity then
    startingAt indent
  else if padded.labelRight - padded.left ≤ capacity then
    startingAt (padded.left - (capacity - (padded.labelRight - padded.left)) / 2)
  else if padded.right - padded.left ≤ capacity then
    startingAt (padded.left - (capacity - (padded.right - padded.left)) / 5 * 2)
  else
    ⟨capacity, padded.left, padded.right, marks.right⟩

/-- The window for the lines of an excerpt and the marks on them. Nothing is shown of lines that
are all blank. -/
def fit (lines : List SourceLine) (marks : MarkedColumns) : Window :=
  let capacity := capacityOf lines
  match sharedIndent lines with
  | none =>
    let left := longest lines + 1
    ⟨capacity, left, left, left⟩
  | some indent =>
    let trimmable := indent - room
    let left := if deepIndent < trimmable then trimmable - keptIndent else 0
    if longest lines - left ≤ capacity then
      ⟨capacity, left, longest lines, longest lines⟩
    else
      around capacity trimmable marks

/-- How many characters a line loses on its left. -/
def hidden (window : Window) (line : SourceLine) : Nat := min window.left line.length

/-- Where the shown part of a line ends. -/
def stopOf (window : Window) (line : SourceLine) : Nat :=
  if line.length - window.left ≤ window.capacity then
    line.length
  else
    min line.length window.right

/-- Whether the right end of a line is shown as left out. -/
def isCut (window : Window) (line : SourceLine) : Bool :=
  window.cutAfter < line.length && window.left + window.capacity < line.length

def shown (window : Window) (line : SourceLine) : List Char :=
  (line.text.take (window.stopOf line)).drop (window.hidden line)

end Window

end SyntaxTree
