import SyntaxTree.Text.Range

/-!
Diagnostics. A remark is carried by a green value and has no position; located at a range of
the source text it becomes a diagnostic.
-/

namespace SyntaxTree

/-- From most to least severe. -/
inductive Severity
  | error
  | warning
  | hint
  deriving DecidableEq, Repr

namespace Severity

def name : Severity → String
  | error => "error"
  | warning => "warning"
  | hint => "hint"

def ofName? (name : String) : Option Severity :=
  [error, warning, hint].find? (·.name == name)

instance : Ord Severity := ⟨fun first second => compare first.ctorIdx second.ctorIdx⟩

end Severity

structure Remark where
  severity : Severity
  code : String
  message : String
  deriving DecidableEq, Repr

structure Diagnostic where
  severity : Severity
  code : Option String
  message : String
  range : TextRange
  deriving DecidableEq, Repr

def Remark.locate (remark : Remark) (range : TextRange) : Diagnostic :=
  ⟨remark.severity, some remark.code, remark.message, range⟩

namespace Diagnostic

def codeLabel (diagnostic : Diagnostic) : String :=
  match diagnostic.code with
  | some code => "[" ++ code ++ "]"
  | none => ""

/-- One line: severity, code, range and message. -/
def describe (diagnostic : Diagnostic) : String :=
  diagnostic.severity.name ++ diagnostic.codeLabel ++ " " ++ diagnostic.range.describe ++ ": " ++
    diagnostic.message

def shift (diagnostic : Diagnostic) (distance : Nat) : Diagnostic :=
  { diagnostic with range := diagnostic.range.shift distance }

end Diagnostic

end SyntaxTree
