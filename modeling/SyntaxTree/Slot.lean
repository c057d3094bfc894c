/-!
The content of one child position. Absence is a value of its own, so that the positions of a node
stay put when optional parts are left out.
-/

namespace SyntaxTree

universe u v w x

inductive Slot (Node : Type u) (Token : Type v)
  | node (node : Node)
  | token (token : Token)
  | absent
  deriving DecidableEq

namespace Slot

variable {Node : Type u} {Token : Type v} {Node' : Type w} {Token' : Type x}

def map (onNode : Node → Node') (onToken : Token → Token') : Slot Node Token → Slot Node' Token'
  | node value => node (onNode value)
  | token value => token (onToken value)
  | absent => absent

def node? : Slot Node Token → Option Node
  | node value => some value
  | token _ | absent => none

def token? : Slot Node Token → Option Token
  | token value => some value
  | node _ | absent => none

def isAbsent : Slot Node Token → Bool
  | absent => true
  | node _ | token _ => false

/-- One result from whichever value is present. -/
def elim {Result : Type w} (onNode : Node → Result) (onToken : Token → Result)
    (onAbsent : Result) : Slot Node Token → Result
  | node value => onNode value
  | token value => onToken value
  | absent => onAbsent

/-- The value of a slot that holds the same type either way. -/
def present? {Value : Type u} : Slot Value Value → Option Value
  | node value | token value => some value
  | absent => none

end Slot

end SyntaxTree
