import SyntaxTree.Green
import SyntaxTree.Layout
import SyntaxTree.Text.Quoted

/-!
Red values: green values seen at a place. A red node knows its offset and the chain of its
ancestors; it is made on demand while descending from a root. Two red nodes are at the same place
when they see the very same green node through the same chain of slots.
-/

namespace SyntaxTree.Red

inductive Node
  | root (green : Green.Node)
  | child (green : Green.Node) (offset slot : Nat) (parent : Node)

inductive Token
  /-- A token that is part of no tree. -/
  | detached (green : Green.Token)
  | held (green : Green.Token) (offset slot : Nat) (parent : Node)

abbrev Slot := SyntaxTree.Slot Node Token

namespace Node

def green : Node → Green.Node
  | root green | child green _ _ _ => green

/-- Start in the source text; a root starts at zero. -/
def offset : Node → Nat
  | root _ => 0
  | child _ offset _ _ => offset

def parent? : Node → Option Node
  | root _ => none
  | child _ _ _ parent => some parent

def slotIndex? : Node → Option Nat
  | root _ => none
  | child _ _ slot _ => some slot

def isRoot : Node → Bool
  | root _ => true
  | child .. => false

def kind (node : Node) : NodeKind := node.green.kind

def width (node : Node) : Nat := node.green.width

def range (node : Node) : TextRange := .spanning node.offset node.width

def text (node : Node) : String := node.green.text

def slotCount (node : Node) : Nat := node.green.slots.length

def treeRoot : Node → Node
  | root green => root green
  | child _ _ _ parent => parent.treeRoot

/-- The node itself, its parent, and so on up to the root. -/
def ancestors : Node → List Node
  | root green => [root green]
  | child green offset slot parent => child green offset slot parent :: parent.ancestors

/-- Slot indexes from the node up to the root, innermost first. -/
def path : Node → List Nat
  | root _ => []
  | child _ _ slot parent => slot :: parent.path

def samePlace : Node → Node → Bool
  | root first, root second => first.identical second
  | child first firstOffset firstSlot firstParent,
    child second secondOffset secondSlot secondParent =>
    first.identical second && firstOffset == secondOffset && firstSlot == secondSlot &&
      firstParent.samePlace secondParent
  | _, _ => false

/-- Nodes at the same place have the same key. -/
def hashKey (node : Node) : Stamp × Nat := (node.green.stamp, node.offset)

def describe (node : Node) : String := s!"{node.kind}@" ++ node.range.describe

end Node

namespace Token

def green : Token → Green.Token
  | detached green | held green _ _ _ => green

def offset : Token → Nat
  | detached _ => 0
  | held _ offset _ _ => offset

def parent? : Token → Option Node
  | detached _ => none
  | held _ _ _ parent => some parent

def slotIndex? : Token → Option Nat
  | detached _ => none
  | held _ _ slot _ => some slot

def kind (token : Token) : TokenKind := token.green.kind

def width (token : Token) : Nat := token.green.width

def range (token : Token) : TextRange := .spanning token.offset token.width

/-- The range without trivia. -/
def trimmedRange (token : Token) : TextRange :=
  ⟨token.range.start + token.green.leading.len, token.range.stop - token.green.trailing.len⟩

def text (token : Token) : String := token.green.text

/-- The parent, its parent, and so on up to the root. -/
def ancestors (token : Token) : List Node := token.parent?.elim [] (·.ancestors)

def samePlace : Token → Token → Bool
  | detached first, detached second => first.identical second
  | held first firstOffset firstSlot firstParent,
    held second secondOffset secondSlot secondParent =>
    first.identical second && firstOffset == secondOffset && firstSlot == secondSlot &&
      firstParent.samePlace secondParent
  | _, _ => false

def describe (token : Token) : String :=
  s!"{token.kind}@" ++ token.range.describe ++ " " ++ Text.quoted token.text ++
    if token.green.missing then " missing" else ""

end Token

/-- Sees a green slot at its place under `holder`. -/
def view (holder : Node) (index offset : Nat) : Green.Slot → Slot
  | .node green => .node (.child green offset index holder)
  | .token green => .token (.held green offset index holder)
  | .absent => .absent

/-- Sees consecutive green slots, the first of them at the given index and offset. -/
def viewAll (holder : Node) (index offset : Nat) : List Green.Slot → List Slot
  | [] => []
  | slot :: rest =>
    view holder index offset slot :: viewAll holder (index + 1) (offset + slot.width) rest

namespace Node

/-- All slots in order, absent ones included. -/
def slots (node : Node) : List Slot := viewAll node 0 node.offset node.green.slots

def slot? (node : Node) (index : Nat) : Option Slot :=
  (node.green.slot? index).map (view node index (node.offset + node.green.slotOffset index))

/-- Like `slot?`, for callers that know the number of slots. -/
def slot (node : Node) (index : Nat) : Except Misuse Slot :=
  (node.green.slot index).map (view node index (node.offset + node.green.slotOffset index))

theorem slot_eq_ok_iff {node : Node} {index : Nat} {found : Slot} :
    node.slot index = .ok found ↔ node.slot? index = some found := by
  simp only [slot, slot?, Green.Node.slot]
  cases node.green.slot? index <;> simp [Except.map]

def childNode? (node : Node) (index : Nat) : Option Node := (node.slot? index).bind (·.node?)

def childToken? (node : Node) (index : Nat) : Option Token := (node.slot? index).bind (·.token?)

/-- The child node in a slot that is known to hold one. -/
def requireNode (node : Node) (index : Nat) (expectation : String) : Except Misuse Node := do
  match ← node.slot index with
  | .node found => return found
  | .token _ | .absent => throw (.brokenExpectation expectation)

/-- The token in a slot that is known to hold one. -/
def requireToken (node : Node) (index : Nat) (expectation : String) : Except Misuse Token := do
  match ← node.slot index with
  | .token found => return found
  | .node _ | .absent => throw (.brokenExpectation expectation)

/-- Goes down from a node by slot indexes, outermost first. -/
def descend : Node → List Nat → Except Misuse Node
  | node, [] => .ok node
  | node, index :: rest => do
    let next ← node.requireNode index "spine slot holds a node"
    next.descend rest

def elements (node : Node) : List Slot := node.slots.filter (!·.isAbsent)

def childNodes (node : Node) : List Node := node.slots.filterMap (·.node?)

def childTokens (node : Node) : List Token := node.slots.filterMap (·.token?)

end Node

namespace Slot

/-- A green slot outside any tree: a root, a detached token, or absence. -/
def alone : Green.Slot → Slot
  | .node green => .node (.root green)
  | .token green => .token (.detached green)
  | .absent => .absent

def green : Slot → Green.Slot := .map (·.green) (·.green)

def kind? : Slot → Option Kind
  | .node node => some node.kind
  | .token token => some token.kind
  | .absent => none

def describe : Slot → String
  | .node node => node.describe
  | .token token => token.describe
  | .absent => "absent"

end Slot

end SyntaxTree.Red
