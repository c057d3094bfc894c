import SyntaxTree.Red
import SyntaxTree.Green.Create

/-!
Edits. New slot contents are staged on one node, each checked as it is staged, and applied in one
step that builds a new node and one new node per ancestor; every other green value of the tree is
used again. The old tree stays as it was.
-/

namespace SyntaxTree

inductive Edit
  | set (index : Nat) (value : Green.Slot)
  /-- Inserts an element of a list before position `index`. -/
  | insert (index : Nat) (element : Green.Node)
  | push (element : Green.Node)
  | remove (index : Nat)

/-- A node with the slots it is going to have. -/
structure Staged where
  node : Red.Node
  slots : List Green.Slot

def Red.Node.stage (node : Red.Node) : Staged := ⟨node, node.green.slots⟩

/-- The spec of the elements of a list, where a list slot holds it. -/
def Red.Node.heldElementSpec? : Red.Node → Option SlotSpec
  | root _ => none
  | child _ _ slot parent => parent.kind.layout[slot]?.bind (·.element?)

namespace Staged

/-- The spec of the elements of a staged list. A list slot that holds the list decides it. -/
def elementSpec (staged : Staged) : Except SlotError SlotSpec :=
  if staged.node.kind = .list then
    .ok (staged.node.heldElementSpec?.getD .anyElement)
  else
    .error (.notAList staged.node.kind)

def outOfRange (staged : Staged) (index : Nat) : SlotError :=
  .slotOutOfRange staged.node.kind index staged.slots.length

def slotSpec (staged : Staged) (index : Nat) : Except SlotError SlotSpec :=
  if staged.node.kind = .list then
    if index < staged.slots.length then staged.elementSpec else .error (staged.outOfRange index)
  else
    match staged.node.kind.layout[index]? with
    | some spec => .ok spec
    | none => .error (staged.outOfRange index)

def set (staged : Staged) (index : Nat) (value : Green.Slot) : Except SlotError Staged := do
  let spec ← staged.slotSpec index
  spec.check staged.node.kind value
  return { staged with slots := staged.slots.set index value }

def insert (staged : Staged) (index : Nat) (element : Green.Node) : Except SlotError Staged := do
  let spec ← staged.elementSpec
  if index ≤ staged.slots.length then
    spec.check NodeKind.list (.node element)
    return { staged with slots := staged.slots.insertIdx index (.node element) }
  else
    throw (staged.outOfRange index)

def push (staged : Staged) (element : Green.Node) : Except SlotError Staged :=
  staged.insert staged.slots.length element

def remove (staged : Staged) (index : Nat) : Except SlotError Staged := do
  let _ ← staged.elementSpec
  if index < staged.slots.length then
    return { staged with slots := staged.slots.eraseIdx index }
  else
    throw (staged.outOfRange index)

def edit (staged : Staged) : Edit → Except SlotError Staged
  | .set index value => staged.set index value
  | .insert index element => staged.insert index element
  | .push element => staged.push element
  | .remove index => staged.remove index

/-- Tries edits in order. A refused edit changes nothing, and its reason is kept. -/
def tryEdits (staged : Staged) : List Edit → Staged × List (Option SlotError)
  | [] => (staged, [])
  | edit :: rest =>
    match staged.edit edit with
    | .ok later =>
      let (final, reasons) := later.tryEdits rest
      (final, none :: reasons)
    | .error reason =>
      let (final, reasons) := staged.tryEdits rest
      (final, some reason :: reasons)

def setAll (staged : Staged) : List (Nat × Green.Slot) → Except SlotError Staged
  | [] => .ok staged
  | (index, value) :: rest => do (← staged.set index value).setAll rest

/-- Whether every staged value is the very one in place. -/
def unchanged (staged : Staged) : Bool :=
  Green.Slot.allIdentical staged.node.green.slots staged.slots

end Staged

namespace Red.Node

/-- Rebuilds every ancestor of this node around a green node in its place. Gives the green node of
the new root. -/
def rebuild : Red.Node → Green.Node → Build Green.Node
  | root _, green => return green
  | child _ _ slot parent, green => do
    let parentGreen ← Green.Node.create parent.kind (parent.green.slots.set slot (.node green)) []
    Build.record (.rebuilt parent.kind slot)
    parent.rebuild parentGreen

/-- Puts a green node in place of this node and finds its way back to that place in the new tree. -/
def replaceGreen (node : Red.Node) (green : Green.Node) : Build Red.Node := do
  let rootGreen ← node.rebuild green
  Build.record (.replaced node.kind node.path.length)
  Build.ofMisuse ((root rootGreen).descend node.path.reverse)

end Red.Node

/-- The edited node in the new tree, or the very node when nothing was changed. -/
def Staged.apply (staged : Staged) : Build Red.Node := do
  if staged.unchanged then
    Build.record (.unchanged staged.node.kind)
    return staged.node
  else
    let green ← Green.Node.create staged.node.kind staged.slots []
    staged.node.replaceGreen green

namespace Red

def Node.replaceSlot (node : Node) (index : Nat) (value : Green.Slot) : Build Node := do
  let staged ← Build.ofFit (node.stage.set index value)
  staged.apply

/-- Replaces several slots in one step. The last value for a slot counts. -/
def Node.replaceSlots (node : Node) (values : List (Nat × Green.Slot)) : Build Node := do
  let staged ← Build.ofFit (node.stage.setAll values)
  staged.apply

/-- Replaces the whole node, which must fit the slot it is in. -/
def Node.replaceWith (node : Node) (green : Green.Node) : Build Node :=
  if green.identical node.green then do
    Build.record (.unchanged node.kind)
    return node
  else
    match node with
    | .root _ => return .root green
    | .child _ _ slot parent => do
      let holder ← parent.replaceSlot slot (.node green)
      Build.ofMisuse (holder.requireNode slot "replaced slot holds a node")

def Token.replaceWith (token : Token) (green : Green.Token) : Build Token :=
  if green.identical token.green then do
    Build.record (.unchanged token.kind)
    return token
  else
    match token with
    | .detached _ => return .detached green
    | .held _ _ slot parent => do
      let holder ← parent.replaceSlot slot (.token green)
      Build.ofMisuse (holder.requireToken slot "replaced slot holds a token")

end Red

end SyntaxTree
