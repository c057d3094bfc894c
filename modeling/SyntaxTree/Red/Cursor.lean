import SyntaxTree.Red

/-!
Reading the slots of a node from both ends. The slots still to come are those from `front` up to,
not including, `back`.
-/

namespace SyntaxTree.Red

structure Cursor where
  node : Node
  front : Nat
  back : Nat

namespace Cursor

def ofNode (node : Node) : Cursor := ⟨node, 0, node.slotCount⟩

def remaining (cursor : Cursor) : Nat := cursor.back - cursor.front

/-- Takes the first slot still to come. -/
def next? (cursor : Cursor) : Option (Slot × Cursor) :=
  if cursor.front = cursor.back then
    none
  else
    (cursor.node.slot? cursor.front).map fun slot =>
      (slot, { cursor with front := cursor.front + 1 })

/-- Takes the last slot still to come. -/
def nextBack? (cursor : Cursor) : Option (Slot × Cursor) :=
  if cursor.front = cursor.back then
    none
  else
    (cursor.node.slot? (cursor.back - 1)).map fun slot =>
      (slot, { cursor with back := cursor.back - 1 })

def seekWithin (wanted : Slot → Bool) : Nat → Cursor → Option (Slot × Cursor)
  | 0, _ => none
  | steps + 1, cursor =>
    match cursor.next? with
    | none => none
    | some (slot, rest) => if wanted slot then some (slot, rest) else seekWithin wanted steps rest

/-- Takes the first wanted slot still to come, passing over the ones before it. -/
def seek (wanted : Slot → Bool) (cursor : Cursor) : Option (Slot × Cursor) :=
  seekWithin wanted cursor.remaining cursor

end Cursor

inductive Direction
  | forward
  | backward
  deriving DecidableEq

def Cursor.take? (cursor : Cursor) : Direction → Option (Slot × Cursor)
  | .forward => cursor.next?
  | .backward => cursor.nextBack?

/-- What a cursor answers to a sequence of calls, with the number of slots left after each. A call
past the end answers `none` and changes nothing. -/
def Cursor.answers (cursor : Cursor) : List Direction → List (Option Slot × Nat)
  | [] => []
  | direction :: rest =>
    match cursor.take? direction with
    | none => (none, cursor.remaining) :: cursor.answers rest
    | some (slot, later) => (some slot, later.remaining) :: later.answers rest

end SyntaxTree.Red
