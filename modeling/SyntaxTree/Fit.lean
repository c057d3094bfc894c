import SyntaxTree.Layout
import SyntaxTree.Green

/-!
Whether values fit a layout. A slot is checked against its spec, looking one level into lists; a
whole slot sequence is checked from left to right, and the first misfit is the one reported.
-/

namespace SyntaxTree

def requireKind (owner : Kind) (slot : String) (expected : KindSet) (found : Kind) :
    Except SlotError Unit :=
  if expected.contains found then .ok () else .error (.unexpectedKind owner slot expected found)

namespace SlotSpec

def checkElement (spec : SlotSpec) (owner : Kind) (elements : KindSet) :
    Green.Slot → Except SlotError Unit
  | .node element => requireKind owner spec.name elements element.kind
  | .token _ => .error (.shapeMismatch owner spec.name "node" "token")
  | .absent => .error (.requiredSlotAbsent NodeKind.list spec.name)

def checkElements (spec : SlotSpec) (owner : Kind) (elements : KindSet) :
    List Green.Slot → Except SlotError Unit
  | [] => .ok ()
  | slot :: rest => do
    spec.checkElement owner elements slot
    spec.checkElements owner elements rest

def check (spec : SlotSpec) (owner : Kind) (slot : Green.Slot) : Except SlotError Unit :=
  match slot, spec.shape with
  | .absent, _ =>
    if spec.optional then .ok () else .error (.requiredSlotAbsent owner spec.name)
  | .token token, .token kinds => requireKind owner spec.name kinds token.kind
  | .node node, .node kinds => requireKind owner spec.name kinds node.kind
  | .node node, .list elements => do
    requireKind owner spec.name (.single NodeKind.list) node.kind
    spec.checkElements owner elements node.slots
  | .node _, .token _ => .error (.shapeMismatch owner spec.name "token" "node")
  | .token _, .node _ | .token _, .list _ => .error (.shapeMismatch owner spec.name "node" "token")

/-- Checks slots against specs, pairwise. -/
def checkAll (owner : Kind) : List SlotSpec → List Green.Slot → Except SlotError Unit
  | spec :: specs, slot :: slots => do
    spec.check owner slot
    checkAll owner specs slots
  | _, _ => .ok ()

end SlotSpec

namespace NodeKind

/-- The specs of the slots of a node with `count` slots. -/
def specs (kind : NodeKind) (count : Nat) : List SlotSpec :=
  match kind with
  | list => List.replicate count .anyElement
  | kind => kind.layout

def checkSlots (kind : NodeKind) (slots : List Green.Slot) : Except SlotError Unit :=
  let specs := kind.specs slots.length
  if specs.length = slots.length then
    SlotSpec.checkAll kind specs slots
  else
    .error (.arityMismatch kind specs.length slots.length)

end NodeKind

/-- The node kind of a node that may be built from these slots. -/
def Kind.checkSlots (kind : Kind) (slots : List Green.Slot) : Except SlotError NodeKind :=
  match kind with
  | .token kind => .error (.notANode kind)
  | .node kind => do
    kind.checkSlots slots
    return kind

theorem Kind.checkSlots_eq_ok_iff {kind : Kind} {nodeKind : NodeKind} {slots : List Green.Slot} :
    kind.checkSlots slots = .ok nodeKind ↔
      kind = .node nodeKind ∧ nodeKind.checkSlots slots = .ok () := by
  cases kind with
  | token kind => simp [checkSlots]
  | node kind =>
      cases checked : kind.checkSlots slots with
      | ok _ =>
          simp only [checkSlots, checked, bind, Except.bind, pure, Except.pure, Except.ok.injEq,
            node.injEq]
          exact ⟨fun same => ⟨same, by rw [← same, checked]⟩, fun both => both.1⟩
      | error reason =>
          simp only [checkSlots, checked, bind, Except.bind, reduceCtorEq, node.injEq, false_iff]
          rintro ⟨rfl, fits⟩
          rw [checked] at fits
          cases fits

end SyntaxTree
