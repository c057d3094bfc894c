import SyntaxTree.Kind
import SyntaxTree.Slot
import SyntaxTree.Trivia
import SyntaxTree.Diagnostic
import SyntaxTree.Text.Bytes
import SyntaxTree.Workspace

/-!
Green values: immutable tokens and nodes without position or parent, so that one value can stand at
many places of many trees. A node keeps its width and whether it carries remarks anywhere; both
are computed once, when the node is assembled from its slots.
-/

namespace SyntaxTree.Green

structure Token where
  stamp : Stamp
  kind : TokenKind
  /-- Leading trivia, the token proper, and trailing trivia. -/
  text : String
  leading : Trivia
  trailing : Trivia
  remarks : List Remark
  /-- Stands in for a token that the source lacks. -/
  missing : Bool
  deriving DecidableEq

namespace Token

def width (token : Token) : Nat := token.text.utf8ByteSize

/-- The text between the trivia. -/
def trimmedText (token : Token) : String :=
  (Text.slice? token.text token.leading.len (token.width - token.trailing.len)).getD ""

def identical (first second : Token) : Bool := first.stamp == second.stamp

def sameValue (first second : Token) : Bool :=
  { first with stamp := second.stamp } == second

end Token

structure Node where
  stamp : Stamp
  kind : NodeKind
  width : Nat
  /-- Whether this node or anything below it carries remarks. -/
  hasRemarks : Bool
  remarks : List Remark
  slots : List (Slot Node Token)

abbrev Slot := SyntaxTree.Slot Node Token

namespace Slot

def width : Green.Slot → Nat
  | .node node => node.width
  | .token token => token.width
  | .absent => 0

def kind? : Green.Slot → Option Kind
  | .node node => some node.kind
  | .token token => some token.kind
  | .absent => none

def hasRemarks : Green.Slot → Bool
  | .node node => node.hasRemarks
  | .token token => !token.remarks.isEmpty
  | .absent => false

def stamp? : Green.Slot → Option Stamp
  | .node node => some node.stamp
  | .token token => some token.stamp
  | .absent => none

/-- The very same value, or absence on both sides. -/
def identical : Green.Slot → Green.Slot → Bool
  | .node first, .node second => first.stamp == second.stamp
  | .token first, .token second => first.identical second
  | .absent, .absent => true
  | _, _ => false

def totalWidth : List Green.Slot → Nat
  | [] => 0
  | slot :: rest => width slot + totalWidth rest

/-- Slot by slot the very same values, and equally many. -/
def allIdentical : List Green.Slot → List Green.Slot → Bool
  | [], [] => true
  | first :: firsts, second :: seconds => identical first second && allIdentical firsts seconds
  | _, _ => false

@[simp]
theorem identical_self (slot : Green.Slot) : slot.identical slot = true := by
  cases slot <;> simp [identical, Token.identical]

@[simp]
theorem allIdentical_self (slots : List Green.Slot) : allIdentical slots slots = true := by
  induction slots with
  | nil => rfl
  | cons slot rest inductionHypothesis => simp [allIdentical, inductionHypothesis]

end Slot

namespace Node

/-- Puts a node together. Nothing is checked here. -/
def assemble (stamp : Stamp) (kind : NodeKind) (slots : List Green.Slot)
    (remarks : List Remark) : Node where
  stamp := stamp
  kind := kind
  width := Slot.totalWidth slots
  hasRemarks := !remarks.isEmpty || slots.any Slot.hasRemarks
  remarks := remarks
  slots := slots

def identical (first second : Node) : Bool := first.stamp == second.stamp

def slot? (node : Node) (index : Nat) : Option Green.Slot := node.slots[index]?

def slotOffset (node : Node) (index : Nat) : Nat := Slot.totalWidth (node.slots.take index)

/-- Like `slot?`, for callers that know the number of slots. -/
def slot (node : Node) (index : Nat) : Except Misuse Green.Slot :=
  match node.slot? index with
  | some slot => .ok slot
  | none => .error (.slotOutOfBounds index node.kind node.slots.length)

theorem slot_eq_ok_iff {node : Node} {index : Nat} {found : Green.Slot} :
    node.slot index = .ok found ↔ node.slots[index]? = some found := by
  simp only [slot, slot?]
  cases node.slots[index]? <;> simp

def offsetOf (node : Node) (index : Nat) : Except Misuse Nat :=
  (node.slot index).map fun _ => node.slotOffset index

end Node

mutual

/-- Goes on writing the source text of a node behind a given text. -/
def Node.appendText : Node → String → String
  | ⟨_, _, _, _, _, slots⟩, text => appendTexts slots text

def appendTexts : List (SyntaxTree.Slot Node Token) → String → String
  | [], text => text
  | slot :: rest, text => appendTexts rest (appendSlotText slot text)

def appendSlotText : SyntaxTree.Slot Node Token → String → String
  | .node node, text => node.appendText text
  | .token token, text => text ++ token.text
  | .absent, text => text

end

/-- The source text of a node: the full texts of its tokens in order. -/
def Node.text (node : Node) : String := node.appendText ""

def textOfSlot (slot : Slot) : String := appendSlotText slot ""

def textOfSlots (slots : List Slot) : String := appendTexts slots ""

mutual

theorem Node.appendText_eq_append (node : Node) (text : String) :
    node.appendText text = text ++ node.text :=
  match node with
  | ⟨_, _, _, _, _, slots⟩ => appendTexts_eq_append slots text

theorem appendTexts_eq_append (slots : List (SyntaxTree.Slot Node Token)) (text : String) :
    appendTexts slots text = text ++ textOfSlots slots :=
  match slots with
  | [] => by simp [textOfSlots, appendTexts]
  | slot :: rest => by
    have whole : textOfSlots (slot :: rest) = textOfSlot slot ++ textOfSlots rest :=
      appendTexts_eq_append rest _
    rw [whole, appendTexts, appendTexts_eq_append rest, appendSlotText_eq_append slot,
      String.append_assoc]

theorem appendSlotText_eq_append (slot : SyntaxTree.Slot Node Token) (text : String) :
    appendSlotText slot text = text ++ textOfSlot slot :=
  match slot with
  | .node node => Node.appendText_eq_append node text
  | .token _ => by simp [textOfSlot, appendSlotText]
  | .absent => by simp [textOfSlot, appendSlotText]

end

theorem Node.text_eq (node : Node) : node.text = textOfSlots node.slots := by
  cases node
  rfl

@[simp]
theorem textOfSlots_nil : textOfSlots [] = "" := rfl

@[simp]
theorem textOfSlots_cons (slot : Slot) (rest : List Slot) :
    textOfSlots (slot :: rest) = textOfSlot slot ++ textOfSlots rest :=
  appendTexts_eq_append rest _

@[simp]
theorem textOfSlot_node (node : Node) : textOfSlot (.node node) = node.text := rfl

@[simp]
theorem textOfSlot_token (token : Token) : textOfSlot (.token token) = token.text := by
  simp [textOfSlot, appendSlotText]

@[simp]
theorem textOfSlot_absent : textOfSlot .absent = "" := rfl

@[simp]
theorem textOfSlots_append (front back : List Slot) :
    textOfSlots (front ++ back) = textOfSlots front ++ textOfSlots back := by
  induction front with
  | nil => simp
  | cons slot rest inductionHypothesis => simp [inductionHypothesis, String.append_assoc]

theorem textOfSlots_split {slots : List Slot} {index : Nat} {slot : Slot}
    (present : slots[index]? = some slot) :
    textOfSlots slots = textOfSlots (slots.take index) ++ textOfSlot slot ++
      textOfSlots (slots.drop (index + 1)) := by
  obtain ⟨inRange, found⟩ := List.getElem?_eq_some_iff.mp present
  rw [String.append_assoc, ← found, ← textOfSlots_cons, List.getElem_cons_drop inRange,
    ← textOfSlots_append, List.take_append_drop]

/-- Right widths add up to the size of the text. -/
theorem totalWidth_eq_size {slots : List Slot}
    (widths : ∀ slot ∈ slots, Slot.width slot = (textOfSlot slot).utf8ByteSize) :
    Slot.totalWidth slots = (textOfSlots slots).utf8ByteSize := by
  induction slots with
  | nil => rfl
  | cons slot rest inductionHypothesis =>
      rw [List.forall_mem_cons] at widths
      rw [Slot.totalWidth, widths.1, inductionHypothesis widths.2, textOfSlots_cons,
        String.utf8ByteSize_append]

/-- Whether a node has a given text. Its width tells most other texts apart. -/
def Node.hasText (node : Node) (text : String) : Bool :=
  node.width == text.utf8ByteSize && node.text == text

mutual

def Node.size : Node → Nat
  | ⟨_, _, _, _, _, slots⟩ => 1 + sizeOfSlots slots

def sizeOfSlots : List (SyntaxTree.Slot Node Token) → Nat
  | [] => 0
  | slot :: rest => sizeOfSlot slot + sizeOfSlots rest

def sizeOfSlot : SyntaxTree.Slot Node Token → Nat
  | .node node => node.size
  | .token _ => 1
  | .absent => 0

end

theorem Node.size_eq (node : Node) : node.size = 1 + sizeOfSlots node.slots := by
  cases node
  rfl

mutual

/-- Equality of everything but stamps, at every depth. -/
def Node.sameValue : Node → Node → Bool
  | ⟨_, kind, width, hasRemarks, remarks, slots⟩, other =>
    kind == other.kind && width == other.width && hasRemarks == other.hasRemarks &&
      remarks == other.remarks && sameSlotValues slots other.slots

def sameSlotValues :
    List (SyntaxTree.Slot Node Token) → List (SyntaxTree.Slot Node Token) → Bool
  | [], [] => true
  | first :: firsts, second :: seconds =>
    sameSlotValue first second && sameSlotValues firsts seconds
  | _, _ => false

def sameSlotValue : SyntaxTree.Slot Node Token → SyntaxTree.Slot Node Token → Bool
  | .node first, .node second => first.sameValue second
  | .token first, .token second => first.sameValue second
  | .absent, .absent => true
  | _, _ => false

end

end SyntaxTree.Green
