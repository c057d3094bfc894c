import SyntaxTree.Green

/-!
Value equality of green values that share parts. The very same node is equal to itself, and that is
told by its stamp, so shared parts are not looked into. Main statements: values that look alike
agree, and where every stamp names one node, values that agree look alike.
-/

namespace SyntaxTree.Green

mutual

/-- Equality of everything but stamps, taking one stamp for one value. -/
def Node.agrees : Node → Node → Bool
  | ⟨stamp, kind, width, hasRemarks, remarks, slots⟩, other =>
    stamp == other.stamp ||
      (kind == other.kind && width == other.width && hasRemarks == other.hasRemarks &&
        remarks == other.remarks && slotsAgree slots other.slots)

def slotsAgree : List (SyntaxTree.Slot Node Token) → List (SyntaxTree.Slot Node Token) → Bool
  | [], [] => true
  | first :: firsts, second :: seconds => slotAgrees first second && slotsAgree firsts seconds
  | _, _ => false

def slotAgrees : SyntaxTree.Slot Node Token → SyntaxTree.Slot Node Token → Bool
  | .node first, .node second => first.agrees second
  | .token first, .token second => first.sameValue second
  | .absent, .absent => true
  | _, _ => false

end

mutual

/-- Every node found in a value is the one that its stamp stands for. -/
def Node.NamedBy (meaning : Stamp → Node) : Node → Prop
  | ⟨stamp, kind, width, hasRemarks, remarks, slots⟩ =>
    meaning stamp = ⟨stamp, kind, width, hasRemarks, remarks, slots⟩ ∧ SlotsNamedBy meaning slots

def SlotsNamedBy (meaning : Stamp → Node) : List (SyntaxTree.Slot Node Token) → Prop
  | [] => True
  | slot :: rest => SlotNamedBy meaning slot ∧ SlotsNamedBy meaning rest

def SlotNamedBy (meaning : Stamp → Node) : SyntaxTree.Slot Node Token → Prop
  | .node node => node.NamedBy meaning
  | .token _ | .absent => True

end

theorem Node.NamedBy.eq_meaning {meaning : Stamp → Node} {node : Node}
    (named : node.NamedBy meaning) : meaning node.stamp = node := by
  cases node
  exact named.1

theorem Node.NamedBy.slots {meaning : Stamp → Node} {node : Node}
    (named : node.NamedBy meaning) : SlotsNamedBy meaning node.slots := by
  cases node
  exact named.2

theorem Token.sameValue_self (token : Token) : token.sameValue token = true := by
  simp [Token.sameValue]

mutual

theorem Node.sameValue_self (node : Node) : node.sameValue node = true :=
  match node with
  | ⟨_, _, _, _, _, slots⟩ => by simp [Node.sameValue, sameSlotValues_self slots]

theorem sameSlotValues_self (slots : List (SyntaxTree.Slot Node Token)) :
    sameSlotValues slots slots = true :=
  match slots with
  | [] => rfl
  | slot :: rest => by simp [sameSlotValues, sameSlotValue_self slot, sameSlotValues_self rest]

theorem sameSlotValue_self (slot : SyntaxTree.Slot Node Token) : sameSlotValue slot slot = true :=
  match slot with
  | .node node => Node.sameValue_self node
  | .token token => Token.sameValue_self token
  | .absent => rfl

end

mutual

theorem Node.agrees_of_sameValue (first second : Node) (same : first.sameValue second = true) :
    first.agrees second = true :=
  match first with
  | ⟨_, _, _, _, _, slots⟩ => by
    simp only [Node.sameValue, Bool.and_eq_true] at same
    simp [Node.agrees, same.1, slotsAgree_of_sameSlotValues slots second.slots same.2]

theorem slotsAgree_of_sameSlotValues (firsts seconds : List (SyntaxTree.Slot Node Token))
    (same : sameSlotValues firsts seconds = true) : slotsAgree firsts seconds = true :=
  match firsts, seconds with
  | [], [] => rfl
  | [], _ :: _ => by simp [sameSlotValues] at same
  | _ :: _, [] => by simp [sameSlotValues] at same
  | first :: firsts, second :: seconds => by
    simp only [sameSlotValues, Bool.and_eq_true] at same
    simp [slotsAgree, slotAgrees_of_sameSlotValue first second same.1,
      slotsAgree_of_sameSlotValues firsts seconds same.2]

theorem slotAgrees_of_sameSlotValue (first second : SyntaxTree.Slot Node Token)
    (same : sameSlotValue first second = true) : slotAgrees first second = true :=
  match first, second with
  | .node first, .node second => Node.agrees_of_sameValue first second same
  | .token _, .token _ => same
  | .absent, .absent => rfl
  | .node _, .token _ | .node _, .absent | .token _, .node _ => by simp [sameSlotValue] at same
  | .token _, .absent | .absent, .node _ | .absent, .token _ => by simp [sameSlotValue] at same

end

mutual

theorem Node.sameValue_of_agrees (meaning : Stamp → Node) (first second : Node)
    (firstNamed : first.NamedBy meaning) (secondNamed : second.NamedBy meaning)
    (agree : first.agrees second = true) : first.sameValue second = true :=
  match first with
  | ⟨stamp, kind, width, hasRemarks, remarks, slots⟩ => by
    by_cases identical : stamp = second.stamp
    · have equal := secondNamed.eq_meaning
      rw [← identical, firstNamed.1] at equal
      rw [← equal]
      exact Node.sameValue_self _
    · simp only [Node.agrees, Bool.or_eq_true, beq_iff_eq, identical, false_or,
        Bool.and_eq_true] at agree
      simp [Node.sameValue, agree.1,
        sameSlotValues_of_slotsAgree meaning slots second.slots firstNamed.2 secondNamed.slots
          agree.2]

theorem sameSlotValues_of_slotsAgree (meaning : Stamp → Node)
    (firsts seconds : List (SyntaxTree.Slot Node Token)) (firstsNamed : SlotsNamedBy meaning firsts)
    (secondsNamed : SlotsNamedBy meaning seconds) (agree : slotsAgree firsts seconds = true) :
    sameSlotValues firsts seconds = true :=
  match firsts, seconds with
  | [], [] => rfl
  | [], _ :: _ => by simp [slotsAgree] at agree
  | _ :: _, [] => by simp [slotsAgree] at agree
  | first :: firsts, second :: seconds => by
    simp only [slotsAgree, Bool.and_eq_true] at agree
    simp [sameSlotValues,
      sameSlotValue_of_slotAgrees meaning first second firstsNamed.1 secondsNamed.1 agree.1,
      sameSlotValues_of_slotsAgree meaning firsts seconds firstsNamed.2 secondsNamed.2 agree.2]

theorem sameSlotValue_of_slotAgrees (meaning : Stamp → Node)
    (first second : SyntaxTree.Slot Node Token) (firstNamed : SlotNamedBy meaning first)
    (secondNamed : SlotNamedBy meaning second) (agree : slotAgrees first second = true) :
    sameSlotValue first second = true :=
  match first, second with
  | .node first, .node second =>
    Node.sameValue_of_agrees meaning first second firstNamed secondNamed agree
  | .token _, .token _ => agree
  | .absent, .absent => rfl
  | .node _, .token _ | .node _, .absent | .token _, .node _ => by simp [slotAgrees] at agree
  | .token _, .absent | .absent, .node _ | .absent, .token _ => by simp [slotAgrees] at agree

end

/-- Looking alike can be told without looking into shared parts. -/
theorem Node.agrees_eq_sameValue {meaning : Stamp → Node} {first second : Node}
    (firstNamed : first.NamedBy meaning) (secondNamed : second.NamedBy meaning) :
    first.agrees second = first.sameValue second :=
  Bool.eq_iff_iff.mpr
    ⟨Node.sameValue_of_agrees meaning first second firstNamed secondNamed,
      Node.agrees_of_sameValue first second⟩

end SyntaxTree.Green
