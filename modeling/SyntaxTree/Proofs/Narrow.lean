import Mathlib.Algebra.Group.Nat.Defs
import SyntaxTree.Proofs.Place

/-!
Positions in 32 bits. Widths are added up slot by slot when a node is put together, offsets level by
level on the way down to a handle, and each sum has to fit again. Main statement: in a tree with a
text that fits, every position and every range comes out as it does with unbounded numbers.
-/

namespace SyntaxTree

namespace Narrow

/-- How many positions there are. -/
def limit : Nat := 2 ^ 32

def add? (first second : Nat) : Option Nat :=
  if first + second < limit then some (first + second) else none

def sub? (first second : Nat) : Option Nat :=
  if second ≤ first then some (first - second) else none

/-- The size of a text, without the bits that are too many. -/
def sizeOf (text : String) : Nat := text.utf8ByteSize % limit

def spanning? (start width : Nat) : Option TextRange := do
  let stop ← add? start width
  TextRange.ordered? start stop

theorem add?_eq {first second : Nat} (fits : first + second < limit) :
    add? first second = some (first + second) :=
  if_pos fits

theorem sub?_eq {first second : Nat} (inOrder : second ≤ first) :
    sub? first second = some (first - second) :=
  if_pos inOrder

theorem spanning?_eq {start width : Nat} (fits : start + width < limit) :
    spanning? start width = some (.spanning start width) := by
  rw [spanning?, add?_eq fits]
  exact if_pos (Nat.le_add_right start width)

end Narrow

open Narrow

/-- The length of all pieces, added up from the first on. -/
def Trivia.narrowLen? (trivia : Trivia) : Option Nat :=
  trivia.pieces.foldlM (fun total piece => add? total piece.len) 0

theorem Trivia.narrowLen?_eq (trivia : Trivia) (fits : trivia.len < limit) :
    trivia.narrowLen? = some trivia.len := by
  have general (pieces : List TriviaPiece) (total : Nat) (fits : total + Trivia.len ⟨pieces⟩ < limit) :
      pieces.foldlM (fun total piece => add? total piece.len) total =
        some (total + Trivia.len ⟨pieces⟩) := by
    induction pieces generalizing total with
    | nil => rfl
    | cons piece rest inductionHypothesis =>
        have len_eq : Trivia.len ⟨piece :: rest⟩ = piece.len + Trivia.len ⟨rest⟩ := rfl
        rw [len_eq] at fits ⊢
        rw [List.foldlM_cons, add?_eq (by omega)]
        refine (inductionHypothesis (total + piece.len) (by omega)).trans ?_
        rw [Nat.add_assoc]
  have whole := general trivia.pieces 0 (by rwa [Nat.zero_add])
  rwa [Nat.zero_add] at whole

theorem Trivia.len_ofTexts (texts : List (TriviaKind × String)) :
    (Trivia.ofTexts texts).len = (String.join (texts.map (·.2))).utf8ByteSize := by
  induction texts with
  | nil => rfl
  | cons entry rest inductionHypothesis =>
      have len_eq : (Trivia.ofTexts (entry :: rest)).len =
          entry.2.utf8ByteSize + (Trivia.ofTexts rest).len := rfl
      rw [len_eq, inductionHypothesis, List.map_cons, String.join_cons, String.utf8ByteSize_append]

namespace Green

mutual

def Node.narrowWidth? : Node → Option Nat
  | ⟨_, _, _, _, _, slots⟩ => (narrowStarts? 0 slots).map (·.2)

/-- Where consecutive slots start if the first starts at `start`, and where the last of them ends. -/
def narrowStarts? : Nat → List (SyntaxTree.Slot Node Token) → Option (List Nat × Nat)
  | start, [] => some ([], start)
  | start, slot :: rest => do
    let width ← narrowSlotWidth? slot
    let next ← add? start width
    let (starts, stop) ← narrowStarts? next rest
    return (start :: starts, stop)

def narrowSlotWidth? : SyntaxTree.Slot Node Token → Option Nat
  | .node node => node.narrowWidth?
  | .token token => some (Narrow.sizeOf token.text)
  | .absent => some 0

end

theorem narrowStarts?_eq {slots : List Slot} {start : Nat}
    (widths : ∀ slot ∈ slots, slot.width < limit → narrowSlotWidth? slot = some slot.width)
    (fits : start + Slot.totalWidth slots < limit) :
    ∃ starts, narrowStarts? start slots = some (starts, start + Slot.totalWidth slots) ∧
      ∀ index < slots.length, starts[index]? = some (start + Slot.totalWidth (slots.take index)) := by
  induction slots generalizing start with
  | nil => exact ⟨[], rfl, by simp⟩
  | cons slot rest inductionHypothesis =>
      rw [List.forall_mem_cons] at widths
      rw [Slot.totalWidth, ← Nat.add_assoc] at fits
      have width_eq := widths.1 (by omega)
      have next_eq : add? start slot.width = some (start + slot.width) := add?_eq (by omega)
      obtain ⟨starts, run, starts_eq⟩ := inductionHypothesis widths.2 fits
      refine ⟨start :: starts, ?_, ?_⟩
      · rw [Slot.totalWidth, ← Nat.add_assoc]
        simp [narrowStarts?, width_eq, next_eq, run]
      · intro index inRange
        cases index with
        | zero => simp [Slot.totalWidth]
        | succ index =>
            rw [List.getElem?_cons_succ, starts_eq index (Nat.lt_of_succ_lt_succ inRange),
              List.take_succ_cons, Slot.totalWidth, Nat.add_assoc]

theorem Node.narrowWidth?_eq (node : Node) :
    node.narrowWidth? = (narrowStarts? 0 node.slots).map (·.2) := by
  cases node
  rfl

/-- The width of a value that fits is added up without overflow, at every depth. -/
theorem History.narrowSlotWidth?_eq {workspace : Workspace} {made : List Slot}
    (history : History workspace made) {value : Slot} (available : Available made value) :
    value.width < limit → narrowSlotWidth? value = some value.width := by
  refine history.induction_on (motive := fun value =>
    value.width < limit → narrowSlotWidth? value = some value.width) ?_ ?_ ?_ available
  · intro _
    rfl
  · intro call token earlier later _ fits
    exact congrArg some (Nat.mod_eq_of_lt fits)
  · intro stamp kind slots remarks _ widths fits
    have total : Slot.width (.node (.assemble stamp kind slots remarks)) =
        0 + Slot.totalWidth slots := (Nat.zero_add _).symm
    obtain ⟨starts, run, _⟩ := @narrowStarts?_eq slots 0 widths (by rwa [← total])
    rw [narrowSlotWidth?, Node.narrowWidth?_eq, total]
    exact congrArg (Option.map (·.2)) run

theorem Slot.totalWidth_append (front back : List Slot) :
    totalWidth (front ++ back) = totalWidth front + totalWidth back := by
  induction front with
  | nil => exact (Nat.zero_add _).symm
  | cons slot rest inductionHypothesis =>
      rw [List.cons_append, totalWidth, totalWidth, inductionHypothesis, Nat.add_assoc]

theorem Slot.totalWidth_take_le (slots : List Slot) (count : Nat) :
    totalWidth (slots.take count) ≤ totalWidth slots := by
  have split := totalWidth_append (slots.take count) (slots.drop count)
  rw [List.take_append_drop] at split
  omega

theorem Token.trivia_of_create {kind : Kind} {text : String} {remarks : List Remark}
    {workspace later : Workspace} {token : Token}
    (made : create kind text remarks workspace = .ok token later) :
    token.leading = .empty ∧ token.trailing = .empty := by
  cases kind with
  | token kind =>
      cases made
      exact ⟨rfl, rfl⟩
  | node kind => cases made

/-- The trivia around a token are part of its text. -/
theorem TokenCall.trivia_le_width {call : TokenCall} {workspace later : Workspace} {token : Token}
    (made : call.run workspace = .ok token later) :
    token.leading.len + token.trailing.len ≤ token.width := by
  cases call with
  | plain kind text remarks =>
      obtain ⟨leading, trailing⟩ := Token.trivia_of_create made
      rw [leading, trailing]
      exact Nat.zero_le _
  | withTrivia kind leading text trailing =>
      cases kind with
      | token kind =>
          cases made
          simp only [Token.width, Trivia.len_ofTexts, String.utf8ByteSize_append]
          omega
      | node kind => cases made
  | missing kind remark =>
      cases kind with
      | token kind =>
          cases made
          exact Nat.zero_le _
      | node kind => cases made
  | fixed kind =>
      obtain ⟨_, _, created⟩ := Token.createFixed_eq_ok made
      obtain ⟨leading, trailing⟩ := Token.trivia_of_create created
      rw [leading, trailing]
      exact Nat.zero_le _

theorem History.trivia_le_width {workspace : Workspace} {made : List Slot}
    (history : History workspace made) {token : Token} (present : .token token ∈ made) :
    token.leading.len + token.trailing.len ≤ token.width := by
  obtain ⟨_, _, _, called⟩ := history.token_cases present
  exact TokenCall.trivia_le_width called

/-- Where a slot starts if its node starts at `offset`. -/
def Node.narrowSlotOffset? (node : Node) (offset index : Nat) : Option Nat := do
  let (starts, _) ← narrowStarts? 0 node.slots
  let start ← starts[index]?
  add? offset start

end Green

namespace Red

namespace Node

def narrowOffset? : Node → Option Nat
  | root _ => some 0
  | child _ _ slot parent => do
    let parentOffset ← parent.narrowOffset?
    parent.green.narrowSlotOffset? parentOffset slot

def narrowRange? (node : Node) : Option TextRange := do
  let offset ← node.narrowOffset?
  let width ← node.green.narrowWidth?
  spanning? offset width

end Node

namespace Token

def narrowOffset? : Token → Option Nat
  | detached _ => some 0
  | held _ _ slot parent => do
    let parentOffset ← parent.narrowOffset?
    parent.green.narrowSlotOffset? parentOffset slot

def narrowRange? (token : Token) : Option TextRange := do
  let offset ← token.narrowOffset?
  spanning? offset (Narrow.sizeOf token.text)

/-- The range without trivia. Its start must not come behind its end. -/
def narrowTrimmedRange? (token : Token) : Option TextRange := do
  let range ← token.narrowRange?
  let leading ← token.green.leading.narrowLen?
  let trailing ← token.green.trailing.narrowLen?
  let start ← add? range.start leading
  let stop ← sub? range.stop trailing
  TextRange.ordered? start stop

end Token

section InTree

variable {workspace : Workspace} {made : List Green.Slot} {root : Green.Node}

theorem Node.InTree.stop_le {node : Node} (inTree : Node.InTree root node)
    (history : Green.History workspace made) (rootMade : .node root ∈ made) :
    node.offset + node.width ≤ root.text.utf8ByteSize := by
  rw [inTree.text_eq, inTree.offset_eq_size history rootMade, inTree.width_eq_size history rootMade,
    String.utf8ByteSize_append, String.utf8ByteSize_append]
  exact Nat.le_add_right _ _

theorem Token.InTree.stop_le {token : Token} (inTree : Token.InTree root token)
    (history : Green.History workspace made) (rootMade : .node root ∈ made) :
    token.offset + token.width ≤ root.text.utf8ByteSize := by
  rw [inTree.text_eq, inTree.offset_eq_size history rootMade, String.utf8ByteSize_append,
    String.utf8ByteSize_append]
  exact Nat.le_add_right _ _

/-- All slots of a node start where they do with unbounded numbers. -/
theorem Node.InTree.narrowSlotOffset?_eq {node : Node} (inTree : Node.InTree root node)
    (history : Green.History workspace made) (rootMade : .node root ∈ made)
    (fits : root.text.utf8ByteSize < limit) {index : Nat} (inRange : index < node.slotCount) :
    node.green.narrowSlotOffset? node.offset index =
      some (node.offset + node.green.slotOffset index) := by
  have greenMade := inTree.green_mem history rootMade
  have stop_le := inTree.stop_le history rootMade
  have width_eq : node.width = Green.Slot.totalWidth node.green.slots :=
    history.width_eq_totalWidth greenMade
  have before_le := Green.Slot.totalWidth_take_le node.green.slots index
  have widths : ∀ (slot : Green.Slot), slot ∈ node.green.slots → slot.width < limit →
      Green.narrowSlotWidth? slot = some slot.width :=
    fun slot present => history.narrowSlotWidth?_eq (history.slots_available greenMade slot present)
  obtain ⟨starts, run, starts_eq⟩ := @Green.narrowStarts?_eq _ 0 widths (by omega)
  have start_eq := starts_eq index inRange
  rw [Nat.zero_add] at start_eq
  have sum_eq : add? node.offset (Green.Slot.totalWidth (node.green.slots.take index)) =
      some (node.offset + node.green.slotOffset index) := by
    exact add?_eq (by omega)
  simp [Green.Node.narrowSlotOffset?, run, start_eq, sum_eq]

theorem Node.InTree.narrowOffset?_eq {node : Node} (inTree : Node.InTree root node)
    (history : Green.History workspace made) (rootMade : .node root ∈ made)
    (fits : root.text.utf8ByteSize < limit) : node.narrowOffset? = some node.offset := by
  induction node with
  | root green => rfl
  | child green offset slot parent inductionHypothesis =>
      obtain ⟨parentInTree, present, rfl⟩ := Node.InTree.child_iff.mp inTree
      obtain ⟨inRange, _⟩ := List.getElem?_eq_some_iff.mp present
      have slotOffset_eq := parentInTree.narrowSlotOffset?_eq history rootMade fits inRange
      rw [Node.narrowOffset?, inductionHypothesis parentInTree]
      exact slotOffset_eq

theorem Node.InTree.narrowRange?_eq {node : Node} (inTree : Node.InTree root node)
    (history : Green.History workspace made) (rootMade : .node root ∈ made)
    (fits : root.text.utf8ByteSize < limit) : node.narrowRange? = some node.range := by
  have stop_le := inTree.stop_le history rootMade
  have width_eq : node.green.narrowWidth? = some node.width :=
    history.narrowSlotWidth?_eq (.inr (inTree.green_mem history rootMade))
      (show node.width < limit by omega)
  have range_eq : spanning? node.offset node.width = some node.range :=
    spanning?_eq (by omega)
  simp [Node.narrowRange?, inTree.narrowOffset?_eq history rootMade fits, width_eq, range_eq]

theorem Token.InTree.narrowOffset?_eq {token : Token} (inTree : Token.InTree root token)
    (history : Green.History workspace made) (rootMade : .node root ∈ made)
    (fits : root.text.utf8ByteSize < limit) : token.narrowOffset? = some token.offset := by
  obtain ⟨parent, index, parentInTree, found⟩ := inTree
  obtain ⟨green, present, rfl⟩ := Node.slot?_eq_token_iff.mp found
  obtain ⟨inRange, _⟩ := List.getElem?_eq_some_iff.mp present
  have slotOffset_eq := parentInTree.narrowSlotOffset?_eq history rootMade fits inRange
  rw [Token.narrowOffset?, parentInTree.narrowOffset?_eq history rootMade fits]
  exact slotOffset_eq

theorem Token.InTree.narrowRange?_eq {token : Token} (inTree : Token.InTree root token)
    (history : Green.History workspace made) (rootMade : .node root ∈ made)
    (fits : root.text.utf8ByteSize < limit) : token.narrowRange? = some token.range := by
  have stop_le := inTree.stop_le history rootMade
  have width_eq : Narrow.sizeOf token.text = token.width :=
    Nat.mod_eq_of_lt (show token.width < limit by omega)
  have range_eq : spanning? token.offset token.width = some token.range :=
    spanning?_eq (by omega)
  simp [Token.narrowRange?, inTree.narrowOffset?_eq history rootMade fits, width_eq, range_eq]

theorem Token.InTree.narrowTrimmedRange?_eq {token : Token} (inTree : Token.InTree root token)
    (history : Green.History workspace made) (rootMade : .node root ∈ made)
    (fits : root.text.utf8ByteSize < limit) :
    token.narrowTrimmedRange? = some token.trimmedRange := by
  have stop_le := inTree.stop_le history rootMade
  have trivia_le : token.green.leading.len + token.green.trailing.len ≤ token.width :=
    history.trivia_le_width (inTree.green_mem history rootMade)
  have leading_eq := token.green.leading.narrowLen?_eq (by omega)
  have trailing_eq := token.green.trailing.narrowLen?_eq (by omega)
  have start_eq : add? token.range.start token.green.leading.len = some token.trimmedRange.start :=
    add?_eq (show token.offset + token.green.leading.len < limit by omega)
  have stop_eq : sub? token.range.stop token.green.trailing.len = some token.trimmedRange.stop :=
    sub?_eq (show token.green.trailing.len ≤ token.offset + token.width by omega)
  have ordered : TextRange.ordered? token.trimmedRange.start token.trimmedRange.stop =
      some token.trimmedRange :=
    if_pos (show token.offset + token.green.leading.len ≤
      token.offset + token.width - token.green.trailing.len by omega)
  simp [Token.narrowTrimmedRange?, inTree.narrowRange?_eq history rootMade fits, leading_eq,
    trailing_eq, start_eq, stop_eq, ordered]

end InTree

end Red

end SyntaxTree
