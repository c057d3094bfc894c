import SyntaxTree.Proofs.Narrow
import SyntaxTree.Proofs.Traversal

/-!
Positions and the text. Main statement: in a tree with a text that fits 32 bits no position
overflows, the text at the range of a handle is the text of the handle, the tokens that a walk shows
write the text from end to end, and the slots of a node cover its range without gap or overlap.
-/

namespace SyntaxTree

namespace TextRange

/-- Whether ranges lie end to end from one position to another, without gap or overlap. -/
def Tile : Nat → Nat → List TextRange → Prop
  | start, stop, [] => start = stop
  | start, stop, range :: rest =>
    range.start = start ∧ range.start ≤ range.stop ∧ Tile range.stop stop rest

theorem tile_spanning_cons {start width stop : Nat} {rest : List TextRange} :
    Tile start stop (.spanning start width :: rest) ↔ Tile (start + width) stop rest := by
  simp [Tile, spanning]

theorem Tile.append {start middle stop : Nat} {front back : List TextRange}
    (frontTile : Tile start middle front) (backTile : Tile middle stop back) :
    Tile start stop (front ++ back) := by
  induction front generalizing start with
  | nil =>
      obtain rfl : start = middle := frontTile
      exact backTile
  | cons range rest inductionHypothesis =>
      obtain ⟨start_eq, inOrder, restTile⟩ := frontTile
      exact ⟨start_eq, inOrder, inductionHypothesis restTile⟩

end TextRange

namespace Red

open TextRange (Tile)

def WalkEvent.token? : WalkEvent → Option Token
  | .token value => some value
  | .enter _ | .leave _ => none

/-- The tokens that a walk shows. -/
def Node.tokens (node : Node) : List Token := (Walk.start true node).toList.filterMap (·.token?)

def Slot.tokens : Slot → List Token
  | .node node => node.tokens
  | .token token => [token]
  | .absent => []

theorem Node.tokens_eq (node : Node) : node.tokens = node.slots.flatMap Slot.tokens := by
  have shown (slot : Slot) : (slot.events true).filterMap (·.token?) = slot.tokens := by
    cases slot with
    | node below => rw [Slot.tokens, Node.tokens, Walk.toList_start, Slot.events]
    | token token => rfl
    | absent => rfl
  rw [tokens, Walk.toList_start, events_eq, List.cons_append, List.filterMap_cons_none rfl,
    List.filterMap_append, List.filterMap_flatMap, List.filterMap_cons_none rfl, List.filterMap_nil,
    List.append_nil]
  exact List.flatMap_congr fun slot _ => shown slot

theorem join_tokens_of_slots {slots : List Slot}
    (below : ∀ {node}, .node node ∈ slots → String.join (node.tokens.map (·.text)) = node.text) :
    String.join ((slots.flatMap Slot.tokens).map (·.text)) =
      Green.textOfSlots (slots.map Slot.green) := by
  induction slots with
  | nil => rfl
  | cons slot rest inductionHypothesis =>
      have restText := inductionHypothesis fun present => below (List.mem_cons_of_mem _ present)
      have slotText : String.join (slot.tokens.map (·.text)) = Green.textOfSlot slot.green := by
        cases slot with
        | node node => exact below List.mem_cons_self
        | token token => simp [Slot.tokens, Slot.green, Slot.map, Token.text]
        | absent => rfl
      rw [List.flatMap_cons, List.map_append, String.join_append, slotText, restText, List.map_cons,
        Green.textOfSlots_cons]

/-- The tokens of a node write its text. -/
theorem Node.join_tokens (node : Node) : String.join (node.tokens.map (·.text)) = node.text := by
  induction node using below_induction with
  | step node inductionHypothesis =>
      rw [tokens_eq, join_tokens_of_slots inductionHypothesis, map_green_slots, text,
        Green.Node.text_eq]

theorem tile_tokens_viewAll {holder : Node} {index offset : Nat} {slots : List Green.Slot}
    (below : ∀ {node}, .node node ∈ viewAll holder index offset slots →
      Tile node.offset (node.offset + node.width) (node.tokens.map (·.range))) :
    Tile offset (offset + Green.Slot.totalWidth slots)
      (((viewAll holder index offset slots).flatMap Slot.tokens).map (·.range)) := by
  induction slots generalizing index offset with
  | nil => rfl
  | cons slot rest inductionHypothesis =>
      have restTile := inductionHypothesis fun present => below (List.mem_cons_of_mem _ present)
      have slotTile : Tile offset (offset + slot.width)
          ((view holder index offset slot).tokens.map (·.range)) := by
        cases slot with
        | node green => exact below List.mem_cons_self
        | token green => exact TextRange.tile_spanning_cons.mpr rfl
        | absent => rfl
      rw [viewAll, List.flatMap_cons, List.map_append, Green.Slot.totalWidth, ← Nat.add_assoc]
      exact slotTile.append restTile

variable {root : Green.Node} {workspace : Workspace} {made : List Green.Slot}

theorem Node.InTree.tile_tokens {node : Node} (history : Green.History workspace made)
    (rootMade : .node root ∈ made) (inTree : Node.InTree root node) :
    Tile node.offset (node.offset + node.width) (node.tokens.map (·.range)) := by
  induction node using below_induction with
  | step node inductionHypothesis =>
      have width_eq : node.width = Green.Slot.totalWidth node.green.slots :=
        history.width_eq_totalWidth (inTree.green_mem history rootMade)
      rw [tokens_eq, width_eq]
      refine tile_tokens_viewAll fun present => inductionHypothesis present ?_
      obtain ⟨index, shown⟩ := mem_slots_iff.mp present
      exact inTree.child shown

/-- The range of a slot. An absent slot has an empty one where the slots before it end. -/
def Node.slotRange (node : Node) (index : Nat) : TextRange :=
  match node.slot? index with
  | some (.node below) => below.range
  | some (.token token) => token.range
  | some .absent | none => .spanning (node.offset + node.green.slotOffset index) 0

def Node.slotRanges (node : Node) : List TextRange :=
  (List.range node.slotCount).map node.slotRange

theorem Node.slotRange_eq {node : Node} {index : Nat} {slot : Green.Slot}
    (present : node.green.slots[index]? = some slot) :
    node.slotRange index = .spanning (node.offset + node.green.slotOffset index) slot.width := by
  rw [slotRange, slot?, Green.Node.slot?, present]
  cases slot <;> rfl

/-- The slots of a node, the absent ones included, cover the range of their node. -/
theorem Node.InTree.tile_slotRanges {node : Node} (history : Green.History workspace made)
    (rootMade : .node root ∈ made) (inTree : Node.InTree root node) :
    Tile node.offset (node.offset + node.width) node.slotRanges := by
  have upTo (count : Nat) (inRange : count ≤ node.slotCount) :
      Tile node.offset (node.offset + node.green.slotOffset count)
        ((List.range count).map node.slotRange) := by
    induction count with
    | zero => rfl
    | succ count inductionHypothesis =>
        have present := List.getElem?_eq_getElem (show count < node.green.slots.length from inRange)
        rw [List.range_succ, List.map_append]
        refine (inductionHypothesis (Nat.le_of_succ_le inRange)).append ?_
        rw [List.map_singleton, slotRange_eq present, TextRange.tile_spanning_cons]
        rw [Green.Node.slotOffset, Green.Node.slotOffset, List.take_add_one, present,
          Green.Slot.totalWidth_append, Nat.add_assoc]
        rfl
  have width_eq : node.width = node.green.slotOffset node.slotCount := by
    rw [Green.Node.slotOffset, slotCount, List.take_length]
    exact history.width_eq_totalWidth (inTree.green_mem history rootMade)
  rw [width_eq]
  exact upTo node.slotCount (Nat.le_refl _)

theorem slice?_of_append {whole before middle after : String}
    (split : whole = before ++ middle ++ after) :
    Text.slice? whole before.utf8ByteSize (before.utf8ByteSize + middle.utf8ByteSize) =
      some middle := by
  rw [split, String.append_assoc, Text.slice?, Text.splitAt?_append]
  simp [Text.splitAt?_append]

theorem Node.InTree.slice?_eq {node : Node} (history : Green.History workspace made)
    (rootMade : .node root ∈ made) (inTree : Node.InTree root node) :
    Text.slice? root.text node.offset (node.offset + node.width) = some node.text := by
  rw [inTree.offset_eq_size history rootMade, inTree.width_eq_size history rootMade]
  exact slice?_of_append inTree.text_eq

theorem Token.InTree.slice?_eq {token : Token} (history : Green.History workspace made)
    (rootMade : .node root ∈ made) (inTree : Token.InTree root token) :
    Text.slice? root.text token.offset (token.offset + token.width) = some token.text := by
  rw [inTree.offset_eq_size history rootMade]
  exact slice?_of_append inTree.text_eq

/-- In a tree with a text that fits, nothing overflows, every handle is at the range of its text,
and the tokens of a walk as well as the slots of a node lie end to end. -/
theorem positions_are_lossless (history : Green.History workspace made)
    (rootMade : .node root ∈ made) (fits : root.text.utf8ByteSize < Narrow.limit) :
    (∀ {node}, Node.InTree root node →
      (node.narrowOffset? = some node.offset ∧ node.green.narrowWidth? = some node.width ∧
        node.narrowRange? = some node.range ∧ ∀ index < node.slotCount,
          node.green.narrowSlotOffset? node.offset index =
            some (node.offset + node.green.slotOffset index)) ∧
      node.width = node.text.utf8ByteSize ∧
      Text.slice? root.text node.offset (node.offset + node.width) = some node.text ∧
      String.join (node.tokens.map (·.text)) = node.text ∧
      Tile node.offset (node.offset + node.width) (node.tokens.map (·.range)) ∧
      Tile node.offset (node.offset + node.width) node.slotRanges) ∧
    ∀ {token}, Token.InTree root token →
      (token.narrowOffset? = some token.offset ∧ Narrow.sizeOf token.text = token.width ∧
        token.narrowRange? = some token.range ∧
        token.narrowTrimmedRange? = some token.trimmedRange) ∧
      token.width = token.text.utf8ByteSize ∧
      Text.slice? root.text token.offset (token.offset + token.width) = some token.text := by
  constructor
  · intro node inTree
    have stop_le := inTree.stop_le history rootMade
    have width_eq : node.green.narrowWidth? = some node.width :=
      history.narrowSlotWidth?_eq (.inr (inTree.green_mem history rootMade))
        (show node.width < Narrow.limit by omega)
    refine ⟨⟨inTree.narrowOffset?_eq history rootMade fits, width_eq,
      inTree.narrowRange?_eq history rootMade fits, ?_⟩, inTree.width_eq_size history rootMade,
      inTree.slice?_eq history rootMade, node.join_tokens, inTree.tile_tokens history rootMade,
      inTree.tile_slotRanges history rootMade⟩
    intro index inRange
    exact inTree.narrowSlotOffset?_eq history rootMade fits inRange
  · intro token inTree
    have stop_le := inTree.stop_le history rootMade
    have size_eq : Narrow.sizeOf token.text = token.width :=
      Nat.mod_eq_of_lt (show token.width < Narrow.limit by omega)
    exact ⟨⟨inTree.narrowOffset?_eq history rootMade fits, size_eq,
      inTree.narrowRange?_eq history rootMade fits,
      inTree.narrowTrimmedRange?_eq history rootMade fits⟩, rfl, inTree.slice?_eq history rootMade⟩

open Green.Sample (call history call_mem) in
theorem positions_are_lossless_of_call :
    Text.slice? call.text 2 3 = some "a" ∧ Sample.argumentToken.narrowTrimmedRange? = some ⟨2, 3⟩ ∧
      String.join (Sample.argument.tokens.map (·.text)) = "a" ∧
      Tile 0 4 ((Node.root call).tokens.map (·.range)) ∧
      Tile 2 3 Sample.argument.slotRanges := by
  have fits : call.text.utf8ByteSize < Narrow.limit := by decide
  obtain ⟨nodes, tokens⟩ := positions_are_lossless history call_mem fits
  obtain ⟨_, _, _, _, callTile, _⟩ := nodes Node.InTree.root
  obtain ⟨_, _, _, joined, _, slotTile⟩ := nodes Sample.argument_inTree
  obtain ⟨⟨_, _, _, trimmed⟩, _, found⟩ := tokens Sample.argumentToken_inTree
  exact ⟨found, trimmed, joined, callTile, slotTile⟩

end Red

end SyntaxTree
