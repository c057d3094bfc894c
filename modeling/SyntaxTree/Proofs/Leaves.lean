import Mathlib.Data.List.Nodup
import SyntaxTree.Proofs.Positions

/-!
The tokens below a node, as handles. Main statements: no token is below two slots of a node, so that
no handle comes twice; and the tokens of a tree are those before a node, its own, and those behind
it.
-/

namespace SyntaxTree.Red

theorem Node.mem_tokens_iff {node : Node} {token : Token} :
    token ∈ node.tokens ↔ ∃ slot ∈ node.slots, token ∈ slot.tokens := by
  rw [tokens_eq, List.mem_flatMap]

/-- The slot indexes above a token begin with those above the node it is below. -/
theorem Node.path_suffix_of_mem_tokens {node : Node} {token : Token}
    (present : token ∈ node.tokens) : node.path <:+ token.path := by
  induction node using below_induction with
  | step node inductionHypothesis =>
      obtain ⟨slot, slotPresent, below⟩ := mem_tokens_iff.mp present
      obtain ⟨index, shown⟩ := mem_slots_iff.mp slotPresent
      cases slot with
      | node child =>
          obtain ⟨_, _, rfl⟩ := slot?_eq_node_iff.mp shown
          exact (List.suffix_cons index node.path).trans (inductionHypothesis slotPresent below)
      | token other =>
          obtain rfl := List.mem_singleton.mp below
          obtain ⟨_, _, rfl⟩ := slot?_eq_token_iff.mp shown
          exact List.suffix_cons index node.path
      | absent => cases below

/-- A token below a slot has the index of the slot above it. -/
theorem Slot.path_suffix_of_mem_tokens {node : Node} {index : Nat} {slot : Slot} {token : Token}
    (shown : node.slot? index = some slot) (below : token ∈ slot.tokens) :
    index :: node.path <:+ token.path := by
  cases slot with
  | node child =>
      obtain ⟨_, _, rfl⟩ := Node.slot?_eq_node_iff.mp shown
      exact Node.path_suffix_of_mem_tokens below
  | token other =>
      obtain rfl := List.mem_singleton.mp below
      obtain ⟨_, _, rfl⟩ := Node.slot?_eq_token_iff.mp shown
      exact List.suffix_rfl
  | absent => cases below

theorem Slot.index_eq_of_mem_tokens {node : Node} {first second : Nat}
    {firstSlot secondSlot : Slot} {token : Token} (firstShown : node.slot? first = some firstSlot)
    (secondShown : node.slot? second = some secondSlot) (inFirst : token ∈ firstSlot.tokens)
    (inSecond : token ∈ secondSlot.tokens) : first = second := by
  have same : first :: node.path = second :: node.path :=
    (List.suffix_of_suffix_length_le (path_suffix_of_mem_tokens firstShown inFirst)
      (path_suffix_of_mem_tokens secondShown inSecond) (Nat.le_refl _)).eq_of_length rfl
  exact (List.cons.inj same).1

/-- No token comes twice. -/
theorem Node.tokens_nodup (node : Node) : node.tokens.Nodup := by
  induction node using below_induction with
  | step node inductionHypothesis =>
      rw [tokens_eq, List.nodup_flatMap]
      constructor
      · intro slot present
        cases slot with
        | node child => exact inductionHypothesis present
        | token token => exact List.nodup_singleton token
        | absent => exact List.nodup_nil
      · rw [List.pairwise_iff_getElem]
        intro first second firstIn secondIn before token inFirst inSecond
        have firstShown := node.slots_getElem? first ▸ List.getElem?_eq_getElem firstIn
        have secondShown := node.slots_getElem? second ▸ List.getElem?_eq_getElem secondIn
        exact absurd (Slot.index_eq_of_mem_tokens firstShown secondShown inFirst inSecond)
          (Nat.ne_of_lt before)

/-- The tokens of a node, seen from one of its slots. -/
theorem Node.tokens_split {node : Node} {index : Nat} {slot : Slot}
    (shown : node.slot? index = some slot) :
    node.tokens = (node.slots.take index).flatMap Slot.tokens ++ slot.tokens ++
      (node.slots.drop (index + 1)).flatMap Slot.tokens := by
  rw [tokens_eq, List.append_assoc, ← List.flatMap_cons, ← List.flatMap_append,
    ← slots_split shown]

variable {root : Green.Node} {node : Node}

theorem Node.InTree.of_mem_tokens {token : Token} (inTree : Node.InTree root node)
    (present : token ∈ node.tokens) : Token.InTree root token := by
  induction node using below_induction with
  | step node inductionHypothesis =>
      obtain ⟨slot, slotPresent, below⟩ := mem_tokens_iff.mp present
      obtain ⟨index, shown⟩ := mem_slots_iff.mp slotPresent
      cases slot with
      | node child => exact inductionHypothesis slotPresent (inTree.child shown) below
      | token other =>
          obtain rfl := List.mem_singleton.mp below
          exact ⟨node, index, inTree, shown⟩
      | absent => cases below

theorem join_tokens_of_green {slots : List Slot} {greens : List Green.Slot}
    (seen : slots.map Slot.green = greens) :
    String.join ((slots.flatMap Slot.tokens).map (·.text)) = Green.textOfSlots greens := by
  rw [← seen]
  exact join_tokens_of_slots fun _ => Node.join_tokens _

/-- The tokens of a tree, seen from a node. -/
theorem Node.InTree.exists_tokens_split (inTree : Node.InTree root node) :
    ∃ front back, (Node.root root).tokens = front ++ node.tokens ++ back ∧
      String.join (front.map (·.text)) = node.textBefore ∧
      String.join (back.map (·.text)) = node.textAfter := by
  induction node with
  | root green =>
      rw [root_iff.mp inTree]
      exact ⟨[], [], by simp, rfl, rfl⟩
  | child green offset index parent inductionHypothesis =>
      obtain ⟨parentInTree, present, rfl⟩ := child_iff.mp inTree
      obtain ⟨front, back, split, front_eq, back_eq⟩ := inductionHypothesis parentInTree
      have shown := slot?_eq_node_iff.mpr ⟨green, present, rfl⟩
      refine ⟨front ++ (parent.slots.take index).flatMap Slot.tokens,
        (parent.slots.drop (index + 1)).flatMap Slot.tokens ++ back, ?_, ?_, ?_⟩
      · rw [split, Node.tokens_split shown, Slot.tokens]
        simp only [List.append_assoc]
      · rw [List.map_append, String.join_append, front_eq, textBefore,
          join_tokens_of_green (by rw [List.map_take, map_green_slots])]
      · rw [List.map_append, String.join_append, back_eq, textAfter,
          join_tokens_of_green (by rw [List.map_drop, map_green_slots])]

end SyntaxTree.Red
