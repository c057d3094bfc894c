import SyntaxTree.Proofs.Leaves
import SyntaxTree.Proofs.Navigation

/-!
The outermost tokens of a tree. The search for one goes into the slots from one side, and on to the
next slot where it finds none. Main statement: what it finds is the first or the last token of a
walk, and it finds nothing just when no path from the node leads to a token.
-/

namespace SyntaxTree.Red

theorem findSome?_congr {Item Value : Type} {items : List Item} {first second : Item → Option Value}
    (same : ∀ item ∈ items, first item = second item) :
    items.findSome? first = items.findSome? second := by
  have mapped := congrArg (List.findSome? id) (List.map_congr_left same)
  rwa [List.findSome?_map, List.findSome?_map] at mapped

/-- From whichever side the slots are searched for a token, the one found is at that end of the
tokens of a walk. -/
theorem Node.outermost_eq {find : Node → Option Token} {endOf : List Token → Option Token}
    {arrange : List Slot → List Slot}
    (arranged : ∀ {slots slot}, slot ∈ arrange slots → slot ∈ slots)
    (find_eq : ∀ node, find node = (arrange node.slots).findSome? (Slot.outermost? find))
    (endOf_nil : endOf [] = none) (endOf_singleton : ∀ token, endOf [token] = some token)
    (endOf_flatMap : ∀ slots : List Slot, endOf (slots.flatMap Slot.tokens) =
      (arrange slots).findSome? fun slot => endOf slot.tokens) (node : Node) :
    find node = endOf node.tokens := by
  induction node using below_induction with
  | step node inductionHypothesis =>
      rw [find_eq, tokens_eq, endOf_flatMap]
      refine findSome?_congr fun slot searched => ?_
      cases slot with
      | node below => exact inductionHypothesis (arranged searched)
      | token token => exact (endOf_singleton token).symm
      | absent => exact endOf_nil.symm

theorem Node.firstToken?_eq_head? (node : Node) : node.firstToken? = node.tokens.head? :=
  outermost_eq id firstToken?_eq rfl (fun _ => rfl) (fun _ => List.head?_flatMap) node

theorem Node.lastToken?_eq_getLast? (node : Node) : node.lastToken? = node.tokens.getLast? :=
  outermost_eq List.mem_reverse.mp lastToken?_eq rfl (fun _ => rfl)
    (fun _ => List.getLast?_flatMap) node

/-- A path to a token goes on below a child node, or ends in a slot that holds a token. -/
theorem Node.spot?_cons_token_iff {node : Node} {index : Nat} {rest : List Nat}
    {green : Green.Token} {start : Nat} :
    node.spot? (index :: rest) = some ⟨.token green, start⟩ ↔
      (∃ below, node.slot? index = some (.node below) ∧
        below.spot? rest = some ⟨.token green, start⟩) ∨
      ∃ token, node.slot? index = some (.token token) ∧ rest = [] ∧
        token.green = green ∧ token.offset = start := by
  rw [spot?]
  cases node.slot? index with
  | none => simp
  | some slot => cases slot <;> simp

/-- The tokens of a walk are what the paths from a node to tokens lead to. -/
theorem Node.exists_spot?_token_iff {node : Node} {green : Green.Token} {start : Nat} :
    (∃ path, node.spot? path = some ⟨.token green, start⟩) ↔
      ∃ token ∈ node.tokens, token.green = green ∧ token.offset = start := by
  induction node using below_induction with
  | step node inductionHypothesis =>
      constructor
      · rintro ⟨path, found⟩
        cases path with
        | nil => cases found
        | cons index rest =>
            rcases spot?_cons_token_iff.mp found with
              ⟨below, shown, foundBelow⟩ | ⟨token, shown, -, same⟩
            · have present := mem_slots_iff.mpr ⟨index, shown⟩
              obtain ⟨token, inBelow, same⟩ := (inductionHypothesis present).mp ⟨rest, foundBelow⟩
              exact ⟨token, mem_tokens_iff.mpr ⟨_, present, inBelow⟩, same⟩
            · have present := mem_slots_iff.mpr ⟨index, shown⟩
              exact ⟨token, mem_tokens_iff.mpr ⟨_, present, List.mem_singleton_self token⟩, same⟩
      · rintro ⟨token, inNode, same⟩
        obtain ⟨slot, present, inSlot⟩ := mem_tokens_iff.mp inNode
        obtain ⟨index, shown⟩ := mem_slots_iff.mp present
        cases slot with
        | node below =>
            obtain ⟨rest, found⟩ := (inductionHypothesis present).mpr ⟨token, inSlot, same⟩
            exact ⟨index :: rest, spot?_cons_token_iff.mpr (.inl ⟨below, shown, found⟩)⟩
        | token other =>
            obtain rfl := List.mem_singleton.mp inSlot
            exact ⟨[index], spot?_cons_token_iff.mpr (.inr ⟨token, shown, rfl, same⟩)⟩
        | absent => cases inSlot

theorem Node.tokens_eq_nil_iff {node : Node} :
    node.tokens = [] ↔ ∀ path green start, node.spot? path ≠ some ⟨.token green, start⟩ := by
  rw [List.eq_nil_iff_forall_not_mem]
  constructor
  · intro none path green start found
    obtain ⟨token, present, -⟩ := exists_spot?_token_iff.mp ⟨path, found⟩
    exact none token present
  · intro none token present
    obtain ⟨path, found⟩ := exists_spot?_token_iff.mpr ⟨token, present, rfl, rfl⟩
    exact none path _ _ found

/-- The token that a search from one side finds is the first or the last one that a walk shows, of
whatever width. None is found just when no path from the node leads to a token. -/
theorem outermost_tokens_are_walked (node : Node) :
    node.firstToken? = ((Walk.start true node).toList.filterMap (·.token?)).head? ∧
    node.lastToken? = ((Walk.start true node).toList.filterMap (·.token?)).getLast? ∧
    (node.firstToken? = none ↔
      ∀ path green start, node.spot? path ≠ some ⟨.token green, start⟩) ∧
    (node.lastToken? = none ↔
      ∀ path green start, node.spot? path ≠ some ⟨.token green, start⟩) := by
  have first := node.firstToken?_eq_head?
  have last := node.lastToken?_eq_getLast?
  refine ⟨first, last, ?_, ?_⟩
  · rw [first, List.head?_eq_none_iff, Node.tokens_eq_nil_iff]
  · rw [last, List.getLast?_eq_none_iff, Node.tokens_eq_nil_iff]

/-- A list of empty lists holds no token. -/
example : (Node.root (.assemble ⟨1⟩ .list [.node (.assemble ⟨0⟩ .list [] [])] [])).lastToken? =
    none := rfl

end SyntaxTree.Red
