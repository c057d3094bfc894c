import SyntaxTree.Proofs.Path
import SyntaxTree.Proofs.Spine

/-!
Trees that differ at one place, told from the root. Grafting goes down a path, puts a slot at its
end, and builds the nodes on the way anew. Main statements: rebuilding upwards from a handle is
grafting at its path; and everything off the path is where it was, moved by as much as the new slot
is wider than the old one if it comes behind the path.
-/

namespace SyntaxTree

namespace Green

namespace Slot

theorem totalWidth_set {slots : List Slot} {index : Nat} {old : Slot}
    (present : slots[index]? = some old) (new : Slot) :
    totalWidth (slots.set index new) + old.width = totalWidth slots + new.width := by
  induction slots generalizing index with
  | nil => cases present
  | cons slot rest inductionHypothesis =>
      cases index with
      | zero =>
          cases present
          simp only [List.set_cons_zero, totalWidth]
          omega
      | succ index =>
          have restEqual := @inductionHypothesis index present
          simp only [List.set_cons_succ, totalWidth]
          omega

theorem totalWidth_take_set {slots : List Slot} {index other : Nat} {old : Slot}
    (present : slots[index]? = some old) (behind : index < other) (new : Slot) :
    totalWidth ((slots.set index new).take other) + old.width =
      totalWidth (slots.take other) + new.width := by
  rw [List.take_set]
  exact totalWidth_set (by rwa [List.getElem?_take_of_lt behind]) new

/-- Puts a slot at the end of a path. The nodes on the path are built anew without remarks, with
consecutive stamps from the innermost outwards. -/
def graft : Slot → Nat → List Nat → Slot → Slot
  | _, _, [], new => new
  | .node node, serial, index :: rest, new =>
    .node (.assemble ⟨serial + rest.length⟩ node.kind
      (node.slots.modify index fun slot => graft slot serial rest new) [])
  | .token token, _, _ :: _, _ => .token token
  | .absent, _, _ :: _, _ => .absent

@[simp]
theorem graft_nil (slot : Slot) (serial : Nat) (new : Slot) : slot.graft serial [] new = new := by
  cases slot <;> rfl

theorem graft_cons {node : Node} {index : Nat} {next : Slot}
    (present : node.slots[index]? = some next) (serial : Nat) (rest : List Nat) (new : Slot) :
    Slot.graft (.node node) serial (index :: rest) new =
      .node (.assemble ⟨serial + rest.length⟩ node.kind
        (node.slots.set index (next.graft serial rest new)) []) := by
  simp [graft, List.modify_eq_set_getElem?, present]

theorem exists_graft_node (node : Node) (serial : Nat) {path : List Nat} (new : Slot)
    (further : path ≠ []) :
    ∃ rebuilt, Slot.graft (.node node) serial path new = .node rebuilt ∧
      rebuilt.kind = node.kind ∧ rebuilt.slots.length = node.slots.length := by
  obtain ⟨index, rest, rfl⟩ := List.exists_cons_of_ne_nil further
  exact ⟨_, rfl, rfl, List.length_modify _ _ _⟩

theorem spot?_assemble_cons (stamp : Stamp) (kind : NodeKind) (slots : List Slot)
    (remarks : List Remark) (start index : Nat) (rest : List Nat) :
    Slot.spot? (.node (.assemble stamp kind slots remarks)) start (index :: rest) =
      (slots[index]?).bind fun next =>
        Slot.spot? next (start + totalWidth (slots.take index)) rest := rfl

variable {slot new : Slot} {serial start : Nat}

/-- Grafting along a path is grafting along its front what comes of the rest. -/
theorem graft_append {front : List Nat} {spot : Spot} (found : slot.spot? start front = some spot)
    (serial : Nat) (back : List Nat) (new : Slot) :
    slot.graft serial (front ++ back) new =
      slot.graft (serial + back.length) front (spot.content.graft serial back new) := by
  induction front generalizing slot start with
  | nil =>
      rw [spot?_nil, Option.some.injEq] at found
      subst found
      simp
  | cons index rest inductionHypothesis =>
      obtain ⟨node, next, rfl, present, below⟩ := spot?_cons_eq_some_iff.mp found
      have height : serial + (rest ++ back).length = serial + back.length + rest.length := by
        rw [List.length_append]
        omega
      rw [List.cons_append, graft_cons present, graft_cons present, inductionHypothesis below,
        height]

theorem spot?_graft_self {path : List Nat} {old : Spot} (found : slot.spot? start path = some old)
    (serial : Nat) (new : Slot) :
    (slot.graft serial path new).spot? start path = some ⟨new, old.start⟩ := by
  induction path generalizing slot start with
  | nil =>
      rw [spot?_nil, Option.some.injEq] at found
      subst found
      simp
  | cons index rest inductionHypothesis =>
      obtain ⟨node, next, rfl, present, below⟩ := spot?_cons_eq_some_iff.mp found
      obtain ⟨inRange, _⟩ := List.getElem?_eq_some_iff.mp present
      rw [graft_cons present, spot?_assemble_cons, List.getElem?_set_self inRange,
        List.take_set_of_le (Nat.le_refl _)]
      exact inductionHypothesis below

/-- On the path to a graft stand the nodes into which what is left of the path is grafted. -/
theorem spot?_graft_append {front : List Nat} {spot : Spot}
    (found : slot.spot? start front = some spot) (serial : Nat) (back : List Nat) (new : Slot) :
    (slot.graft serial (front ++ back) new).spot? start front =
      some ⟨spot.content.graft serial back new, spot.start⟩ := by
  rw [graft_append found]
  exact spot?_graft_self found _ _

end Slot

variable {workspace : Workspace} {made : List Slot}

namespace History

variable {slot new : Slot} {start : Nat} {path : List Nat} {old : Spot}

theorem width_graft (history : History workspace made) (available : Available made slot)
    (found : slot.spot? start path = some old) (serial : Nat) (new : Slot) :
    (slot.graft serial path new).width + old.content.width = slot.width + new.width := by
  induction path generalizing slot start with
  | nil =>
      rw [Slot.spot?_nil, Option.some.injEq] at found
      subst found
      rw [Slot.graft_nil]
      exact Nat.add_comm _ _
  | cons index rest inductionHypothesis =>
      obtain ⟨node, next, rfl, present, below⟩ := Slot.spot?_cons_eq_some_iff.mp found
      have nodeMade : .node node ∈ made := available.resolve_left (by simp)
      have nextAvailable :=
        history.slots_available nodeMade next (List.mem_of_getElem? present)
      have nextWidth := inductionHypothesis nextAvailable below
      have total := Slot.totalWidth_set present (next.graft serial rest new)
      have nodeWidth := history.width_eq_totalWidth nodeMade
      rw [Slot.graft_cons present]
      change Slot.totalWidth (node.slots.set index (next.graft serial rest new)) +
        old.content.width = node.width + new.width
      omega

/-- Whatever is neither on the path to a graft nor below its end stays, and moves if it comes
behind. -/
theorem spot?_graft (history : History workspace made) (available : Available made slot)
    (found : slot.spot? start path = some old) (serial : Nat) (new : Slot) {other : List Nat}
    {spot : Spot} (elsewhere : slot.spot? start other = some spot) (notAbove : ¬ other <+: path)
    (notBelow : ¬ path <+: other) :
    ∃ moved, (slot.graft serial path new).spot? start other = some moved ∧
      moved.content = spot.content ∧
      (other < path ∧ moved.start = spot.start ∨
        path < other ∧ moved.start + old.content.width = spot.start + new.width) := by
  induction path generalizing slot start other with
  | nil => exact absurd List.nil_prefix notBelow
  | cons index rest inductionHypothesis =>
      cases other with
      | nil => exact absurd List.nil_prefix notAbove
      | cons otherIndex otherRest =>
          obtain ⟨node, next, rfl, present, below⟩ := Slot.spot?_cons_eq_some_iff.mp found
          obtain ⟨_, otherNext, same, otherPresent, otherBelow⟩ :=
            Slot.spot?_cons_eq_some_iff.mp elsewhere
          cases same
          have nodeMade : .node node ∈ made := available.resolve_left (by simp)
          have nextAvailable :=
            history.slots_available nodeMade next (List.mem_of_getElem? present)
          rw [Slot.graft_cons present]
          by_cases sameIndex : otherIndex = index
          · subst sameIndex
            obtain rfl := Option.some.inj (otherPresent.symm.trans present)
            rw [List.cons_prefix_cons, not_and] at notAbove notBelow
            obtain ⟨moved, movedFound, content_eq, place⟩ :=
              inductionHypothesis nextAvailable below otherBelow (notAbove rfl) (notBelow rfl)
            refine ⟨moved, ?_, content_eq, ?_⟩
            · obtain ⟨inRange, _⟩ := List.getElem?_eq_some_iff.mp present
              rw [Slot.spot?_assemble_cons, List.getElem?_set_self inRange,
                List.take_set_of_le (Nat.le_refl _)]
              exact movedFound
            · simpa [List.cons_lt_cons_iff] using place
          · have kept : (node.slots.set index (next.graft serial rest new))[otherIndex]? =
                some otherNext := by
              rw [List.getElem?_set_ne (Ne.symm sameIndex), otherPresent]
            rw [Slot.spot?_assemble_cons, kept]
            rcases Nat.lt_or_gt_of_ne sameIndex with before | behind
            · rw [List.take_set_of_le (Nat.le_of_lt before)]
              exact ⟨spot, otherBelow, rfl, .inl ⟨List.cons_lt_cons_iff.mpr (.inl before), rfl⟩⟩
            · have wider := Slot.totalWidth_take_set present behind (next.graft serial rest new)
              have nextWidth := history.width_graft nextAvailable below serial new
              obtain ⟨moved, movedFound, content_eq, start_eq⟩ := Slot.spot?_of_start otherBelow
                (start + Slot.totalWidth
                  ((node.slots.set index (next.graft serial rest new)).take otherIndex))
              refine ⟨moved, movedFound, content_eq,
                .inr ⟨List.cons_lt_cons_iff.mpr (.inl behind), ?_⟩⟩
              change moved.start + (start + Slot.totalWidth (node.slots.take otherIndex)) = _
                at start_eq
              omega

end History

end Green

namespace Red.Node

variable {root : Green.Node} {node : Node}

/-- Rebuilding the ancestors of a handle is grafting at its path. -/
theorem InTree.regrown_eq_graft (inTree : InTree root node) (serial : Nat) (green : Green.Node) :
    .node (node.regrown serial green).treeRoot.green =
      Green.Slot.graft (.node root) serial node.path.reverse (.node green) := by
  induction node generalizing serial green with
  | root old => rfl
  | child old offset slot parent inductionHypothesis =>
      obtain ⟨parentInTree, present, _⟩ := child_iff.mp inTree
      rw [path, List.reverse_cons, Green.Slot.graft_append parentInTree.spot?_path,
        Green.Slot.graft_cons present, Green.Slot.graft_nil]
      exact inductionHypothesis parentInTree (serial + 1) _

theorem InTree.withSlots_eq_graft (inTree : InTree root node) (serial : Nat)
    (slots : List Green.Slot) :
    .node (node.withSlots serial slots).treeRoot.green =
      Green.Slot.graft (.node root) (serial + 1) node.path.reverse
        (.node (.assemble ⟨serial⟩ node.kind slots [])) :=
  inTree.regrown_eq_graft (serial + 1) _

/-- Building a node anew with another slot is grafting that slot. -/
theorem InTree.withSlots_set_eq_graft (inTree : InTree root node) {index : Nat} {old : Green.Slot}
    (present : node.green.slots[index]? = some old) (serial : Nat) (value : Green.Slot) :
    .node (node.withSlots serial (node.green.slots.set index value)).treeRoot.green =
      Green.Slot.graft (.node root) serial (node.path.reverse ++ [index]) value := by
  rw [inTree.withSlots_eq_graft, Green.Slot.graft_append inTree.spot?_path,
    Green.Slot.graft_cons present, Green.Slot.graft_nil]
  rfl

end Red.Node

end SyntaxTree
